import ModalGraph.Service.Host

/-!
# Addresses to listen on

An address is a host and a service with a colon between them; a host that holds colons stands in brackets. A service is known by
its number or by its name. A program can only listen on its own machine.
-/

namespace ModalGraph.CommandLine

/-- What can be wrong with an address. -/
inductive AddressFault where
  | serviceMissing (address : String)
  | tooManyColons (address : String)
  | unclosed (address : String)
  | strayOpening (address : String)
  | strayClosing (address : String)
  | invalidService (service : String)
  | unknownService (service : String)
  | unknownHost (host : String)
  | notHere (host : String) (service : Nat)
deriving DecidableEq, Repr

/-- The wording of a fault. -/
def AddressFault.message : AddressFault → String
  | .serviceMissing a => s!"listen tcp: address {a}: missing port in address"
  | .tooManyColons a => s!"listen tcp: address {a}: too many colons in address"
  | .unclosed a => s!"listen tcp: address {a}: missing ']' in address"
  | .strayOpening a => s!"listen tcp: address {a}: unexpected '[' in address"
  | .strayClosing a => s!"listen tcp: address {a}: unexpected ']' in address"
  | .invalidService p => s!"listen tcp: address {p}: invalid port"
  | .unknownService p => s!"listen tcp: lookup tcp/{p}: unknown port"
  | .unknownHost h => s!"listen tcp: lookup {h}: no such host"
  | .notHere h n => s!"listen tcp {h}:{n}: bind: cannot assign requested address"

/-- A host and a service. -/
structure Address where
  host : String
  service : String
deriving DecidableEq, Repr

namespace Address

/-- The characters before the last colon and those after it. -/
def splitLast (cs : List Char) : Option (List Char × List Char) :=
  if cs.contains ':' then
    let after := (cs.reverse.takeWhile (· != ':')).reverse
    some (cs.take (cs.length - after.length - 1), after)
  else none

/-- The host and the service of an address whose host stands in brackets, from the opening one on. -/
def bracketed (address : String) (cs : List Char) : Except AddressFault Address :=
  let host := (cs.drop 1).takeWhile (· != ']')
  match (cs.drop 1).dropWhile (· != ']') with
  | [] => .error (.unclosed address)
  | _ :: rest =>
    match rest with
    | ':' :: service =>
      if service.contains ':' then .error (.tooManyColons address)
      else if host.contains '[' || service.contains '[' then .error (.strayOpening address)
      else if service.contains ']' then .error (.strayClosing address)
      else .ok ⟨String.ofList host, String.ofList service⟩
    | _ => .error (.serviceMissing address)

/-- The host and the service of an address. -/
def split (address : String) : Except AddressFault Address :=
  let cs := address.toList
  match splitLast cs with
  | none => .error (.serviceMissing address)
  | some (host, service) =>
    if cs.head? == some '[' then bracketed address cs
    else if host.contains ':' then .error (.tooManyColons address)
    else if cs.contains '[' then .error (.strayOpening address)
    else if cs.contains ']' then .error (.strayClosing address)
    else .ok ⟨String.ofList host, String.ofList service⟩

/-- The services that have a name, with their numbers. -/
def services : List (String × Nat) :=
  [("domain", 53), ("ftp", 21), ("ftps", 990), ("gopher", 70), ("http", 80), ("https", 443), ("imap2", 143), ("imap3", 220),
    ("imaps", 993), ("pop3", 110), ("pop3s", 995), ("smtp", 25), ("submissions", 465), ("ssh", 22), ("telnet", 23)]

/-- From here on a number is out of range whatever follows. -/
def farOut : Nat := Nat.pow 2 30

/-- The number that decimal digits continue, counted in words of 32 bits. What follows a number far out of range is not looked at;
before that, a character other than a digit makes it none. -/
def numberFrom? : Nat → List Char → Option Nat
  | n, [] => some n
  | n, c :: cs =>
    if !Numeral.isDigit c then none
    else if farOut ≤ n then some farOut
    else
      let next := n * 10 % Nat.pow 2 32 + Numeral.value 10 [c]
      if Nat.pow 2 32 ≤ next then some farOut else numberFrom? next cs

/-- The number of a service, between 0 and 65535: it is written with an optional sign or by its name. Nothing stands for 0. -/
def serviceNumber (service : String) : Except AddressFault Nat :=
  let (negative, ds) := Numeral.sign service.toList
  match numberFrom? 0 ds with
  | some n => if 65535 < n || (negative && 0 < n) then .error (.invalidService service) else .ok n
  | none =>
    match services.lookup (String.ofList (service.toList.map Char.toLower)) with
    | some n => .ok n
    | none => .error (.unknownService service)

/-- Whether a host can be listened on, as far as is known. No host stands for all numbers of this machine. -/
def checkHost (host : String) (service : Nat) : Except AddressFault Unit :=
  if host.isEmpty then .ok ()
  else if Host.isNumber host then if Host.mayBeHere host then .ok () else .error (.notHere host service)
  else if Host.isName host then .ok ()
  else .error (.unknownHost host)

/-- The address of a text, if it can be listened on. The empty text stands for the web service of every host. -/
def parse (address : String) : Except AddressFault Address := do
  let a ← split (if address.isEmpty then ":http" else address)
  checkHost a.host (← serviceNumber a.service)
  return a

end Address

end ModalGraph.CommandLine
