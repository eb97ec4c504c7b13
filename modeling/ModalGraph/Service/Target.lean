import ModalGraph.Service.Host

/-!
# Request targets

The target of a request says what it asks for: a path with an optional query, or a whole address, of which only the path and the
query count, or a star for the server as a whole. In a path a percent sign and two digits stand for a byte. A path is kept twice,
with these escapes resolved and as it is written; the two differ, because an escaped slash does not divide a path.
-/

namespace ModalGraph

/-- The target of a request. -/
structure Target where
  /-- The path with escapes resolved. -/
  path : String
  /-- The path as it is written, everything escaped that has to be. -/
  written : String
  /-- What follows the first question mark. -/
  query : String
  /-- Whether the target is the server as a whole. -/
  isServer : Bool := false
deriving DecidableEq, Repr, Inhabited

namespace Target

/-! ## Escapes -/

/-- The value of a hexadecimal digit. -/
def hexDigit? (c : Char) : Option Nat :=
  if '0' ≤ c && c ≤ '9' then some (c.toNat - '0'.toNat)
  else if 'a' ≤ c && c ≤ 'f' then some (c.toNat - 'a'.toNat + 10)
  else if 'A' ≤ c && c ≤ 'F' then some (c.toNat - 'A'.toNat + 10)
  else none

/-- The bytes of a text with its escapes resolved; none if a percent sign is not followed by two digits. -/
def unescape? : List Char → Option Bytes
  | [] => some []
  | '%' :: a :: b :: rest => do
    let byte := (← hexDigit? a) * 16 + (← hexDigit? b)
    let more ← unescape? rest
    return byte.toUInt8 :: more
  | '%' :: _ => none
  | c :: rest => (unescape? rest).map (Bytes.ofChar c ++ ·)

def isAlphanumeric (c : Char) : Bool :=
  ('a' ≤ c && c ≤ 'z') || ('A' ≤ c && c ≤ 'Z') || ('0' ≤ c && c ≤ '9')

/-- A character that stands for itself when a path is written anew. -/
def isPlain (c : Char) : Bool :=
  isAlphanumeric c || "-_.~$&+,/:;=@".toList.contains c

/-- A character that is left alone in a path as it came. -/
def isAllowed (c : Char) : Bool :=
  isPlain c || "!'()*[]%".toList.contains c

/-- The escape of a byte. -/
def escapeByte (b : UInt8) : List Char :=
  let digit := fun n => (Nat.digitChar n).toUpper
  ['%', digit (b.toNat / 16), digit (b.toNat % 16)]

/-- Bytes as a path, all escaped that does not stand for itself. -/
def escape (bs : Bytes) : String :=
  String.ofList (bs.flatMap fun b =>
    let c := Char.ofNat b.toNat
    if b.toNat < 0x80 && isPlain c then [c] else escapeByte b)

/-! ## Addresses -/

/-- The scheme at the front of a target, and the rest after its colon; without a scheme, the target itself. A colon must not
come first. -/
def scheme? (cs : List Char) : Option (Bool × List Char) :=
  let isPart := fun c => isAlphanumeric c || c == '+' || c == '-' || c == '.'
  let name := cs.takeWhile isPart
  match cs.dropWhile isPart, name with
  | ':' :: _, [] => none
  | ':' :: rest, c :: _ => if c.isAlpha then some (true, rest) else some (false, cs)
  | _, _ => some (false, cs)

/-- The part of a list after the last occurrence of a character; all of it if there is none. -/
def afterLast (c : Char) (cs : List Char) : List Char :=
  (cs.reverse.takeWhile (· != c)).reverse

/-- A colon and digits, or nothing. -/
def isServiceNumber : List Char → Bool
  | [] => true
  | ':' :: ds => ds.all fun c => '0' ≤ c && c ≤ '9'
  | _ => false

/-- A character that stands for itself in the name of a host. -/
def isHostChar (c : Char) : Bool :=
  isAlphanumeric c || "-_.~!$&'()*+,;=:[]<>\"".toList.contains c

/-- Whether escapes in the name of a host are in place: only bytes beyond ASCII and the percent sign itself are escaped. -/
def hostEscapesOk : List Char → Bool
  | [] => true
  | '%' :: a :: b :: rest =>
    match hexDigit? a, hexDigit? b with
    | some x, some _ => (8 ≤ x || (a == '2' && b == '5')) && hostEscapesOk rest
    | _, _ => false
  | '%' :: _ => false
  | c :: rest => (0x80 ≤ c.toNat || isHostChar c) && hostEscapesOk rest

/-- The part of a list before the first occurrence of an escaped percent sign, and the part from it on. -/
def splitZone : List Char → List Char × List Char
  | [] => ([], [])
  | c :: cs =>
    if (c :: cs).take 3 == ['%', '2', '5'] then ([], c :: cs)
    else
      let (number, zone) := splitZone cs
      (c :: number, zone)

/-- Whether escapes in a zone are in place: the percent sign, the blank, and what could stand there by itself are escaped. -/
def zoneEscapesOk : List Char → Bool
  | [] => true
  | '%' :: a :: b :: rest =>
    match hexDigit? a, hexDigit? b with
    | some x, some y =>
      let n := x * 16 + y
      (n == 0x25 || n == 0x20 || (n < 0x80 && isHostChar (Char.ofNat n))) && zoneEscapesOk rest
    | _, _ => false
  | '%' :: _ => false
  | c :: rest => (0x80 ≤ c.toNat || isHostChar c) && zoneEscapesOk rest

/-- Whether a text that follows an opening bracket is the number of a host, the closing bracket, and perhaps a service. -/
def isBracketed (cs : List Char) : Bool :=
  let service := afterLast ']' cs
  let inner := cs.take (cs.length - service.length - 1)
  let (number, zone) := splitZone inner
  cs.contains ']' && isServiceNumber service && hostEscapesOk number && zoneEscapesOk zone &&
    ((unescape? inner).map fun bs => Host.isGroupNumber bs.toText).getD false

/-- Whether a text names a host. Only the number of a host stands in brackets. -/
def isHost (cs : List Char) : Bool :=
  match cs with
  | '[' :: rest => !rest.contains '[' && isBracketed rest
  | _ => !cs.contains '[' && (!cs.contains ':' || isServiceNumber (':' :: afterLast ':' cs)) && hostEscapesOk cs

/-- Whether a text names a user, as far as an address does. -/
def isUser (cs : List Char) : Bool :=
  (cs.all fun c => isAlphanumeric c || "-._:~!$&'()*+,;=%@".toList.contains c) && (unescape? cs).isSome

/-- Whether a text names a host, perhaps after a user. -/
def isAuthority (cs : List Char) : Bool :=
  if cs.contains '@' then
    let host := afterLast '@' cs
    isHost host && isUser (cs.take (cs.length - host.length - 1))
  else isHost cs

/-! ## Reading -/

/-- The target with a path as it came. -/
def ofPath? (cs : List Char) (query : String) : Option Target :=
  (unescape? cs).map fun bs =>
    { path := bs.toText, written := if cs.all isAllowed then String.ofList cs else escape bs, query := query }

/-- The target of a text without its query: `absolute` says whether a scheme stood before it. -/
def ofReference? (absolute : Bool) (cs : List Char) (query : String) : Option Target :=
  match absolute, cs with
  | true, '/' :: '/' :: rest =>
    if isAuthority (rest.takeWhile (· != '/')) then ofPath? (rest.dropWhile (· != '/')) query else none
  | _, '/' :: _ => ofPath? cs query
  | true, _ => some { path := "", written := "", query := query }
  | false, _ => none

/-- The target of an address or a path. -/
def ofAddress? (cs : List Char) : Option Target := do
  let (absolute, rest) ← scheme? cs
  ofReference? absolute (rest.takeWhile (· != '?')) (String.ofList ((rest.dropWhile (· != '?')).drop 1))

/-- The target that a text spells. A method that only asks for a connection gives a host, or none, unless it gives a path. -/
def parse? (method text : String) : Option Target :=
  let cs := text.toList
  if cs.any fun c => c.toNat ≤ 0x20 || c.toNat == 0x7F then none
  else if method == "CONNECT" && cs.head? != some '/' then
    (ofAddress? ("http:" ++ "//" ++ text).toList).map fun t => { t with isServer := text == "*" }
  else if text == "*" then some { path := "*", written := "*", query := "", isServer := true }
  else ofAddress? cs

/-! ## Clean paths -/

/-- One more segment of a path: an empty one and a point do not count, two points take the last one away. -/
def addSegment (segments : List String) (s : String) : List String :=
  if s.isEmpty || s == "." then segments else if s == ".." then segments.dropLast else segments ++ [s]

/-- A path without empty segments and points; a slash at its end stays. -/
def cleanPath (path : String) : String :=
  let segments := (path.splitOn "/").foldl addSegment []
  if segments.isEmpty then "/"
  else "/" ++ "/".intercalate segments ++ (if path.toList.getLast? == some '/' then "/" else "")

/-- The only segment of a path as it is written, escapes resolved. -/
def segment? (path : String) : Option String :=
  match path.toList with
  | '/' :: rest => if rest.contains '/' then none else (unescape? rest).map Bytes.toText
  | _ => none

end Target

/-- Whether a text is a word of the protocol: a method, or the name of a header. -/
def isWord (s : String) : Bool :=
  !s.isEmpty && s.toList.all fun c => Target.isAlphanumeric c || "!#$%&'*+-.^_`|~".toList.contains c

end ModalGraph
