import ModalGraph.Text.Quoted

/-!
# Endpoints of collectors

Spans may be sent to a collector, which is known by its endpoint: a name after one of the known schemes and a colon, or else a path
of the scheme `dns`. In a path and in a fragment a percent sign and two digits stand for a byte, and control characters cannot
stand before a fragment. An endpoint that keeps to this is not contacted before there are spans.
-/

namespace ModalGraph.CommandLine

/-- What can be wrong with an endpoint, of which `reference` is the full form. -/
inductive EndpointFault where
  | control (reference : String)
  | escape (reference : String) (bytes : Bytes)
deriving DecidableEq, Repr

/-- The wording of a fault. -/
def EndpointFault.message : EndpointFault → String
  | .control reference => s!"parse {Text.quoteString reference}: net/url: invalid control character in URL"
  | .escape reference bytes => s!"parse {Text.quoteString reference}: invalid URL escape {Text.quote bytes}"

namespace Endpoint

def isHexByte (b : UInt8) : Bool :=
  let n := b.toNat
  (0x30 ≤ n && n ≤ 0x39) || (0x41 ≤ n && n ≤ 0x46) || (0x61 ≤ n && n ≤ 0x66)

/-- The first percent sign that is not followed by two digits, with the two bytes after it. -/
def badEscape? : Bytes → Option Bytes
  | [] => none
  | b :: rest =>
    if b.toNat == 0x25 && !(2 ≤ rest.length && (rest.take 2).all isHexByte) then some (b :: rest.take 2) else badEscape? rest

def isControl (c : Char) : Bool :=
  c.toNat < 0x20 || c.toNat == 0x7F

/-- The schemes that say by themselves where a collector is. -/
def knownSchemes : List String := ["dns", "passthrough", "unix", "unix-abstract"]

/-- Whether a text begins with a known scheme, with something other than a path after it. -/
def isNameOfScheme (cs : List Char) : Bool :=
  let scheme := String.ofList ((cs.takeWhile (· != ':')).map Char.toLower)
  match cs.dropWhile (· != ':') with
  | _ :: rest => knownSchemes.contains scheme && rest.head? != some '/'
  | [] => false

/-- Whether an endpoint can be used. -/
def check (endpoint : String) : Except EndpointFault Unit :=
  let full := "dns:///" ++ endpoint
  let cs := endpoint.toList
  let front := cs.takeWhile (· != '#')
  let reference := String.ofList ("dns:///".toList ++ front)
  let path := if isNameOfScheme front then [] else front.takeWhile (· != '?')
  if front.any isControl then .error (.control reference)
  else
    match badEscape? (Bytes.ofString (String.ofList path)),
        badEscape? (Bytes.ofString (String.ofList ((cs.dropWhile (· != '#')).drop 1))) with
    | some bad, _ => .error (.escape reference bad)
    | none, some bad => .error (.escape full bad)
    | none, none => .ok ()

end Endpoint

end ModalGraph.CommandLine
