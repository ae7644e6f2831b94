import EventRelay.Decimal.Reading
import EventRelay.Json.Tree
import EventRelay.Json.Writer

/-!
# Collector addresses

The endpoint of a collector is a web address: `http` or `https`, a host, the number of a service or
none, and the target of the request.  White space around the address is dropped, and so are line
breaks and tabs in it.

A host is a name, an address of four numbers, or an address in square brackets; a name whose last
label is a number has to be an address of numbers.  In the target, segments `.` and `..` are worked
out, and characters that may not stand there are written as percent signs and bytes.
-/

namespace EventRelay

/-- Where a request goes. -/
structure Address where
  /-- Is the connection a secure one? -/
  secure : Bool
  /-- The host, in lower case. -/
  host : String
  /-- The number of the service at the host. -/
  service : Nat
  /-- The path and the query. -/
  target : String
  deriving Repr, DecidableEq

namespace Address

/-! ## Hosts -/

/-- The value of a number in one of the notations of an address: hexadecimal after `0x`, octal
after `0`, or decimal. -/
def hostNumber? (cs : List Char) : Option Nat :=
  match cs with
  | '0' :: 'x' :: ds => ds.foldlM (fun acc c => (Json.hexValue? c).map (acc * 16 + ·)) 0
  | '0' :: d :: ds =>
    if (d :: ds).all fun c => '0' ≤ c ∧ c ≤ '7' then
      some ((d :: ds).foldl (fun acc c => acc * 8 + Decimal.digitValue c) 0)
    else none
  | ds => Decimal.readNat? ds

/-- The labels of a host, without the empty one after a final point. -/
def labels (host : String) : List String :=
  match (host.splitOn ".").reverse with
  | "" :: l :: ls => (l :: ls).reverse
  | ls => ls.reverse

/-- Must the host be an address of numbers? -/
def endsInNumber (host : String) : Bool :=
  match (labels host).getLast? with
  | none => false
  | some l => !l.isEmpty && (l.toList.all Char.isDigit || ("0x".isPrefixOf l && (hostNumber? l.toList).isSome))

/-- Is the host an address of numbers?  The last number fills the bytes that are left. -/
def isNumeric (host : String) : Bool :=
  let ls := labels host
  match ls.mapM fun l => hostNumber? l.toList with
  | none => false
  | some numbers =>
    decide (ls.length ≤ 4) && numbers.dropLast.all (· < 256) &&
      decide (numbers.getLastD 0 < Nat.pow 256 (5 - ls.length))

/-- May the character stand in the name of a host? -/
def isHostChar (c : Char) : Bool :=
  decide (0x20 < c.toNat) && decide (c.toNat ≠ 0x7F) && !("#%/:<>?@[\\]^|".toList.contains c)

/-- Is the text between square brackets an address? -/
def isBracketed (cs : List Char) : Bool :=
  cs.all (fun c => (Json.hexValue? c).isSome || c = ':' || c = '.') && decide (2 ≤ cs.count ':')

/-- Reads a host. -/
def readHost? (cs : List Char) : Option String :=
  let host := String.ofList (cs.map Char.toLower)
  match cs with
  | [] => none
  | '[' :: rest =>
    if rest.getLast? = some ']' ∧ isBracketed rest.dropLast then some host else none
  | _ =>
    if !cs.all isHostChar then none
    else if endsInNumber host ∧ !isNumeric host then none
    else some host

/-- Splits off the number of the service: after the last colon that is not inside brackets. -/
def splitService (cs : List Char) : List Char × List Char :=
  let after := (cs.reverse.takeWhile fun c => c != ':' && c != ']').reverse
  let front := cs.take (cs.length - after.length)
  if front.getLast? = some ':' then (front.dropLast, after) else (cs, [])

/-- Reads the number of a service; without digits it is the usual one. -/
def readService? (usual : Nat) (cs : List Char) : Option Nat :=
  if cs.isEmpty then some usual
  else (Decimal.readNat? cs).bind fun n => if n < 65536 then some n else none

/-! ## Targets -/

/-- A byte as a percent sign and two digits. -/
def percentByte (b : UInt8) : List Char :=
  ['%', (Json.hexChar (b.toNat / 16)).toUpper, (Json.hexChar (b.toNat % 16)).toUpper]

/-- Writes the characters that may not stand in a target as bytes. -/
def percentEncode (refused : List Char) (cs : List Char) : List Char :=
  cs.flatMap fun c =>
    if 0x20 < c.toNat ∧ c.toNat < 0x7F ∧ c ∉ refused then [c]
    else c.toString.toUTF8.toList.flatMap percentByte

/-- What may not stand in a path. -/
def pathRefused : List Char := ['"', '<', '>', Char.ofNat 0x60, '{', '}']

/-- What may not stand in a query. -/
def queryRefused : List Char := ['"', '<', '>', Char.ofNat 0x27]

/-- Works out the segments that stay in place or lead back; `done` is in reverse order.  A path that
ends in such a segment ends in an empty one. -/
def walkSegments : List String → List String → List String
  | done, [] => done.reverse
  | done, s :: rest =>
    let plain := (s.toLower.splitOn "%2e" |> ".".intercalate)
    if plain = ".." then
      if rest.isEmpty then (("" : String) :: done.drop 1).reverse else walkSegments (done.drop 1) rest
    else if plain = "." then
      if rest.isEmpty then ("" :: done).reverse else walkSegments done rest
    else walkSegments (s :: done) rest

/-- The path as requests carry it. -/
def pathText (cs : List Char) : String :=
  let path := String.ofList (percentEncode pathRefused (cs.map fun c => if c = '\\' then '/' else c))
  "/" ++ "/".intercalate (walkSegments [] ((path.splitOn "/").drop 1))

/-- The target as requests carry it: path and query, without the fragment. -/
def targetText (cs : List Char) : String :=
  let cs := cs.takeWhile (· != '#')
  let path := cs.takeWhile (· != '?')
  let query := cs.drop path.length
  pathText path ++ String.ofList (percentEncode queryRefused query)

/-! ## Reading -/

/-- The address without white space around it and without line breaks and tabs. -/
def cleaned (s : String) : List Char :=
  let isEdge (c : Char) : Bool := decide (c.toNat ≤ 0x20)
  let cs := ((s.toList.dropWhile isEdge).reverse.dropWhile isEdge).reverse
  cs.filter fun c => c ≠ '\n' ∧ c ≠ '\r' ∧ c ≠ '\t'

/-- What follows the scheme, and whether the scheme is the secure one. -/
def splitScheme? (cs : List Char) : Option (Bool × List Char) :=
  let scheme := String.ofList ((cs.takeWhile (· != ':')).map Char.toLower)
  let rest := (cs.drop (scheme.length + 1)).dropWhile fun c => c = '/' || c = '\\'
  if scheme = "http" then some (false, rest)
  else if scheme = "https" then some (true, rest)
  else none

/-- Reads an address. -/
def parse? (s : String) : Option Address := do
  let (secure, rest) ← splitScheme? (cleaned s)
  let authority := rest.takeWhile fun c => !("/\\?#".toList.contains c)
  let place := (authority.reverse.takeWhile (· != '@')).reverse
  let (host, service) := splitService place
  let host ← readHost? host
  let service ← readService? (if secure then 443 else 80) service
  return { secure, host, service, target := targetText (rest.drop authority.length) }

/-- Do two addresses lead to the same door? -/
def sameDoor (a b : Address) : Bool :=
  a.secure == b.secure && a.host == b.host && a.service == b.service

end Address

end EventRelay
