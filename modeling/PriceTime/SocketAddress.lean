import PriceTime.Scanner

/-!
# Socket addresses

The address of a socket is that of a host and the number of a port. A host has four octets, in
decimal with points between them, or eight groups of sixteen bits, in hexadecimal with colons between
them and all within brackets. Two colons stand for a run of zero groups, the last two groups may be
written as four octets, and a scope may follow after a percent sign.
-/

namespace PriceTime

/-- The address of a socket. -/
inductive SocketAddress where
  /-- A host with four octets, and a port. -/
  | v4 (octets : Vector UInt8 4) (port : UInt16)
  /-- A host with eight groups, its scope, and a port. -/
  | v6 (groups : Vector UInt16 8) (scope : UInt32) (port : UInt16)
deriving DecidableEq

namespace SocketAddress

open Scanner

/-- A decimal number below a bound. -/
def below (bound : Nat) : Scanner Nat := do
  let n := numberOf 10 (← someOf Char.isDigit)
  if n < bound then return n else failure

/-- An octet. It has no leading zero, which could be taken for the mark of another base. -/
def octet : Scanner UInt8 := do
  match ← maybe (exactly "0") with
  | some () =>
    match ← peek? with
    | some c => if c.isDigit then failure else return 0
    | none => return 0
  | none => return (← below UInt8.size).toUInt8

/-- Four octets with points between them. -/
def octets : Scanner (Vector UInt8 4) := do
  let a ← octet
  exactly "."
  let b ← octet
  exactly "."
  let c ← octet
  exactly "."
  let d ← octet
  return #v[a, b, c, d]

/-- A group: up to four hexadecimal digits. -/
def group : Scanner UInt16 := do
  let digits ← someOf fun c => (hexValue? c).isSome
  if digits.length ≤ 4 then return (numberOf 16 digits).toUInt16 else failure

/-- The two groups that four octets make. -/
def pairs (octets : Vector UInt8 4) : List UInt16 :=
  let pair (high low : UInt8) := high.toUInt16 * 256 + low.toUInt16
  [pair octets[0] octets[1], pair octets[2] octets[3]]

/-- As many groups with colons between them as there are, but at most `room`; and whether the last
two are written as octets. Nothing follows these. A colon comes before the first group, too, unless
`leads` holds. -/
def groups (leads : Bool) : (room : Nat) → Scanner (List UInt16 × Bool)
  | 0 => return ([], false)
  | room + 1 => do
    let colon : Scanner Unit := if leads then pure () else exactly ":"
    match ← maybe (if room = 0 then failure else do colon; octets) with
    | some last => return (pairs last, true)
    | none =>
      match ← maybe (do colon; group) with
      | none => return ([], false)
      | some first =>
        let (rest, endsInOctets) ← groups false room
        return (first :: rest, endsInOctets)

/-- The eight groups of which the first and the last ones are given. Those between them are zero. -/
def spread (front back : List UInt16) : Vector UInt16 8 :=
  .ofFn fun i =>
    if 8 - back.length ≤ i.val then back.getD (i.val - (8 - back.length)) 0
    else front.getD i.val 0

/-- A host with eight groups. Two colons stand for one group at least, and octets may only come at
the very end. -/
def host : Scanner (Vector UInt16 8) := do
  let (front, endsInOctets) ← groups true 8
  if front.length = 8 then return spread front []
  else if endsInOctets then failure
  else
    exactly "::"
    let (back, _) ← groups true (7 - front.length)
    return spread front back

/-- The port after a host. -/
def port : Scanner UInt16 := do
  exactly ":"
  return (← below UInt16.size).toUInt16

/-- The scope after a host. -/
def scope : Scanner UInt32 := do
  exactly "%"
  return (← below UInt32.size).toUInt32

/-- An address. -/
def address : Scanner SocketAddress :=
  (do return .v4 (← octets) (← port)) <|> do
    exactly "["
    let groups ← host
    let scope := (← maybe scope).getD 0
    exactly "]"
    return .v6 groups scope (← port)

/-- The address that a text is, if it is one. -/
def ofString? (text : String) : Option SocketAddress :=
  StateT.run' (do let a ← address; ending; return a) text.toList

end SocketAddress

end PriceTime
