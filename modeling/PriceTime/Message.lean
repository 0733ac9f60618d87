import PriceTime.Side

/-!
# Feed messages

A feed describes the life of orders by four actions, each with a one-letter code. Prices are signed
whole ticks, sizes are unsigned lots, times are nanoseconds since the epoch.

* `Action.ofCode?_code`: every action is read back from its code.
-/

namespace PriceTime

/-- What a message does to an order. -/
inductive Action where
  | add
  | cancel
  | modify
  | trade
deriving DecidableEq

namespace Action

/-- The letter that stands for the action in a feed. -/
def letter : Action → Char
  | add => 'A'
  | cancel => 'C'
  | modify => 'M'
  | trade => 'T'

/-- The byte that stands for the action in a feed. -/
def code (a : Action) : UInt8 :=
  a.letter.toUInt8

/-- The action with the given letter, if there is one. -/
def ofLetter? : Char → Option Action
  | 'A' => some add
  | 'C' => some cancel
  | 'M' => some modify
  | 'T' => some trade
  | _ => none

/-- The action with the given byte, if there is one. -/
def ofCode? (code : UInt8) : Option Action :=
  ofLetter? (Char.ofUInt8 code)

@[simp] theorem ofLetter?_letter (a : Action) : ofLetter? a.letter = some a := by cases a <;> rfl

@[simp] theorem ofCode?_code (a : Action) : ofCode? a.code = some a := by cases a <;> rfl

end Action

/-- One event of a feed. In a trade the side is the aggressor's. -/
structure Message where
  action : Action
  id : UInt64
  price : Int32
  size : UInt32
  side : Side
  time : UInt64
deriving DecidableEq

end PriceTime
