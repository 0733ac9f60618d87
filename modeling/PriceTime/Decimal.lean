/-!
# Numbers in decimal

Whole numbers are written with the fewest digits. A binary fraction is written with a fixed number
of places after the point: the exact value is rounded to that many places, a tie goes to the even
neighbour, and no exponent is ever used. The sign is the sign of the binary number, so a negative
zero and a negative number that rounds to zero keep theirs.
-/

namespace PriceTime.Decimal

/-- A natural number with the fewest digits. -/
def ofNat (n : Nat) : String :=
  String.ofList (Nat.toDigits 10 n)

/-- A whole number with the fewest digits, with a sign if it is negative. -/
def ofInt (z : Int) : String :=
  if z < 0 then "-" ++ ofNat z.natAbs else ofNat z.natAbs

/-- A natural number in at least `width` digits, filled up with zeros from the left. -/
def padded (width n : Nat) : String :=
  String.ofList ((Nat.toDigits 10 n).leftpad width '0')

/-- What the exponent and fraction fields of a binary number mean, sign aside. -/
inductive Magnitude where
  /-- The fields name no number. -/
  | nan
  /-- The number is infinite. -/
  | infinite
  /-- The number is `significand * 2 ^ exponent`. -/
  | finite (significand : Nat) (exponent : Int)
deriving DecidableEq

/-- Whether the sign bit of a 64-bit binary number is set. -/
def isNegative (bits : UInt64) : Bool :=
  bits >>> 63 == 1

/-- Read the exponent and fraction fields of a 64-bit binary number. -/
def Magnitude.ofBits (bits : UInt64) : Magnitude :=
  let exponent := (bits >>> 52 &&& 0x7ff).toNat
  let fraction := (bits &&& 0xfffffffffffff).toNat
  if exponent = 0x7ff then
    if fraction = 0 then infinite else nan
  else if exponent = 0 then finite fraction (-1074)
  else finite (fraction + 0x10000000000000) (exponent - 1075)

/-- The natural number nearest to a quotient, the even one of two that are equally near. -/
def roundDiv (num den : Nat) : Nat :=
  let quotient := num / den
  let twice := 2 * (num % den)
  if twice < den then quotient
  else if den < twice then quotient + 1
  else if quotient % 2 = 0 then quotient
  else quotient + 1

/-- The natural number nearest to `significand * 2 ^ exponent * 10 ^ places`, ties to even. -/
def scaled (places significand : Nat) (exponent : Int) : Nat :=
  match exponent with
  | .ofNat e => significand * Nat.pow 2 e * Nat.pow 10 places
  | .negSucc e => roundDiv (significand * Nat.pow 10 places) (Nat.pow 2 (e + 1))

/-- A natural number of units of `10 ^ -places`, with the point in its place. -/
def pointed (places units : Nat) : String :=
  if places = 0 then ofNat units
  else ofNat (units / Nat.pow 10 places) ++ "." ++ padded places (units % Nat.pow 10 places)

/-- A 64-bit binary number with `places` places after the point. -/
def fixedBits (places : Nat) (bits : UInt64) : String :=
  let sign := if isNegative bits then "-" else ""
  match Magnitude.ofBits bits with
  | .nan => "NaN"
  | .infinite => sign ++ "inf"
  | .finite significand exponent => sign ++ pointed places (scaled places significand exponent)

/-- A floating-point number with `places` places after the point. -/
def fixed (places : Nat) (x : Float) : String :=
  fixedBits places x.toBits

/-- Rounding errs by at most half a unit. -/
theorem roundDiv_near (num den : Nat) (h : 0 < den) :
    2 * num ≤ 2 * den * roundDiv num den + den ∧ 2 * den * roundDiv num den ≤ 2 * num + den := by
  have hmod := Nat.mod_lt num h
  have hsplit := Nat.div_add_mod num den
  have e : 2 * den * (num / den) = 2 * (den * (num / den)) := by rw [Nat.mul_assoc]
  have e' : 2 * den * (num / den + 1) = 2 * (den * (num / den)) + 2 * den := by
    rw [Nat.mul_add, e, Nat.mul_one]
  unfold roundDiv
  simp only
  split
  · omega
  · split
    · omega
    · split <;> omega

end PriceTime.Decimal
