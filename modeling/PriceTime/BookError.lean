import PriceTime.Decimal
import PriceTime.Side

/-!
# Rejected events and failed audits

A book answers an event it cannot apply with an error and stays as it was. Some errors mean that the
feed or the book can no longer be trusted at all: these are the fatal ones.
-/

namespace PriceTime

/-- Why a book rejects an event or fails an audit. -/
inductive BookError where
  /-- An order with the id of a resting one was added. -/
  | duplicateOrder (id : UInt64)
  /-- An order that is not in the book was cancelled. -/
  | unknownOrder (id : UInt64)
  /-- A resting order was modified under the other side. -/
  | sideMismatch (id : UInt64) (resident requested : Side)
  /-- An audit found the book inconsistent. -/
  | invariantViolation (detail : String)
deriving DecidableEq

namespace BookError

/-- The words for an error. -/
def message : BookError → String
  | duplicateOrder id => "order " ++ Decimal.ofNat id.toNat ++ " is already resting in the book"
  | unknownOrder id => "order " ++ Decimal.ofNat id.toNat ++ " is not in the book"
  | sideMismatch id resident requested =>
    "order " ++ Decimal.ofNat id.toNat ++ " rests on the " ++ resident.label ++
      " side, modify requested " ++ requested.label
  | invariantViolation detail => "book invariant violated: " ++ detail

/-- Whether the error means that the feed or the book can no longer be trusted. -/
def isFatal : BookError → Bool
  | sideMismatch .. | invariantViolation _ => true
  | duplicateOrder _ | unknownOrder _ => false

end BookError

end PriceTime
