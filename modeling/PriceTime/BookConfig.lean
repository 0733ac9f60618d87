/-!
# Book settings

How much room a book starts with, how deep its figures reach, and how far back its histories go.
-/

namespace PriceTime

/-- The settings of a book. -/
structure BookConfig where
  /-- How many orders to make room for. -/
  orderCapacity : UInt64 := 1000000
  /-- How many levels to make room for. -/
  levelCapacity : UInt64 := 2000
  /-- How many levels of a side count as near the top. -/
  volumeDepth : UInt64 := 80
  /-- How many values a history keeps; zero for all. -/
  historyCapacity : UInt64 := 40000
  /-- How many levels of a side a snapshot copies. -/
  snapshotDepth : UInt64 := 20
deriving DecidableEq

/-- Why there is no room for a book. -/
inductive RoomError where
  /-- A block of memory cannot be that large. -/
  | tooLarge
  /-- There is not that much memory. -/
  | exhausted
deriving DecidableEq

/-- The words for an error. -/
def RoomError.message : RoomError → String
  | tooLarge => "capacity overflow"
  | exhausted => "memory allocation failed"

namespace BookConfig

/-- The largest block of memory that can be asked for, in bytes. -/
def maxBlock : Nat := 9223372036854775807

/-- The memory of the machine, in bytes. No block larger than all of it is granted. -/
def memory : Nat := 34359738368

/-- The blocks of memory a book starts with, in bytes: for orders, for levels, and for two histories
with a double word and with a word for each value. -/
def blocks (c : BookConfig) : List Nat :=
  [80 * c.orderCapacity.toNat, 56 * c.levelCapacity.toNat, 8 * c.historyCapacity.toNat,
    4 * c.historyCapacity.toNat]

/-- Ask for a block of memory. -/
def askFor (bytes : Nat) : Except RoomError Unit :=
  if maxBlock < bytes then .error .tooLarge
  else if memory < bytes then .error .exhausted
  else .ok ()

/-- Make room for a book: the first block that cannot be had is reported. -/
def makeRoom (c : BookConfig) : Except RoomError Unit :=
  c.blocks.forM askFor

end BookConfig

end PriceTime
