/-!
# Arenas

An arena hands out numbered places. A value put into it gets the place freed most recently, or else
the next place never used; a place freed again can be handed out again. So the places in use stay
below the largest number of values ever held at once.

* `Arena.get?_modify`: what a change does to the view `Arena.get?`.
* `Arena.Tidy`: the list of free places names exactly the places not in use.
-/

namespace PriceTime

/-- Numbered places for values, with the list of places free for reuse, the most recent first. -/
structure Arena (α : Type) where
  places : Array (Option α) := #[]
  free : List Nat := []

namespace Arena

variable {α : Type}

/-- An arena with nothing in it. -/
def empty : Arena α := {}

instance : Inhabited (Arena α) := ⟨empty⟩

/-- The value at a place, if the place is in use. -/
def get? (a : Arena α) (key : Nat) : Option α :=
  match a.places[key]? with
  | some (some x) => some x
  | _ => none

/-- How many values the arena holds. -/
def size (a : Arena α) : Nat :=
  a.places.size - a.free.length

/-- Whether the arena holds nothing. -/
def isEmpty (a : Arena α) : Bool :=
  a.size == 0

/-- The place the next value will get. -/
def nextKey (a : Arena α) : Nat :=
  match a.free with
  | key :: _ => key
  | [] => a.places.size

/-- Put a value at the next place. -/
def insert (a : Arena α) (x : α) : Nat × Arena α :=
  match a with
  | ⟨places, key :: free⟩ => (key, ⟨places.setIfInBounds key (some x), free⟩)
  | ⟨places, []⟩ => (places.size, ⟨places.push (some x), []⟩)

/-- Change the value at a place in use. -/
def modify (a : Arena α) (key : Nat) (f : α → α) : Arena α :=
  { a with places := a.places.modify key (Option.map f) }

/-- Replace the value at a place in use. -/
def set (a : Arena α) (key : Nat) (x : α) : Arena α :=
  a.modify key fun _ => x

/-- Free a place in use. -/
def vacate (a : Arena α) (key : Nat) : Arena α :=
  let ⟨places, free⟩ := a
  ⟨places.setIfInBounds key none, key :: free⟩

/-- The places on the free list are distinct, and they are the places not in use. -/
structure Tidy (a : Arena α) : Prop where
  nodup : a.free.Nodup
  mem_free : ∀ key, key ∈ a.free ↔ key < a.places.size ∧ a.get? key = none

@[simp] theorem get?_empty (key : Nat) : (empty : Arena α).get? key = none := by
  simp [get?, empty]

theorem lt_size_of_get? {a : Arena α} {key : Nat} {x : α} (h : a.get? key = some x) :
    key < a.places.size := by
  unfold get? at h
  split at h <;> simp_all [Array.getElem?_eq_some_iff]
  rename_i heq
  exact heq.1

@[simp] theorem fst_insert (a : Arena α) (x : α) : (a.insert x).1 = a.nextKey := by
  obtain ⟨places, _ | ⟨key, free⟩⟩ := a <;> rfl

theorem get?_modify (a : Arena α) (key : Nat) (f : α → α) (k : Nat) :
    (a.modify key f).get? k = if k = key then (a.get? k).map f else a.get? k := by
  unfold modify get?
  by_cases h : k = key
  · subst h
    simp only [Array.getElem?_modify]
    cases hp : a.places[k]? with
    | none => simp
    | some v => cases v <;> simp
  · simp [Array.getElem?_modify, h, Ne.symm h]

theorem get?_set (a : Arena α) (key : Nat) (x : α) (k : Nat) :
    (a.set key x).get? k = if k = key then (a.get? k).map fun _ => x else a.get? k :=
  get?_modify a key _ k

namespace Tidy

theorem empty : (Arena.empty : Arena α).Tidy where
  nodup := by simp [Arena.empty]
  mem_free := by simp [Arena.empty]

theorem lt_of_mem_free {a : Arena α} (h : a.Tidy) {key : Nat} (hk : key ∈ a.free) :
    key < a.places.size := ((h.mem_free key).1 hk).1

end Tidy

end Arena

end PriceTime
