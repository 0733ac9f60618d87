import PriceTime.Proofs.Arena

/-!
# Spare places

A value that is put in and taken out again leaves an arena as it was, but for one thing: if no place
was free, the arena has now one place more, which is free. That place is spare: the arena from before
would come to it as the next one never used, just when the other one comes to it in the list of its
free places. So two arenas that hold the same values and differ in spare places only hand out the
same places for ever.

* `Arena.SpareRoom`: an arena has free places where another one has places never used.
* `Arena.spareRoom_insert_vacate`: a value that comes and goes leaves at most a spare place.
* `Arena.SameButSpare`: the same values in the same places.
* `Arena.SameButSpare.insert`, `Arena.SameButSpare.vacate`, `Arena.SameButSpare.modify`: what is done
to both leaves them so.
-/

namespace PriceTime.Arena

variable {α : Type} {a a' : Arena α} {key : Nat}

/-! ## Room -/

/-- `b` will hand out the places that `a` will hand out: those free in `a` are free in `b`, and after
them come the places that `a` has never used, as far as `b` has used them. -/
def SpareRoom {β : Type} (a : Arena α) (b : Arena β) : Prop :=
  ∃ n, b.places.size = a.places.size + n ∧ b.free = a.free ++ List.range' a.places.size n

theorem SameRoom.spareRoom {β : Type} {b : Arena β} (h : SameRoom a b) : SpareRoom a b :=
  ⟨0, h.size, by rw [h.free, List.range'_zero, List.append_nil]⟩

theorem SpareRoom.congr {β : Type} {b b' : Arena β} (h : SpareRoom a b) (ha : SameRoom a a')
    (hb : SameRoom b b') : SpareRoom a' b' := by
  obtain ⟨n, hsize, hfree⟩ := h
  exact ⟨n, by rw [hb.size, ha.size, hsize], by rw [hb.free, ha.free, ha.size, hfree]⟩

/-- Both hand out the same place: one that `b` lists after the others is next among the places that
`a` has never used. -/
theorem SpareRoom.nextKey_eq {β : Type} {b : Arena β} (h : SpareRoom a b) :
    b.nextKey = a.nextKey := by
  obtain ⟨n, hsize, hfree⟩ := h
  unfold nextKey
  rw [hfree]
  cases a.free with
  | cons key free => rfl
  | nil =>
    cases n with
    | zero => exact hsize
    | succ n => rfl

theorem SpareRoom.size_eq {β : Type} {b : Arena β} (h : SpareRoom a b) : b.size = a.size := by
  obtain ⟨n, hsize, hfree⟩ := h
  unfold size
  rw [hsize, hfree, List.length_append, List.length_range']
  omega

theorem SpareRoom.insert {β : Type} {b : Arena β} (h : SpareRoom a b) (x : α) (y : β) :
    SpareRoom (a.insert x).2 (b.insert y).2 := by
  obtain ⟨places, free⟩ := a
  obtain ⟨places', free'⟩ := b
  obtain ⟨n, hsize, hfree⟩ := h
  dsimp only at hsize hfree
  subst hfree
  cases free with
  | cons key free => exact ⟨n, by simp [Arena.insert, hsize], by simp [Arena.insert]⟩
  | nil =>
    cases n with
    | zero => exact ⟨0, by simp [Arena.insert, hsize], by simp [Arena.insert]⟩
    | succ n =>
      -- The first spare place is the one that the other arena now uses for the first time.
      refine ⟨n, ?_, ?_⟩
      · simp only [Arena.insert, List.nil_append, List.range'_succ, Array.size_setIfInBounds,
          Array.size_push]
        omega
      · simp [Arena.insert, List.range'_succ]

theorem SpareRoom.vacate {β : Type} {b : Arena β} (h : SpareRoom a b) (key : Nat) :
    SpareRoom (a.vacate key) (b.vacate key) := by
  obtain ⟨n, hsize, hfree⟩ := h
  refine ⟨n, ?_, ?_⟩
  · rw [size_places_vacate, size_places_vacate, hsize]
  · rw [size_places_vacate]
    exact congrArg (key :: ·) hfree

/-- A value that comes and goes leaves at most a spare place. -/
theorem spareRoom_insert_vacate (a : Arena α) (x : α) :
    SpareRoom a ((a.insert x).2.vacate a.nextKey) := by
  obtain ⟨places, _ | ⟨key, free⟩⟩ := a
  · exact ⟨1, by simp [insert], by simp [insert, vacate, nextKey]⟩
  · exact ⟨0, by simp [insert], by simp [insert, vacate, nextKey]⟩

/-! ## Arenas -/

/-- Both arenas hold the same values in the same places, and differ in spare places only. -/
structure SameButSpare (a a' : Arena α) : Prop where
  tidy : a.Tidy
  tidy' : a'.Tidy
  get?_eq : ∀ k, a'.get? k = a.get? k
  room : SpareRoom a a'

namespace SameButSpare

theorem refl (h : a.Tidy) : a.SameButSpare a :=
  ⟨h, h, fun _ => rfl, (SameRoom.refl a).spareRoom⟩

theorem modify (h : a.SameButSpare a') (key : Nat) (f : α → α) :
    (a.modify key f).SameButSpare (a'.modify key f) where
  tidy := h.tidy.modify key f
  tidy' := h.tidy'.modify key f
  get?_eq k := by rw [get?_modify, get?_modify, h.get?_eq]
  room := h.room.congr (sameRoom_modify a key f) (sameRoom_modify a' key f)

theorem set (h : a.SameButSpare a') (key : Nat) (x : α) :
    (a.set key x).SameButSpare (a'.set key x) :=
  h.modify key _

theorem insert (h : a.SameButSpare a') (x : α) :
    (a.insert x).2.SameButSpare (a'.insert x).2 where
  tidy := h.tidy.insert x
  tidy' := h.tidy'.insert x
  get?_eq k := by rw [h.tidy.get?_insert, h.tidy'.get?_insert, h.room.nextKey_eq, h.get?_eq]
  room := h.room.insert x x

theorem vacate (h : a.SameButSpare a') {x : α} (hx : a.get? key = some x) :
    (a.vacate key).SameButSpare (a'.vacate key) where
  tidy := h.tidy.vacate hx
  tidy' := h.tidy'.vacate ((h.get?_eq key).trans hx)
  get?_eq k := by rw [get?_vacate, get?_vacate, h.get?_eq]
  room := h.room.vacate key

end SameButSpare

end PriceTime.Arena
