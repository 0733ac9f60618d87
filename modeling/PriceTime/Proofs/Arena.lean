import Mathlib.Algebra.BigOperators.Group.Finset.Piecewise
import Mathlib.Algebra.GroupWithZero.Nat
import Mathlib.Algebra.Order.BigOperators.Group.Finset
import PriceTime.Arena

/-!
# Arenas as stores

What the operations of an arena do to the view `Arena.get?`, that they keep it tidy, and sums over
all values held.

* `Arena.get?_insert`, `Arena.get?_vacate`: one place changes, all others stay.
* `Arena.Tidy.insert`, `Arena.Tidy.vacate`, `Arena.Tidy.modify`: tidiness is kept.
* `Arena.SameRoom.eq_of_get?`: an arena is its room and the values in it.
* `Arena.recycles_insert`: a new place is used only where none is free.
* `Arena.total_add_eq`: a sum over all values follows the change of one place.
* `Arena.total_eq_sum`: such a sum, along any list that names each place in use once.
* `Arena.insert_map`, `Arena.modify_map`, `Arena.vacate_map`: the operations on an image.
-/

namespace PriceTime.Arena

variable {α : Type} {a a' : Arena α} {key k : Nat}

/-! ## Places -/

theorem get?_eq_none_of_size_le (h : a.places.size ≤ k) : a.get? k = none := by
  unfold get?
  rw [Array.getElem?_eq_none h]

theorem Tidy.get?_nextKey (h : a.Tidy) : a.get? a.nextKey = none := by
  obtain ⟨places, _ | ⟨key, free⟩⟩ := a
  · exact get?_eq_none_of_size_le (le_refl _)
  · exact ((h.mem_free key).mp (List.mem_cons_self ..)).2

theorem Tidy.get?_insert (h : a.Tidy) (x : α) (k : Nat) :
    (a.insert x).2.get? k = if k = a.nextKey then some x else a.get? k := by
  obtain ⟨places, _ | ⟨key, free⟩⟩ := a
  · simp only [insert, nextKey, get?, Array.getElem?_push]
    by_cases hk : k = places.size
    · simp [hk]
    · simp [hk]
  · have hlt : key < places.size := h.lt_of_mem_free (List.mem_cons_self ..)
    simp only [insert, nextKey, get?]
    by_cases hk : k = key
    · subst hk
      simp [hlt]
    · simp [hk, Array.getElem?_setIfInBounds_ne (Ne.symm hk)]

theorem get?_vacate (a : Arena α) (key k : Nat) :
    (a.vacate key).get? k = if k = key then none else a.get? k := by
  unfold get? vacate
  by_cases hk : k = key
  · subst hk
    simp only [Array.getElem?_setIfInBounds_self, if_true]
    split
    · rename_i heq
      split at heq <;> simp at heq
    · rfl
  · simp [hk, Array.getElem?_setIfInBounds_ne (Ne.symm hk)]

@[simp] theorem size_places_vacate (a : Arena α) (key : Nat) :
    (a.vacate key).places.size = a.places.size :=
  Array.size_setIfInBounds

@[simp] theorem free_modify (a : Arena α) (key : Nat) (f : α → α) :
    (a.modify key f).free = a.free := rfl

@[simp] theorem size_places_modify (a : Arena α) (key : Nat) (f : α → α) :
    (a.modify key f).places.size = a.places.size := by
  simp [modify]

/-- A change only looks at the value it changes. -/
theorem modify_congr {f g : α → α} {x : α} (hx : a.get? key = some x) (h : f x = g x) :
    a.modify key f = a.modify key g := by
  unfold modify
  congr 1
  apply Array.ext_getElem?
  intro i
  rw [Array.getElem?_modify, Array.getElem?_modify]
  split
  · rename_i hi
    subst hi
    unfold get? at hx
    split at hx
    · rename_i y hy
      cases hx
      rw [hy, Option.map_some, Option.map_some, Option.map_some, Option.map_some, h]
    · cases hx
  · rfl

theorem getElem?_places (a : Arena α) (k : Nat) :
    a.places[k]? = if k < a.places.size then some (a.get? k) else none := by
  split
  · rename_i hk
    unfold get?
    rw [Array.getElem?_eq_getElem hk]
    cases a.places[k] <;> rfl
  · rename_i hk
    exact Array.getElem?_eq_none (Nat.le_of_not_lt hk)

/-! ## Tidiness -/

/-- Two arenas have the same room when they will hand out the same places. -/
structure SameRoom {β : Type} (a : Arena α) (b : Arena β) : Prop where
  free : b.free = a.free
  size : b.places.size = a.places.size

theorem SameRoom.refl (a : Arena α) : SameRoom a a := ⟨rfl, rfl⟩

theorem SameRoom.symm {β : Type} {b : Arena β} (h : SameRoom a b) : SameRoom b a :=
  ⟨h.free.symm, h.size.symm⟩

theorem SameRoom.trans {β γ : Type} {b : Arena β} {c : Arena γ} (h : SameRoom a b)
    (h' : SameRoom b c) : SameRoom a c :=
  ⟨h'.free.trans h.free, h'.size.trans h.size⟩

theorem sameRoom_modify (a : Arena α) (key : Nat) (f : α → α) : SameRoom a (a.modify key f) :=
  ⟨free_modify .., size_places_modify ..⟩

theorem sameRoom_set (a : Arena α) (key : Nat) (x : α) : SameRoom a (a.set key x) :=
  sameRoom_modify a key _

/-- The same room, so as many values. -/
theorem SameRoom.size_eq {β : Type} {b : Arena β} (h : SameRoom a b) : b.size = a.size := by
  unfold Arena.size
  rw [h.free, h.size]

theorem SameRoom.nextKey {β : Type} {b : Arena β} (h : SameRoom a b) : b.nextKey = a.nextKey := by
  unfold Arena.nextKey
  rw [h.free, h.size]

theorem SameRoom.insert {β : Type} {b : Arena β} (h : SameRoom a b) (x : α) (y : β) :
    SameRoom (a.insert x).2 (b.insert y).2 := by
  obtain ⟨places, free⟩ := a
  obtain ⟨places', free'⟩ := b
  obtain ⟨hfree, hsize⟩ := h
  dsimp only at hfree hsize
  subst hfree
  cases free' with
  | nil => exact ⟨rfl, by simp [Arena.insert, hsize]⟩
  | cons key free => exact ⟨rfl, by simp [Arena.insert, hsize]⟩

theorem SameRoom.vacate {β : Type} {b : Arena β} (h : SameRoom a b) (key : Nat) :
    SameRoom (a.vacate key) (b.vacate key) where
  free := congrArg (key :: ·) h.free
  size := by rw [size_places_vacate, size_places_vacate, h.size]

/-- An arena is its room and the values in it. -/
theorem SameRoom.eq_of_get? (h : SameRoom a a') (hget : ∀ k, a'.get? k = a.get? k) : a' = a := by
  have hplaces : a'.places = a.places := by
    apply Array.ext_getElem?
    intro k
    rw [getElem?_places, getElem?_places, h.size, hget]
  obtain ⟨places, free⟩ := a
  obtain ⟨places', free'⟩ := a'
  exact congrArg₂ Arena.mk hplaces h.free

theorem nextKey_vacate (a : Arena α) (key : Nat) : (a.vacate key).nextKey = key := rfl

/-- A value put in takes the place freed last, and leaves the room there was before. -/
theorem sameRoom_insert_vacate (a : Arena α) (key : Nat) (x : α) :
    SameRoom a ((a.vacate key).insert x).2 :=
  ⟨rfl, by simp [vacate, insert]⟩

/-- Tidiness only looks at the room and at which places are in use. -/
theorem Tidy.of_sameRoom (h : a.Tidy) (hroom : SameRoom a a')
    (hnone : ∀ k, a'.get? k = none ↔ a.get? k = none) : a'.Tidy where
  nodup := hroom.free ▸ h.nodup
  mem_free := by
    intro key
    rw [hroom.free, hroom.size, hnone]
    exact h.mem_free key

theorem get?_modify_eq_none (a : Arena α) (key : Nat) (f : α → α) (k : Nat) :
    (a.modify key f).get? k = none ↔ a.get? k = none := by
  rw [get?_modify]
  split <;> simp

theorem Tidy.modify (h : a.Tidy) (key : Nat) (f : α → α) : (a.modify key f).Tidy :=
  h.of_sameRoom (sameRoom_modify a key f) (get?_modify_eq_none a key f)

theorem Tidy.set (h : a.Tidy) (key : Nat) (x : α) : (a.set key x).Tidy :=
  h.modify key _

theorem Tidy.insert (h : a.Tidy) (x : α) : (a.insert x).2.Tidy := by
  have hget := h.get?_insert x
  obtain ⟨places, _ | ⟨key, free⟩⟩ := a
  · refine ⟨List.nodup_nil, ?_⟩
    intro k
    rw [hget]
    have hnone : k ∈ [] ↔ k < places.size ∧ (Arena.mk places []).get? k = none := h.mem_free k
    show k ∈ [] ↔ k < (places.push (some x)).size ∧
      (if k = places.size then some x else (Arena.mk places []).get? k) = none
    by_cases hk : k = places.size
    · simp [hk]
    · rw [if_neg hk, hnone, Array.size_push]
      exact and_congr_left fun _ => by omega
  · have hnodup := List.nodup_cons.mp h.nodup
    refine ⟨hnodup.2, ?_⟩
    intro k
    rw [hget]
    have hmem := h.mem_free k
    simp only [Arena.insert, nextKey, Array.size_setIfInBounds, List.mem_cons] at hmem ⊢
    by_cases hk : k = key
    · subst hk
      simp [hnodup.1]
    · simp only [hk, false_or, if_false] at hmem ⊢
      exact hmem

theorem Tidy.vacate (h : a.Tidy) {x : α} (hx : a.get? key = some x) : (a.vacate key).Tidy where
  nodup := by
    refine List.nodup_cons.mpr ⟨?_, h.nodup⟩
    intro hmem
    rw [((h.mem_free key).mp hmem).2] at hx
    cases hx
  mem_free k := by
    rw [get?_vacate, size_places_vacate]
    show k ∈ key :: a.free ↔ _
    rw [List.mem_cons, h.mem_free k]
    by_cases hk : k = key
    · simpa [hk] using lt_size_of_get? hx
    · simp [hk]

/-! ## New places -/

/-- `a'` has used no place that `a` has not, or it holds as many values as it has ever used places. -/
def Recycles (a a' : Arena α) : Prop :=
  a'.places.size ≤ max a.places.size a'.size

theorem recycles_of_le (h : a'.places.size ≤ a.places.size) : a.Recycles a' :=
  le_max_of_le_left h

theorem Recycles.of_le {a₁ : Arena α} (h : a₁.Recycles a') (hle : a₁.places.size ≤ a.places.size) :
    a.Recycles a' :=
  h.trans (max_le_max_right _ hle)

theorem Recycles.of_sameRoom {a₁ : Arena α} (h : a.Recycles a₁) (hroom : SameRoom a₁ a') :
    a.Recycles a' := by
  unfold Recycles
  rw [hroom.size, hroom.size_eq]
  exact h

theorem recycles_insert (a : Arena α) (x : α) : a.Recycles (a.insert x).2 := by
  obtain ⟨places, _ | ⟨key, free⟩⟩ := a
  · exact le_max_of_le_right (Nat.le_refl _)
  · apply recycles_of_le
    simp [insert]

/-! ## Sums over all values -/

/-- What a place adds to a sum over all values; a free place adds nothing. -/
def share (f : α → Nat) (x : Option α) : Nat := x.elim 0 f

@[simp] theorem share_none (f : α → Nat) : share f none = 0 := rfl

@[simp] theorem share_some (f : α → Nat) (x : α) : share f (some x) = f x := rfl

/-- The sum of `f` over all values in an arena. -/
def total (f : α → Nat) (a : Arena α) : Nat :=
  ∑ k ∈ Finset.range a.places.size, share f (a.get? k)

theorem total_eq_range (f : α → Nat) {n : Nat} (hn : a.places.size ≤ n) :
    a.total f = ∑ k ∈ Finset.range n, share f (a.get? k) := by
  unfold total
  refine Finset.sum_subset (Finset.range_mono hn) ?_
  intro k _ hk
  rw [get?_eq_none_of_size_le (by simpa using hk)]
  rfl

/-- The same values in the same places have the same sum, whatever the room. -/
theorem total_congr (f : α → Nat) (h : ∀ k, a'.get? k = a.get? k) : a'.total f = a.total f := by
  let n := a.places.size + a'.places.size
  rw [total_eq_range f (a := a') (n := n) (by omega), total_eq_range f (a := a) (n := n) (by omega)]
  simp only [h]

/-- A sum over all values, before and after a change of one place. -/
theorem total_add_eq (f : α → Nat)
    (h : ∀ k, k ≠ key → share f (a'.get? k) = share f (a.get? k)) :
    a'.total f + share f (a.get? key) = a.total f + share f (a'.get? key) := by
  let n := a.places.size + a'.places.size + key + 1
  rw [total_eq_range f (a := a') (n := n) (by omega), total_eq_range f (a := a) (n := n) (by omega)]
  have hmem : key ∈ Finset.range n := Finset.mem_range.mpr (by omega)
  rw [← Finset.sum_erase_add _ _ hmem, ← Finset.sum_erase_add (Finset.range n) _ hmem]
  have hrest : ∑ k ∈ (Finset.range n).erase key, share f (a'.get? k) =
      ∑ k ∈ (Finset.range n).erase key, share f (a.get? k) :=
    Finset.sum_congr rfl fun k hk => h k (Finset.ne_of_mem_erase hk)
  omega

/-- Along distinct places, at most the sum over all values adds up. -/
theorem sum_le_total (f : α → Nat) {keys : List Nat} (hnodup : keys.Nodup) :
    (keys.map fun k => share f (a.get? k)).sum ≤ a.total f := by
  rw [← List.sum_toFinset _ hnodup]
  let n := a.places.size + keys.sum + 1
  rw [total_eq_range f (n := n) (by omega)]
  refine Finset.sum_le_sum_of_subset ?_
  intro k hk
  have := List.le_sum_of_mem (List.mem_toFinset.mp hk)
  exact Finset.mem_range.mpr (by omega)

/-- Along a list that names each place in use once, exactly the sum over all values adds up. -/
theorem total_eq_sum (f : α → Nat) {keys : List Nat} (hnodup : keys.Nodup)
    (hmem : ∀ k, share f (a.get? k) ≠ 0 → k ∈ keys) :
    a.total f = (keys.map fun k => share f (a.get? k)).sum := by
  refine le_antisymm ?_ (sum_le_total f hnodup)
  rw [← List.sum_toFinset _ hnodup]
  unfold total
  refine Finset.sum_le_sum_of_ne_zero ?_
  intro k _ hk
  exact List.mem_toFinset.mpr (hmem k hk)

/-- A sum to which each place in a list adds one and no other place adds anything. -/
theorem total_eq_length (f : α → Nat) {keys : List Nat} (hnodup : keys.Nodup)
    (hone : ∀ k ∈ keys, share f (a.get? k) = 1) (hmem : ∀ k, share f (a.get? k) ≠ 0 → k ∈ keys) :
    a.total f = keys.length := by
  rw [total_eq_sum f hnodup hmem, List.map_congr_left hone, List.map_const', List.sum_replicate]
  simp

/-- The number of values held, as a sum. -/
theorem Tidy.size_eq_total (h : a.Tidy) : a.size = a.total fun _ => 1 := by
  have hsum : (a.total fun _ => 1) + a.free.length = a.places.size := by
    have hfree : a.free.length = ∑ k ∈ Finset.range a.places.size, if k ∈ a.free then 1 else 0 := by
      rw [← Finset.card_filter, ← List.toFinset_card_of_nodup h.nodup]
      congr 1
      ext k
      simp only [Finset.mem_filter, Finset.mem_range, List.mem_toFinset]
      exact ⟨fun hk => ⟨h.lt_of_mem_free hk, hk⟩, fun hk => hk.2⟩
    rw [hfree, total, ← Finset.sum_add_distrib]
    refine (Finset.sum_congr rfl ?_).trans (Finset.card_eq_sum_ones _).symm |>.trans
      (Finset.card_range _)
    intro k hk
    have hlt := Finset.mem_range.mp hk
    by_cases hf : k ∈ a.free
    · rw [((h.mem_free k).mp hf).2]
      simp [hf]
    · cases hx : a.get? k with
      | none => exact absurd ((h.mem_free k).mpr ⟨hlt, hx⟩) hf
      | some x => simp [hf]
  unfold size
  omega

theorem Tidy.size_insert (h : a.Tidy) (x : α) : (a.insert x).2.size = a.size + 1 := by
  have hget := h.get?_insert x
  have htotal : (a.insert x).2.total (fun _ => 1) + share (fun _ => 1) (a.get? a.nextKey) =
      a.total (fun _ => 1) + share (fun _ => 1) ((a.insert x).2.get? a.nextKey) :=
    total_add_eq (fun _ => 1) fun k hk => by rw [hget, if_neg hk]
  rw [hget, if_pos rfl, h.get?_nextKey] at htotal
  rw [h.size_eq_total, (h.insert x).size_eq_total]
  exact htotal

theorem Tidy.size_vacate (h : a.Tidy) {x : α} (hx : a.get? key = some x) :
    (a.vacate key).size + 1 = a.size := by
  have hget := get?_vacate a key
  have htotal : (a.vacate key).total (fun _ => 1) + share (fun _ => 1) (a.get? key) =
      a.total (fun _ => 1) + share (fun _ => 1) ((a.vacate key).get? key) :=
    total_add_eq (fun _ => 1) fun k hk => by rw [hget, if_neg hk]
  rw [hget, if_pos rfl, hx] at htotal
  rw [h.size_eq_total, (h.vacate hx).size_eq_total]
  exact htotal

/-- A tidy arena holds as many values as there are places in use. -/
theorem Tidy.size_eq_length (h : a.Tidy) {keys : List Nat} (hnodup : keys.Nodup)
    (hmem : ∀ k, k ∈ keys ↔ ∃ x, a.get? k = some x) : a.size = keys.length := by
  rw [h.size_eq_total]
  refine total_eq_length (fun _ => 1) hnodup ?_ ?_
  · intro k hk
    obtain ⟨x, hx⟩ := (hmem k).mp hk
    rw [hx]
    rfl
  · intro k hk
    refine (hmem k).mpr ?_
    cases hx : a.get? k with
    | none =>
      rw [hx] at hk
      exact absurd rfl hk
    | some x => exact ⟨x, rfl⟩

/-! ## Images -/

/-- The arena with every value replaced by its image, in the same places. -/
def map {β : Type} (f : α → β) (a : Arena α) : Arena β :=
  ⟨a.places.map (Option.map f), a.free⟩

section Map

variable {β : Type} (f : α → β) (a : Arena α)

@[simp] theorem map_empty : (empty : Arena α).map f = empty := by
  simp [map, empty]

@[simp] theorem get?_map (k : Nat) : (a.map f).get? k = (a.get? k).map f := by
  unfold get? map
  cases hp : a.places[k]? with
  | none => simp [hp]
  | some v => cases v <;> simp [hp]

@[simp] theorem size_map : (a.map f).size = a.size := by
  simp [map, size]

theorem insert_map (x : α) : (a.map f).insert (f x) = ((a.insert x).1, (a.insert x).2.map f) := by
  obtain ⟨places, _ | ⟨key, free⟩⟩ := a
  · simp [map, insert]
  · simp [map, insert]

theorem modify_map {g : α → α} {g' : β → β} (h : ∀ x, g' (f x) = f (g x)) (key : Nat) :
    (a.map f).modify key g' = (a.modify key g).map f := by
  unfold modify map
  congr 1
  apply Array.ext_getElem?
  intro i
  by_cases hi : key = i
  · simp only [Array.getElem?_modify, Array.getElem?_map, hi, if_true, Option.map_map]
    congr 1
    funext x
    cases x with
    | none => rfl
    | some x => exact congrArg some (h x)
  · simp [Array.getElem?_modify, hi]

theorem set_map (key : Nat) (x : α) : (a.map f).set key (f x) = (a.set key x).map f :=
  modify_map f a (fun _ => rfl) key

theorem vacate_map (key : Nat) : (a.map f).vacate key = (a.vacate key).map f := by
  simp [map, vacate]

end Map

/-- What is held after an insertion was put in, or was held before. -/
theorem eq_or_of_get?_insert {x y : α} (h : (a.insert x).2.get? k = some y) :
    y = x ∨ a.get? k = some y := by
  obtain ⟨places, _ | ⟨key, free⟩⟩ := a
  · by_cases hk : k = places.size
    · left
      simpa [insert, get?, hk] using h.symm
    · right
      simpa [insert, get?, Array.getElem?_push, hk] using h
  · by_cases hk : key = k
    · left
      by_cases hlt : k < places.size
      · simpa [insert, get?, hk, hlt] using h.symm
      · simp [insert, get?, hk, hlt] at h
    · right
      simpa [insert, get?, Array.getElem?_setIfInBounds_ne hk] using h

end PriceTime.Arena
