import PriceTime.Ladder

/-!
# Ladders as maps from prices

A ladder keeps its levels by rank and its best entry beside them. A sound ladder holds ranks of
prices only and has its least entry as the best one. Seen from outside it maps prices to levels.

* `Ladder.Sound.insert`, `Ladder.Sound.remove`: soundness is kept, also when the best entry goes.
* `Ladder.key?_insert`, `Ladder.key?_remove`: one price changes, all others stay.
* `Ladder.Sound.mem_toList`, `Ladder.pairwise_toList`: the list has each price once, best first.
* `Ladder.Sound.best?_eq`: the best entry is the head of the list.
* `Ladder.Sound.eq_of_key?`: a sound ladder is its side and its map.
-/

namespace PriceTime

namespace Ladder

variable {l : Ladder} {price : Int32} {key : LevelKey}

/-- The level at a price. -/
def key? (l : Ladder) (price : Int32) : Option LevelKey :=
  l.rungs[l.side.rank price]?

theorem leastRung_eq_some_iff {rungs : Std.ExtTreeMap Int LevelKey} {rank : Int} {key : LevelKey} :
    leastRung rungs = some (rank, key) ↔ rungs[rank]? = some key ∧ ∀ r ∈ rungs, rank ≤ r := by
  unfold leastRung
  constructor
  · intro h
    obtain ⟨r, hmin, hr⟩ := Option.bind_eq_some_iff.mp h
    obtain ⟨k, hk, heq⟩ := Option.map_eq_some_iff.mp hr
    cases heq
    obtain ⟨-, hle⟩ := Std.ExtTreeMap.minKey?_eq_some_iff_mem_and_forall.mp hmin
    exact ⟨hk, fun r hr => Int.isLE_compare.mp (hle r hr)⟩
  · rintro ⟨hk, hle⟩
    have hmem : rank ∈ rungs := by
      rw [Std.ExtTreeMap.mem_iff_isSome_getElem?, hk]
      rfl
    have hmin : rungs.minKey? = some rank :=
      Std.ExtTreeMap.minKey?_eq_some_iff_mem_and_forall.mpr
        ⟨hmem, fun r hr => Int.isLE_compare.mpr (hle r hr)⟩
    rw [hmin, Option.bind_some, hk]
    rfl

theorem leastRung_eq_none_iff {rungs : Std.ExtTreeMap Int LevelKey} :
    leastRung rungs = none ↔ rungs = ∅ := by
  constructor
  · intro h
    cases hmin : rungs.minKey? with
    | none => exact Std.ExtTreeMap.minKey?_eq_none_iff.mp hmin
    | some rank =>
      have hmem := (Std.ExtTreeMap.minKey?_eq_some_iff_mem_and_forall.mp hmin).1
      obtain ⟨key, hkey⟩ :=
        Option.isSome_iff_exists.mp (Std.ExtTreeMap.mem_iff_isSome_getElem?.mp hmem)
      simp [leastRung, hmin, hkey] at h
  · rintro rfl
    simp [leastRung]

/-- The best entry is the least one, and all ranks are ranks of prices. -/
structure Sound (l : Ladder) : Prop where
  first_eq : l.first = leastRung l.rungs
  exists_price : ∀ rank ∈ l.rungs, ∃ price, l.side.rank price = rank

@[simp] theorem side_insert (l : Ladder) (price : Int32) (key : LevelKey) :
    (l.insert price key).side = l.side := rfl

@[simp] theorem side_remove (l : Ladder) (price : Int32) : (l.remove price).2.side = l.side := by
  unfold remove
  dsimp only
  split <;> rfl

theorem rungs_remove (l : Ladder) (price : Int32) :
    (l.remove price).2.rungs = l.rungs.erase (l.side.rank price) := by
  unfold remove
  dsimp only
  split
  · rename_i hnone
    refine Std.ExtTreeMap.ext_getElem? fun rank => ?_
    rw [Std.ExtTreeMap.getElem?_erase]
    split
    · rename_i heq
      rw [← Std.LawfulEqCmp.eq_of_compare heq, hnone]
    · rfl
  · rfl

theorem key?_insert (l : Ladder) (price : Int32) (key : LevelKey) (p : Int32) :
    (l.insert price key).key? p = if p = price then some key else l.key? p := by
  show (l.rungs.insert (l.side.rank price) key)[l.side.rank p]? = _
  rw [Std.ExtTreeMap.getElem?_insert]
  by_cases hp : p = price
  · subst hp
    simp
  · have hne : compare (l.side.rank price) (l.side.rank p) ≠ .eq := fun heq =>
      hp (Side.rank_injective (Std.LawfulEqCmp.eq_of_compare heq)).symm
    rw [if_neg hne, if_neg hp]
    rfl

theorem key?_remove (l : Ladder) (price p : Int32) :
    (l.remove price).2.key? p = if p = price then none else l.key? p := by
  rw [key?, side_remove, rungs_remove, Std.ExtTreeMap.getElem?_erase]
  by_cases hp : p = price
  · subst hp
    simp
  · have hne : compare (l.side.rank price) (l.side.rank p) ≠ .eq := fun heq =>
      hp (Side.rank_injective (Std.LawfulEqCmp.eq_of_compare heq)).symm
    rw [if_neg hne, if_neg hp]
    rfl

namespace Sound

theorem empty (side : Side) : ({ side } : Ladder).Sound where
  first_eq := by simp [leastRung]
  exists_price rank h := by simp at h

theorem insert (h : l.Sound) (price : Int32) (key : LevelKey) : (l.insert price key).Sound where
  first_eq := by
    have hfirst := h.first_eq
    unfold Ladder.insert
    dsimp only
    rw [hfirst]
    symm
    cases hleast : leastRung l.rungs with
    | none =>
      rw [leastRung_eq_none_iff] at hleast
      refine leastRung_eq_some_iff.mpr ⟨by simp, ?_⟩
      intro r hr
      rw [hleast, Std.ExtTreeMap.mem_insert] at hr
      rcases hr with hr | hr
      · exact Int.le_of_eq (Std.LawfulEqCmp.eq_of_compare hr)
      · simp at hr
    | some best =>
      obtain ⟨best, bestKey⟩ := best
      obtain ⟨hkey, hle⟩ := leastRung_eq_some_iff.mp hleast
      by_cases hrank : l.side.rank price ≤ best
      · simp only [hrank, decide_true, if_true]
        refine leastRung_eq_some_iff.mpr ⟨by simp, ?_⟩
        intro r hr
        rcases Std.ExtTreeMap.mem_insert.mp hr with hr | hr
        · exact Int.le_of_eq (Std.LawfulEqCmp.eq_of_compare hr)
        · exact Int.le_trans hrank (hle r hr)
      · simp only [hrank, decide_false, Bool.false_eq_true, if_false]
        refine leastRung_eq_some_iff.mpr ⟨?_, ?_⟩
        · have hne : compare (l.side.rank price) best ≠ .eq := fun heq =>
            hrank (Int.le_of_eq (Std.LawfulEqCmp.eq_of_compare heq))
          rw [Std.ExtTreeMap.getElem?_insert, if_neg hne, hkey]
        · intro r hr
          rcases Std.ExtTreeMap.mem_insert.mp hr with hr | hr
          · rw [← Std.LawfulEqCmp.eq_of_compare hr]
            omega
          · exact hle r hr
  exists_price rank hrank := by
    rcases Std.ExtTreeMap.mem_insert.mp hrank with hrank | hrank
    · exact ⟨price, Std.LawfulEqCmp.eq_of_compare hrank⟩
    · exact h.exists_price rank hrank

theorem remove (h : l.Sound) (price : Int32) : (l.remove price).2.Sound where
  first_eq := by
    have hrungs := rungs_remove l price
    rw [hrungs]
    unfold Ladder.remove at hrungs ⊢
    dsimp only at hrungs ⊢
    split
    · rename_i hnone
      rw [hnone] at hrungs
      rw [h.first_eq, ← hrungs]
    · rename_i gone hgone
      dsimp only
      rw [h.first_eq]
      cases hleast : leastRung l.rungs with
      | none =>
        rw [leastRung_eq_none_iff] at hleast
        rw [hleast] at hgone
        simp at hgone
      | some best =>
        obtain ⟨best, bestKey⟩ := best
        obtain ⟨hkey, hle⟩ := leastRung_eq_some_iff.mp hleast
        by_cases heq : best = l.side.rank price
        · simp [heq]
        · have hne : compare (l.side.rank price) best ≠ .eq := fun hcmp =>
            heq (Std.LawfulEqCmp.eq_of_compare hcmp).symm
          simp only [beq_eq_false_iff_ne.mpr heq, Bool.false_eq_true, if_false]
          symm
          refine leastRung_eq_some_iff.mpr ⟨?_, ?_⟩
          · rw [Std.ExtTreeMap.getElem?_erase, if_neg hne, hkey]
          · intro r hr
            exact hle r (Std.ExtTreeMap.mem_erase.mp hr).2
  exists_price rank hrank := by
    rw [rungs_remove] at hrank
    rw [side_remove]
    exact h.exists_price rank (Std.ExtTreeMap.mem_erase.mp hrank).2

/-- The list of a ladder has the prices with a level, each with its level. -/
theorem mem_toList (h : l.Sound) : (price, key) ∈ l.toList ↔ l.key? price = some key := by
  unfold toList key?
  rw [List.mem_map]
  constructor
  · rintro ⟨⟨rank, k⟩, hmem, heq⟩
    cases heq
    rw [Std.ExtTreeMap.mem_toList_iff_getElem?_eq_some] at hmem
    have hin : rank ∈ l.rungs := by
      rw [Std.ExtTreeMap.mem_iff_isSome_getElem?, hmem]
      rfl
    obtain ⟨p, rfl⟩ := h.exists_price rank hin
    rw [Side.priceOfRank_rank]
    exact hmem
  · intro hkey
    exact ⟨(l.side.rank price, key), Std.ExtTreeMap.mem_toList_iff_getElem?_eq_some.mpr hkey,
      congrArg (·, key) (Side.priceOfRank_rank ..)⟩

/-- The list of a ladder is strictly best first. -/
theorem pairwise_toList (h : l.Sound) :
    l.toList.Pairwise fun a b => l.side.rank a.1 < l.side.rank b.1 := by
  have hmem : ∀ entry ∈ l.rungs.toList,
      l.side.rank (l.side.priceOfRank entry.1) = entry.1 := by
    rintro ⟨rank, k⟩ hentry
    rw [Std.ExtTreeMap.mem_toList_iff_getElem?_eq_some] at hentry
    have hin : rank ∈ l.rungs := by
      rw [Std.ExtTreeMap.mem_iff_isSome_getElem?, hentry]
      rfl
    obtain ⟨p, rfl⟩ := h.exists_price rank hin
    rw [Side.priceOfRank_rank]
  unfold toList
  rw [List.pairwise_map]
  refine Std.ExtTreeMap.ordered_keys_toList.imp_of_mem ?_
  intro a b ha hb hlt
  rw [hmem a ha, hmem b hb]
  exact Int.compare_eq_lt.mp hlt

/-- The best entry of a ladder is the head of its list. -/
theorem best?_eq (h : l.Sound) : l.best? = l.toList.head? := by
  unfold best? toList
  rw [h.first_eq, List.head?_map]
  cases hleast : leastRung l.rungs with
  | none =>
    rw [Std.ExtTreeMap.toList_eq_nil_iff.mpr (leastRung_eq_none_iff.mp hleast)]
    rfl
  | some best =>
    obtain ⟨rank, key⟩ := best
    obtain ⟨hkey, hle⟩ := leastRung_eq_some_iff.mp hleast
    have hmem : (rank, key) ∈ l.rungs.toList :=
      Std.ExtTreeMap.mem_toList_iff_getElem?_eq_some.mpr hkey
    have hordered := Std.ExtTreeMap.ordered_keys_toList (t := l.rungs)
    cases hlist : l.rungs.toList with
    | nil =>
      rw [hlist] at hmem
      cases hmem
    | cons first rest =>
      rw [hlist] at hmem hordered
      rcases List.mem_cons.mp hmem with rfl | hmem
      · rfl
      · have hlt := Int.compare_eq_lt.mp ((List.pairwise_cons.mp hordered).1 _ hmem)
        have hin : first.1 ∈ l.rungs := by
          rw [Std.ExtTreeMap.mem_iff_isSome_getElem?,
            Std.ExtTreeMap.mem_toList_iff_getElem?_eq_some.mp
              (show (first.1, first.2) ∈ l.rungs.toList from hlist ▸ List.mem_cons_self ..)]
          rfl
        exact absurd hlt (Int.not_lt.mpr (hle _ hin))

end Sound

/-- A sound ladder is its side and its map from prices to levels. -/
theorem Sound.eq_of_key? {l' : Ladder} (h : l.Sound) (h' : l'.Sound) (hside : l'.side = l.side)
    (hkey : ∀ price, l'.key? price = l.key? price) : l' = l := by
  have hrungs : l'.rungs = l.rungs := by
    refine Std.ExtTreeMap.ext_getElem? fun rank => ?_
    by_cases hprice : ∃ price, l.side.rank price = rank
    · obtain ⟨price, rfl⟩ := hprice
      have := hkey price
      rwa [key?, key?, hside] at this
    · -- At a rank of no price neither ladder has a level.
      have hnone : l.rungs[rank]? = none := by
        apply Std.ExtTreeMap.getElem?_eq_none
        exact fun hmem => hprice (h.exists_price rank hmem)
      have hnone' : l'.rungs[rank]? = none := by
        apply Std.ExtTreeMap.getElem?_eq_none
        exact fun hmem => hprice (hside ▸ h'.exists_price rank hmem)
      rw [hnone, hnone']
  have hfirst : l'.first = l.first := by rw [h.first_eq, h'.first_eq, hrungs]
  obtain ⟨side, rungs, first⟩ := l
  obtain ⟨side', rungs', first'⟩ := l'
  dsimp only at hside hrungs hfirst
  subst hside hrungs hfirst
  rfl

theorem length_toList (l : Ladder) : l.toList.length = l.size := by
  simp [toList, size]

end Ladder

end PriceTime
