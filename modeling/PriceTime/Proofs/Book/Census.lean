import Mathlib.Data.List.Perm.Basic
import PriceTime.Proofs.Book.WellFormed

/-!
# Counting a book

The index, the pool, the ladders and the price indexes of a well-formed book all count the same
orders and the same levels.

* `Book.WellFormed.length_lineUp`: along the levels of a side, best first, every order of the side
stands once.
* `Book.WellFormed.size_index`: as many ids are indexed as orders are pooled.
* `Book.WellFormed.size_levels`: as many levels are in the ladders as are allocated.
-/

namespace PriceTime

namespace Book

variable {b b' : Book} {members : LevelKey → List Slot} {key : LevelKey} {slot : Slot}
  {side : Side} {price : Int32} {o : Order}

/-- The slots of the orders of a side in the order of their priority: the best price first, and the
oldest order first at each price. -/
def lineUp (b : Book) (side : Side) : List Slot :=
  (b.half side).ladder.toList.flatMap fun entry => b.slotsAt side entry.1

/-! ## Levels -/

namespace Stands

variable (h : b.Stands members)

include h

theorem mem_ladder :
    (price, key) ∈ (b.half side).ladder.toList ↔ b.levelKey? side price = some key := by
  rw [(h.shelved.sound side).mem_toList, h.shelved.ladder_key?]

theorem pairwise_ladder (side : Side) : (b.half side).ladder.toList.Pairwise
    fun a c => side.rank a.1 < side.rank c.1 := by
  have hpair := (h.shelved.sound side).pairwise_toList
  rwa [h.shelved.side_eq side] at hpair

theorem nodup_keys (side : Side) : ((b.half side).ladder.toList.map Prod.snd).Nodup := by
  rw [List.Nodup, List.pairwise_map]
  refine (h.pairwise_ladder side).imp_of_mem ?_
  rintro ⟨p, k⟩ ⟨p', k'⟩ hp hp' hlt heq
  dsimp only at heq hlt
  subst heq
  have hlabel := h.shelved.levelKey?_iff.mp (h.mem_ladder.mp hp)
  rw [h.shelved.levelKey?_iff.mp (h.mem_ladder.mp hp')] at hlabel
  cases hlabel
  exact Int.lt_irrefl _ hlt

/-- The ladders hold every level once. -/
theorem nodup_all_keys : ((b.half .bid).ladder.toList.map Prod.snd ++
    (b.half .ask).ladder.toList.map Prod.snd).Nodup := by
  refine List.nodup_append.mpr ⟨h.nodup_keys .bid, h.nodup_keys .ask, ?_⟩
  intro k hk k' hk' heq
  subst heq
  obtain ⟨⟨p, k⟩, hp, rfl⟩ := List.mem_map.mp hk
  obtain ⟨⟨p', k'⟩, hp', heq⟩ := List.mem_map.mp hk'
  dsimp only at heq
  subst heq
  have hlabel := h.shelved.levelKey?_iff.mp (h.mem_ladder.mp hp)
  rw [h.shelved.levelKey?_iff.mp (h.mem_ladder.mp hp')] at hlabel
  cases hlabel

/-- As many levels are in the ladders as are allocated. -/
theorem size_levels : b.queues.levels.size = b.levelCount .bid + b.levelCount .ask := by
  have hmem : ∀ k, k ∈ (b.half .bid).ladder.toList.map Prod.snd ++
      (b.half .ask).ladder.toList.map Prod.snd ↔ ∃ l, b.queues.levels.get? k = some l := by
    intro k
    rw [List.mem_append]
    constructor
    · rintro (hk | hk)
      · obtain ⟨⟨p, k⟩, hp, rfl⟩ := List.mem_map.mp hk
        obtain ⟨l, hl, -⟩ := h.level?_of_key (h.mem_ladder.mp hp)
        exact ⟨l, hl⟩
      · obtain ⟨⟨p, k⟩, hp, rfl⟩ := List.mem_map.mp hk
        obtain ⟨l, hl, -⟩ := h.level?_of_key (h.mem_ladder.mp hp)
        exact ⟨l, hl⟩
    · rintro ⟨l, hl⟩
      have hkey : b.levelKey? l.side l.price = some k :=
        h.shelved.levelKey?_iff.mpr (Queues.label_eq hl)
      have hmem := List.mem_map_of_mem (f := Prod.snd) (h.mem_ladder.mpr hkey)
      cases hside : l.side with
      | bid => exact Or.inl (hside ▸ hmem)
      | ask => exact Or.inr (hside ▸ hmem)
  rw [h.places.levels_tidy.size_eq_length h.nodup_all_keys hmem, List.length_append,
    List.length_map, List.length_map, Ladder.length_toList, Ladder.length_toList]
  rfl

/-- As many levels are in the price index of a side as are in its ladder. -/
theorem size_prices (side : Side) : (b.half side).index.size = b.levelCount side := by
  have hladder : (b.half side).ladder.toList.Nodup :=
    (h.pairwise_ladder side).imp fun {e e'} hlt heq => by
      rw [heq] at hlt
      exact Int.lt_irrefl _ hlt
  have hindex : (b.half side).index.toList.Nodup := by
    refine Std.ExtTreeMap.distinct_keys_toList.imp ?_
    rintro e e' hne rfl
    exact hne Std.ReflCmp.compare_self
  have hperm : ((b.half side).ladder.toList).Perm (b.half side).index.toList := by
    refine (List.perm_ext_iff_of_nodup hladder hindex).mpr ?_
    rintro ⟨p, k⟩
    rw [h.mem_ladder, Std.ExtTreeMap.mem_toList_iff_getElem?_eq_some]
    rfl
  rw [levelCount, ← Ladder.length_toList, hperm.length_eq, Std.ExtTreeMap.length_toList]

end Stands

namespace WellFormed

variable (h : b.WellFormed)

include h

theorem price_of_level? {l : Level} (hlevel : b.level? side price = some l) : l.price = price := by
  obtain ⟨members, hstands⟩ := h.stands
  obtain ⟨key, hkey, -⟩ := Option.bind_eq_some_iff.mp hlevel
  obtain ⟨l', -, hlabel, hlevel'⟩ := hstands.level?_of_key hkey
  rw [hlevel] at hlevel'
  cases hlevel'
  exact congrArg Prod.snd hlabel

theorem represents_of_level? {l : Level} (hlevel : b.level? side price = some l) :
    l.Represents b.queues.orders (b.slotsAt side price) := by
  obtain ⟨members, hstands⟩ := h.stands
  obtain ⟨key, hkey, hl⟩ := Option.bind_eq_some_iff.mp hlevel
  rw [hstands.slotsAt_of_key hkey]
  exact hstands.places.represents hl

/-- The levels of a side, read off along its ladder. -/
theorem map_levels {α : Type} (side : Side) (f : Level → α) (g : Int32 → α)
    (hfg : ∀ price l, b.level? side price = some l → f l = g price) :
    (b.levels side).map f = ((b.half side).ladder.toList.map Prod.fst).map g := by
  obtain ⟨members, hstands⟩ := h.stands
  unfold levels Ladder.keys
  rw [List.filterMap_map, List.map_filterMap, List.map_map, ← List.filterMap_eq_map]
  refine List.filterMap_congr fun entry he => ?_
  obtain ⟨l, hl, -, hlevel⟩ := hstands.level?_of_key (hstands.mem_ladder.mp he)
  show (b.queues.levels.get? entry.2).map f = some (g entry.1)
  rw [hl, Option.map_some, hfg entry.1 l hlevel]

/-! ## Orders -/

theorem mem_lineUp : slot ∈ b.lineUp side ↔ ∃ o, b.card slot = some o ∧ o.side = side := by
  obtain ⟨members, hstands⟩ := h.stands
  unfold lineUp
  rw [List.mem_flatMap]
  constructor
  · rintro ⟨⟨p, k⟩, -, hs⟩
    obtain ⟨o, ho, hside, -⟩ := h.mem_slotsAt.mp hs
    exact ⟨o, ho, hside⟩
  · rintro ⟨o, ho, rfl⟩
    obtain ⟨k, -, hkey⟩ := h.level_eq ho
    exact ⟨(o.price, k), hstands.mem_ladder.mpr hkey, h.mem_slotsAt.mpr ⟨o, ho, rfl, rfl⟩⟩

theorem nodup_lineUp (side : Side) : (b.lineUp side).Nodup := by
  obtain ⟨members, hstands⟩ := h.stands
  unfold lineUp
  refine List.nodup_flatMap.mpr ⟨fun entry _ => h.nodup_slotsAt side entry.1, ?_⟩
  refine (hstands.pairwise_ladder side).imp ?_
  intro e e' hlt s hs hs'
  obtain ⟨o, ho, -, hprice⟩ := h.mem_slotsAt.mp hs
  obtain ⟨o', ho', -, hprice'⟩ := h.mem_slotsAt.mp hs'
  rw [ho] at ho'
  cases ho'
  rw [hprice] at hprice'
  rw [hprice'] at hlt
  exact Int.lt_irrefl _ hlt

/-- Every order of a side stands once in its line. -/
theorem length_lineUp (side : Side) : (b.lineUp side).length = b.ordersOn side := by
  have hshare : ∀ s, Arena.share (onSide side) (b.queues.orders.get? s) =
      Arena.share (onSide side) (b.card s) := share_card (onSide side) (fun _ => rfl) b
  symm
  refine Arena.total_eq_length (onSide side) (h.nodup_lineUp side) ?_ ?_
  · intro s hs
    obtain ⟨o, ho, hside⟩ := h.mem_lineUp.mp hs
    rw [hshare, ho, Arena.share_some, onSide, if_pos hside]
  · intro s hs
    rw [hshare] at hs
    cases ho : b.card s with
    | none =>
      rw [ho] at hs
      exact absurd rfl hs
    | some o =>
      rw [ho, Arena.share_some, onSide] at hs
      refine h.mem_lineUp.mpr ⟨o, ho, ?_⟩
      by_contra hside
      exact hs (if_neg hside)

theorem size_orders : b.queues.orders.size = b.ordersOn .bid + b.ordersOn .ask := by
  rw [h.tidy.size_eq_total]
  unfold ordersOn Arena.total
  rw [← Finset.sum_add_distrib]
  refine Finset.sum_congr rfl fun k _ => ?_
  cases b.queues.orders.get? k with
  | none => rfl
  | some o =>
    simp only [Arena.share_some, onSide]
    cases o.side <;> rfl

/-- The slots of the index are those in use. -/
theorem mem_indexed : slot ∈ b.index.toList.map Prod.snd ↔
    ∃ p, b.queues.orders.get? slot = some p := by
  rw [List.mem_map]
  constructor
  · rintro ⟨⟨id, s⟩, hs, rfl⟩
    obtain ⟨o, ho, -⟩ := h.index_iff.mp (Std.ExtTreeMap.mem_toList_iff_getElem?_eq_some.mp hs)
    obtain ⟨p, hp, -⟩ := Queues.get?_of_card ho
    exact ⟨p, hp⟩
  · rintro ⟨p, hp⟩
    exact ⟨(p.id, slot), Std.ExtTreeMap.mem_toList_iff_getElem?_eq_some.mpr
      (h.index_iff.mpr ⟨p.bare, Queues.card_eq hp, rfl⟩), rfl⟩

theorem nodup_indexed : (b.index.toList.map Prod.snd).Nodup := by
  rw [List.Nodup, List.pairwise_map]
  refine Std.ExtTreeMap.distinct_keys_toList.imp_of_mem ?_
  rintro ⟨id, s⟩ ⟨id', s'⟩ hs hs' hne heq
  dsimp only at heq
  subst heq
  obtain ⟨o, ho, rfl⟩ := h.index_iff.mp (Std.ExtTreeMap.mem_toList_iff_getElem?_eq_some.mp hs)
  obtain ⟨o', ho', rfl⟩ := h.index_iff.mp (Std.ExtTreeMap.mem_toList_iff_getElem?_eq_some.mp hs')
  rw [ho] at ho'
  cases ho'
  exact hne Std.ReflCmp.compare_self

/-- As many ids are indexed as orders are pooled. -/
theorem size_index : b.index.size = b.queues.orders.size := by
  rw [h.tidy.size_eq_length h.nodup_indexed fun _ => h.mem_indexed, List.length_map,
    Std.ExtTreeMap.length_toList]

/-- Fewer than `2 ^ 32` orders in all are room enough. -/
theorem hasRoom (hsize : b.index.size < 2 ^ 32) : b.HasRoom := by
  obtain ⟨members, hstands⟩ := h.stands
  exact hstands.hasRoom (h.size_index ▸ hsize)

end WellFormed

end Book

end PriceTime
