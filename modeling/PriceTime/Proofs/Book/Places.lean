import PriceTime.Proofs.Queues

/-!
# Orders in their places

Each order names the level that holds it. The queues place their orders when an order is in the list
of the level it names and in no other, and carries the price and the side of that level. An order
that names no level is loose; operations make an order loose before they move it or let it go.

* `Queues.Places.link`, `Queues.Places.cut`: a loose order gets a place, an order loses its place.
* `Queues.Places.requeue`, `Queues.Places.shrink`: an order changes within its level.
* `Queues.Places.revise`: a loose order changes.
-/

namespace PriceTime

namespace Queues

/-- The orders of each level are those that name it, and carry its side and price. -/
structure Places (q : Queues) (members : LevelKey → List Slot) : Prop extends q.Threads members where
  mem_iff : ∀ {key slot}, slot ∈ members key ↔ ∃ o, q.card slot = some o ∧ o.level = some key
  labelled : ∀ {slot o key}, q.card slot = some o → o.level = some key →
    q.label key = some (o.side, o.price)

/-- Send an order to the end of its level, with another size. -/
def sendBack (q : Queues) (key : LevelKey) (slot : Slot) (size : UInt32) (time : UInt64) :
    Except Fault Queues :=
  q.unlink key slot >>= fun r =>
    r.2.update slot (fun order => { order with size, time }) >>= fun q => q.append key slot

namespace Places

variable {q q' : Queues} {members : LevelKey → List Slot} {key : LevelKey} {slot : Slot}
  {l : Level} {o : Order} {f : Order → Order} {room : Prop}

theorem empty : Queues.empty.Places fun _ => [] where
  toThreads := Threads.empty
  mem_iff := by simp [card, Queues.empty]
  labelled h := by simp [card, Queues.empty] at h

theorem loose_of_level (h : q.Places members) (ho : q.card slot = some o) (hlevel : o.level = none)
    (k : LevelKey) : slot ∉ members k := by
  intro hs
  obtain ⟨p, hp, hk⟩ := h.mem_iff.mp hs
  rw [ho] at hp
  cases hp
  rw [hlevel] at hk
  cases hk

/-- A level and an order it holds. -/
theorem exists_level_order (h : q.Places members) (ho : q.card slot = some o)
    (hlevel : o.level = some key) :
    slot ∈ members key ∧ (∃ l, q.levels.get? key = some l ∧ l.label = (o.side, o.price)) ∧
      ∃ p, q.orders.get? slot = some p ∧ p.bare = o :=
  ⟨h.mem_iff.mpr ⟨o, ho, hlevel⟩, get?_of_label (h.labelled ho hlevel), get?_of_card ho⟩

/-- Orders stay in their places when none of them changes its level, side or price. -/
theorem of_alters (h : q.Places members) (hthreads : q'.Threads members)
    (halters : q.Alters slot f q')
    (hf : ∀ o, (f o).level = o.level ∧ (f o).side = o.side ∧ (f o).price = o.price) :
    q'.Places members where
  toThreads := hthreads
  mem_iff := by
    intro k s
    rw [h.mem_iff, halters.card]
    split
    · constructor
      · rintro ⟨p, hp, hk⟩
        exact ⟨f p, by rw [hp]; rfl, by rw [(hf p).1]; exact hk⟩
      · rintro ⟨p, hp, hk⟩
        obtain ⟨p', hp', rfl⟩ := Option.map_eq_some_iff.mp hp
        exact ⟨p', hp', by rw [← (hf p').1]; exact hk⟩
    · rfl
  labelled := by
    intro s p k hp hk
    rw [halters.card] at hp
    rw [halters.label]
    split at hp
    · obtain ⟨p', hp', rfl⟩ := Option.map_eq_some_iff.mp hp
      rw [(hf p').2.1, (hf p').2.2]
      rw [(hf p').1] at hk
      exact h.labelled hp' hk
    · exact h.labelled hp hk

/-- A loose order put at the end of a level of its side and price. -/
theorem link (h : q.Places members) (ho : q.card slot = some o) (hlevel : o.level = none)
    (hlabel : q.label key = some (o.side, o.price)) :
    Yields room (do
      let q ← q.append key slot
      q.update slot fun o => { o with level := some key }) fun q' =>
      q'.Places (Function.update members key (members key ++ [slot])) ∧
        q.Alters slot (fun o => { o with level := some key }) q' := by
  obtain ⟨l, hl, -⟩ := get?_of_label hlabel
  obtain ⟨p, hp, hbare⟩ := get?_of_card ho
  have hloose := h.loose_of_level ho hlevel
  refine (h.append hl hp hloose).bind ?_
  rintro q₁ ⟨hthreads₁, halters₁⟩
  have hcard₁ : q₁.card slot = some o := by rw [halters₁.card, if_pos rfl, ho]; rfl
  obtain ⟨p₁, hp₁, -⟩ := get?_of_card hcard₁
  refine (hthreads₁.update hp₁ (fun o => { o with level := some key }) (fun _ => ⟨rfl, rfl, rfl⟩)
    (fun _ _ => rfl)).mono ?_
  rintro q₂ ⟨hthreads₂, halters₂⟩
  have halters := halters₁.trans halters₂
  refine ⟨⟨hthreads₂, ?_, ?_⟩, halters⟩
  · intro k s
    rw [halters.card]
    by_cases hs : s = slot
    · subst hs
      rw [if_pos rfl, ho]
      by_cases hk : k = key
      · subst hk
        simp
      · rw [Function.update_of_ne hk]
        simp [hloose k, Ne.symm hk]
    · rw [if_neg hs, ← h.mem_iff]
      by_cases hk : k = key
      · subst hk
        simp [hs]
      · rw [Function.update_of_ne hk]
  · intro s p k hp hk
    rw [halters.card] at hp
    rw [halters.label]
    split at hp
    · rename_i hs
      rw [hs, ho] at hp
      cases hp
      cases hk
      exact hlabel
    · exact h.labelled hp hk

/-- An order taken out of its place is loose. -/
theorem cut (h : q.Places members) (ho : q.card slot = some o) (hlevel : o.level = some key) :
    Yields ((members key).length < 2 ^ 32) (do
      let q ← q.update slot fun o => { o with level := none }
      q.unlink key slot) fun r =>
      r.2.Places (Function.update members key ((members key).erase slot)) ∧
        q.Alters slot (fun o => { o with level := none }) r.2 := by
  obtain ⟨hslot, ⟨l, hl, hlabel⟩, p, hp, hbare⟩ := h.exists_level_order ho hlevel
  refine (h.update hp (fun o => { o with level := none }) (fun _ => ⟨rfl, rfl, rfl⟩)
    (fun _ _ => rfl)).bind ?_
  rintro q₁ ⟨hthreads₁, halters₁⟩
  obtain ⟨l₁, hl₁, -⟩ := get?_of_label ((halters₁.label key).trans (label_eq hl))
  have hcard₁ : q₁.card slot = some { o with level := none } := by
    rw [halters₁.card, if_pos rfl, ho]
    rfl
  obtain ⟨p₁, hp₁, -⟩ := get?_of_card hcard₁
  refine (hthreads₁.unlink hl₁ hslot hp₁).mono ?_
  rintro ⟨size, q₂⟩ ⟨-, hthreads₂, halters₂⟩
  have halters := halters₁.trans halters₂
  refine ⟨⟨hthreads₂, ?_, ?_⟩, halters⟩
  · intro k s
    rw [halters.card]
    by_cases hs : s = slot
    · subst hs
      rw [if_pos rfl, ho]
      by_cases hk : k = key
      · subst hk
        simp [(h.nodup k).mem_erase_iff]
      · rw [Function.update_of_ne hk]
        simp only [Option.map_some, Function.comp_apply, id, Option.some.injEq, exists_eq_left',
          reduceCtorEq, iff_false]
        exact fun hs => hk (h.disjoint hs hslot)
    · rw [if_neg hs, ← h.mem_iff]
      by_cases hk : k = key
      · subst hk
        simp [List.mem_erase_of_ne hs]
      · rw [Function.update_of_ne hk]
  · intro s p k hp hk
    rw [halters.card] at hp
    rw [halters.label]
    split at hp
    · rename_i hs
      rw [hs, ho] at hp
      cases hp
      cases hk
    · exact h.labelled hp hk

/-- An order goes to the end of its own level, with another size. -/
theorem requeue (h : q.Places members) (ho : q.card slot = some o) (hlevel : o.level = some key)
    (size : UInt32) (time : UInt64) :
    Yields ((members key).length < 2 ^ 32) (q.sendBack key slot size time) fun q' =>
      q'.Places (Function.update members key ((members key).erase slot ++ [slot])) ∧
        q.Alters slot (fun o => { o with size, time }) q' := by
  obtain ⟨hslot, ⟨l, hl, hlabel⟩, p, hp, hbare⟩ := h.exists_level_order ho hlevel
  refine (h.unlink hl hslot hp).bind ?_
  rintro ⟨_, q₁⟩ ⟨-, hthreads₁, halters₁⟩
  -- Between the two links `slot` is in no queue while its order still names `key`: only the threads
  -- hold there, and the places are made good at the end.
  have hloose : ∀ k, slot ∉ Function.update members key ((members key).erase slot) k := by
    intro k hs
    by_cases hk : k = key
    · subst hk
      rw [Function.update_self] at hs
      exact (h.nodup k).not_mem_erase hs
    · rw [Function.update_of_ne hk] at hs
      exact hk (h.disjoint hs hslot)
  have hcard₁ : q₁.card slot = some o := by rw [halters₁.card, if_pos rfl, ho]; rfl
  obtain ⟨p₁, hp₁, -⟩ := get?_of_card hcard₁
  refine (hthreads₁.update hp₁ (fun o => { o with size, time }) (fun _ => ⟨rfl, rfl, rfl⟩)
    (fun k hs => absurd hs (hloose k))).bind ?_
  rintro q₂ ⟨hthreads₂, halters₂⟩
  have halters₁₂ := halters₁.trans halters₂
  obtain ⟨l₂, hl₂, -⟩ := get?_of_label ((halters₁₂.label key).trans (label_eq hl))
  have hcard₂ : q₂.card slot = some { o with size, time } := by
    rw [halters₁₂.card, if_pos rfl, ho]
    rfl
  obtain ⟨p₂, hp₂, -⟩ := get?_of_card hcard₂
  refine (hthreads₂.append hl₂ hp₂ hloose).mono ?_
  rintro q₃ ⟨hthreads₃, halters₃⟩
  rw [Function.update_self, Function.update_idem] at hthreads₃
  have halters := halters₁₂.trans halters₃
  refine ⟨⟨hthreads₃, ?_, ?_⟩, halters⟩
  · intro k s
    rw [halters.card]
    by_cases hs : s = slot
    · subst hs
      rw [if_pos rfl, ho]
      by_cases hk : k = key
      · subst hk
        simp [hlevel]
      · rw [Function.update_of_ne hk]
        constructor
        · exact fun hs => absurd (h.disjoint hs hslot) hk
        · rintro ⟨p, hp, hlev⟩
          cases hp
          exact h.mem_iff.mpr ⟨o, ho, hlev⟩
    · rw [if_neg hs, ← h.mem_iff]
      by_cases hk : k = key
      · subst hk
        simp [List.mem_erase_of_ne hs, hs]
      · rw [Function.update_of_ne hk]
  · intro s p k hp hk
    rw [halters.card] at hp
    rw [halters.label]
    split at hp
    · rename_i hs
      rw [hs, ho] at hp
      cases hp
      have hlevel' : o.level = some k := hk
      exact (h.labelled ho hlevel' :)
    · exact h.labelled hp hk

/-- An order of a level gets smaller in its place, and the sum of the level with it. -/
theorem shrink {lost : UInt32} (h : q.Places members) (ho : q.card slot = some o)
    (hlevel : o.level = some key) (hl : q.levels.get? key = some l) (f : Order → Order)
    (hlinks : KeepsLinks f)
    (hf : ∀ o, (f o).level = o.level ∧ (f o).side = o.side ∧ (f o).price = o.price)
    (hsize : ∀ p : Order, p.bare = o → (f p).size.toNat + lost.toNat = p.size.toNat) :
    Yields ((members key).length < 2 ^ 32)
      (l.reduce lost >>= fun l' => .ok ⟨q.orders.modify slot f, q.levels.set key l'⟩) fun q' =>
      q'.Places members ∧ q.Alters slot f q' := by
  obtain ⟨hslot, -, p, hp, hbare⟩ := h.exists_level_order ho hlevel
  refine (h.toThreads.shrink hl hslot hp hlinks (hsize p hbare)).mono ?_
  rintro q' ⟨hthreads, halters⟩
  exact ⟨h.of_alters hthreads halters hf, halters⟩

/-- A loose order can change in every way, as long as it stays loose. -/
theorem revise (h : q.Places members) (ho : q.card slot = some o) (hlevel : o.level = none)
    (f : Order → Order) (hlinks : KeepsLinks f) (hloose : (f o).level = none) :
    Yields room (q.update slot f) fun q' => q'.Places members ∧ q.Alters slot f q' := by
  obtain ⟨p, hp, hbare⟩ := get?_of_card ho
  have hnot := h.loose_of_level ho hlevel
  refine (h.update hp f hlinks fun k hs => absurd hs (hnot k)).mono ?_
  rintro q' ⟨hthreads, halters⟩
  have hcard : q'.card slot = some (f o) := by
    rw [halters.card, if_pos rfl, ho]
    rfl
  refine ⟨⟨hthreads, ?_, ?_⟩, halters⟩
  · intro k s
    by_cases hs : s = slot
    · subst hs
      rw [hcard]
      simp [hnot k, hloose]
    · rw [h.mem_iff, halters.card, if_neg hs]
  · intro s p k hp hk
    rw [halters.label]
    by_cases hs : s = slot
    · rw [hs, hcard] at hp
      cases hp
      rw [hloose] at hk
      cases hk
    · rw [halters.card, if_neg hs] at hp
      exact h.labelled hp hk

/-! ## Orders and levels come and go -/

/-- A new order is loose. -/
theorem acquire (h : q.Places members) (hprev : o.prev = none) (hnext : o.next = none)
    (hlevel : o.level = none) : (q.acquire o).2.Places members where
  toThreads := h.toThreads.acquire hprev hnext
  mem_iff := by
    intro k s
    rw [h.mem_iff, h.card_acquire]
    split
    · rename_i hs
      have hnone : q.card s = none := by
        rw [hs, card_eq_none_iff]
        exact h.orders_tidy.get?_nextKey
      have hbare : o.bare.level = none := hlevel
      simp [hnone, hbare]
    · rfl
  labelled := by
    intro s p k hp hk
    rw [h.card_acquire] at hp
    rw [show (q.acquire o).2.label k = q.label k by rw [Threads.acquire_eq]; rfl]
    split at hp
    · cases hp
      rw [show o.bare.level = none from hlevel] at hk
      cases hk
    · exact h.labelled hp hk

/-- A loose order lets go of its slot. -/
theorem release (h : q.Places members) (ho : q.card slot = some o) (hlevel : o.level = none) :
    (Queues.mk (q.orders.vacate slot) q.levels).Places members where
  toThreads := by
    obtain ⟨p, hp, -⟩ := get?_of_card ho
    exact h.toThreads.release hp (h.loose_of_level ho hlevel)
  mem_iff := by
    intro k s
    rw [h.mem_iff, Threads.card_vacate]
    split
    · rename_i hs
      rw [hs, ho]
      simp [hlevel]
    · rfl
  labelled := by
    intro s p k hp hk
    rw [Threads.card_vacate] at hp
    split at hp
    · cases hp
    · exact h.labelled hp hk

theorem openLevel (h : q.Places members) (price : Int32) (side : Side) :
    (q.openLevel price side).2.Places members where
  toThreads := h.toThreads.openLevel price side
  mem_iff := by
    intro k s
    rw [h.mem_iff, Threads.openLevel_eq]
    rfl
  labelled := by
    intro s p k hp hk
    have hp' : q.card s = some p := by
      rw [Threads.openLevel_eq] at hp
      exact hp
    rw [h.label_openLevel, if_neg]
    · exact h.labelled hp' hk
    · rintro rfl
      have hlabel := h.labelled hp' hk
      rw [label, h.levels_tidy.get?_nextKey] at hlabel
      cases hlabel

theorem closeLevel (h : q.Places members) (hl : q.levels.get? key = some l)
    (hempty : members key = []) : (q.closeLevel key).Places members where
  toThreads := h.toThreads.closeLevel hl hempty
  mem_iff := h.mem_iff
  labelled := by
    intro s p k hp hk
    rw [Threads.label_closeLevel, if_neg]
    · exact h.labelled hp hk
    · rintro rfl
      have hs := h.mem_iff.mpr ⟨p, hp, hk⟩
      rw [hempty] at hs
      cases hs

end Places

end Queues

end PriceTime
