import PriceTime.Proofs.Book.Fate
import PriceTime.Proofs.Operation

/-!
# Slots and levels are used again

A slot that is given back is handed out again before a new one is used, and so it is with the keys
of levels. So the slots in use stay below the largest number of orders that rested at a time since
the last new start, and the keys below the largest number of levels. An order keeps its slot until
it leaves.

* `Book.Performs.recycles`: an operation uses a new place only where none is free.
* `Book.Performs.slot_kept`: what an operation does to the slot of an order.
* `Session.call_within`, `Session.run_within`: the places ever used stay within the peaks.
* `Session.run_recycles`: what holds of slots and keys along a run.
-/

namespace PriceTime

namespace Book

variable {b b' : Book} {key : LevelKey} {slot : Slot} {id : UInt64} {side : Side} {price : Int32}
  {size : UInt32} {time : UInt64} {o : Order} {events : List Event} {report report' : TradeReport}
  {op : Operation} {result : Except BookError Applied}

/-! ## New slots and new levels -/

/-- `b'` came out of `b` and uses no new slot and no new level where an old one was free. -/
structure Recycles (b b' : Book) : Prop where
  orders : b.queues.orders.Recycles b'.queues.orders
  levels : b.queues.levels.Recycles b'.queues.levels

theorem recycles_self (b : Book) : b.Recycles b :=
  ⟨Arena.recycles_of_le (Nat.le_refl _), Arena.recycles_of_le (Nat.le_refl _)⟩

theorem Added.recycles (hadded : b.Added o b' events) : b.Recycles b' := by
  refine ⟨(Arena.recycles_insert _ _).of_sameRoom hadded.orders_room,
    Arena.Recycles.of_sameRoom ?_ hadded.levels_room⟩
  split
  · exact Arena.recycles_of_le (Nat.le_refl _)
  · exact Arena.recycles_insert _ _

theorem size_levelsWithout_le (b : Book) (slot : Slot) (o : Order) (key : LevelKey) :
    (b.levelsWithout slot o key).places.size ≤ b.queues.levels.places.size := by
  unfold levelsWithout
  split
  · exact Nat.le_of_eq (Arena.size_places_vacate ..)
  · exact Nat.le_refl _

/-- No slot and no level is ever new when an order leaves. -/
theorem Removed.places_le (hremoved : b.Removed slot o key b' events) :
    b'.queues.orders.places.size ≤ b.queues.orders.places.size ∧
      b'.queues.levels.places.size ≤ b.queues.levels.places.size := by
  rw [hremoved.orders_room.size, hremoved.levels_room.size]
  exact ⟨Nat.le_of_eq (Arena.size_places_vacate ..), b.size_levelsWithout_le slot o key⟩

theorem Alters.recycles {f : Order → Order} {slots : List Slot}
    (halters : b.Alters slot f side price slots b') : b.Recycles b' :=
  ⟨Arena.recycles_of_le (Nat.le_of_eq halters.orders_room.size),
    Arena.recycles_of_le (Nat.le_of_eq halters.levels_room.size)⟩

/-- The old level of an order is free for its new one, if the order was the last one there. -/
theorem Repriced.recycles {key' : LevelKey}
    (hrepriced : b.Repriced slot o key price size time key' b' events) : b.Recycles b' := by
  refine ⟨Arena.recycles_of_le (Nat.le_of_eq hrepriced.orders_room.size),
    Arena.Recycles.of_sameRoom ?_ hrepriced.levels_room⟩
  have hle := b.size_levelsWithout_le slot o key
  split
  · exact Arena.recycles_of_le hle
  · exact (Arena.recycles_insert _ _).of_le hle

theorem Modified.recycles {result : Except BookError ModifyOutcome}
    (hmodified : b.Modified id price size side time result b' events) : b.Recycles b' := by
  cases hmodified with
  | added _ hadded => exact hadded.recycles
  | rejected => exact b.recycles_self
  | repriced _ _ _ _ _ hrepriced => exact hrepriced.recycles
  | requeued _ _ _ _ _ halters => exact halters.recycles
  | resized _ _ _ _ _ halters => exact halters.recycles

theorem Matches.places_le (hmatches : Matches side price b report b' report' events) :
    b'.queues.orders.places.size ≤ b.queues.orders.places.size ∧
      b'.queues.levels.places.size ≤ b.queues.levels.places.size := by
  induction hmatches with
  | spent => exact ⟨Nat.le_refl _, Nat.le_refl _⟩
  | exhausted => exact ⟨Nat.le_refl _, Nat.le_refl _⟩
  | part _ _ _ _ halters =>
    exact ⟨Nat.le_of_eq halters.orders_room.size, Nat.le_of_eq halters.levels_room.size⟩
  | whole _ _ _ _ _ hremoved _ _ ih =>
    obtain ⟨horders, hlevels⟩ := hremoved.places_le
    exact ⟨ih.1.trans horders, ih.2.trans hlevels⟩

/-- An operation uses a new slot or a new level only where none is free. -/
theorem Performs.recycles (hperforms : b.Performs op result b') : b.Recycles b' := by
  cases hperforms with
  | added _ hadded => exact hadded.recycles
  | duplicate => exact b.recycles_self
  | cancelled _ _ hremoved =>
    obtain ⟨horders, hlevels⟩ := hremoved.places_le
    exact ⟨Arena.recycles_of_le horders, Arena.recycles_of_le hlevels⟩
  | unknown => exact b.recycles_self
  | modified hmodified => exact hmodified.recycles
  | traded htraded =>
    cases htraded with
    | missed => exact b.recycles_self
    | met _ hmatches =>
      obtain ⟨horders, hlevels⟩ := hmatches.places_le
      exact ⟨Arena.recycles_of_le horders, Arena.recycles_of_le hlevels⟩

/-! ## The slot of an order -/

/-- How the order with an id leaves a book: it is cancelled, or it is filled by a trade at its price
against its side that takes at least its size. -/
inductive Leaves (b : Book) (id : UInt64) : Operation → Except BookError Applied → Prop where
  | cancelled : Leaves b id (.cancel id) (.ok (.cancelled id))
  | filled {aggressor : UInt64} {size : UInt32} {side : Side} {report : TradeReport} {o : Order}
      (ho : b.get? id = some o) (hside : o.side = side.opposite) (hsize : o.size ≤ report.traded) :
      Leaves b id (.trade aggressor o.price size side) (.ok (.traded report))

/-- An order that has left its slot has left the book, where no order comes in. -/
theorem WellFormed.index_eq_none_of_left (h : b.WellFormed) (h' : b'.WellFormed)
    (ho : b.card slot = some o) (hleft : b'.card slot = none)
    (hback : ∀ s o', b'.card s = some o' → ∃ p, b.card s = some p ∧ p.id = o'.id) :
    b'.index[o.id]? = none := by
  rw [h'.index_eq_none_iff]
  intro s o' ho' hid
  obtain ⟨p, hp, hpid⟩ := hback s o' ho'
  obtain rfl : s = slot := h.slot_unique hp ho (hpid.trans hid)
  rw [hleft] at ho'
  cases ho'

/-- What is left of an order after a trade was an order with the same id. -/
theorem Traded.exists_card {o' : Order} (htraded : b.Traded id price size side report b' events)
    (h : b.WellFormed) (ho' : b'.card slot = some o') :
    ∃ o, b.card slot = some o ∧ o.id = o'.id := by
  cases ho : b.card slot with
  | none =>
    rw [htraded.card_eq_none ho] at ho'
    cases ho'
  | some o =>
    refine ⟨o, rfl, ?_⟩
    have hfate := htraded.fate h ho
    rw [ho'] at hfate
    cases hfate with
    | kept => rfl

/-- An order that stays in its slot stays in the index. -/
theorem Modified.slot_kept {i : UInt64} {result : Except BookError ModifyOutcome}
    (hmodified : b.Modified id price size side time result b' events) (h : b.WellFormed)
    (h' : b'.WellFormed) (hslot : b.index[i]? = some slot) : b'.index[i]? = some slot := by
  obtain ⟨o, ho, rfl⟩ := h.index_iff.mp hslot
  have hrevised : ∀ {changed : Slot} {p p' : Order}, b.card changed = some p →
      (∀ s, b'.card s = if s = changed then some p' else b.card s) → p'.id = p.id →
      b'.index[o.id]? = some slot := by
    intro changed p p' hp hcard hid
    rw [h'.index_iff, hcard]
    split
    · rename_i hs
      subst hs
      obtain rfl := Option.some.inj (hp.symm.trans ho)
      exact ⟨p', rfl, hid⟩
    · exact ⟨o, ho, rfl⟩
  cases hmodified with
  | added _ hadded =>
    have hother : slot ≠ b.queues.orders.nextKey := by
      rintro rfl
      rw [card_nextKey h] at ho
      cases ho
    exact h'.index_iff.mpr ⟨o, (hadded.card_eq slot).trans ((if_neg hother).trans ho), rfl⟩
  | rejected => exact hslot
  | repriced _ hp _ _ _ hrepriced => exact hrevised hp hrepriced.card_eq rfl
  | requeued _ hp _ _ _ halters => exact hrevised hp (halters.card_of hp) rfl
  | resized _ hp _ _ _ halters => exact hrevised hp (halters.card_of hp) rfl

/-- Only an add answers with a slot, the one of the new order. -/
theorem Performs.of_added (hperforms : b.Performs op (.ok (.added slot)) b') (h' : b'.WellFormed) :
    ∃ id price size side time, op = .add id price size side time ∧ b'.index[id]? = some slot := by
  generalize hadded : (Except.ok (.added slot) : Except BookError Applied) = result at hperforms
  cases hperforms with
  | @added id price size side time _ events hnew hadds =>
    cases hadded
    refine ⟨id, price, size, side, time, rfl, h'.index_iff.mpr ?_⟩
    exact ⟨_, (hadds.card_eq _).trans (if_pos rfl), rfl⟩
  | @modified _ _ _ _ _ _ _ result => cases result <;> cases hadded
  | _ => cases hadded

/-- An order keeps its slot until it leaves. -/
theorem Performs.slot_kept (hperforms : b.Performs op result b') (h : b.WellFormed)
    (h' : b'.WellFormed) (hslot : b.index[id]? = some slot) :
    b'.index[id]? = some slot ∨ b'.index[id]? = none ∧ b.Leaves id op result := by
  obtain ⟨o, ho, rfl⟩ := h.index_iff.mp hslot
  cases hperforms with
  | added hnew hadded => exact .inl ((Modified.added hnew hadded).slot_kept h h' hslot)
  | duplicate => exact .inl hslot
  | @cancelled id slot' p key _ events hid hp hremoved =>
    have hcard := hremoved.card_eq slot
    by_cases hs : slot = slot'
    · subst hs
      obtain rfl := Option.some.inj (hp.symm.trans ho)
      obtain rfl := h.id_eq hid hp
      rw [if_pos rfl] at hcard
      refine .inr ⟨h.index_eq_none_of_left h' hp hcard ?_, .cancelled⟩
      intro s o' ho'
      rw [hremoved.card_eq] at ho'
      split at ho'
      · cases ho'
      · exact ⟨o', ho', rfl⟩
    · exact .inl (h'.index_iff.mpr ⟨o, hcard.trans ((if_neg hs).trans ho), rfl⟩)
  | unknown => exact .inl hslot
  | modified hmodified => exact .inl (hmodified.slot_kept h h' hslot)
  | traded htraded =>
    have hfate := htraded.fate h ho
    generalize hcard : b'.card slot = left at hfate
    cases hfate with
    | kept => exact .inl (h'.index_iff.mpr ⟨_, hcard, rfl⟩)
    | filled hside hprice htaken =>
      subst hprice
      obtain ⟨p, hget, rfl⟩ := get?_of_card hslot ho
      refine .inr ⟨h.index_eq_none_of_left h' ho hcard fun s o' => htraded.exists_card h, ?_⟩
      exact .filled (o := p) hget hside (UInt32.le_iff_toNat_le.mpr htaken)

end Book

/-! ## Peaks -/

/-- The most orders and the most levels that were there at a time. -/
structure Peaks where
  orders : Nat := 0
  levels : Nat := 0
deriving DecidableEq

/-- The peaks once a book is seen. -/
def Peaks.see (peaks : Peaks) (b : Book) : Peaks where
  orders := max peaks.orders b.index.size
  levels := max peaks.levels (b.levelCount .bid + b.levelCount .ask)

/-- As many places were ever used as the peaks say, at most. -/
structure Book.Within (b : Book) (peaks : Peaks) : Prop where
  orders : b.queues.orders.places.size ≤ peaks.orders
  levels : b.queues.levels.places.size ≤ peaks.levels

/-- The slots and the keys in use are below the peaks, and no slot is used twice. -/
structure Book.Frugal (b : Book) (peaks : Peaks) : Prop where
  slot_lt : ∀ {id : UInt64} {slot}, b.index[id]? = some slot → slot < peaks.orders
  id_unique : ∀ {id id' : UInt64} {slot}, b.index[id]? = some slot → b.index[id']? = some slot → id = id'
  key_lt : ∀ {key}, b.queues.levels.get? key ≠ none → key < peaks.levels
  levelKey_lt : ∀ {side price key}, b.levelKey? side price = some key → key < peaks.levels

namespace Book

variable {b b' : Book} {peaks : Peaks}

theorem within_empty : Book.empty.Within {} :=
  ⟨Nat.le_refl _, Nat.le_refl _⟩

theorem Within.see (hwithin : b.Within peaks) (hrecycles : b.Recycles b') (h' : b'.WellFormed) :
    b'.Within (peaks.see b') := by
  refine ⟨hrecycles.orders.trans ?_, hrecycles.levels.trans ?_⟩
  · rw [← h'.size_index]
    exact max_le_max_right _ hwithin.orders
  · rw [h'.size_levels]
    exact max_le_max_right _ hwithin.levels

theorem Within.frugal (hwithin : b.Within peaks) (h : b.WellFormed) : b.Frugal peaks := by
  have hkey : ∀ {key}, b.queues.levels.get? key ≠ none → key < peaks.levels := by
    intro key hkey
    obtain ⟨level, hlevel⟩ := Option.ne_none_iff_exists'.mp hkey
    exact (Arena.lt_size_of_get? hlevel).trans_le hwithin.levels
  refine ⟨?_, ?_, hkey, ?_⟩
  · intro id slot hslot
    obtain ⟨o, ho, -⟩ := h.index_iff.mp hslot
    obtain ⟨p, hp, -⟩ := Queues.get?_of_card ho
    exact (Arena.lt_size_of_get? hp).trans_le hwithin.orders
  · intro id id' slot hslot hslot'
    obtain ⟨o, ho, rfl⟩ := h.index_iff.mp hslot
    exact h.id_eq hslot' ho
  · intro side price key hprice
    obtain ⟨members, hstands⟩ := h.stands
    obtain ⟨level, hlevel, -⟩ := hstands.level?_of_key hprice
    exact hkey (hlevel ▸ Option.some_ne_none level)

end Book

namespace Session

variable {s s' : Session} {id : UInt64} {slot : Slot} {call : Call} {calls : List Call}
  {answer : Answer} {events : List Event} {log : List (Answer × List Event)} {past : Peaks}

/-- The peaks since the last new start, once a session has done some calls. -/
def peaks (s : Session) (past : Peaks) : List Call → Peaks
  | [] => past
  | call :: calls =>
    match s.call call with
    | .ok (_, s', _) => s'.peaks (if call.isReset then {} else past.see s'.book) calls
    | .error _ => past

/-- Whether the order with an id rests all the time while a session does some calls. -/
def rests (s : Session) (id : UInt64) : List Call → Bool
  | [] => s.book.contains id
  | call :: calls => s.book.contains id &&
    match s.call call with
    | .ok (_, s', _) => s'.rests id calls
    | .error _ => true

/-- How the order with an id leaves in a call. -/
def Leaves (s : Session) (id : UInt64) (call : Call) (answer : Answer) : Prop :=
  call.isReset ∨ ∃ op result, call.operation? = some op ∧ answer.applied? = some result ∧
    s.book.Leaves id op result

/-! ## One call -/

theorem call_within (h : s.book.WellFormed) (hwithin : s.book.Within past)
    (hcall : s.call call = .ok (answer, s', events)) :
    s'.book.WellFormed ∧
      s'.book.Within (if call.isReset then {} else past.see s'.book) := by
  have h' := ((call_follows h call).sound _ hcall).wellFormed
  refine ⟨h', ?_⟩
  split
  · rename_i hreset
    rw [book_of_reset h hreset hcall]
    exact Book.within_empty
  · rename_i hother
    cases hop : call.operation? with
    | none =>
      have hsame := (call_idles h hop hcall).2
      rw [if_neg hother] at hsame
      exact hwithin.see (hsame ▸ s.book.recycles_self) h'
    | some op =>
      obtain ⟨-, result, -, hperforms⟩ := call_performs h hop hcall
      exact hwithin.see hperforms.recycles h'

/-- An order keeps its slot in a call, or leaves in it. -/
theorem call_slot_kept (h : s.book.WellFormed) (hcall : s.call call = .ok (answer, s', events))
    (hslot : s.book.index[id]? = some slot) :
    s'.book.index[id]? = some slot ∨ s'.book.index[id]? = none ∧ s.Leaves id call answer := by
  cases hop : call.operation? with
  | none =>
    have hsame := (call_idles h hop hcall).2
    split at hsame
    · rename_i hreset
      rw [hsame]
      exact .inr ⟨Std.ExtTreeMap.getElem?_empty, .inl hreset⟩
    · rw [hsame]
      exact .inl hslot
  | some op =>
    obtain ⟨h', result, hanswer, hperforms⟩ := call_performs h hop hcall
    rcases hperforms.slot_kept h h' hslot with hkept | ⟨hnone, hleaves⟩
    · exact .inl hkept
    · exact .inr ⟨hnone, .inr ⟨op, result, hop, hanswer, hleaves⟩⟩

/-- An accepted add answers with the slot of the new order. -/
theorem call_added (h : s.book.WellFormed) (hcall : s.call call = .ok (answer, s', events))
    (hanswer : answer.applied? = some (.ok (.added slot))) :
    ∃ id price size side time, call.operation? = some (.add id price size side time) ∧
      s'.book.index[id]? = some slot := by
  cases hop : call.operation? with
  | none =>
    rw [(call_idles h hop hcall).1] at hanswer
    cases hanswer
  | some op =>
    obtain ⟨h', result, hresult, hperforms⟩ := call_performs h hop hcall
    obtain rfl : result = .ok (.added slot) := Option.some.inj (hresult.symm.trans hanswer)
    obtain ⟨id, price, size, side, time, rfl, hslot⟩ := hperforms.of_added h'
    exact ⟨id, price, size, side, time, rfl, hslot⟩

/-! ## A run -/

theorem run_within (h : s.book.WellFormed) (hwithin : s.book.Within past)
    (hrun : s.run calls = .ok (s', log)) :
    s'.book.WellFormed ∧ s'.book.Within (s.peaks past calls) := by
  induction calls generalizing s past log with
  | nil =>
    cases hrun
    exact ⟨h, hwithin⟩
  | cons call calls ih =>
    obtain ⟨answer, s₁, events, rest, hcall, hrest, rfl⟩ := exists_of_run_cons hrun
    obtain ⟨h₁, hwithin₁⟩ := call_within h hwithin hcall
    rw [Session.peaks, hcall]
    exact ih h₁ hwithin₁ hrest

theorem peaks_append (hrun : s.run calls = .ok (s', log)) (more : List Call) :
    s.peaks past (calls ++ more) = s'.peaks (s.peaks past calls) more := by
  induction calls generalizing s past log with
  | nil =>
    cases hrun
    rfl
  | cons call calls ih =>
    obtain ⟨answer, s₁, events, rest, hcall, hrest, rfl⟩ := exists_of_run_cons hrun
    rw [List.cons_append, Session.peaks, Session.peaks, hcall]
    exact ih hrest

theorem contains_of_rests (hrests : s.rests id calls) : s.book.contains id := by
  cases calls with
  | nil => exact hrests
  | cons => exact (Bool.and_eq_true_iff.mp hrests).1

/-- An order that rests all the time keeps its slot. -/
theorem run_slot_kept (h : s.book.WellFormed) (hrun : s.run calls = .ok (s', log))
    (hrests : s.rests id calls) : s'.book.index[id]? = s.book.index[id]? := by
  induction calls generalizing s log with
  | nil =>
    cases hrun
    rfl
  | cons call calls ih =>
    obtain ⟨answer, s₁, events, rest, hcall, hrest, rfl⟩ := exists_of_run_cons hrun
    have h₁ := ((call_follows h call).sound _ hcall).wellFormed
    have hcontains := contains_of_rests hrests
    have hrests₁ : s₁.rests id calls := by
      rw [rests, hcall] at hrests
      exact (Bool.and_eq_true_iff.mp hrests).2
    have hcontains₁ := contains_of_rests hrests₁
    rw [Book.contains, Std.ExtTreeMap.contains_eq_isSome_getElem?] at hcontains hcontains₁
    obtain ⟨slot, hslot⟩ := Option.isSome_iff_exists.mp hcontains
    rw [ih h₁ hrest hrests₁, hslot]
    rcases call_slot_kept h hcall hslot with hkept | ⟨hnone, -⟩
    · exact hkept
    · rw [hnone] at hcontains₁
      cases hcontains₁

/-- Along every run from a fresh session, the slots in use are below the largest number of orders
that rested at a time since the last new start, the keys of levels in use are below the largest
number of levels, and no two orders share a slot. Whatever is done next, an add that is accepted
answers with the slot its order gets, which is below the peak that counts this order; and an order
keeps its slot, or leaves. So an order that rests all the time keeps its slot all the time. -/
theorem run_recycles (config : BookConfig) (calls : List Call) :
    ((ofConfig config).Roomy calls → ∃ s log, (ofConfig config).run calls = .ok (s, log)) ∧
      ∀ s log, (ofConfig config).run calls = .ok (s, log) →
        s.book.Frugal ((ofConfig config).peaks {} calls) ∧
        (∀ call answer s' events, s.call call = .ok (answer, s', events) →
          (∀ slot, answer.applied? = some (.ok (.added slot)) →
            slot < ((ofConfig config).peaks {} (calls ++ [call])).orders ∧
            ∃ id price size side time, call.operation? = some (.add id price size side time) ∧
              s'.book.index[id]? = some slot) ∧
          ∀ id slot, s.book.index[id]? = some slot → s'.book.index[id]? = some slot ∨
            s'.book.index[id]? = none ∧ s.Leaves id call answer) ∧
        ∀ more s' log' id, s.run more = .ok (s', log') → s.rests id more →
          s'.book.index[id]? = s.book.index[id]? := by
  have hfresh : (ofConfig config).book.WellFormed := Book.WellFormed.empty
  refine ⟨?_, ?_⟩
  · intro hroom
    obtain ⟨⟨s, log⟩, heq⟩ := (run_wellFormed hfresh calls).answers hroom
    exact ⟨s, log, heq⟩
  intro s log hrun
  obtain ⟨h, hwithin⟩ := run_within hfresh Book.within_empty hrun
  refine ⟨hwithin.frugal h, ?_, ?_⟩
  · intro call answer s' events hcall
    refine ⟨?_, fun id slot hslot => call_slot_kept h hcall hslot⟩
    intro slot hanswer
    obtain ⟨id, price, size, side, time, hop, hslot⟩ := call_added h hcall hanswer
    obtain ⟨h', hwithin'⟩ := call_within h hwithin hcall
    refine ⟨?_, id, price, size, side, time, hop, hslot⟩
    rw [peaks_append hrun, Session.peaks, hcall]
    exact (hwithin'.frugal h').slot_lt hslot
  · intro more s' log' id hmore hrests
    exact run_slot_kept h hmore hrests

/-- A slot and a level that are used again, another order next, and an order alone in its level that
moves to another price and is traded in part. -/
theorem run_recycles_first_slot :
    ∃ s log s' s'' log' answer events, (ofConfig {}).run [.add 7 101 1 .ask 0, .reset,
        .add 1 100 5 .bid 1, .add 2 99 4 .ask 2, .remove 1, .add 3 98 6 .bid 3] = .ok (s, log) ∧
      s.book.Frugal ⟨2, 2⟩ ∧ s.book.index[(3 : UInt64)]? = some 0 ∧
      s.call (.process ⟨.add, 4, 98, 1, .bid, 4⟩) = .ok (answer, s', events) ∧
      answer.applied? = some (.ok (.added 2)) ∧ s'.book.index[(4 : UInt64)]? = some 2 ∧
      s.run [.modify 3 97 6 .bid 5, .trade 9 97 2 .ask] = .ok (s'', log') ∧
      s''.book.index[(3 : UInt64)]? = some 0 := by
  obtain ⟨hanswers, hall⟩ := run_recycles {} [.add 7 101 1 .ask 0, .reset, .add 1 100 5 .bid 1,
    .add 2 99 4 .ask 2, .remove 1, .add 3 98 6 .bid 3]
  obtain ⟨s, log, hrun⟩ := hanswers (roomy_of_length_lt _ _ (by decide))
  obtain ⟨hfrugal, hnext, hmore⟩ := hall s log hrun
  have hpeaks : (ofConfig {}).peaks {} [.add 7 101 1 .ask 0, .reset, .add 1 100 5 .bid 1,
      .add 2 99 4 .ask 2, .remove 1, .add 3 98 6 .bid 3] = ⟨2, 2⟩ := by decide +kernel
  have heval : ((ofConfig {}).run [.add 7 101 1 .ask 0, .reset, .add 1 100 5 .bid 1,
      .add 2 99 4 .ask 2, .remove 1, .add 3 98 6 .bid 3]).map (fun r =>
        (r.1.book.index[(3 : UInt64)]?,
          (r.1.call (.process ⟨.add, 4, 98, 1, .bid, 4⟩)).map fun r => r.1.applied?,
          r.1.rests 3 [.modify 3 97 6 .bid 5, .trade 9 97 2 .ask],
          (r.1.run [.modify 3 97 6 .bid 5, .trade 9 97 2 .ask]).isOk)) =
      .ok (some 0, .ok (some (.ok (.added 2))), true, true) := by decide +kernel
  rw [hrun] at heval
  obtain ⟨hslot, heval⟩ := Prod.mk.inj (Except.ok.inj heval)
  obtain ⟨hadd, heval⟩ := Prod.mk.inj heval
  obtain ⟨hrests, hok⟩ := Prod.mk.inj heval
  cases hcall : s.call (.process ⟨.add, 4, 98, 1, .bid, 4⟩) with
  | error fault =>
    rw [hcall] at hadd
    cases hadd
  | ok r =>
    obtain ⟨answer, s', events⟩ := r
    rw [hcall] at hadd
    have hanswer := Except.ok.inj hadd
    obtain ⟨-, id, price, size, side, time, hop, hindex⟩ := (hnext _ _ _ _ hcall).1 2 hanswer
    cases hop
    cases hlater : s.run [.modify 3 97 6 .bid 5, .trade 9 97 2 .ask] with
    | error fault =>
      rw [hlater] at hok
      cases hok
    | ok r =>
      obtain ⟨s'', log'⟩ := r
      refine ⟨s, log, s', s'', log', answer, events, hrun, hpeaks ▸ hfrugal, hslot, hcall, hanswer,
        hindex, hlater, ?_⟩
      exact (hmore _ _ _ 3 hlater hrests).trans hslot

end Session

end PriceTime
