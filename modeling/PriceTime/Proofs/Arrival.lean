import PriceTime.Proofs.Operation
import PriceTime.Proofs.Refinement

/-!
# Orders wait as they arrived

An order goes to the end of a queue when it is added, when it grows and when its price changes; each
of these calls carries a time, which the order keeps until the next of them. Nothing else moves an
order, so the orders of a level stand in the order of those calls, whatever was cancelled, traded or
made smaller in between. If the times of the calls never go back, neither do the times of the orders
from the oldest to the newest of a level.

* `PlainBook.Advances`: orders leave where they stand, and one comes in at the end.
* `Book.Performs.advances`: what each operation does to the queues.
* `Diary.Explains.enter`: what one call preserves.
* `Session.run_arrivals`: what a whole run preserves.
-/

namespace PriceTime

/-- Who went to the end of a queue, and at what time. -/
structure Stamp where
  id : UInt64
  time : UInt64
deriving DecidableEq

/-- The last of some stamps with an id. -/
def Stamp.last? (stamps : List Stamp) (id : UInt64) : Option Stamp :=
  stamps.reverse.find? fun stamp => stamp.id == id

def Order.stamp (o : Order) : Stamp :=
  { id := o.id, time := o.time }

def Entry.stamp (entry : Entry) : Stamp :=
  { id := entry.id, time := entry.time }

/-! ## What has put an order at the end of a queue -/

/-- The stamp of the order that an operation has put at the end of a queue, if it has put one there.
An order that changes its size where it stands is not put anywhere. -/
def Operation.placement? : Operation → Except BookError Applied → Option Stamp
  | .add id _ _ _ time, .ok _ => some ⟨id, time⟩
  | .modify id _ _ _ time, .ok (.modified .added) => some ⟨id, time⟩
  | .modify id _ _ _ time, .ok (.modified .requeued) => some ⟨id, time⟩
  | .modify id _ _ _ time, .ok (.modified .repriced) => some ⟨id, time⟩
  | _, _ => none

/-- The stamp of the order that a call has put at the end of a queue, if it has put one there. -/
def Call.placement? (call : Call) (answer : Answer) : Option Stamp :=
  call.operation?.bind fun op => answer.applied?.bind op.placement?

/-- The time an operation carries, if it carries one. -/
def Operation.time? : Operation → Option UInt64
  | .add _ _ _ _ time => some time
  | .modify _ _ _ _ time => some time
  | _ => none

/-- The time a call carries, if it carries one. Every message carries one. -/
def Call.time? : Call → Option UInt64
  | .process m => some m.time
  | .add _ _ _ _ time => some time
  | .modify _ _ _ _ time => some time
  | _ => none

theorem Operation.time?_of_placement? {op : Operation} {result : Except BookError Applied}
    {stamp : Stamp} (h : op.placement? result = some stamp) : op.time? = some stamp.time := by
  unfold placement? at h
  split at h <;> cases h <;> rfl

theorem Message.time_of_operation {m : Message} {time : UInt64}
    (h : m.operation.time? = some time) : m.time = time := by
  unfold operation at h
  cases haction : m.action with
  | add | modify =>
    rw [haction] at h
    exact Option.some.inj h
  | cancel | trade =>
    rw [haction] at h
    cases h

/-- Whatever puts an order at the end of a queue carries the time it is stamped with. -/
theorem Call.time?_of_placement? {call : Call} {answer : Answer} {stamp : Stamp}
    (h : call.placement? answer = some stamp) : call.time? = some stamp.time := by
  obtain ⟨op, hop, hplaced⟩ := Option.bind_eq_some_iff.mp h
  obtain ⟨result, -, hplaced⟩ := Option.bind_eq_some_iff.mp hplaced
  have htime := Operation.time?_of_placement? hplaced
  cases call with
  | process m =>
    cases hop
    exact congrArg some (Message.time_of_operation htime)
  | add | modify | remove | trade =>
    cases hop
    exact htime
  | drawVolumes | drawImbalance | drawSkew | drawChange | drawMid | reset => cases hop

/-! ## Queues -/

namespace PlainBook

variable {b b' b₁ : PlainBook} {side : Side} {price : Int32}

/-- The stamps of the orders that wait at a price of a side, the oldest first. -/
def stamps (b : PlainBook) (side : Side) (price : Int32) : List Stamp :=
  (b.queue side price).map Entry.stamp

/-- Orders have left, and no other one has moved or got another stamp. -/
def Thins (b b' : PlainBook) : Prop :=
  ∀ side price, (b'.stamps side price).Sublist (b.stamps side price)

/-- Orders have left, and one may have come in at the end of a queue. -/
structure Advances (b b' : PlainBook) (placement : Option Stamp) : Prop where
  stamps_eq : ∀ side price, ∃ kept new, b'.stamps side price = kept ++ new ∧
    kept.Sublist (b.stamps side price) ∧ new.Sublist placement.toList
  /-- The one that came in waits somewhere. -/
  waits : ∀ stamp ∈ placement, ∃ side price, stamp ∈ b'.stamps side price

/-! ### Orders leave -/

theorem Thins.refl (b : PlainBook) : b.Thins b := fun _ _ => List.Sublist.refl _

theorem Thins.trans (h : b.Thins b₁) (h' : b₁.Thins b') : b.Thins b' :=
  fun side price => (h' side price).trans (h side price)

theorem Thins.advances (h : b.Thins b') : b.Advances b' none where
  stamps_eq side price := ⟨_, [], (List.append_nil _).symm, h side price, List.Sublist.refl _⟩
  waits _ hnone := by cases hnone

theorem thins_setQueue {entries : List Entry}
    (h : (entries.map Entry.stamp).Sublist (b.stamps side price)) :
    b.Thins (b.setQueue side price entries) := by
  intro s p
  show (List.map Entry.stamp (if s = side ∧ p = price then entries else b.queue s p)).Sublist _
  split
  · rename_i hsp
    rw [hsp.1, hsp.2]
    exact h
  · exact List.Sublist.refl _

theorem thins_dequeue (b : PlainBook) (side : Side) (price : Int32) (id : UInt64) :
    b.Thins (b.dequeue side price id) :=
  thins_setQueue ((List.eraseP_sublist).map Entry.stamp)

theorem thins_resize (b : PlainBook) (side : Side) (price : Int32) (id : UInt64) (size : UInt32) :
    b.Thins (b.setQueue side price ((b.queue side price).map fun entry =>
      if entry.id = id then { entry with size } else entry)) := by
  have hstamp : (Entry.stamp ∘ fun entry => if entry.id = id then { entry with size } else entry) =
      Entry.stamp := by
    funext entry
    simp only [Function.comp_apply]
    split <;> rfl
  refine thins_setQueue ?_
  rw [List.map_map, hstamp]
  exact List.Sublist.refl _

/-- A trade takes orders from the front, and may leave a smaller one there. -/
theorem thins_tradeAlong {entries : List Entry} {report : TradeReport}
    (hqueue : b.queue side price = entries) :
    b.Thins (tradeAlong side price entries report b).2 := by
  induction entries generalizing b report with
  | nil => exact Thins.refl b
  | cons entry rest ih =>
    have hstamps : b.stamps side price = entry.stamp :: rest.map Entry.stamp := by
      rw [stamps, hqueue, List.map_cons]
    unfold tradeAlong
    split
    · exact Thins.refl b
    split
    · refine thins_setQueue ?_
      rw [hstamps]
      exact List.Sublist.refl _
    · have hrest : b.Thins (b.setQueue side price rest) := by
        refine thins_setQueue ?_
        rw [hstamps]
        exact List.sublist_cons_self ..
      exact Thins.trans hrest (ih (if_pos ⟨rfl, rfl⟩))

theorem thins_trade (b : PlainBook) (id : UInt64) (price : Int32) (size : UInt32) (side : Side) :
    b.Thins (b.trade id price size side).2 :=
  thins_tradeAlong rfl

/-! ### An order comes in -/

theorem Thins.enqueue (h : b.Thins b₁) (side : Side) (price : Int32) (entry : Entry) :
    b.Advances (b₁.enqueue side price entry) (some entry.stamp) := by
  have hstamps : ∀ s p, (b₁.enqueue side price entry).stamps s p =
      b₁.stamps s p ++ if s = side ∧ p = price then [entry.stamp] else [] := by
    intro s p
    unfold stamps PlainBook.enqueue setPlace setQueue
    dsimp only
    split
    · rename_i hsp
      rw [List.map_append, hsp.1, hsp.2]
      rfl
    · rw [List.append_nil]
  refine ⟨fun s p => ⟨_, _, hstamps s p, h s p, ?_⟩, ?_⟩
  · split
    · exact List.Sublist.refl _
    · exact List.nil_sublist _
  · rintro _ ⟨⟩
    refine ⟨side, price, ?_⟩
    rw [hstamps, if_pos ⟨rfl, rfl⟩]
    exact List.mem_append_right _ (List.mem_singleton_self _)

theorem modify_advances (b : PlainBook) (id : UInt64) (price : Int32) (size : UInt32) (side : Side)
    (time : UInt64) : b.Advances (b.modify id price size side time).2
      ((Operation.modify id price size side time).placement?
        ((b.modify id price size side time).1.map .modified)) := by
  unfold modify
  split
  · exact (Thins.refl b).enqueue side price { id, size, time }
  split
  · exact (Thins.refl b).advances
  split
  · exact (b.thins_dequeue _ _ id).enqueue side price { id, size, time }
  split
  · exact (b.thins_dequeue side price id).enqueue side price { id, size, time }
  · exact (b.thins_resize side price id size).advances

end PlainBook

/-! ## Operations -/

namespace Book

variable {b b' : Book} {op : Operation} {result : Except BookError Applied}

/-- Every operation lets the orders of a queue stand as they arrived. -/
theorem Performs.advances (hperforms : b.Performs op result b') (h : b.AtRest)
    (h' : b'.WellFormed) : b.plain.Advances b'.plain (op.placement? result) := by
  cases hperforms with
  | added _ hadded =>
    rw [hadded.plain_eq h.toWellFormed h']
    exact (PlainBook.Thins.refl b.plain).enqueue ..
  | duplicate => exact (PlainBook.Thins.refl b.plain).advances
  | cancelled _ ho hremoved =>
    rw [hremoved.plain_eq h.toWellFormed h' ho]
    exact (b.plain.thins_dequeue _ _ _).advances
  | unknown => exact (PlainBook.Thins.refl b.plain).advances
  | @modified id price size side time b' events result hmodified =>
    have hadvances := b.plain.modify_advances id price size side time
    rw [(h.of_modified h' hmodified).2] at hadvances
    exact hadvances
  | @traded id price size side b' events report htraded =>
    cases htraded with
    | missed => exact (PlainBook.Thins.refl b.plain).advances
    | met _ hmatches =>
      have hthins := b.plain.thins_trade id price size side
      rw [PlainBook.trade, (h.of_matches h' hmatches).2] at hthins
      exact hthins.advances

/-- An order has one stamp, wherever it waits. -/
theorem WellFormed.stamp_unique (h : b.WellFormed) {side side' : Side} {price price' : Int32}
    {stamp stamp' : Stamp} (hstamp : stamp ∈ b.plain.stamps side price)
    (hstamp' : stamp' ∈ b.plain.stamps side' price') (hid : stamp.id = stamp'.id) :
    stamp = stamp' := by
  obtain ⟨entry, hentry, rfl⟩ := List.mem_map.mp hstamp
  obtain ⟨entry', hentry', rfl⟩ := List.mem_map.mp hstamp'
  have hplace := (h.place_plain_iff entry.id side price).mpr ⟨entry, hentry, rfl⟩
  have hplace' := (h.place_plain_iff entry.id side' price').mpr ⟨entry', hentry', hid.symm⟩
  obtain ⟨rfl, rfl⟩ := Prod.mk.inj (Option.some.inj (hplace.symm.trans hplace'))
  rw [List.inj_on_of_nodup_map (h.nodup_ids side price) hentry hentry' hid]

theorem stamps_of_level {side : Side} {price : Int32} {l : Level}
    (hlevel : b.level? side price = some l) :
    b.plain.stamps side price = (b.ordersOf l).map fun slotted => slotted.2.stamp := by
  unfold PlainBook.stamps plain
  dsimp only
  rw [hlevel]
  exact List.map_map

theorem AtRest.mem_stamps (h : b.AtRest) {id : UInt64} {o : Order} (ho : b.get? id = some o) :
    o.id = id ∧ o.stamp ∈ b.plain.stamps o.side o.price := by
  have hfound : b.plain.find? id = some (o.side, o.price, o.entry) := by
    rw [← h.shows.get?, ho]
    rfl
  obtain ⟨⟨side, price⟩, hplace, hrest⟩ := Option.bind_eq_some_iff.mp hfound
  obtain ⟨entry, hentry, heq⟩ := Option.map_eq_some_iff.mp hrest
  cases heq
  have hid := List.find?_some hentry
  exact ⟨beq_iff_eq.mp hid, List.mem_map.mpr ⟨o.entry, List.mem_of_find?_eq_some hentry, rfl⟩⟩

end Book

/-! ## A diary of the calls -/

/-- What was written down since the last new start. -/
structure Diary where
  /-- The orders that were put at the end of a queue, in the order of the calls. -/
  placements : List Stamp := []
  /-- The times that the calls carried. -/
  times : List UInt64 := []

namespace Diary

/-- Write down a call and its answer. -/
def enter (d : Diary) (call : Call) (answer : Answer) : Diary :=
  if call.isReset then {}
  else {
    placements := d.placements ++ (call.placement? answer).toList
    times := d.times ++ call.time?.toList }

/-- The diary of some calls. -/
def ofRun (calls : List Call) (log : List (Answer × List Event)) : Diary :=
  (calls.zip log).foldl (fun d entry => d.enter entry.1 entry.2.1) {}

/-- The queues of a book can be read off the diary: each is what is left of the placements, and the
stamp of an order is the last one with its id. -/
structure Explains (d : Diary) (b : PlainBook) : Prop where
  sublist : ∀ side price, (b.stamps side price).Sublist d.placements
  last : ∀ side price, ∀ stamp ∈ b.stamps side price,
    Stamp.last? d.placements stamp.id = some stamp
  timed : (d.placements.map Stamp.time).Sublist d.times

variable {d : Diary} {s s' : Session} {call : Call} {answer : Answer} {events : List Event}

theorem Explains.empty : Explains {} PlainBook.empty where
  sublist _ _ := List.Sublist.refl _
  last _ _ _ hnone := by cases hnone
  timed := List.Sublist.refl _

/-- An entry into the diary for each order that is put at the end of a queue. -/
theorem Explains.advance {b b' : PlainBook} {placement : Option Stamp} {time : Option UInt64}
    (hd : d.Explains b) (hadvances : b.Advances b' placement)
    (hunique : ∀ {side side' price price' stamp stamp'}, stamp ∈ b'.stamps side price →
      stamp' ∈ b'.stamps side' price' → stamp.id = stamp'.id → stamp = stamp')
    (htime : ∀ stamp ∈ placement, time = some stamp.time) :
    Explains ⟨d.placements ++ placement.toList, d.times ++ time.toList⟩ b' where
  sublist side price := by
    obtain ⟨kept, new, heq, hkept, hnew⟩ := hadvances.stamps_eq side price
    rw [heq]
    exact (hkept.trans (hd.sublist side price)).append hnew
  last side price stamp hstamp := by
    obtain ⟨kept, new, heq, hkept, hnew⟩ := hadvances.stamps_eq side price
    cases placement with
    | none =>
      rw [heq, List.sublist_nil.mp hnew, List.append_nil] at hstamp
      dsimp only
      rw [Option.toList_none, List.append_nil]
      exact hd.last side price stamp (hkept.subset hstamp)
    | some placed =>
      dsimp only
      rw [Option.toList_some, Stamp.last?, List.reverse_concat, List.find?_cons]
      -- The order that came in is the only one with its id, so its stamp is the one found first.
      by_cases hid : placed.id = stamp.id
      · obtain ⟨side', price', hplaced⟩ := hadvances.waits placed rfl
        rw [hunique hplaced hstamp hid, beq_self_eq_true]
      · rw [beq_false_of_ne hid]
        rw [heq] at hstamp
        rcases List.mem_append.mp hstamp with hold | hcame
        · exact hd.last side price stamp (hkept.subset hold)
        · exact absurd (congrArg Stamp.id (List.mem_singleton.mp (hnew.subset hcame))).symm hid
  timed := by
    rw [List.map_append]
    refine hd.timed.append ?_
    cases placement with
    | none => exact List.nil_sublist _
    | some placed =>
      rw [htime placed rfl]
      exact List.Sublist.refl _

theorem Explains.enter (hd : d.Explains s.book.plain) (h : s.book.AtRest)
    (hcall : s.call call = .ok (answer, s', events)) :
    s'.book.AtRest ∧ (d.enter call answer).Explains s'.book.plain := by
  have h' : s'.book.AtRest := ((Session.call_refines h call).sound _ hcall).1
  refine ⟨h', ?_⟩
  unfold Diary.enter
  split
  · rename_i hreset
    rw [Session.book_of_reset h.toWellFormed hreset hcall, Book.plain_empty]
    exact Explains.empty
  rename_i hother
  refine hd.advance ?_ h'.stamp_unique fun stamp hstamp => Call.time?_of_placement? hstamp
  cases hop : call.operation? with
  | none =>
    have hsame := (Session.call_idles h.toWellFormed hop hcall).2
    rw [if_neg hother] at hsame
    rw [hsame, Call.placement?, hop]
    exact (PlainBook.Thins.refl _).advances
  | some op =>
    obtain ⟨hs', result, hanswer, hperforms⟩ := Session.call_performs h.toWellFormed hop hcall
    rw [Call.placement?, hop, Option.bind_some, hanswer, Option.bind_some]
    exact hperforms.advances h hs'

end Diary

/-! ## A run -/

namespace Session

theorem run_explained {config : BookConfig} {calls : List Call} {s : Session}
    {log : List (Answer × List Event)} (hrun : (ofConfig config).run calls = .ok (s, log)) :
    s.book.AtRest ∧ (Diary.ofRun calls log).Explains s.book.plain := by
  refine run_keeps (fun (d : Diary) s => s.book.AtRest ∧ d.Explains s.book.plain)
    (fun d call reply => d.enter call reply.1) ?_ ⟨Book.AtRest.empty, ?_⟩ hrun
  · rintro d s call answer s' events ⟨h, hd⟩ hcall
    exact hd.enter h hcall
  · show Diary.Explains {} Book.empty.plain
    rw [Book.plain_empty]
    exact Diary.Explains.empty

/-- After every run from a fresh session, each order has the time of the last call that has put it
at the end of a queue, and the orders of a level stand in the order of those calls. So if the times
that the calls since the last new start have carried never go back, neither do those of the orders,
from the oldest of a level to its newest. -/
theorem run_arrivals (config : BookConfig) (calls : List Call) :
    ((ofConfig config).Roomy calls → ∃ s log, (ofConfig config).run calls = .ok (s, log)) ∧
      ∀ s log, (ofConfig config).run calls = .ok (s, log) →
        (∀ id o, s.book.get? id = some o →
          Stamp.last? (Diary.ofRun calls log).placements id = some o.stamp) ∧
        ∀ side price l, s.book.level? side price = some l →
          ((s.book.ordersOf l).map fun slotted => slotted.2.stamp).Sublist
            (Diary.ofRun calls log).placements ∧
          ((Diary.ofRun calls log).times.Pairwise (· ≤ ·) →
            ((s.book.ordersOf l).map fun slotted => slotted.2.time).Pairwise (· ≤ ·)) := by
  refine ⟨exists_run, ?_⟩
  intro s log hrun
  obtain ⟨h, hd⟩ := run_explained hrun
  refine ⟨?_, ?_⟩
  · intro id o ho
    obtain ⟨rfl, hstamp⟩ := h.mem_stamps ho
    exact hd.last _ _ _ hstamp
  · intro side price l hlevel
    have hsublist := hd.sublist side price
    rw [Book.stamps_of_level hlevel] at hsublist
    refine ⟨hsublist, fun hsorted => ?_⟩
    have htimes := (hsublist.map Stamp.time).trans hd.timed
    rw [List.map_map] at htimes
    exact hsorted.sublist htimes

/-- After a new start, three bids of which the first gets smaller and the second grows; a part of
the first one is traded, and a modify brings in a fourth one. -/
theorem run_arrivals_bids :
    ∃ s log l, (ofConfig {}).run [.add 9 50 1 .ask 90, .reset, .add 1 100 5 .bid 1,
        .add 2 100 4 .bid 2, .add 3 100 3 .bid 2, .modify 1 100 2 .bid 5, .modify 2 100 6 .bid 6,
        .trade 9 100 1 .ask, .process ⟨.modify, 4, 100, 3, .bid, 7⟩] = .ok (s, log) ∧
      s.book.level? .bid 100 = some l ∧
      ((s.book.ordersOf l).map fun slotted => slotted.2.stamp) = [⟨1, 1⟩, ⟨3, 2⟩, ⟨2, 6⟩, ⟨4, 7⟩] ∧
      ((s.book.ordersOf l).map fun slotted => slotted.2.time).Pairwise (· ≤ ·) := by
  obtain ⟨hanswers, hall⟩ := run_arrivals {} [.add 9 50 1 .ask 90, .reset, .add 1 100 5 .bid 1,
    .add 2 100 4 .bid 2, .add 3 100 3 .bid 2, .modify 1 100 2 .bid 5, .modify 2 100 6 .bid 6,
    .trade 9 100 1 .ask, .process ⟨.modify, 4, 100, 3, .bid, 7⟩]
  obtain ⟨s, log, hrun⟩ := hanswers (roomy_of_length_lt _ _ (by decide))
  obtain ⟨-, hlevels⟩ := hall s log hrun
  have heval : ((ofConfig {}).run [.add 9 50 1 .ask 90, .reset, .add 1 100 5 .bid 1,
      .add 2 100 4 .bid 2, .add 3 100 3 .bid 2, .modify 1 100 2 .bid 5, .modify 2 100 6 .bid 6,
      .trade 9 100 1 .ask, .process ⟨.modify, 4, 100, 3, .bid, 7⟩]).map (fun r =>
        ((Diary.ofRun [.add 9 50 1 .ask 90, .reset, .add 1 100 5 .bid 1, .add 2 100 4 .bid 2,
          .add 3 100 3 .bid 2, .modify 1 100 2 .bid 5, .modify 2 100 6 .bid 6,
          .trade 9 100 1 .ask, .process ⟨.modify, 4, 100, 3, .bid, 7⟩] r.2).times,
        (r.1.book.level? .bid 100).map fun l =>
          (r.1.book.ordersOf l).map fun slotted => slotted.2.stamp)) =
      .ok ([1, 2, 2, 5, 6, 7], some [⟨1, 1⟩, ⟨3, 2⟩, ⟨2, 6⟩, ⟨4, 7⟩]) := by decide +kernel
  rw [hrun] at heval
  obtain ⟨htimes, hstamps⟩ := Prod.mk.inj (Except.ok.inj heval)
  obtain ⟨l, hlevel, hstamps⟩ := Option.map_eq_some_iff.mp hstamps
  refine ⟨s, log, l, hrun, hlevel, hstamps, (hlevels .bid 100 l hlevel).2 ?_⟩
  dsimp only at htimes
  rw [htimes]
  decide

end Session

end PriceTime
