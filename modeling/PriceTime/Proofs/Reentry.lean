import PriceTime.Proofs.Book.Reentry
import PriceTime.Proofs.Refinement
import PriceTime.Proofs.Spare

/-!
# To cancel and to add again

Two sequences of calls come to the same as one call or as none. A modify that costs an order its
turn leaves the session that is left when the order is removed and added again with the new price
and the new size: in the same slot, in levels with the same keys, and with the same places to be
handed out next. Equal sessions have equal answers to everything that follows, so nothing later can
tell which of the ways was taken. And an order that is added and removed at once leaves the session
that was there before, but for spare places: where no place was free, the book has grown. These are
handed out as places never used would be, so again nothing later can tell.

* `Session.onBook_step`: an operation changes the book of a session and nothing else.
* `Session.run_reentry`: a modify that loses the turn, and the way out and in again.
* `Session.run_passing`: in, and out again.
-/

namespace PriceTime

namespace Session

variable {s s₁ s₂ : Session} {id : UInt64} {price : Int32} {size : UInt32} {side : Side}
  {time : UInt64} {slot : Slot} {o : Order} {key : LevelKey} {room : Prop}

/-- Nothing but the book of a session has changed. -/
def SameButBook (s s' : Session) : Prop :=
  s' = { s with book := s'.book }

theorem SameButBook.trans (h : s.SameButBook s₁) (h' : s₁.SameButBook s₂) : s.SameButBook s₂ := by
  unfold SameButBook at h h' ⊢
  rw [h', h]

theorem SameButBook.sameButSpare (h : s.SameButBook s₁) (hbook : s.book.SameButSpare s₁.book) :
    s.SameButSpare s₁ := by
  rw [h]
  exact ⟨rfl, hbook, rfl, rfl, rfl, rfl⟩

theorem SameButBook.eq_of_book (h₁ : s.SameButBook s₁) (h₂ : s.SameButBook s₂)
    (hbook : s₂.book = s₁.book) : s₂ = s₁ := by
  rw [h₁, h₂, hbook]

/-- An operation of the book changes the book of a session and nothing else. -/
theorem onBook_step {α : Type} {f : Book → Except Fault (Step Book α)} {post : Step Book α → Prop}
    (h : Yields room (f s.book) post) :
    Yields room (s.onBook f) fun step =>
      post ⟨step.result, step.state.book, step.events⟩ ∧ s.SameButBook step.state := by
  rw [onBook_eq]
  refine h.bind ?_
  intro step hstep
  exact Yields.ok ⟨hstep, rfl⟩

theorem remove_resting (h : s.book.WellFormed) (hid : s.book.index[id]? = some slot)
    (ho : s.book.card slot = some o) (hlevel : o.level = some key) :
    Yields s.book.HasRoom (s.call (.remove id)) fun r =>
      (r.1 = .removed (.ok { o with level := none }) ∧ r.2.1.book.WellFormed ∧
        s.book.Removed slot o key r.2.1.book r.2.2) ∧ s.SameButBook r.2.1 := by
  refine (onBook_step (h.remove hid ho hlevel)).bind ?_
  rintro step ⟨⟨hresult, hbook, hremoved⟩, hsame⟩
  exact Yields.ok ⟨⟨congrArg Answer.removed hresult, hbook, hremoved⟩, hsame⟩

theorem add_new (h : s.book.WellFormed) (hnew : s.book.contains id = false) :
    Yields room (s.call (.add id price size side time)) fun r =>
      (r.1 = .added (.ok s.book.queues.orders.nextKey) ∧ r.2.1.book.WellFormed ∧
        s.book.Added { id, price, size, side, time } r.2.1.book r.2.2) ∧ s.SameButBook r.2.1 := by
  refine (onBook_step (h.add hnew)).bind ?_
  rintro step ⟨⟨hresult, hbook, hadded⟩, hsame⟩
  exact Yields.ok ⟨⟨congrArg Answer.added hresult, hbook, hadded⟩, hsame⟩

theorem modify_call (h : s.book.WellFormed) (id : UInt64) (price : Int32) (size : UInt32)
    (side : Side) (time : UInt64) :
    Yields s.book.HasRoom (s.call (.modify id price size side time)) fun r =>
      (∃ result, r.1 = .modified result ∧ r.2.1.book.WellFormed ∧
        s.book.Modified id price size side time result r.2.1.book r.2.2) ∧
      s.SameButBook r.2.1 := by
  refine (onBook_step h.modify).bind ?_
  rintro step ⟨⟨hbook, hmodified⟩, hsame⟩
  exact Yields.ok ⟨⟨_, rfl, hbook, hmodified⟩, hsame⟩

theorem run_pair (s : Session) (first second : Call) :
    s.run [first, second] = s.call first >>= fun r => r.2.1.call second >>= fun r' =>
      .ok (r'.2.1, [(r.1, r.2.2), (r'.1, r'.2.2)]) := by
  rw [run_cons]
  congr 1
  funext r
  rw [run_cons, bind_assoc]
  rfl

/-! ## Out, and in again -/

/-- An order is taken out and put in again with another price, size and time. -/
theorem run_remove_add (h : s.book.WellFormed) (ho : s.book.card slot = some o)
    (hlevel : o.level = some key) (price : Int32) (size : UInt32) (time : UInt64) :
    Yields s.book.HasRoom
      (s.run [.remove o.id, .add o.id price size o.side time]) fun r =>
        (r.2.map Prod.fst = [.removed (.ok { o with level := none }), .added (.ok slot)] ∧
          r.1.book.WellFormed ∧ ∃ book released created, s.book.Removed slot o key book released ∧
            book.Added { id := o.id, price, size, side := o.side, time } r.1.book created) ∧
        s.SameButBook r.1 := by
  rw [run_pair]
  refine (remove_resting h (h.index_iff.mpr ⟨o, ho, rfl⟩) ho hlevel).bind ?_
  rintro ⟨_, s₁, released⟩ ⟨⟨rfl, hs₁, hremoved⟩, hsame₁⟩
  dsimp only at hs₁ hremoved hsame₁ ⊢
  refine (add_new hs₁ (hremoved.contains_eq h hs₁ ho)).bind ?_
  rintro ⟨_, s₂, created⟩ ⟨⟨rfl, hs₂, hadded⟩, hsame₂⟩
  refine Yields.ok ⟨⟨?_, hs₂, _, _, _, hremoved, hadded⟩, hsame₁.trans hsame₂⟩
  rw [hremoved.orders_room.nextKey, Arena.nextKey_vacate]
  rfl

/-- After any run, a modify that costs a resting order its turn leaves the session that is left when
the order is removed and added again, in the slot it had. With fewer than `2 ^ 32` orders the calls
have answers. -/
theorem run_reentry {config : BookConfig} {calls : List Call} {s : Session}
    {log : List (Answer × List Event)} (hrun : (ofConfig config).run calls = .ok (s, log))
    {id : UInt64} {o : Order} (hresting : s.book.get? id = some o) (price : Int32) (size : UInt32)
    (time : UInt64) (hloses : o.price ≠ price ∨ o.size < size) :
    (s.book.index.size < 2 ^ 32 →
      ∃ r r', s.call (.modify id price size o.side time) = .ok r ∧
        s.run [.remove id, .add id price size o.side time] = .ok r') ∧
    ∀ answer modified events reentered replies,
      s.call (.modify id price size o.side time) = .ok (answer, modified, events) →
      s.run [.remove id, .add id price size o.side time] = .ok (reentered, replies) →
      reentered = modified ∧
        answer = .modified (.ok (if o.price = price then .requeued else .repriced)) ∧
        ∃ slot, s.book.index[id]? = some slot ∧ replies.map Prod.fst =
          [.removed (.ok { o with prev := none, next := none, level := none }),
            .added (.ok slot)] := by
  have h := atRest_of_run hrun
  obtain ⟨slot, hid, hcard⟩ := Book.exists_slot_of_get? hresting
  obtain rfl := h.id_eq hid hcard
  obtain ⟨key, hlevel⟩ := h.settled hcard
  have hmodify := modify_call h.toWellFormed o.bare.id price size o.side time
  have hreenter := run_remove_add h.toWellFormed hcard hlevel price size time
  refine ⟨fun hroom => ?_, ?_⟩
  · obtain ⟨r, hr⟩ := hmodify.answers (h.hasRoom hroom)
    obtain ⟨r', hr'⟩ := hreenter.answers (h.hasRoom hroom)
    exact ⟨r, r', hr, hr'⟩
  intro answer modified events reentered replies hcall hpair
  obtain ⟨⟨result, hanswer, hm, hmodified⟩, hsame⟩ := hmodify.sound _ hcall
  obtain ⟨⟨hreplies, ha, book, released, created, hremoved, hadded⟩, hsame'⟩ :=
    hreenter.sound _ hpair
  obtain ⟨hbook, hresult⟩ :=
    hmodified.eq_reentry h hm ha hid hcard hlevel hloses hremoved hadded
  exact ⟨hsame.eq_of_book hsame' hbook, hanswer.trans (congrArg Answer.modified hresult), slot, hid,
    hreplies⟩

/-- The middle one of three bids at a price grows, and the only bid at another price moves to where
no order waits. -/
theorem run_reentry_bids :
    ∃ s log r r' q q', (ofConfig {}).run [.add 1 100 5 .bid 0, .add 2 100 4 .bid 1,
        .add 3 100 3 .bid 2, .add 4 98 2 .bid 3] = .ok (s, log) ∧
      s.call (.modify 2 100 9 .bid 7) = .ok r ∧
      s.run [.remove 2, .add 2 100 9 .bid 7] = .ok r' ∧ r'.1 = r.2.1 ∧
      s.call (.modify 4 97 1 .bid 7) = .ok q ∧
      s.run [.remove 4, .add 4 97 1 .bid 7] = .ok q' ∧ q'.1 = q.2.1 := by
  have hroom := roomy_of_length_lt {} [.add 1 100 5 .bid 0, .add 2 100 4 .bid 1,
    .add 3 100 3 .bid 2, .add 4 98 2 .bid 3] (by decide)
  obtain ⟨s, log, hrun⟩ := exists_run hroom
  have hbook : ((ofConfig {}).run [.add 1 100 5 .bid 0, .add 2 100 4 .bid 1, .add 3 100 3 .bid 2,
      .add 4 98 2 .bid 3]).map (fun r => (r.1.book.get? 2, r.1.book.get? 4)) =
      .ok (some ⟨2, 100, 4, .bid, 1, false, some 0, some 2, some 0⟩,
        some ⟨4, 98, 2, .bid, 3, false, none, none, some 1⟩) := by decide +kernel
  rw [hrun] at hbook
  obtain ⟨hmiddle, hlast⟩ := Prod.mk.inj (Except.ok.inj hbook)
  obtain ⟨hanswers, hsame⟩ := run_reentry hrun hmiddle 100 9 7 (.inr (by decide))
  obtain ⟨hanswers', hsame'⟩ := run_reentry hrun hlast 97 1 7 (.inl (by decide))
  obtain ⟨r, r', hr, hr'⟩ := hanswers (hroom.last hrun)
  obtain ⟨q, q', hq, hq'⟩ := hanswers' (hroom.last hrun)
  exact ⟨s, log, r, r', q, q', hrun, hr, hr', (hsame _ _ _ _ _ hr hr').1, hq, hq',
    (hsame' _ _ _ _ _ hq hq').1⟩

/-! ## In, and out again -/

/-- A new order is put in and taken out again. -/
theorem run_add_remove (h : s.book.WellFormed) (hnew : s.book.contains id = false) (price : Int32)
    (size : UInt32) (side : Side) (time : UInt64) :
    Yields (s.book.index.size + 1 < 2 ^ 32) (s.run [.add id price size side time, .remove id])
      fun r => r.2.map Prod.fst = [.added (.ok s.book.queues.orders.nextKey),
        .removed (.ok { id, price, size, side, time })] ∧ s.SameButSpare r.1 := by
  rw [run_pair, h.size_index]
  refine (add_new h hnew).bind ?_
  rintro ⟨_, s₁, created⟩ ⟨⟨rfl, hs₁, hadded⟩, hsame₁⟩
  dsimp only at hs₁ hadded hsame₁ ⊢
  have ho := (hadded.card_eq _).trans (if_pos rfl)
  refine ((remove_resting hs₁ (hs₁.index_iff.mpr ⟨_, ho, rfl⟩) ho rfl).of_room
    fun hroom => hs₁.hasRoom ?_).bind ?_
  · rw [hs₁.size_index, hadded.size_eq h hs₁]
    exact hroom
  rintro ⟨_, s₂, released⟩ ⟨⟨rfl, hs₂, hremoved⟩, hsame₂⟩
  exact Yields.ok ⟨rfl, (hsame₁.trans hsame₂).sameButSpare (hadded.sameButSpare hremoved h hs₂)⟩

/-- After any run, an order with a new id that is added and removed at once is handed back as it
came, and leaves a session that is the same but for spare places: every run from there on has the
same answers and the same reports, slots included, and shows the same at its end. With room for one
order more the two calls have answers. -/
theorem run_passing {config : BookConfig} {calls : List Call} {s : Session}
    {log : List (Answer × List Event)} (hrun : (ofConfig config).run calls = .ok (s, log))
    {id : UInt64} (hnew : s.book.contains id = false) (price : Int32) (size : UInt32) (side : Side)
    (time : UInt64) :
    (s.book.index.size + 1 < 2 ^ 32 →
      ∃ r, s.run [.add id price size side time, .remove id] = .ok r) ∧
    ∀ s' replies, s.run [.add id price size side time, .remove id] = .ok (s', replies) →
      (∃ slot, replies.map Prod.fst =
        [.added (.ok slot), .removed (.ok { id, price, size, side, time })]) ∧
      s.SameButSpare s' ∧
      ∀ more, Agree (fun r r' => r'.2 = r.2 ∧ r.1.ShowsSame r'.1) (s.run more) (s'.run more) := by
  have h := wellFormed_of_run hrun
  have hpass := run_add_remove h hnew price size side time
  refine ⟨hpass.answers, ?_⟩
  intro s' replies hpair
  obtain ⟨hreplies, hsame⟩ := hpass.sound _ hpair
  refine ⟨⟨_, hreplies⟩, hsame, ?_⟩
  intro more
  exact (hsame.run more).mono fun _ _ hr => ⟨hr.1, hr.2.showsSame⟩

/-- A bid comes in above the best one, in a slot and a level never used, and goes again. The orders
that come in later get the slots that they would have got, and meet the same orders. -/
theorem run_passing_best :
    ∃ s log r last last', (ofConfig {}).run [.add 1 99 2 .ask 0, .add 2 100 5 .bid 1] =
        .ok (s, log) ∧
      s.run [.add 7 101 4 .bid 9, .remove 7] = .ok r ∧
      r.1.book.queues.orders.places.size = s.book.queues.orders.places.size + 1 ∧
      s.run [.add 8 101 1 .bid 10, .trade 9 100 2 .ask, .add 10 98 1 .ask 11] = .ok last ∧
      r.1.run [.add 8 101 1 .bid 10, .trade 9 100 2 .ask, .add 10 98 1 .ask 11] = .ok last' ∧
      last'.2 = last.2 ∧ last.1.ShowsSame last'.1 := by
  have hroom := roomy_of_length_lt {} [.add 1 99 2 .ask 0, .add 2 100 5 .bid 1] (by decide)
  obtain ⟨s, log, hrun⟩ := exists_run hroom
  have hbook : ((ofConfig {}).run [.add 1 99 2 .ask 0, .add 2 100 5 .bid 1]).map
      (fun r => (r.1.book.index.size, r.1.book.contains 7, r.1.book.queues.orders.places.size)) =
      .ok (2, false, 2) := by decide +kernel
  rw [hrun] at hbook
  obtain ⟨hsize, hrest⟩ := Prod.mk.inj (Except.ok.inj hbook)
  obtain ⟨hnew, hplaces⟩ := Prod.mk.inj hrest
  dsimp only at hsize hplaces
  obtain ⟨hanswers, hsame⟩ := run_passing hrun hnew 101 4 .bid 9
  obtain ⟨r, hr⟩ := hanswers (by omega)
  obtain ⟨-, -, hmore⟩ := hsame _ _ hr
  have hgrown : ((ofConfig {}).run [.add 1 99 2 .ask 0, .add 2 100 5 .bid 1] >>= fun r =>
      r.1.run [.add 7 101 4 .bid 9, .remove 7]).map
      (fun r => r.1.book.queues.orders.places.size) = .ok 3 := by decide +kernel
  rw [hrun, ok_bind, hr] at hgrown
  have h := wellFormed_of_run hrun
  obtain ⟨last, hlast⟩ := (run_wellFormed h [.add 8 101 1 .bid 10, .trade 9 100 2 .ask,
    .add 10 98 1 .ask 11]).answers (roomy_of_add_length_lt h _ (by rw [hsize]; decide))
  have hagree := hmore [.add 8 101 1 .bid 10, .trade 9 100 2 .ask, .add 10 98 1 .ask 11]
  rw [hlast] at hagree
  obtain ⟨last', hlast', hlog, hshows⟩ := hagree.exists_ok
  exact ⟨s, log, r, last, last', hrun, hr, (Except.ok.inj hgrown).trans (by rw [hplaces]), hlast,
    hlast', hlog, hshows⟩

end Session

end PriceTime
