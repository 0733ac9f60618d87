import PriceTime.Proofs.Lockstep

/-!
# Rejected messages

A message is rejected for one of three reasons, each of which can be read off the book before the
message: an order is added whose id rests already, an order is cancelled that does not rest, or a
resting order is modified under the other side. A rejected message moves the clock and counts as a
message, and that is all it does. So a run of messages answers the accepted ones, and leaves the
book, the tape and the figures, as if the rejected ones had never been sent.

* `Book.Refuses`: the three reasons.
* `Session.process_verdict`: a message is rejected for one of them or not at all.
* `Session.lockstep_sameButClock`: no answer depends on the clock or on the number of messages.
* `Session.run_rejections`: a run of messages, with the rejected ones and without them.
-/

namespace PriceTime

/-- Why a book refuses a message. -/
inductive Book.Refuses (b : Book) (m : Message) : BookError → Prop where
  /-- The order to be added rests already. -/
  | duplicate (haction : m.action = .add) (hid : b.contains m.id = true) :
      b.Refuses m (.duplicateOrder m.id)
  /-- The order to be cancelled does not rest. -/
  | unknown (haction : m.action = .cancel) (hid : b.contains m.id = false) :
      b.Refuses m (.unknownOrder m.id)
  /-- The order to be modified rests on the other side. -/
  | otherSide {o : Order} (haction : m.action = .modify) (ho : b.get? m.id = some o)
      (hside : o.side ≠ m.side) : b.Refuses m (.sideMismatch m.id o.side m.side)

/-- The answer to a message is an error exactly if the book refuses the message, and then it is the
reason. No trade fails, and no modify of an order that does not rest. -/
structure Book.Judges (b : Book) (m : Message) (result : Except BookError Applied) : Prop where
  error_iff : ∀ error, result = .error error ↔ b.Refuses m error
  accepted : m.action = .trade ∨ m.action = .modify ∧ b.contains m.id = false →
    ∃ applied, result = .ok applied

namespace Book.Refuses

variable {b : Book} {m : Message} {error : BookError}

theorem iff_of_add (haction : m.action = .add) :
    b.Refuses m error ↔ b.contains m.id = true ∧ error = .duplicateOrder m.id := by
  constructor
  · intro h
    cases h with
    | duplicate _ hid => exact ⟨hid, rfl⟩
    | unknown h => cases haction.symm.trans h
    | otherSide h => cases haction.symm.trans h
  · rintro ⟨hid, rfl⟩
    exact .duplicate haction hid

theorem iff_of_cancel (haction : m.action = .cancel) :
    b.Refuses m error ↔ b.contains m.id = false ∧ error = .unknownOrder m.id := by
  constructor
  · intro h
    cases h with
    | duplicate h => cases haction.symm.trans h
    | unknown _ hid => exact ⟨hid, rfl⟩
    | otherSide h => cases haction.symm.trans h
  · rintro ⟨hid, rfl⟩
    exact .unknown haction hid

theorem iff_of_modify (haction : m.action = .modify) :
    b.Refuses m error ↔
      ∃ o, b.get? m.id = some o ∧ o.side ≠ m.side ∧ error = .sideMismatch m.id o.side m.side := by
  constructor
  · intro h
    cases h with
    | duplicate h => cases haction.symm.trans h
    | unknown h => cases haction.symm.trans h
    | otherSide _ ho hside => exact ⟨_, ho, hside, rfl⟩
  · rintro ⟨o, ho, hside, rfl⟩
    exact .otherSide haction ho hside

theorem not_of_trade (haction : m.action = .trade) : ¬ b.Refuses m error := by
  intro h
  cases h with
  | duplicate h => cases haction.symm.trans h
  | unknown h => cases haction.symm.trans h
  | otherSide h => cases haction.symm.trans h

end Book.Refuses

/-! ## One operation -/

/-- An operation fails for the reasons in `refuses`, and leaves the state alone when it fails. -/
structure Step.Verdict {σ α : Type} (refuses : BookError → Prop) (s : σ) (step : Step σ α) :
    Prop where
  error_iff : ∀ error, step.result = .error error ↔ refuses error
  kept : ∀ error, step.result = .error error → step.state = s

namespace Step.Verdict

variable {σ α β : Type} {refuses : BookError → Prop} {s state : σ} {events : List Event}

theorem accepted {a : α} (h : ∀ error, ¬ refuses error) :
    Verdict refuses s { result := .ok a, state, events } where
  error_iff error := ⟨nofun, fun hrefuses => absurd hrefuses (h error)⟩
  kept _ := nofun

theorem rejected {error : BookError} (h : ∀ e, error = e ↔ refuses e) :
    Verdict refuses s { result := (.error error : Except BookError α), state := s, events } where
  error_iff e := by
    rw [← h e]
    exact ⟨Except.error.inj, congrArg Except.error⟩
  kept _ _ := rfl

theorem congr {refuses' : BookError → Prop} {step : Step σ α} (h : step.Verdict refuses s)
    (hiff : ∀ e, refuses' e ↔ refuses e) : step.Verdict refuses' s where
  error_iff e := (h.error_iff e).trans (hiff e).symm
  kept := h.kept

theorem map {step : Step σ α} (h : step.Verdict refuses s) (f : α → β) :
    (step.map f).Verdict refuses s := by
  have herror : ∀ e, (step.map f).result = .error e ↔ step.result = .error e := by
    intro e
    unfold Step.map
    cases step.result with
    | ok a => exact ⟨nofun, nofun⟩
    | error error => exact ⟨fun heq => by cases heq; rfl, fun heq => by cases heq; rfl⟩
  exact ⟨fun e => (herror e).trans (h.error_iff e), fun e he => h.kept e ((herror e).mp he)⟩

end Step.Verdict

namespace Book

variable {b : Book} {id : UInt64} {price : Int32} {size : UInt32} {side : Side} {time : UInt64}
  {room : Prop}

theorem contains_eq_false_iff : b.contains id = false ↔ b.index[id]? = none := by
  rw [contains, Std.ExtTreeMap.contains_eq_isSome_getElem?, Option.isSome_eq_false_iff,
    Option.isNone_iff_eq_none]

/-- The side of a resting order, by its id. -/
theorem side_of_get? {slot : Slot} {o : Order} (hid : b.index[id]? = some slot)
    (ho : b.card slot = some o) (p : Order) (hp : b.get? id = some p) : p.side = o.side := by
  rw [get?, hid, Option.bind_some] at hp
  have hcard : b.card slot = some p.bare := Queues.card_eq hp
  rw [ho] at hcard
  cases hcard
  rfl

theorem WellFormed.add_verdict (h : b.WellFormed) :
    Yields room (b.add id price size side time)
      (Step.Verdict (fun e => b.contains id = true ∧ e = .duplicateOrder id) b) := by
  cases hid : b.contains id with
  | true =>
    rw [add_of_contains hid]
    apply Yields.ok
    apply Step.Verdict.rejected
    intro e
    exact ⟨fun heq => ⟨rfl, heq.symm⟩, fun hand => hand.2.symm⟩
  | false =>
    refine (h.add hid).mono ?_
    rintro ⟨result, state, events⟩ ⟨hresult, -, -⟩
    dsimp only at hresult
    subst hresult
    exact Step.Verdict.accepted fun _ hand => Bool.noConfusion hand.1

theorem WellFormed.remove_verdict (h : b.WellFormed) :
    Yields b.HasRoom (b.remove id)
      (Step.Verdict (fun e => b.contains id = false ∧ e = .unknownOrder id) b) := by
  cases hid : b.index[id]? with
  | none =>
    rw [remove_of_none hid]
    apply Yields.ok
    apply Step.Verdict.rejected
    intro e
    exact ⟨fun heq => ⟨contains_eq_false_iff.mpr hid, heq.symm⟩, fun hand => hand.2.symm⟩
  | some slot =>
    obtain ⟨o, ho, -⟩ := h.index_iff.mp hid
    obtain ⟨key, hlevel⟩ := h.settled ho
    refine (h.remove hid ho hlevel).mono ?_
    rintro ⟨result, state, events⟩ ⟨hresult, -, -⟩
    dsimp only at hresult
    subst hresult
    apply Step.Verdict.accepted
    intro _ hand
    have hnone := contains_eq_false_iff.mp hand.1
    rw [hid] at hnone
    cases hnone

theorem WellFormed.modify_verdict (h : b.WellFormed) :
    Yields b.HasRoom (b.modify id price size side time)
      (Step.Verdict (fun e => ∃ o, b.get? id = some o ∧ o.side ≠ side ∧
        e = .sideMismatch id o.side side) b) := by
  refine h.modify.mono ?_
  rintro ⟨result, state, events⟩ ⟨-, hmodified⟩
  have hkept : ∀ {slot : Slot} {o : Order}, b.index[id]? = some slot → b.card slot = some o →
      o.side = side → ∀ e, ¬ ∃ p, b.get? id = some p ∧ p.side ≠ side ∧
        e = BookError.sideMismatch id p.side side := by
    rintro slot o hid ho hside e ⟨p, hp, hne, -⟩
    exact hne ((side_of_get? hid ho p hp).trans hside)
  cases hmodified with
  | added hnew =>
    apply Step.Verdict.accepted
    rintro _ ⟨p, hp, -⟩
    rw [get?, hnew] at hp
    cases hp
  | @rejected slot o hid ho hside =>
    apply Step.Verdict.rejected
    intro e
    constructor
    · rintro rfl
      obtain ⟨p, hp, rfl⟩ := Queues.get?_of_card ho
      exact ⟨p, by rw [get?, hid, Option.bind_some, hp], hside, rfl⟩
    · rintro ⟨p, hp, -, rfl⟩
      rw [side_of_get? hid ho p hp]
  | repriced hid ho _ hside => exact Step.Verdict.accepted (hkept hid ho hside)
  | requeued hid ho hside => exact Step.Verdict.accepted (hkept hid ho hside)
  | resized hid ho hside => exact Step.Verdict.accepted (hkept hid ho hside)

end Book

/-! ## One message -/

namespace Session

variable {s s' t : Session} {m : Message}

theorem onBook_verdict {α : Type} {room : Prop} {refuses : BookError → Prop}
    {f : Book → Except Fault (Step Book α)}
    (h : Yields room (f s.book) (Step.Verdict refuses s.book)) :
    Yields room (s.onBook f) (Step.Verdict refuses s) := by
  rw [onBook_eq]
  refine h.bind ?_
  intro step hstep
  refine Yields.ok ⟨hstep.error_iff, ?_⟩
  intro e he
  rw [hstep.kept e he]

theorem cancel_verdict {refuses : BookError → Prop} {room : Prop} {id : UInt64} {side : Side}
    (h : Yields room (s.remove id) (Step.Verdict refuses s)) :
    Yields room (s.cancel id side) (Step.Verdict refuses s) := by
  unfold cancel
  refine h.bind ?_
  rintro ⟨result, state, events⟩ hstep
  cases result with
  | ok order =>
    apply Yields.ok
    apply Step.Verdict.accepted
    intro e hrefuses
    cases (hstep.error_iff e).mpr hrefuses
  | error error =>
    obtain rfl := hstep.kept error rfl
    apply Yields.ok
    apply Step.Verdict.rejected
    intro e
    exact ⟨fun heq => (hstep.error_iff e).mp (congrArg Except.error heq),
      fun hrefuses => Except.error.inj ((hstep.error_iff e).mpr hrefuses)⟩

/-- A message is answered with an error for one of the three reasons, and then it only moved the
clock. -/
theorem process_verdict (h : s.book.WellFormed) (m : Message) :
    Yields s.book.HasRoom (s.process m)
      (Step.Verdict (s.book.Refuses m) (s.tick m.time)) := by
  have htick : (s.tick m.time).book.WellFormed := h
  unfold process
  cases haction : m.action with
  | add =>
    refine (onBook_verdict htick.add_verdict).bind ?_
    intro step hstep
    exact Yields.ok ((hstep.map Applied.added).congr fun _ => Book.Refuses.iff_of_add haction)
  | cancel =>
    refine (cancel_verdict (onBook_verdict htick.remove_verdict)).bind ?_
    intro step hstep
    exact Yields.ok ((hstep.map Applied.cancelled).congr fun _ => Book.Refuses.iff_of_cancel haction)
  | modify =>
    refine (onBook_verdict htick.modify_verdict).bind ?_
    intro step hstep
    exact Yields.ok ((hstep.map Applied.modified).congr fun _ => Book.Refuses.iff_of_modify haction)
  | trade =>
    refine (trade_follows htick).bind ?_
    intro r _
    apply Yields.ok
    apply Step.Verdict.accepted
    intro e
    exact Book.Refuses.not_of_trade haction

/-- What the answer to a message says of the book before it. -/
theorem judges_of_verdict {step : Step Session Applied}
    (h : step.Verdict (s.book.Refuses m) (s.tick m.time)) : s.book.Judges m step.result where
  error_iff := h.error_iff
  accepted := by
    intro hfine
    cases hresult : step.result with
    | ok applied => exact ⟨applied, rfl⟩
    | error error =>
      have hrefuses := (h.error_iff error).mp hresult
      rcases hfine with htrade | ⟨hmodify, hid⟩
      · exact absurd hrefuses (Book.Refuses.not_of_trade htrade)
      · obtain ⟨o, ho, -⟩ := (Book.Refuses.iff_of_modify hmodify).mp hrefuses
        rw [Book.get?, Book.contains_eq_false_iff.mp hid] at ho
        cases ho

/-! ## The clock -/

/-- Two sessions are the same but for the clock and the number of messages. -/
structure SameButClock (s s' : Session) : Prop where
  config : s'.config = s.config
  book : s'.book = s.book
  tape : s'.tape = s.tape
  indicators : s'.indicators = s.indicators

namespace SameButClock

theorem refl (s : Session) : s.SameButClock s := ⟨rfl, rfl, rfl, rfl⟩

end SameButClock

/-- Sessions that are the same but for the clock stay in lockstep: no answer depends on the clock or
on the number of messages before it. -/
theorem lockstep_sameButClock : Lockstep Eq SameButClock where
  operations := Book.lockstep_eq
  book h := h.book.symm
  setBook hb h := ⟨h.config, hb.symm, h.tape, h.indicators⟩
  record price size h :=
    ⟨h.config, h.book, congrArg (fun tape => tape.record price size) h.tape, h.indicators⟩
  tick _ h := ⟨h.config, h.book, h.tape, h.indicators⟩
  reset h := ⟨h.config, congrArg Book.clear h.book, rfl, congrArg Indicators.clear h.indicators⟩

end Session

/-! ## A run of messages -/

/-- An answer turns a message down. -/
def Answer.isRejection : Answer → Bool
  | .processed (.error _) => true
  | _ => false

namespace Session

variable {s s' t : Session} {log : List (Answer × List Event)}

/-- The messages that were not turned down, given the answers to all of them. -/
def accepted (messages : List Message) (log : List (Answer × List Event)) : List Message :=
  ((messages.zip log).filter fun entry => !entry.2.1.isRejection).map Prod.fst

/-- Each message of a run is judged by the book that the messages before it left. -/
theorem run_judges (h : s.book.WellFormed) {messages : List Message}
    (hrun : s.run (messages.map .process) = .ok (s', log)) {i : Nat} {m : Message}
    (hm : messages[i]? = some m) :
    ∃ before result events, s.run ((messages.take i).map .process) = .ok (before, log.take i) ∧
      log[i]? = some (.processed result, events) ∧ before.book.Judges m result := by
  induction messages generalizing s log i with
  | nil => cases hm
  | cons first messages ih =>
    obtain ⟨step, rest, hstep, hrest, rfl⟩ := run_process_cons hrun
    cases i with
    | zero =>
      obtain rfl : first = m := Option.some.inj hm
      have hverdict := (process_verdict h first).sound step hstep
      exact ⟨s, step.result, step.events, rfl, rfl, judges_of_verdict hverdict⟩
    | succ i =>
      have hstate := ((process_follows h first).sound step hstep).wellFormed
      obtain ⟨before, result, events, hbefore, hreply, hjudges⟩ := ih hstate hrest hm
      exact ⟨before, result, events, run_process_of_step hstep hbefore, hreply, hjudges⟩

/-- A session that is the same but for its clock, and never sees the rejected messages, ends up the
same but for its clock, and gives the same answers. -/
theorem run_accepted (h : s.book.WellFormed) (hsame : s.SameButClock t) {messages : List Message}
    (hrun : s.run (messages.map .process) = .ok (s', log)) :
    ∃ t', t.run ((accepted messages log).map .process) =
        .ok (t', log.filter fun reply => !reply.1.isRejection) ∧ s'.SameButClock t' := by
  -- The two runs go side by side; at a rejected message only the first one moves, by its clock.
  induction messages generalizing s t log with
  | nil =>
    cases hrun
    exact ⟨t, rfl, hsame⟩
  | cons m messages ih =>
    obtain ⟨step, rest, hstep, hrest, rfl⟩ := run_process_cons hrun
    have hverdict := (process_verdict h m).sound step hstep
    have hstate := ((process_follows h m).sound step hstep).wellFormed
    obtain ⟨result, state, events⟩ := step
    cases result with
    | error error =>
      obtain rfl := hverdict.kept error rfl
      have hskip : (s.tick m.time).SameButClock t :=
        ⟨hsame.config, hsame.book, hsame.tape, hsame.indicators⟩
      exact ih hstate hskip hrest
    | ok applied =>
      have hagree := lockstep_sameButClock.process hsame m
      rw [hstep] at hagree
      obtain ⟨step', hstep', hresult, hsame', hevents⟩ := hagree.exists_ok
      obtain ⟨t', hrun', hlast⟩ := ih hstate hsame' hrest
      refine ⟨t', ?_, hlast⟩
      have hcons := run_process_of_step hstep' hrun'
      rw [hresult, hevents] at hcons
      exact hcons

/-- In every run of messages, from every session that some calls lead to, the messages answered with
an error are exactly those the book refuses at that moment. Without them the run gives the same
answers to the others and ends the same but for the clock and the number of messages. With room the
run has an answer. -/
theorem run_rejections (config : BookConfig) (calls : List Call) {s : Session}
    {earlier : List (Answer × List Event)} (hrun : (ofConfig config).run calls = .ok (s, earlier))
    (messages : List Message) :
    (s.Roomy (messages.map .process) → ∃ r, s.run (messages.map .process) = .ok r) ∧
      ∀ s' log, s.run (messages.map .process) = .ok (s', log) →
        (∀ i m, messages[i]? = some m → ∃ before result events,
          s.run ((messages.take i).map .process) = .ok (before, log.take i) ∧
          log[i]? = some (.processed result, events) ∧ before.book.Judges m result) ∧
        ∃ s'', s.run ((accepted messages log).map .process) =
            .ok (s'', log.filter fun reply => !reply.1.isRejection) ∧ s'.SameButClock s'' := by
  have hs := (run_wellFormed (s := ofConfig config) Book.WellFormed.empty calls).sound _ hrun
  refine ⟨(run_wellFormed hs _).answers, ?_⟩
  intro s' log hmessages
  refine ⟨?_, run_accepted hs (SameButClock.refl s) hmessages⟩
  intro i m hm
  exact run_judges hs hmessages hm

/-- A resting id that is added again, an unknown one that is cancelled, a modify under the other side
and a trade. The answer to the trade, and the end, are those of the trade alone. -/
theorem run_rejections_trade :
    ∃ s earlier s' log s'', (ofConfig {}).run [.add 1 100 5 .bid 0] = .ok (s, earlier) ∧
      s.run [.process ⟨.add, 1, 101, 2, .bid, 1⟩, .process ⟨.cancel, 2, 0, 0, .ask, 2⟩,
        .process ⟨.modify, 1, 90, 3, .ask, 3⟩, .process ⟨.trade, 9, 100, 4, .ask, 4⟩] =
          .ok (s', log) ∧
      s.run [.process ⟨.trade, 9, 100, 4, .ask, 4⟩] =
        .ok (s'', log.filter fun reply => !reply.1.isRejection) ∧ s'.SameButClock s'' := by
  let messages : List Message := [⟨.add, 1, 101, 2, .bid, 1⟩, ⟨.cancel, 2, 0, 0, .ask, 2⟩,
    ⟨.modify, 1, 90, 3, .ask, 3⟩, ⟨.trade, 9, 100, 4, .ask, 4⟩]
  obtain ⟨⟨s, earlier⟩, hrun, hs⟩ :=
    (run_wellFormed (s := ofConfig {}) Book.WellFormed.empty [.add 1 100 5 .bid 0]).exists_ok
      (roomy_of_length_lt _ _ (by decide))
  obtain ⟨hanswers, hlog⟩ := run_rejections {} _ hrun messages
  have hsize : s.book.index.size = 1 := by
    have hvalue : ((ofConfig {}).run [.add 1 100 5 .bid 0]).map (fun r => r.1.book.index.size) =
        .ok 1 := by decide +kernel
    rw [hrun] at hvalue
    exact Except.ok.inj hvalue
  obtain ⟨⟨s', log⟩, hmessages⟩ := hanswers (roomy_of_add_length_lt hs _ (by rw [hsize]; decide))
  have hkept : accepted messages log = [⟨.trade, 9, 100, 4, .ask, 4⟩] := by
    have hvalue : ((ofConfig {}).run [.add 1 100 5 .bid 0] >>= fun r =>
        (r.1.run (messages.map .process)).map fun r' => accepted messages r'.2) =
          .ok [⟨.trade, 9, 100, 4, .ask, 4⟩] := by decide +kernel
    rw [hrun, ok_bind, hmessages] at hvalue
    exact Except.ok.inj hvalue
  obtain ⟨-, s'', hrun'', hsame⟩ := hlog s' log hmessages
  rw [hkept] at hrun''
  exact ⟨s, earlier, s', log, s'', hrun, hmessages, hrun'', hsame⟩

end Session

end PriceTime
