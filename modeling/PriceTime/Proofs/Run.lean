import PriceTime.Proofs.Book.Consistent
import PriceTime.Proofs.Book.Trade
import PriceTime.Session

/-!
# Runs of a session

A run gives a session one call after the other: messages, operations called directly, figures to
draw, and a new start. Every run from a fresh session keeps the book well formed, and as long as
fewer than `2 ^ 32` orders rest at a time no call ends in a fault.

* `Session.call_wellFormed`: what one call preserves.
* `Session.run_keeps`: what every call keeps, a run keeps.
* `Session.run_wellFormed`: what a whole run preserves.
* `Session.run_consistent`: the book reached by a run is consistent and passes its audit.
* `Session.roomy_of_length_lt`: a run of fewer than `2 ^ 32` calls leaves room at all times.
-/

namespace PriceTime

/-! ## Calls -/

/-- What a session can be asked to do. -/
inductive Call where
  | process (m : Message)
  | add (id : UInt64) (price : Int32) (size : UInt32) (side : Side) (time : UInt64)
  | remove (id : UInt64)
  | modify (id : UInt64) (price : Int32) (size : UInt32) (side : Side) (time : UInt64)
  | trade (id : UInt64) (price : Int32) (size : UInt32) (side : Side)
  | drawVolumes
  | drawImbalance
  | drawSkew
  | drawChange
  | drawMid
  | reset

/-- What a session answers. -/
inductive Answer where
  | processed (result : Except BookError Applied)
  | added (result : Except BookError Slot)
  | removed (result : Except BookError Order)
  | modified (result : Except BookError ModifyOutcome)
  | traded (report : TradeReport)
  | imbalance (value : Float)
  | skew (value : Option Float)
  | change (value : Option Int64)
  | mid (value : Option Int32)
  /-- Nothing but that it is done. -/
  | done

namespace Session

/-- Do what a call asks for: the answer, the session afterwards and what was reported. -/
def call (s : Session) : Call → Except Fault (Answer × Session × List Event)
  | .process m => do
    let step ← s.process m
    return (.processed step.result, step.state, step.events)
  | .add id price size side time => do
    let step ← s.add id price size side time
    return (.added step.result, step.state, step.events)
  | .remove id => do
    let step ← s.remove id
    return (.removed step.result, step.state, step.events)
  | .modify id price size side time => do
    let step ← s.modify id price size side time
    return (.modified step.result, step.state, step.events)
  | .trade id price size side => do
    let (report, s, events) ← s.trade id price size side
    return (.traded report, s, events)
  | .drawVolumes => return (.done, s.drawVolumes, [])
  | .drawImbalance => return (.imbalance s.drawImbalance.1, s.drawImbalance.2, [])
  | .drawSkew => return (.skew s.drawSkew.1, s.drawSkew.2, [])
  | .drawChange => return (.change s.drawChange.1, s.drawChange.2, [])
  | .drawMid => return (.mid s.drawMid.1, s.drawMid.2, [])
  | .reset => return (.done, s.reset, [])

/-- Do one call after the other: the session afterwards, and the answer and the reports of each. -/
def run (s : Session) : List Call → Except Fault (Session × List (Answer × List Event))
  | [] => return (s, [])
  | call :: calls => do
    let (answer, s, events) ← s.call call
    let (s, log) ← run s calls
    return (s, (answer, events) :: log)

/-- Fewer than `2 ^ 32` orders rest at any time while a session does some calls. -/
def Roomy (s : Session) : List Call → Prop
  | [] => s.book.index.size < 2 ^ 32
  | call :: calls => s.book.index.size < 2 ^ 32 ∧
    ∀ answer s' events, s.call call = .ok (answer, s', events) → Roomy s' calls

/-- At most `n` orders rest at any time while a session does some calls. -/
def AtMost (n : Nat) (s : Session) : List Call → Prop
  | [] => s.book.index.size ≤ n
  | call :: calls => s.book.index.size ≤ n ∧
    ∀ answer s' events, s.call call = .ok (answer, s', events) → AtMost n s' calls

theorem AtMost.first {n : Nat} {s : Session} {calls : List Call} (h : s.AtMost n calls) :
    s.book.index.size ≤ n := by
  cases calls with
  | nil => exact h
  | cons call calls => exact h.1

theorem AtMost.roomy {n : Nat} {s : Session} {calls : List Call} (h : s.AtMost n calls)
    (hn : n < 2 ^ 32) : s.Roomy calls := by
  induction calls generalizing s with
  | nil => exact lt_of_le_of_lt h hn
  | cons call calls ih =>
    exact ⟨lt_of_le_of_lt h.1 hn, fun answer s' events hcall => ih (h.2 answer s' events hcall)⟩

end Session

/-! ## What one call does to the book -/

namespace Book

variable {b b' : Book} {events : List Event} {o : Order} {id : UInt64} {price : Int32}
  {size : UInt32} {side : Side} {time : UInt64} {room : Prop}

/-- A book after a call: it is well formed, and has at most one order more. -/
structure Follows (b b' : Book) : Prop where
  wellFormed : b'.WellFormed
  size_le : b'.index.size ≤ b.index.size + 1

theorem WellFormed.follows (h : b.WellFormed) (h' : b'.WellFormed)
    (hsize : b'.queues.orders.size ≤ b.queues.orders.size + 1) : b.Follows b' := by
  refine ⟨h', ?_⟩
  rw [h.size_index, h'.size_index]
  exact hsize

theorem WellFormed.follows_self (h : b.WellFormed) : b.Follows b :=
  ⟨h, Nat.le_succ _⟩

theorem WellFormed.add_follows (h : b.WellFormed) :
    Yields room (b.add id price size side time) fun step => b.Follows step.state := by
  cases hnew : b.contains id with
  | true =>
    rw [add_of_contains hnew]
    exact Yields.ok h.follows_self
  | false =>
    refine (h.add hnew).mono ?_
    rintro step ⟨-, hstep, hadded⟩
    exact h.follows hstep (Nat.le_of_eq (hadded.size_eq h hstep))

theorem WellFormed.remove_follows (h : b.WellFormed) :
    Yields b.HasRoom (b.remove id) fun step => b.Follows step.state := by
  cases hid : b.index[id]? with
  | none =>
    rw [remove_of_none hid]
    exact Yields.ok h.follows_self
  | some slot =>
    obtain ⟨o, ho, -⟩ := h.index_iff.mp hid
    obtain ⟨key, hlevel⟩ := h.settled ho
    refine (h.remove hid ho hlevel).mono ?_
    rintro step ⟨-, hstep, hremoved⟩
    have := hremoved.size_eq h hstep ho
    exact h.follows hstep (by omega)

theorem WellFormed.modify_follows (h : b.WellFormed) :
    Yields b.HasRoom (b.modify id price size side time)
      fun step => b.Follows step.state := by
  refine h.modify.mono ?_
  rintro step ⟨hstep, hmodified⟩
  exact h.follows hstep (hmodified.size_le h hstep)

theorem WellFormed.trade_follows (h : b.WellFormed) :
    Yields b.HasRoom (b.trade id price size side)
      fun r => b.Follows r.2.1 := by
  refine (h.trade id price size side).mono ?_
  rintro r ⟨hr, htraded⟩
  exact h.follows hr (Nat.le_succ_of_le (htraded.size_le h))

end Book

namespace Session

variable {s : Session}

theorem onBook_eq {α : Type} (s : Session) (f : Book → Except Fault (Step Book α)) :
    s.onBook f = f s.book >>= fun step =>
      .ok {
        result := step.result
        state := { s with book := step.state }
        events := step.events } := by
  obtain ⟨config, book, tape, indicators, messages, clock⟩ := s
  unfold onBook
  dsimp only
  split
  · rename_i hf
    rw [hf]
    rfl
  · rename_i hf
    rw [hf]
    rfl

theorem trade_eq (s : Session) (id : UInt64) (price : Int32) (size : UInt32) (side : Side) :
    s.trade id price size side = s.book.trade id price size side >>= fun r =>
      .ok (r.1, { s with book := r.2.1, tape := s.tape.record price size }, r.2.2) := rfl

/-- What an operation on the book of a session comes to. -/
theorem onBook_spec {α : Type} {room : Prop} {f : Book → Except Fault (Step Book α)}
    {post : Step Book α → Prop} (h : Yields room (f s.book) post) :
    Yields room (s.onBook f) fun step =>
      post { result := step.result, state := step.state.book, events := step.events } := by
  rw [onBook_eq]
  refine h.bind ?_
  intro step hstep
  exact Yields.ok hstep

/-- What a trade of a session comes to. -/
theorem trade_spec {room : Prop} {id : UInt64} {price : Int32} {size : UInt32} {side : Side}
    {post : TradeReport × Book × List Event → Prop}
    (h : Yields room (s.book.trade id price size side) post) :
    Yields room (s.trade id price size side) fun r => post (r.1, r.2.1.book, r.2.2) := by
  rw [trade_eq]
  refine h.bind ?_
  intro r hr
  exact Yields.ok hr

theorem trade_follows (h : s.book.WellFormed) {id : UInt64} {price : Int32} {size : UInt32}
    {side : Side} :
    Yields s.book.HasRoom (s.trade id price size side)
      fun r => s.book.Follows r.2.1.book :=
  trade_spec h.trade_follows

theorem cancel_follows (h : s.book.WellFormed) {id : UInt64} {side : Side} :
    Yields s.book.HasRoom (s.cancel id side)
      fun step => s.book.Follows step.state.book := by
  unfold cancel
  refine (onBook_spec h.remove_follows).bind ?_
  rintro ⟨result, state, events⟩ hstep
  cases result with
  | ok order => exact Yields.ok hstep
  | error error => exact Yields.ok hstep

theorem process_follows (h : s.book.WellFormed) (m : Message) :
    Yields s.book.HasRoom (s.process m)
      fun step => s.book.Follows step.state.book := by
  unfold process
  have htick : (s.tick m.time).book.WellFormed := h
  cases m.action with
  | add => exact (onBook_spec htick.add_follows).bind fun step hstep => Yields.ok hstep
  | cancel => exact (cancel_follows htick).bind fun step hstep => Yields.ok hstep
  | modify => exact (onBook_spec htick.modify_follows).bind fun step hstep => Yields.ok hstep
  | trade => exact (trade_follows htick).bind fun r hr => Yields.ok hr

/-- One call leaves a well-formed book well formed, and with room it ends in no fault. -/
theorem call_follows (h : s.book.WellFormed) (call : Call) :
    Yields s.book.HasRoom (s.call call) fun r => s.book.Follows r.2.1.book := by
  cases call with
  | process m => exact (process_follows h m).bind fun step hstep => Yields.ok hstep
  | add => exact (onBook_spec h.add_follows).bind fun step hstep => Yields.ok hstep
  | remove => exact (onBook_spec h.remove_follows).bind fun step hstep => Yields.ok hstep
  | modify => exact (onBook_spec h.modify_follows).bind fun step hstep => Yields.ok hstep
  | trade => exact (trade_follows h).bind fun r hr => Yields.ok hr
  | drawVolumes => exact Yields.ok h.follows_self
  | drawImbalance => exact Yields.ok h.follows_self
  | drawSkew =>
    refine Yields.ok ?_
    exact h.follows_self
  | drawChange =>
    refine Yields.ok ?_
    exact h.follows_self
  | drawMid =>
    refine Yields.ok ?_
    exact h.follows_self
  | reset =>
    have hclear : s.reset.book = Book.empty := h.clear_eq
    refine Yields.ok ⟨?_, ?_⟩
    · exact hclear ▸ Book.WellFormed.empty
    · show s.reset.book.index.size ≤ _
      rw [hclear]
      exact Nat.zero_le _

/-! ## What a run does to the book -/

theorem run_cons (s : Session) (call : Call) (calls : List Call) :
    s.run (call :: calls) = s.call call >>= fun r => r.2.1.run calls >>= fun r' =>
      .ok (r'.1, (r.1, r.2.2) :: r'.2) := rfl

/-- A run that has an answer, taken apart at its first call. -/
theorem exists_of_run_cons {call : Call} {calls : List Call} {s' : Session}
    {log : List (Answer × List Event)} (hrun : s.run (call :: calls) = .ok (s', log)) :
    ∃ answer s₁ events rest, s.call call = .ok (answer, s₁, events) ∧
      s₁.run calls = .ok (s', rest) ∧ log = (answer, events) :: rest := by
  rw [run_cons] at hrun
  cases hcall : s.call call with
  | error fault =>
    rw [hcall] at hrun
    cases hrun
  | ok r =>
    rw [hcall, ok_bind] at hrun
    cases hrest : r.2.1.run calls with
    | error fault =>
      rw [hrest] at hrun
      cases hrun
    | ok r' =>
      rw [hrest] at hrun
      cases hrun
      exact ⟨r.1, r.2.1, r.2.2, r'.2, rfl, hrest, rfl⟩

theorem call_process (s : Session) (m : Message) :
    s.call (.process m) = s.process m >>= fun step =>
      .ok (.processed step.result, step.state, step.events) := rfl

/-- A run that has an answer, taken apart at its first message. -/
theorem run_process_cons {m : Message} {messages : List Message}
    {s' : Session} {log : List (Answer × List Event)}
    (hrun : s.run ((m :: messages).map .process) = .ok (s', log)) :
    ∃ step rest, s.process m = .ok step ∧ step.state.run (messages.map .process) = .ok (s', rest) ∧
      log = (.processed step.result, step.events) :: rest := by
  obtain ⟨answer, s₁, events, rest, hcall, hrest, rfl⟩ := exists_of_run_cons hrun
  rw [call_process] at hcall
  cases hstep : s.process m with
  | error fault =>
    rw [hstep] at hcall
    cases hcall
  | ok step =>
    rw [hstep] at hcall
    cases hcall
    exact ⟨step, rest, rfl, hrest, rfl⟩

theorem run_process_of_step {m : Message} {messages : List Message} {step : Step Session Applied}
    {s' : Session} {rest : List (Answer × List Event)} (hstep : s.process m = .ok step)
    (hrest : step.state.run (messages.map .process) = .ok (s', rest)) :
    s.run ((m :: messages).map .process) =
      .ok (s', (.processed step.result, step.events) :: rest) := by
  rw [List.map_cons, run_cons, call_process, hstep, ok_bind, ok_bind, hrest]
  rfl

/-- What every call keeps, a run keeps. The invariant may speak of a record of the run, which each
call carries on by `next`. -/
theorem run_keeps {σ : Type} (inv : σ → Session → Prop)
    (next : σ → Call → Answer × List Event → σ)
    (hstep : ∀ {g s call answer s' events}, inv g s → s.call call = .ok (answer, s', events) →
      inv (next g call (answer, events)) s') {calls : List Call} {s' : Session} {g : σ}
    {log : List (Answer × List Event)} (h : inv g s) (hrun : s.run calls = .ok (s', log)) :
    inv ((calls.zip log).foldl (fun g entry => next g entry.1 entry.2) g) s' := by
  induction calls generalizing s g log with
  | nil =>
    cases hrun
    exact h
  | cons call calls ih =>
    obtain ⟨answer, s₁, events, rest, hcall, hrest, rfl⟩ := exists_of_run_cons hrun
    exact ih (hstep h hcall) hrest

/-- A run with room ends in no fault, and every run leaves a well-formed book. -/
theorem run_wellFormed (h : s.book.WellFormed) (calls : List Call) :
    Yields (s.Roomy calls) (s.run calls) fun r => r.1.book.WellFormed := by
  induction calls generalizing s with
  | nil => exact Yields.ok h
  | cons call calls ih =>
    rw [run_cons]
    -- What the call gave is kept as an equation, as the room for the rest of the run is said of it.
    refine ((call_follows h call).self.of_room fun hroom => h.hasRoom hroom.1).bind ?_
    rintro ⟨answer, s₁, events⟩ ⟨hs₁, hcall⟩
    refine ((ih hs₁.wellFormed).of_room fun hroom => hroom.2 answer s₁ events hcall).bind ?_
    rintro ⟨s', log⟩ hs'
    exact Yields.ok hs'

/-- There is room at the end of a run, too. -/
theorem Roomy.last {calls : List Call} {s' : Session} {log : List (Answer × List Event)}
    (hroom : s.Roomy calls) (hrun : s.run calls = .ok (s', log)) :
    s'.book.index.size < 2 ^ 32 := by
  induction calls generalizing s log with
  | nil =>
    cases hrun
    exact hroom
  | cons call calls ih =>
    obtain ⟨answer, s₁, events, rest, hcall, hrest, rfl⟩ := exists_of_run_cons hrun
    exact ih (hroom.2 answer s₁ events hcall) hrest

/-- Each call brings in at most one order, so few calls bring in few orders. -/
theorem atMost_of_add_length_le {n : Nat} (h : s.book.WellFormed) (calls : List Call)
    (hlength : s.book.index.size + calls.length ≤ n) : s.AtMost n calls := by
  induction calls generalizing s with
  | nil => exact hlength
  | cons call calls ih =>
    rw [List.length_cons] at hlength
    refine ⟨by omega, ?_⟩
    intro answer s' events hcall
    have hs' := (call_follows h call).sound _ hcall
    have := hs'.size_le
    dsimp only at this
    exact ih hs'.wellFormed (by omega)

theorem roomy_of_add_length_lt (h : s.book.WellFormed) (calls : List Call)
    (hlength : s.book.index.size + calls.length < 2 ^ 32) : s.Roomy calls :=
  (atMost_of_add_length_le h calls (Nat.le_refl _)).roomy hlength

theorem atMost_of_length_le {n : Nat} (config : BookConfig) (calls : List Call)
    (hlength : calls.length ≤ n) : (ofConfig config).AtMost n calls := by
  refine atMost_of_add_length_le Book.WellFormed.empty calls ?_
  have hzero : (ofConfig config).book.index.size = 0 := Std.ExtTreeMap.size_empty
  omega

/-- A run of fewer than `2 ^ 32` calls leaves room at all times. -/
theorem roomy_of_length_lt (config : BookConfig) (calls : List Call)
    (hlength : calls.length < 2 ^ 32) : (ofConfig config).Roomy calls :=
  (atMost_of_length_le config calls (Nat.le_refl _)).roomy hlength

theorem exists_run {config : BookConfig} {calls : List Call}
    (hroom : (ofConfig config).Roomy calls) :
    ∃ s log, (ofConfig config).run calls = .ok (s, log) := by
  obtain ⟨⟨s, log⟩, hrun⟩ :=
    (run_wellFormed (s := ofConfig config) Book.WellFormed.empty calls).answers hroom
  exact ⟨s, log, hrun⟩

theorem wellFormed_of_run {config : BookConfig} {calls : List Call} {s : Session}
    {log : List (Answer × List Event)} (hrun : (ofConfig config).run calls = .ok (s, log)) :
    s.book.WellFormed :=
  (run_wellFormed (s := ofConfig config) Book.WellFormed.empty calls).sound _ hrun

/-- With fewer than `2 ^ 32` orders at any time, every run from a fresh session comes to its end, in
a consistent book that passes its audit. -/
theorem run_consistent (config : BookConfig) (calls : List Call)
    (hroom : (ofConfig config).Roomy calls) :
    ∃ s log, (ofConfig config).run calls = .ok (s, log) ∧ s.book.Consistent ∧
      s.book.audit = .ok () := by
  obtain ⟨⟨s, log⟩, hrun, hs⟩ :=
    (run_wellFormed (s := ofConfig config) Book.WellFormed.empty calls).exists_ok hroom
  have hlast := hroom.last hrun
  rw [hs.size_index] at hlast
  exact ⟨s, log, hrun, hs.consistent hlast, hs.audit_eq hlast⟩

/-- After a new start, a crossed book: an order without size at the front of the asks, and among the
bids one that moved to a better price, another one behind it, and one that a trade has left over after
it took the order before it. -/
theorem run_consistent_crossed :
    ∃ s log, (ofConfig {}).run [.add 1 (-5) 5 .ask 3, .reset, .add 1 100 5 .bid 0,
        .add 2 99 0 .ask 0, .add 3 100 7 .bid 1, .add 4 100 6 .bid 1, .add 5 99 3 .ask 1,
        .modify 1 101 9 .bid 2, .trade 9 100 9 .ask, .drawChange, .add 6 101 2 .bid 3] =
      .ok (s, log) ∧ s.book.Consistent ∧ s.book.audit = .ok () ∧
      s.book.idsAt .bid 101 = [1, 6] ∧ s.book.idsAt .bid 100 = [4] ∧
      s.book.idsAt .ask 99 = [2, 5] := by
  obtain ⟨s, log, hrun, hconsistent, haudit⟩ := run_consistent {} [.add 1 (-5) 5 .ask 3, .reset,
    .add 1 100 5 .bid 0, .add 2 99 0 .ask 0, .add 3 100 7 .bid 1, .add 4 100 6 .bid 1,
    .add 5 99 3 .ask 1, .modify 1 101 9 .bid 2, .trade 9 100 9 .ask, .drawChange,
    .add 6 101 2 .bid 3] (roomy_of_length_lt _ _ (by decide))
  have hqueues : s.book.idsAt .bid 101 = [1, 6] ∧ s.book.idsAt .bid 100 = [4] ∧
      s.book.idsAt .ask 99 = [2, 5] := by
    cases hrun
    decide +kernel
  exact ⟨s, log, hrun, hconsistent, haudit, hqueues⟩

end Session

end PriceTime
