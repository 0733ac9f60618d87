import PriceTime.Proofs.Book.Views

/-!
# Sessions follow plain books

Call by call a session does to its book what the plain step does to the plain book, and answers the
same, up to the numbers of slots. So the book a run reaches stands for what the plain steps make of
the empty plain book.

* `Session.call_refines`: one call, here and there.
* `Session.run_plain`: a whole run, here and there.
* `Session.run_refines`: after any run the book shows its plain book, and every call is the plain
step.
-/

namespace PriceTime

namespace Session

variable {s : Session}

/-- A call did what the plain step does, and answered the same. -/
structure Refines (s : Session) (call : Call) (answer : Answer) (s' : Session) : Prop where
  plain_eq : s'.book.plain = (s.book.plain.step call).2
  answer_eq : ∀ expected ∈ (s.book.plain.step call).1, answer.withoutSlot = expected

/-! ## One call -/

theorem trade_refines (h : s.book.AtRest) (id : UInt64) (price : Int32) (size : UInt32)
    (side : Side) :
    Yields s.book.HasRoom (s.trade id price size side) fun r =>
      r.2.1.book.AtRest ∧ s.book.plain.trade id price size side = (r.1, r.2.1.book.plain) :=
  trade_spec h.trade

theorem cancel_refines (h : s.book.AtRest) (id : UInt64) (side : Side) :
    Yields s.book.HasRoom (s.cancel id side) fun step =>
      step.state.book.AtRest ∧ ∃ result,
        s.book.plain.remove id = (result, step.state.book.plain) ∧
          step.result = result.map Order.id := by
  unfold cancel
  refine (onBook_spec h.remove).bind ?_
  rintro ⟨result, state, events⟩ ⟨hstate, hplain⟩
  cases result with
  | ok order => exact Yields.ok ⟨hstate, _, hplain, rfl⟩
  | error error => exact Yields.ok ⟨hstate, _, hplain, rfl⟩

theorem process_refines (h : s.book.AtRest) (m : Message) :
    Yields s.book.HasRoom (s.process m) fun step =>
      step.state.book.AtRest ∧
        s.book.plain.process m = (step.result.map Applied.withoutSlot, step.state.book.plain) := by
  unfold process PlainBook.process
  have htick : (s.tick m.time).book.AtRest := h
  cases m.action with
  | add =>
    refine (onBook_spec htick.add).bind ?_
    rintro ⟨result, state, events⟩ ⟨hstate, hplain⟩
    refine Yields.ok ⟨hstate, ?_⟩
    have hplain : s.book.plain.add m.id m.price m.size m.side m.time = _ := hplain
    rw [hplain]
    cases result <;> rfl
  | cancel =>
    refine (cancel_refines htick m.id m.side).bind ?_
    rintro ⟨_, state, events⟩ ⟨hstate, result, hplain, rfl⟩
    refine Yields.ok ⟨hstate, ?_⟩
    have hplain : s.book.plain.remove m.id = _ := hplain
    rw [hplain]
    cases result <;> rfl
  | modify =>
    refine (onBook_spec htick.modify).bind ?_
    rintro ⟨result, state, events⟩ ⟨hstate, hplain⟩
    refine Yields.ok ⟨hstate, ?_⟩
    have hplain : s.book.plain.modify m.id m.price m.size m.side m.time = _ := hplain
    rw [hplain]
    cases result <;> rfl
  | trade =>
    refine (trade_refines htick m.id m.price m.size m.side).bind ?_
    rintro ⟨report, state, events⟩ ⟨hstate, hplain⟩
    refine Yields.ok ⟨hstate, ?_⟩
    have hplain : s.book.plain.trade m.id m.price m.size m.side = _ := hplain
    rw [hplain]
    rfl

/-- A call of a session with a book at rest does what the plain step does. -/
theorem call_refines (h : s.book.AtRest) (call : Call) :
    Yields s.book.HasRoom (s.call call) fun r =>
      r.2.1.book.AtRest ∧ s.Refines call r.1 r.2.1 := by
  cases call with
  | process m =>
    refine (process_refines h m).bind ?_
    rintro ⟨result, state, events⟩ ⟨hstate, hplain⟩
    refine Yields.ok ⟨hstate, ?_, ?_⟩
    · simp only [PlainBook.step, hplain]
    · simp only [PlainBook.step, hplain, Option.mem_some_iff]
      rintro _ rfl
      rfl
  | add id price size side time =>
    refine (onBook_spec h.add).bind ?_
    rintro ⟨result, state, events⟩ ⟨hstate, hplain⟩
    refine Yields.ok ⟨hstate, ?_, ?_⟩
    · simp only [PlainBook.step, hplain]
    · simp only [PlainBook.step, hplain, Option.mem_some_iff]
      rintro _ rfl
      cases result <;> rfl
  | remove id =>
    refine (onBook_spec h.remove).bind ?_
    rintro ⟨result, state, events⟩ ⟨hstate, hplain⟩
    refine Yields.ok ⟨hstate, ?_, ?_⟩
    · simp only [PlainBook.step, hplain]
    · simp only [PlainBook.step, hplain, Option.mem_some_iff]
      rintro _ rfl
      rfl
  | modify id price size side time =>
    refine (onBook_spec h.modify).bind ?_
    rintro ⟨result, state, events⟩ ⟨hstate, hplain⟩
    refine Yields.ok ⟨hstate, ?_, ?_⟩
    · simp only [PlainBook.step, hplain]
    · simp only [PlainBook.step, hplain, Option.mem_some_iff]
      rintro _ rfl
      rfl
  | trade id price size side =>
    refine (trade_refines h id price size side).bind ?_
    rintro ⟨report, state, events⟩ ⟨hstate, hplain⟩
    refine Yields.ok ⟨hstate, ?_, ?_⟩
    · simp only [PlainBook.step, hplain]
    · simp only [PlainBook.step, hplain, Option.mem_some_iff]
      rintro _ rfl
      rfl
  | drawVolumes =>
    refine Yields.ok ⟨h, rfl, ?_⟩
    rintro _ ⟨⟩
    rfl
  | drawImbalance => exact Yields.ok ⟨h, rfl, fun _ hnone => by cases hnone⟩
  | drawSkew => exact Yields.ok ⟨h, rfl, fun _ hnone => by cases hnone⟩
  | drawChange => exact Yields.ok ⟨h, rfl, fun _ hnone => by cases hnone⟩
  | drawMid => exact Yields.ok ⟨h, rfl, fun _ hnone => by cases hnone⟩
  | reset =>
    have hclear : s.reset.book = Book.empty := h.clear_eq
    refine Yields.ok ⟨?_, ?_, ?_⟩
    · exact hclear ▸ Book.AtRest.empty
    · show s.reset.book.plain = PlainBook.empty
      rw [hclear]
      exact Book.plain_empty
    · rintro _ ⟨⟩
      rfl

/-! ## A run -/

/-- A run keeps a book at rest, and its plain book goes through the plain steps. -/
theorem run_plain (h : s.book.AtRest) (calls : List Call) :
    Yields (s.Roomy calls) (s.run calls) fun r => r.1.book.AtRest ∧
      r.1.book.plain = calls.foldl (fun plain call => (plain.step call).2) s.book.plain := by
  induction calls generalizing s with
  | nil => exact Yields.ok ⟨h, rfl⟩
  | cons call calls ih =>
    rw [run_cons]
    refine ((call_refines h call).self.of_room fun hroom => h.hasRoom hroom.1).bind ?_
    rintro ⟨answer, s₁, events⟩ ⟨⟨hs₁, hstep⟩, hcall⟩
    refine ((ih hs₁).of_room fun hroom => hroom.2 answer s₁ events hcall).bind ?_
    rintro ⟨s', log⟩ ⟨hs', hplain⟩
    refine Yields.ok ⟨hs', ?_⟩
    rw [hplain, hstep.plain_eq, List.foldl_cons]

theorem atRest_of_run {config : BookConfig} {calls : List Call} {s : Session}
    {log : List (Answer × List Event)} (hrun : (ofConfig config).run calls = .ok (s, log)) :
    s.book.AtRest :=
  ((run_plain (s := ofConfig config) Book.AtRest.empty calls).sound _ hrun).1

/-- After every run from a fresh session the book stands for what the plain steps make of the empty
plain book and shows nothing else, and every further call is the plain step. With fewer than
`2 ^ 32` orders the call has an answer. -/
theorem run_refines (config : BookConfig) (calls : List Call) {s : Session}
    {log : List (Answer × List Event)} (hrun : (ofConfig config).run calls = .ok (s, log)) :
    s.book.plain = calls.foldl (fun plain call => (plain.step call).2) PlainBook.empty ∧
      s.book.Shows s.book.plain ∧
      ∀ call, (s.book.index.size < 2 ^ 32 → ∃ r, s.call call = .ok r) ∧
        ∀ answer s' events, s.call call = .ok (answer, s', events) → s.Refines call answer s' := by
  obtain ⟨hs, hplain⟩ := (run_plain (s := ofConfig config) Book.AtRest.empty calls).sound _ hrun
  refine ⟨?_, hs.shows, ?_⟩
  · rw [hplain, show (ofConfig config).book.plain = PlainBook.empty from Book.plain_empty]
  · intro call
    have hcall := call_refines hs call
    refine ⟨fun hroom => hcall.answers (hs.hasRoom hroom), ?_⟩
    intro answer s' events heq
    exact (hcall.sound _ heq).2

/-- Three bids at one price, of which the second grows and the first is cancelled; then a trade takes
the third and a part of the second. -/
theorem run_refines_queue :
    ∃ s log, (ofConfig {}).run [.add 1 100 5 .bid 0, .add 2 100 4 .bid 1, .add 3 100 3 .bid 2,
        .modify 2 100 6 .bid 3, .remove 1, .trade 9 100 4 .ask] = .ok (s, log) ∧
      s.book.plain.queue .bid 100 = [{ id := 2, size := 5, time := 3 }] ∧
      s.book.Shows s.book.plain := by
  obtain ⟨⟨s, log⟩, hrun, -⟩ :=
    (run_plain (s := ofConfig {}) Book.AtRest.empty [.add 1 100 5 .bid 0, .add 2 100 4 .bid 1,
      .add 3 100 3 .bid 2, .modify 2 100 6 .bid 3, .remove 1, .trade 9 100 4 .ask]).exists_ok
      (roomy_of_length_lt _ _ (by decide))
  obtain ⟨hplain, hshows, -⟩ := run_refines _ _ hrun
  refine ⟨s, log, hrun, ?_, hshows⟩
  rw [hplain]
  decide

end Session

end PriceTime
