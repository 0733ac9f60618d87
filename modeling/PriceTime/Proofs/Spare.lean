import PriceTime.Proofs.Book.Spare

/-!
# Sessions with spare places

Two sessions that differ in spare slots and spare level keys only cannot be told apart: they show the
same, they answer every call alike, with the same slots and the same reports, and after any calls
they still differ in spare places only.

* `Session.SameButSpare`, `Session.ShowsSame`: such sessions, and what they show.
* `Session.SameButSpare.call`: one call.
* `Session.SameButSpare.run`: any run.
-/

namespace PriceTime

/-! ## Figures -/

namespace Book.ShowsSame

variable {b b' : Book} (h : b.ShowsSame b') (i : Indicators)

include h

/-- Figures are drawn from what a book shows. -/
theorem drawVolumes_eq : i.drawVolumes b' = i.drawVolumes b := by
  unfold Indicators.drawVolumes Indicators.volumeNearTop
  rw [h.levels, h.levels]

theorem drawSkew_eq : i.drawSkew b' = i.drawSkew b := by
  unfold Indicators.drawSkew
  rw [h.bestVolume?, h.bestVolume?]

theorem drawChange_eq : i.drawChange b' = i.drawChange b := by
  unfold Indicators.drawChange
  rw [h.bestQuote?, h.bestQuote?]

theorem drawMid_eq : i.drawMid b' = i.drawMid b := by
  unfold Indicators.drawMid
  rw [h.midPrice?]

end Book.ShowsSame

namespace Session

variable {s s' : Session}

/-- The sessions are the same, but for spare places of their books. -/
structure SameButSpare (s s' : Session) : Prop where
  config : s'.config = s.config
  book : s.book.SameButSpare s'.book
  tape : s'.tape = s.tape
  indicators : s'.indicators = s.indicators
  messages : s'.messages = s.messages
  clock : s'.clock = s.clock

/-- Both sessions show the same. -/
structure ShowsSame (s s' : Session) : Prop where
  config : s'.config = s.config
  book : s.book.ShowsSame s'.book
  tape : s'.tape = s.tape
  indicators : s'.indicators = s.indicators
  messages : s'.messages = s.messages
  clock : s'.clock = s.clock
  snapshot : ∀ depth, s'.snapshot depth = s.snapshot depth
  topLevels : s'.topLevels = s.topLevels
  formattedTime : s'.formattedTime = s.formattedTime

namespace SameButSpare

theorem showsSame (h : s.SameButSpare s') : s.ShowsSame s' := by
  have hsnapshot : ∀ depth, s'.snapshot depth = s.snapshot depth := by
    intro depth
    unfold Session.snapshot Snapshot.ofBook
    rw [h.clock, h.book.levels_eq, h.book.levels_eq]
  refine ⟨h.config, h.book.showsSame, h.tape, h.indicators, h.messages, h.clock, hsnapshot, ?_, ?_⟩
  · rw [Session.topLevels, Session.topLevels, h.config, hsnapshot]
  · rw [Session.formattedTime, Session.formattedTime, h.clock]

/-- Sessions that differ in spare places only stay in lockstep. -/
theorem lockstep : Lockstep Book.SameButSpare SameButSpare where
  operations := Book.lockstep_sameButSpare
  book h := h.book
  setBook hb h := { h with book := hb }
  record price size h := { h with tape := congrArg (fun tape => tape.record price size) h.tape }
  tick _ h := { h with messages := congrArg (· + 1) h.messages, clock := rfl }
  reset h :=
    ⟨h.config, h.book.clear, rfl, congrArg Indicators.clear h.indicators, rfl, rfl⟩

theorem setIndicators (h : s.SameButSpare s') {i i' : Indicators} (hi : i' = i) :
    SameButSpare { s with indicators := i } { s' with indicators := i' } :=
  { h with indicators := hi }

/-- One call has the same answer and the same reports. -/
theorem call (h : s.SameButSpare s') (call : Call) :
    Agree (fun r r' => r'.1 = r.1 ∧ r.2.1.SameButSpare r'.2.1 ∧ r'.2.2 = r.2.2) (s.call call)
      (s'.call call) := by
  have hbook := h.book.showsSame
  cases call with
  | drawVolumes =>
    refine Agree.ok ⟨rfl, h.setIndicators ?_, rfl⟩
    rw [h.indicators, hbook.drawVolumes_eq]
  | drawImbalance =>
    have hdraw : s'.indicators.drawImbalance = s.indicators.drawImbalance := by rw [h.indicators]
    exact Agree.ok ⟨congrArg (fun r => Answer.imbalance r.1) hdraw,
      h.setIndicators (congrArg Prod.snd hdraw), rfl⟩
  | drawSkew =>
    have hdraw : s'.indicators.drawSkew s'.book = s.indicators.drawSkew s.book := by
      rw [h.indicators, hbook.drawSkew_eq]
    exact Agree.ok ⟨congrArg (fun r => Answer.skew r.1) hdraw,
      h.setIndicators (congrArg Prod.snd hdraw), rfl⟩
  | drawChange =>
    have hdraw : s'.indicators.drawChange s'.book = s.indicators.drawChange s.book := by
      rw [h.indicators, hbook.drawChange_eq]
    exact Agree.ok ⟨congrArg (fun r => Answer.change r.1) hdraw,
      h.setIndicators (congrArg Prod.snd hdraw), rfl⟩
  | drawMid =>
    have hdraw : s'.indicators.drawMid s'.book = s.indicators.drawMid s.book := by
      rw [h.indicators, hbook.drawMid_eq]
    exact Agree.ok ⟨congrArg (fun r => Answer.mid r.1) hdraw,
      h.setIndicators (congrArg Prod.snd hdraw), rfl⟩
  | process | add | remove | modify | trade | reset => exact lockstep.call h _ rfl

/-- A run has the same answers and the same reports, or ends in the same fault. -/
theorem run (h : s.SameButSpare s') (calls : List Call) :
    Agree (fun r r' => r'.2 = r.2 ∧ r.1.SameButSpare r'.1) (s.run calls) (s'.run calls) := by
  induction calls generalizing s s' with
  | nil => exact Agree.ok ⟨rfl, h⟩
  | cons call calls ih =>
    rw [run_cons, run_cons]
    refine (h.call call).bind ?_
    rintro ⟨_, s₁, _⟩ ⟨answer, s₁', events⟩ ⟨rfl, h₁, rfl⟩
    refine (ih h₁).bind ?_
    rintro ⟨s₂, _⟩ ⟨s₂', log⟩ ⟨rfl, h₂⟩
    exact Agree.ok ⟨rfl, h₂⟩

end SameButSpare

end Session

end PriceTime
