import PriceTime.Proofs.Surroundings

/-!
# What a call does to the figures and the tape

Figures are drawn by the calls that ask for them and forgotten by a new start; no other call touches
them. The tape is written by trades alone, whether they come as messages or directly, and is empty
after a new start. All of this can be told without looking at what becomes of the book.

* `Indicators.after`, `Tape.afterCall`: the figures and the tape after a call.
* `Session.call_draws`: what a call leaves behind and answers.
-/

namespace PriceTime

/-- The figures after a call. -/
def Indicators.after (i : Indicators) (b : Book) : Call → Indicators
  | .drawVolumes => i.drawVolumes b
  | .drawImbalance => i.drawImbalance.2
  | .drawSkew => (i.drawSkew b).2
  | .drawChange => (i.drawChange b).2
  | .drawMid => (i.drawMid b).2
  | .reset => i.clear
  | _ => i

/-- The tape after a call. -/
def Tape.afterCall (t : Tape) : Call → Tape
  | .process m => t.after m
  | .trade _ price size _ => t.record price size
  | .reset => {}
  | _ => t

namespace Answer

/-- The change of volume that an answer tells. -/
def change? : Answer → Option Int64
  | .change value => value
  | _ => none

/-- The mid price that an answer tells. -/
def mid? : Answer → Option Int32
  | .mid value => value
  | _ => none

end Answer

namespace Session

variable {s s' : Session} {answer : Answer} {events : List Event}

/-- What a call leaves of the figures and the tape, and what it tells of them. -/
structure Draws (s : Session) (call : Call) (answer : Answer) (s' : Session) : Prop where
  indicators : s'.indicators = s.indicators.after s.book call
  tape : s'.tape = s.tape.afterCall call
  change : answer.change? = if call matches .drawChange then s.drawChange.1 else none
  mid : answer.mid? = if call matches .drawMid then s.drawMid.1 else none

/-- Only the calls that ask for figures change them, and only trades write on the tape. -/
theorem call_draws (s : Session) (call : Call) :
    Yields False (s.call call) fun r => s.Draws call r.1 r.2.1 := by
  have hkept : ∀ book, { s with book }.indicators = s.indicators ∧ { s with book }.tape = s.tape :=
    fun _ => ⟨rfl, rfl⟩
  have hbook {α : Type} (f : Book → Except Fault (Step Book α)) :=
    onBook_keeps (fun s' => s'.indicators = s.indicators ∧ s'.tape = s.tape) hkept f
  cases call with
  | process m =>
    have hprocess := process_keeps
      (fun s' => s'.indicators = s.indicators ∧ s'.tape = s.tape.after m) m fun _ => ⟨rfl, rfl⟩
    exact hprocess.bind fun step hstep => Yields.ok ⟨hstep.1, hstep.2, rfl, rfl⟩
  | add => exact (hbook _).bind fun step hstep => Yields.ok ⟨hstep.1, hstep.2, rfl, rfl⟩
  | remove => exact (hbook _).bind fun step hstep => Yields.ok ⟨hstep.1, hstep.2, rfl, rfl⟩
  | modify => exact (hbook _).bind fun step hstep => Yields.ok ⟨hstep.1, hstep.2, rfl, rfl⟩
  | trade id price size side =>
    have htrade := trade_keeps (s := s)
      (fun s' => s'.indicators = s.indicators ∧ s'.tape = s.tape.record price size)
      id price size side fun _ => ⟨rfl, rfl⟩
    exact htrade.bind fun r hr => Yields.ok ⟨hr.1, hr.2, rfl, rfl⟩
  | drawVolumes | drawImbalance | drawSkew | drawChange | drawMid | reset =>
    exact Yields.ok ⟨rfl, rfl, rfl, rfl⟩

end Session

end PriceTime
