import PriceTime.Proofs.Lockstep

/-!
# What figures and settings leave alone

The market of a session is all it holds but its settings and its figures: the book, the tape, the
number of messages and the clock. Drawing a figure reads the market and never changes it, and every
other call reads and changes only the market. So a run may leave out the figures, or draw others, or
draw them at other times and under other settings: the answers to the other calls are the same, and
so is the market in the end.

* `Session.lockstep_market`: sessions with the same market stay in lockstep.
* `Session.run_withoutFigures`: a run, and the same run without the figures.
* `Session.course_eq_of_withoutFigures_eq`: two runs that differ in their figures only.
-/

namespace PriceTime

/-- What a session holds but for its settings and its figures. -/
structure Market where
  book : Book
  tape : Tape
  /-- The number of messages processed. -/
  messages : UInt64
  /-- The time of the last message processed. -/
  clock : UInt64

/-- The calls that do more than draw a figure. -/
def Call.withoutFigures (calls : List Call) : List Call :=
  calls.filter fun call => !call.isFigure

namespace Session

/-- The market of a session. -/
def market (s : Session) : Market where
  book := s.book
  tape := s.tape
  messages := s.messages
  clock := s.clock

/-- The answers and the reports to the calls that do more than draw a figure, out of a log with
those of all calls. -/
def answersIn (calls : List Call) (log : List (Answer × List Event)) :
    List (Answer × List Event) :=
  ((calls.zip log).filter fun entry => !entry.1.isFigure).map Prod.snd

/-- What a run comes to: the market afterwards, and the answers to the calls that do more than draw
a figure. -/
def course (s : Session) (calls : List Call) :
    Except Fault (Market × List (Answer × List Event)) :=
  (s.run calls).map fun r => (r.1.market, answersIn calls r.2)

variable {s s' : Session}

/-- Sessions with the same market stay in lockstep. -/
theorem lockstep_market : Lockstep Eq fun s s' : Session => s'.market = s.market where
  operations := Book.lockstep_eq
  book h := (congrArg Market.book h).symm
  setBook {_ _ b _} hb h := hb ▸ congrArg (fun market : Market => { market with book := b }) h
  record price size h :=
    congrArg (fun market : Market => { market with tape := market.tape.record price size }) h
  tick time h :=
    congrArg (fun market : Market =>
      { market with messages := market.messages + 1, clock := time }) h
  reset h :=
    congrArg (fun market : Market => ({
      book := market.book.clear, tape := {}, messages := 0, clock := 0 } : Market)) h

/-- Drawing a figure reports nothing and leaves the market alone. -/
theorem call_figure (s : Session) {call : Call} (hcall : call.isFigure = true) :
    ∃ answer s', s.call call = .ok (answer, s', []) ∧ s'.market = s.market := by
  cases call with
  | drawVolumes | drawImbalance | drawSkew | drawChange | drawMid => exact ⟨_, _, rfl, rfl⟩
  | process | add | remove | modify | trade | reset => cases hcall

theorem answersIn_cons (call : Call) (calls : List Call) (reply : Answer × List Event)
    (log : List (Answer × List Event)) :
    answersIn (call :: calls) (reply :: log) =
      if call.isFigure then answersIn calls log else reply :: answersIn calls log := by
  unfold answersIn
  rw [List.zip_cons_cons, List.filter_cons]
  cases call.isFigure <;> rfl

/-- A run, and the same run without the figures from a session with the same market. -/
theorem run_withoutFigures (h : s'.market = s.market) (calls : List Call) :
    Agree (fun r r' => r'.1.market = r.1.market ∧ r'.2 = answersIn calls r.2) (s.run calls)
      (s'.run (Call.withoutFigures calls)) := by
  -- The two runs go side by side; only the first one moves at a figure.
  induction calls generalizing s s' with
  | nil => exact .ok ⟨h, rfl⟩
  | cons call calls ih =>
    rw [run_cons]
    cases hcall : call.isFigure with
    | true =>
      obtain ⟨answer, s₁, hdraw, hmarket⟩ := s.call_figure hcall
      have hskip : Call.withoutFigures (call :: calls) = Call.withoutFigures calls :=
        List.filter_cons_of_neg (by simp [hcall])
      rw [hdraw, ok_bind, hskip]
      refine (ih (h.trans hmarket.symm)).bind_left ?_
      rintro ⟨s₂, log⟩ ⟨s₂', log'⟩ ⟨hlast, hlog⟩
      refine .ok ⟨hlast, ?_⟩
      rw [answersIn_cons, if_pos hcall]
      exact hlog
    | false =>
      have hkeep : Call.withoutFigures (call :: calls) = call :: Call.withoutFigures calls :=
        List.filter_cons_of_pos (by simp [hcall])
      rw [hkeep, run_cons]
      refine (lockstep_market.call h call hcall).bind ?_
      rintro ⟨answer, s₁, events⟩ ⟨answer', s₁', events'⟩ ⟨hanswer, hmarket, hevents⟩
      refine (ih hmarket).bind ?_
      rintro ⟨s₂, log⟩ ⟨s₂', log'⟩ ⟨hlast, hlog⟩
      dsimp only at hanswer hevents hlast hlog
      subst hanswer hevents hlog
      refine .ok ⟨hlast, ?_⟩
      rw [answersIn_cons, if_neg (by simp [hcall])]

/-- Two runs that differ only in their figures and in their settings give the same answers
otherwise, and end in the same market or in the same fault. -/
theorem course_eq_of_withoutFigures_eq (h : s'.market = s.market) {calls calls' : List Call}
    (hcalls : Call.withoutFigures calls = Call.withoutFigures calls') :
    s.course calls = s'.course calls' := by
  have hleft := run_withoutFigures (Eq.refl s.market) calls
  have hright := run_withoutFigures (s := s') h.symm calls'
  rw [← hcalls] at hright
  unfold course
  calc (s.run calls).map (fun r => (r.1.market, answersIn calls r.2))
      = (s.run (Call.withoutFigures calls)).map fun r => (r.1.market, r.2) :=
        hleft.map_eq fun _ _ hr => Prod.ext hr.1.symm hr.2.symm
    _ = (s'.run calls').map fun r => (r.1.market, answersIn calls' r.2) :=
        (hright.map_eq fun _ _ hr => Prod.ext hr.1.symm hr.2.symm).symm

end Session

end PriceTime
