import PriceTime.Proofs.Agreement
import PriceTime.Proofs.Run

/-!
# Sessions in lockstep

Two books are in lockstep when they answer every operation alike and are in lockstep afterwards; so
are, of course, two equal books. Two sessions whose books are in lockstep answer an operation alike,
whatever else they hold. A relation between sessions that sees the books, and that the operations
carry along, is kept by every call but the drawing of figures; so two sessions so related stay
related, and give the same answers.

* `Book.Lockstep`, `Session.Lockstep`: such relations.
* `Session.Lockstep.process`: what it says of one message.
* `Session.Lockstep.call`: what it says of one call.
-/

namespace PriceTime

/-- Two steps have the same answer and the same reports, and the states afterwards are related. -/
structure Step.Alike {σ α : Type} (R : σ → σ → Prop) (step step' : Step σ α) : Prop where
  result : step'.result = step.result
  state : R step.state step'.state
  events : step'.events = step.events

theorem Step.Alike.map {σ α β : Type} {R : σ → σ → Prop} {step step' : Step σ α}
    (h : step.Alike R step') (f : α → β) : (step.map f).Alike R (step'.map f) :=
  ⟨congrArg (Except.map f) h.result, h.state, h.events⟩

/-- Whether a call only draws a figure. -/
def Call.isFigure : Call → Bool
  | .drawVolumes | .drawImbalance | .drawSkew | .drawChange | .drawMid => true
  | _ => false

/-- Related books answer every operation alike, and stay related. -/
structure Book.Lockstep (B : Book → Book → Prop) : Prop where
  add : ∀ {b b'} id price size side time, B b b' →
    Agree (Step.Alike B) (b.add id price size side time) (b'.add id price size side time)
  remove : ∀ {b b'} id, B b b' → Agree (Step.Alike B) (b.remove id) (b'.remove id)
  modify : ∀ {b b'} id price size side time, B b b' →
    Agree (Step.Alike B) (b.modify id price size side time) (b'.modify id price size side time)
  trade : ∀ {b b'} id price size side, B b b' →
    Agree (fun r r' => r'.1 = r.1 ∧ B r.2.1 r'.2.1 ∧ r'.2.2 = r.2.2) (b.trade id price size side)
      (b'.trade id price size side)

/-- Equal books answer alike. -/
theorem Book.lockstep_eq : Lockstep Eq where
  add _ _ _ _ _ h := h ▸ (Agree.refl _).mono fun _ _ hstep => hstep ▸ ⟨rfl, rfl, rfl⟩
  remove _ h := h ▸ (Agree.refl _).mono fun _ _ hstep => hstep ▸ ⟨rfl, rfl, rfl⟩
  modify _ _ _ _ _ h := h ▸ (Agree.refl _).mono fun _ _ hstep => hstep ▸ ⟨rfl, rfl, rfl⟩
  trade _ _ _ _ h := h ▸ (Agree.refl _).mono fun _ _ hr => hr ▸ ⟨rfl, rfl, rfl⟩

namespace Session

/-- Related sessions have books that answer alike, and stay related when the books change to others
that do, when both enter the same trade, when both clocks tick, and when both start over. -/
structure Lockstep (B : Book → Book → Prop) (R : Session → Session → Prop) : Prop where
  operations : Book.Lockstep B
  book : ∀ {s s'}, R s s' → B s.book s'.book
  setBook : ∀ {s s' b b'}, B b b' → R s s' → R { s with book := b } { s' with book := b' }
  record : ∀ {s s'} (price : Int32) (size : UInt32), R s s' →
    R { s with tape := s.tape.record price size } { s' with tape := s'.tape.record price size }
  tick : ∀ {s s'} (time : UInt64), R s s' → R (s.tick time) (s'.tick time)
  reset : ∀ {s s'}, R s s' → R s.reset s'.reset

namespace Lockstep

variable {B : Book → Book → Prop} {R : Session → Session → Prop} {s s' : Session}
  (hR : Lockstep B R) (h : R s s')

include hR h

theorem onBook {α : Type} {f : Book → Except Fault (Step Book α)}
    (hf : Agree (Step.Alike B) (f s.book) (f s'.book)) :
    Agree (Step.Alike R) (s.onBook f) (s'.onBook f) := by
  rw [onBook_eq, onBook_eq]
  refine hf.bind ?_
  intro step step' hstep
  exact .ok ⟨hstep.result, hR.setBook hstep.state h, hstep.events⟩

theorem cancel (id : UInt64) (side : Side) :
    Agree (Step.Alike R) (s.cancel id side) (s'.cancel id side) := by
  refine (hR.onBook h (hR.operations.remove id (hR.book h))).bind ?_
  rintro ⟨_, state, _⟩ ⟨result, state', events⟩ ⟨rfl, hstate, rfl⟩
  cases result with
  | ok order => exact .ok ⟨rfl, hstate, rfl⟩
  | error error => exact .ok ⟨rfl, hstate, rfl⟩

theorem trade (id : UInt64) (price : Int32) (size : UInt32) (side : Side) :
    Agree (fun r r' => r'.1 = r.1 ∧ R r.2.1 r'.2.1 ∧ r'.2.2 = r.2.2)
      (s.trade id price size side) (s'.trade id price size side) := by
  rw [trade_eq, trade_eq]
  refine (hR.operations.trade id price size side (hR.book h)).bind ?_
  rintro r r' ⟨hreport, hbook, hevents⟩
  exact .ok ⟨hreport, hR.setBook hbook (hR.record price size h), hevents⟩

/-- Related sessions answer a message alike. -/
theorem process (m : Message) : Agree (Step.Alike R) (s.process m) (s'.process m) := by
  have htick := hR.tick m.time h
  unfold Session.process
  cases m.action with
  | add =>
    refine (hR.onBook htick (hR.operations.add _ _ _ _ _ (hR.book htick))).bind ?_
    intro step step' hsteps
    exact .ok (hsteps.map _)
  | cancel =>
    refine (hR.cancel htick _ _).bind ?_
    intro step step' hsteps
    exact .ok (hsteps.map _)
  | modify =>
    refine (hR.onBook htick (hR.operations.modify _ _ _ _ _ (hR.book htick))).bind ?_
    intro step step' hsteps
    exact .ok (hsteps.map _)
  | trade =>
    refine (hR.trade htick _ _ _ _).bind ?_
    rintro ⟨report, state, events⟩ ⟨_, state', _⟩ ⟨hreport, hstate, hevents⟩
    dsimp only at hreport hevents
    subst hreport hevents
    exact .ok ⟨rfl, hstate, rfl⟩

/-- Related sessions answer every call alike that does not draw a figure. -/
theorem call (call : Call) (hcall : call.isFigure = false) :
    Agree (fun r r' => r'.1 = r.1 ∧ R r.2.1 r'.2.1 ∧ r'.2.2 = r.2.2) (s.call call)
      (s'.call call) := by
  cases call with
  | process m =>
    refine (hR.process h m).bind ?_
    rintro step step' ⟨hresult, hstate, hevents⟩
    exact .ok ⟨congrArg Answer.processed hresult, hstate, hevents⟩
  | add =>
    refine (hR.onBook h (hR.operations.add _ _ _ _ _ (hR.book h))).bind ?_
    rintro step step' ⟨hresult, hstate, hevents⟩
    exact .ok ⟨congrArg Answer.added hresult, hstate, hevents⟩
  | remove =>
    refine (hR.onBook h (hR.operations.remove _ (hR.book h))).bind ?_
    rintro step step' ⟨hresult, hstate, hevents⟩
    exact .ok ⟨congrArg Answer.removed hresult, hstate, hevents⟩
  | modify =>
    refine (hR.onBook h (hR.operations.modify _ _ _ _ _ (hR.book h))).bind ?_
    rintro step step' ⟨hresult, hstate, hevents⟩
    exact .ok ⟨congrArg Answer.modified hresult, hstate, hevents⟩
  | trade =>
    refine (hR.trade h _ _ _ _).bind ?_
    rintro r r' ⟨hreport, hstate, hevents⟩
    exact .ok ⟨congrArg Answer.traded hreport, hstate, hevents⟩
  | reset => exact .ok ⟨rfl, hR.reset h, rfl⟩
  | drawVolumes | drawImbalance | drawSkew | drawChange | drawMid => cases hcall

end Lockstep

end Session

end PriceTime
