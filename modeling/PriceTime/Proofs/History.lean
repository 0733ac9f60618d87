import Mathlib.Data.List.DropRight
import PriceTime.Proofs.Book.Views
import PriceTime.Proofs.Figures
import PriceTime.Proofs.Restart

/-!
# Histories

Whoever writes down what a session answers knows its histories: they are the changes of volume and
the mid prices that were answered since the last new start, cut to the values answered last. A
change of volume is drawn against the best quotes of the last time one was drawn, however long ago
that was and whatever became of the book since. A call that has nothing to draw, as a side is empty,
leaves no trace at all.

* `Window.Retains`: a window keeps the values recorded last.
* `Sightings`: what was drawn since the last new start.
* `Session.call_recalls`: what one call adds to it.
* `Session.run_histories`: the histories after a run.
-/

namespace PriceTime

/-! ## Windows -/

/-- The values recorded last, of all that were ever recorded; with capacity zero all of them. -/
def retained {α : Type} (capacity : Nat) (xs : List α) : List α :=
  if capacity = 0 then xs else xs.rtake capacity

namespace Window

variable {α : Type} {w : Window α} {xs : List α}

/-- A window keeps the last of the values that were ever recorded. -/
def Retains (w : Window α) (xs : List α) : Prop :=
  w.toList = retained w.capacity xs

theorem Retains.clear (w : Window α) : w.clear.Retains [] := by
  unfold Retains retained
  split
  · rfl
  · rw [List.rtake_nil]
    rfl

theorem capacity_record (w : Window α) (x : α) : (w.record x).capacity = w.capacity := rfl

theorem Retains.record (h : w.Retains xs) (x : α) : (w.record x).Retains (xs ++ [x]) := by
  unfold Retains retained at *
  rw [toList_record, capacity_record, h]
  cases w.capacity with
  | zero => rfl
  | succ n =>
    rw [if_neg (Nat.succ_ne_zero n), if_neg (Nat.succ_ne_zero n), List.rtake_concat_succ]
    congr 1
    unfold List.rtake
    rw [List.length_drop]
    -- A full window loses its oldest value, and one that is not full has lost none so far.
    split
    · rw [List.tail_drop]
      congr 1
      omega
    · congr 1
      omega

theorem fromNewest?_eq (w : Window α) (i : Nat) : w.fromNewest? i = w.toList.reverse[i]? := by
  have hlength : w.toList.length = w.items.size := w.items.length_toList
  unfold fromNewest?
  split
  · rename_i hlt
    rw [List.getElem?_reverse (by omega), hlength]
  · rename_i hle
    rw [List.getElem?_eq_none (by rw [List.length_reverse]; omega)]

end Window

theorem Side.exists_iff {p : Side → Prop} : (∃ side, p side) ↔ p .bid ∨ p .ask := by
  constructor
  · rintro ⟨side, hside⟩
    cases side with
    | bid => exact .inl hside
    | ask => exact .inr hside
  · rintro (hbid | hask)
    · exact ⟨.bid, hbid⟩
    · exact ⟨.ask, hask⟩

/-! ## What was drawn -/

/-- What was drawn since the last new start. -/
structure Sightings where
  /-- The changes of volume, oldest first. -/
  changes : List Int64 := []
  /-- The mid prices, oldest first. -/
  mids : List Int32 := []
  /-- The book from which a change of volume was drawn last. -/
  drawn : Option Book := none

/-- Note what is answered to a call, given the book it is about. -/
def Sightings.note (seen : Sightings) (b : Book) (call : Call) (answer : Answer) : Sightings :=
  match call with
  | .reset => {}
  | _ => {
    changes := seen.changes ++ answer.change?.toList
    mids := seen.mids ++ answer.mid?.toList
    drawn := if answer.change?.isSome then some b else seen.drawn }

/-- What was drawn once a session has done some calls. -/
def Session.sightings (s : Session) (seen : Sightings) : List Call → Sightings
  | [] => seen
  | call :: calls =>
    match s.call call with
    | .ok (answer, s', _) => s'.sightings (seen.note s.book call answer) calls
    | .error _ => seen

/-- The figures remember what was drawn. -/
structure Indicators.Recalls (i : Indicators) (seen : Sightings) : Prop where
  changes : i.changes.Retains seen.changes
  mids : i.mids.Retains seen.mids
  lastBid : i.lastBid = seen.drawn.bind (·.bestQuote? .bid)
  lastAsk : i.lastAsk = seen.drawn.bind (·.bestQuote? .ask)

namespace Session

variable {s s' : Session} {seen : Sightings} {call : Call} {answer : Answer} {events : List Event}
  {log : List (Answer × List Event)}

/-! ## One call -/

/-- A change of volume is drawn from the best quotes of both sides, or not at all. -/
theorem drawChange_cases (s : Session) :
    s.drawChange = (none, s) ∨ ∃ bid ask, s.book.bestQuote? .bid = some bid ∧
      s.book.bestQuote? .ask = some ask ∧ ∃ change, s.drawChange = (some change,
        { s with indicators := { s.indicators with
          changes := s.indicators.changes.record change
          lastBid := some bid
          lastAsk := some ask } }) := by
  unfold drawChange Indicators.drawChange
  cases hbid : s.book.bestQuote? .bid with
  | none => exact .inl rfl
  | some bid =>
    cases hask : s.book.bestQuote? .ask with
    | none => exact .inl rfl
    | some ask => exact .inr ⟨bid, ask, rfl, rfl, _, rfl⟩

theorem drawMid_cases (s : Session) :
    s.drawMid = (none, s) ∨ ∃ mid, s.drawMid = (some mid,
      { s with indicators := { s.indicators with mids := s.indicators.mids.record mid } }) := by
  unfold drawMid Indicators.drawMid
  cases s.book.midPrice? with
  | none => exact .inl rfl
  | some mid => exact .inr ⟨mid, rfl⟩

theorem note_of_none (seen : Sightings) (b : Book) (hcall : call ≠ .reset)
    (hchange : answer.change? = none) (hmid : answer.mid? = none) :
    seen.note b call answer = seen := by
  unfold Sightings.note
  rw [hchange, hmid]
  split
  · exact absurd rfl hcall
  · simp

/-- The figures remember what a call drew. -/
theorem call_recalls (h : s.indicators.Recalls seen)
    (hcall : s.call call = .ok (answer, s', events)) :
    s'.indicators.Recalls (seen.note s.book call answer) := by
  have hdraws : s.Draws call answer s' := (call_draws s call).sound _ hcall
  have hindicators := hdraws.indicators
  have hchange := hdraws.change
  have hmid := hdraws.mid
  -- Whatever a call does to the book, the figures change only with what the answer tells of them.
  have hquiet : call ≠ .reset → answer.change? = none → answer.mid? = none →
      seen.note s.book call answer = seen := note_of_none seen s.book
  cases call with
  | drawChange =>
    have hs' : s'.indicators = s.drawChange.2.indicators := hindicators
    have hchange : answer.change? = s.drawChange.1 := hchange
    have hmid : answer.mid? = none := hmid
    rcases s.drawChange_cases with hnone | ⟨bid, ask, hbid, hask, change, hsome⟩
    · rw [hnone] at hs' hchange
      rw [hquiet nofun hchange hmid, hs']
      exact h
    · rw [hsome] at hs' hchange
      unfold Sightings.note
      rw [hs', hchange, hmid]
      exact {
        changes := h.changes.record change
        mids := by
          rw [Option.toList_none, List.append_nil]
          exact h.mids
        lastBid := hbid.symm
        lastAsk := hask.symm }
  | drawMid =>
    have hs' : s'.indicators = s.drawMid.2.indicators := hindicators
    have hchange : answer.change? = none := hchange
    have hmid : answer.mid? = s.drawMid.1 := hmid
    rcases s.drawMid_cases with hnone | ⟨mid, hsome⟩
    · rw [hnone] at hs' hmid
      rw [hquiet nofun hchange hmid, hs']
      exact h
    · rw [hsome] at hs' hmid
      unfold Sightings.note
      rw [hs', hchange, hmid]
      exact {
        changes := by
          rw [Option.toList_none, List.append_nil]
          exact h.changes
        mids := h.mids.record mid
        lastBid := h.lastBid
        lastAsk := h.lastAsk }
  | reset =>
    rw [hindicators]
    exact ⟨.clear _, .clear _, rfl, rfl⟩
  | drawSkew =>
    rw [hquiet nofun hchange hmid, hindicators]
    unfold Indicators.after Indicators.drawSkew
    dsimp only
    split
    · exact ⟨h.changes, h.mids, h.lastBid, h.lastAsk⟩
    · exact h
  | _ =>
    rw [hquiet nofun hchange hmid, hindicators]
    exact ⟨h.changes, h.mids, h.lastBid, h.lastAsk⟩

/-! ## A run -/

theorem run_recalls (h : s.indicators.Recalls seen) {calls : List Call}
    (hrun : s.run calls = .ok (s', log)) :
    s'.indicators.Recalls (s.sightings seen calls) := by
  induction calls generalizing s seen log with
  | nil =>
    cases hrun
    exact h
  | cons call calls ih =>
    obtain ⟨answer, s₁, events, rest, hcall, hrest, rfl⟩ := exists_of_run_cons hrun
    rw [sightings, hcall]
    exact ih (call_recalls h hcall) hrest

theorem recalls_ofConfig (config : BookConfig) : (ofConfig config).indicators.Recalls {} where
  changes := Window.Retains.clear { capacity := config.historyCapacity.toNat }
  mids := Window.Retains.clear { capacity := config.historyCapacity.toNat }
  lastBid := rfl
  lastAsk := rfl

/-! ## What the histories show -/

/-- What a session shows of what it drew since the last new start, and when it has nothing to draw.
-/
structure Remembers (s : Session) (capacity : Nat) (seen : Sightings) : Prop where
  /-- The changes of volume answered last, oldest first. -/
  changes : s.indicators.changes.toList = retained capacity seen.changes
  fromOldest : ∀ i, s.indicators.changes.fromOldest? i = (retained capacity seen.changes)[i]?
  /-- The mid prices answered last, newest first, and nothing past them. -/
  fromNewest : ∀ i, s.indicators.mids.fromNewest? i = (retained capacity seen.mids).reverse[i]?
  beyond : ∀ i, (retained capacity seen.mids).length ≤ i → s.indicators.mids.fromNewest? i = none
  /-- The next change of volume is drawn against the quotes of the last one. -/
  last : s.indicators.lastBid = seen.drawn.bind (·.bestQuote? .bid) ∧
    s.indicators.lastAsk = seen.drawn.bind (·.bestQuote? .ask)
  /-- Nothing is drawn while a side is empty. -/
  change_none_iff : s.drawChange.1 = none ↔ ∃ side, s.book.levels side = []
  mid_none_iff : s.drawMid.1 = none ↔ ∃ side, s.book.levels side = []
  /-- When nothing is drawn, nothing changes. -/
  change_idle : s.drawChange.1 = none → s.drawChange.2 = s
  mid_idle : s.drawMid.1 = none → s.drawMid.2 = s

theorem change_none_iff (h : s.book.WellFormed) :
    s.drawChange.1 = none ↔ ∃ side, s.book.levels side = [] := by
  have hempty : ∀ side, s.book.bestQuote? side = none ↔ s.book.levels side = [] :=
    fun _ => h.bestQuote?_eq_none_iff
  rw [Side.exists_iff, ← hempty, ← hempty]
  unfold drawChange Indicators.drawChange
  cases s.book.bestQuote? .bid with
  | none => simp
  | some bid => cases s.book.bestQuote? .ask <;> simp

theorem mid_none_iff (h : s.book.WellFormed) :
    s.drawMid.1 = none ↔ ∃ side, s.book.levels side = [] := by
  have hempty : ∀ side, s.book.bestPrice? side = none ↔ s.book.levels side = [] :=
    fun _ => h.bestPrice?_eq_none_iff
  rw [Side.exists_iff, ← hempty, ← hempty]
  unfold drawMid Indicators.drawMid Book.midPrice?
  cases s.book.bestPrice? .bid with
  | none => simp
  | some bid => cases s.book.bestPrice? .ask <;> simp

theorem remembers_of_recalls {capacity : Nat} (h : s.indicators.Recalls seen)
    (hchanges : s.indicators.changes.capacity = capacity)
    (hmids : s.indicators.mids.capacity = capacity) (hbook : s.book.WellFormed) :
    s.Remembers capacity seen := by
  have hchange : s.indicators.changes.toList = retained capacity seen.changes :=
    hchanges ▸ h.changes
  have hmid : s.indicators.mids.toList = retained capacity seen.mids := hmids ▸ h.mids
  refine {
    changes := hchange
    fromOldest := fun i => congrArg (·[i]?) hchange
    fromNewest := fun i => by rw [Window.fromNewest?_eq, hmid]
    beyond := ?_
    last := ⟨h.lastBid, h.lastAsk⟩
    change_none_iff := change_none_iff hbook
    mid_none_iff := mid_none_iff hbook
    change_idle := ?_
    mid_idle := ?_ }
  · intro i hi
    rw [Window.fromNewest?_eq, hmid, List.getElem?_eq_none (by rwa [List.length_reverse])]
  · intro hnone
    rcases s.drawChange_cases with heq | ⟨_, _, _, _, _, heq⟩
    · rw [heq]
    · rw [heq] at hnone
      cases hnone
  · intro hnone
    rcases s.drawMid_cases with heq | ⟨_, heq⟩
    · rw [heq]
    · rw [heq] at hnone
      cases hnone

/-- After every run from a fresh session, the histories are what was drawn since the last new start,
cut to as many values as the settings say; and what cannot be drawn leaves no trace. With fewer than
`2 ^ 32` orders at any time there is an answer to the run. -/
theorem run_histories (config : BookConfig) (calls : List Call) :
    ((ofConfig config).Roomy calls → ∃ r, (ofConfig config).run calls = .ok r) ∧
      ∀ s log, (ofConfig config).run calls = .ok (s, log) →
        s.Remembers config.historyCapacity.toNat ((ofConfig config).sightings {} calls) := by
  have hrun := run_wellFormed (s := ofConfig config) Book.WellFormed.empty calls
  refine ⟨hrun.answers, ?_⟩
  intro s log hs
  have hsettings : s.Follows config := run_settings ⟨rfl, rfl, rfl, rfl⟩ hs
  exact remembers_of_recalls (run_recalls (recalls_ofConfig config) hs)
    hsettings.indicators.changes_eq hsettings.indicators.mids_eq (hrun.sound _ hs)

/-- A call with nothing to draw, and then three changes of volume in a history for two, the last one
in a crossed book. -/
theorem run_histories_cut :
    ∃ s log seen, (ofConfig { historyCapacity := 2 }).run [.add 1 100 5 .bid 0, .drawChange,
        .add 2 101 4 .ask 1, .drawChange, .drawMid, .add 3 100 2 .bid 2, .drawChange,
        .add 4 102 1 .bid 3, .drawChange, .drawMid] = .ok (s, log) ∧
      s.Remembers 2 seen ∧ seen.changes = [1, 2, 1] ∧ s.indicators.changes.toList = [2, 1] ∧
      seen.mids = [100, 101] ∧ s.indicators.mids.fromNewest? 1 = some 100 ∧
      s.indicators.lastBid = some (102, 1) := by
  obtain ⟨hanswers, hall⟩ := run_histories { historyCapacity := 2 } [.add 1 100 5 .bid 0,
    .drawChange, .add 2 101 4 .ask 1, .drawChange, .drawMid, .add 3 100 2 .bid 2, .drawChange,
    .add 4 102 1 .bid 3, .drawChange, .drawMid]
  obtain ⟨⟨s, log⟩, hrun⟩ := hanswers (roomy_of_length_lt _ _ (by decide))
  have hremembers := hall s log hrun
  refine ⟨s, log, _, hrun, hremembers, by decide +kernel, hremembers.changes.trans ?_,
    by decide +kernel, (hremembers.fromNewest 1).trans ?_, hremembers.last.1.trans ?_⟩
  · decide +kernel
  · decide +kernel
  · decide +kernel

end Session

end PriceTime
