import PriceTime.Proofs.Outcome

/-!
# Runs that agree

Two runs agree when both end in the same fault, or both have an answer and the answers are related.
Agreement passes along two sequences of operations that go side by side, so it is shown for each
operation by itself.

* `Agree.bind`: one operation after another, on both sides.
-/

namespace PriceTime

/-- Both runs have an answer and the answers are related, or both end in the same fault. -/
inductive Agree {α β : Type} (R : α → β → Prop) : Except Fault α → Except Fault β → Prop where
  | ok {a : α} {b : β} (h : R a b) : Agree R (.ok a) (.ok b)
  | error (fault : Fault) : Agree R (.error fault) (.error fault)

namespace Agree

variable {α β α' β' : Type} {R S : α → β → Prop} {R' : α' → β' → Prop} {run : Except Fault α}
  {run' : Except Fault β}

theorem refl (run : Except Fault α) : Agree Eq run run := by
  cases run with
  | ok a => exact ok rfl
  | error fault => exact error fault

theorem bind {next : α → Except Fault α'} {next' : β → Except Fault β'} (h : Agree R run run')
    (hnext : ∀ a b, R a b → Agree R' (next a) (next' b)) :
    Agree R' (run >>= next) (run' >>= next') := by
  cases h with
  | ok hab => exact hnext _ _ hab
  | error fault => exact error fault

/-- One more operation after the first run only. -/
theorem bind_left {next : α → Except Fault α'} {S' : α' → β → Prop} (h : Agree R run run')
    (hnext : ∀ a b, R a b → Agree S' (next a) (.ok b)) : Agree S' (run >>= next) run' := by
  cases h with
  | ok hab => exact hnext _ _ hab
  | error fault => exact error fault

theorem mono (h : Agree R run run') (hRS : ∀ a b, R a b → S a b) : Agree S run run' := by
  cases h with
  | ok hab => exact ok (hRS _ _ hab)
  | error fault => exact error fault

theorem ite {c : Prop} [Decidable c] {other : Except Fault α} {other' : Except Fault β}
    (h : Agree R run run') (hother : Agree R other other') :
    Agree R (if c then run else other) (if c then run' else other') := by
  by_cases hc : c
  · rw [if_pos hc, if_pos hc]
    exact h
  · rw [if_neg hc, if_neg hc]
    exact hother

/-- What is known of the answers of the first run. -/
theorem and_yields {room : Prop} {post : α → Prop} (h : Agree R run run')
    (hrun : Yields room run post) : Agree (fun a b => R a b ∧ post a) run run' := by
  cases h with
  | ok hab => exact ok ⟨hab, hrun.sound _ rfl⟩
  | error fault => exact error fault

/-- Runs that agree show the same of their answers, if related answers do. -/
theorem map_eq {γ : Type} {f : α → γ} {g : β → γ} (h : Agree R run run')
    (hfg : ∀ a b, R a b → f a = g b) : run.map f = run'.map g := by
  cases h with
  | ok hab => exact congrArg Except.ok (hfg _ _ hab)
  | error fault => rfl

/-- A run with an answer agrees with one that has a related answer. -/
theorem exists_ok {a : α} (h : Agree R (.ok a) run') : ∃ b, run' = .ok b ∧ R a b := by
  cases h with
  | ok hab => exact ⟨_, rfl, hab⟩

end Agree

end PriceTime
