import PriceTime.Fault

/-!
# Runs without faults

The operations of a book end in a fault when one of its promises is broken. What they are held to
has two halves: where there is `room`, there is an answer; and every answer there is meets a
condition. Both halves pass along a sequence of operations.

* `Yields.bind`: one operation after another.
* `Yields.exists_ok`: with room, an answer that meets the condition.
-/

namespace PriceTime

theorem ok_bind {α β : Type} (a : α) (next : α → Except Fault β) :
    (Except.ok a >>= next) = next a := rfl

/-- `run` has an answer if there is `room`, and every answer it has satisfies `post`. -/
structure Yields {α : Type} (room : Prop) (run : Except Fault α) (post : α → Prop) : Prop where
  answers : room → ∃ a, run = .ok a
  sound : ∀ a, run = .ok a → post a

namespace Yields

variable {α β : Type} {room room' : Prop} {run : Except Fault α} {post post' : α → Prop}

theorem ok {a : α} (h : post a) : Yields room (.ok a) post where
  answers _ := ⟨a, rfl⟩
  sound b hb := by
    cases hb
    exact h

/-- A fault is fine where there is no room. -/
theorem error (fault : Fault) (h : ¬ room) : Yields room (.error fault) post where
  answers hroom := absurd hroom h
  sound b hb := by cases hb

theorem bind {next : α → Except Fault β} {final : β → Prop} (h : Yields room run post)
    (hnext : ∀ a, post a → Yields room (next a) final) : Yields room (run >>= next) final where
  answers hroom := by
    obtain ⟨a, ha⟩ := h.answers hroom
    obtain ⟨b, hb⟩ := (hnext a (h.sound a ha)).answers hroom
    refine ⟨b, ?_⟩
    rw [ha]
    exact hb
  sound b hb := by
    cases hrun : run with
    | error fault =>
      rw [hrun] at hb
      cases hb
    | ok a =>
      rw [hrun] at hb
      exact (hnext a (h.sound a hrun)).sound b hb

theorem mono (h : Yields room run post) (hpost : ∀ a, post a → post' a) : Yields room run post' where
  answers := h.answers
  sound a ha := hpost a (h.sound a ha)

theorem of_room (h : Yields room run post) (hroom : room' → room) : Yields room' run post where
  answers hr := h.answers (hroom hr)
  sound := h.sound

/-- What is known of the answer because it is one. -/
theorem self (h : Yields room run post) : Yields room run fun a => post a ∧ run = .ok a where
  answers := h.answers
  sound a ha := ⟨h.sound a ha, ha⟩

theorem exists_ok (h : Yields room run post) (hroom : room) : ∃ a, run = .ok a ∧ post a := by
  obtain ⟨a, ha⟩ := h.answers hroom
  exact ⟨a, ha, h.sound a ha⟩

end Yields

end PriceTime
