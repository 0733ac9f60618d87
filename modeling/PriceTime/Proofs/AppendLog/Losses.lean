import PriceTime.Proofs.AppendLog.Appends

/-!
# What a log that could not grow has lost

Growing gives the old mapping up before anything that can fail. A log that could not grow is left
without a mapping: it takes nothing more, and it still knows how much was written. Nothing that was
accepted is lost. Finishing the log cuts its file back to exactly these bytes. Letting go of it does
not: a log without mapping counts as closed, so the zeros behind the bytes stay in the file.

* `AppendLog.Keeps`: a log that holds some bytes, with its mapping or without.
* `AppendLog.Keeps.append`: what an append preserves, whether it succeeds or not.
* `AppendLog.run_retains`: what is left in the file, after any appends and failures.
* `AppendLog.drop_after_failure`: zeros that nobody cuts off.
-/

namespace PriceTime

namespace AppendLog

variable {log : AppendLog} {bytes data : ByteArray} {capacity : Nat}
  {growth : Growth} {failure : Failure}

/-- The bytes of the appends that succeeded. -/
def accepted : List Attempt → List (Except Failure Unit) → ByteArray
  | a :: attempts, .ok _ :: answers => a.data ++ accepted attempts answers
  | _ :: attempts, .error _ :: answers => accepted attempts answers
  | _, _ => .empty

/-- The log of some capacity that holds some bytes but has no mapping any more. -/
def unmapped (bytes : ByteArray) (zeros capacity : Nat) : AppendLog where
  file := { bytes, zeros }
  isMapped := false
  capacity
  offset := bytes.size

/-- A log that holds some bytes, with its mapping or without. -/
inductive Keeps (bytes : ByteArray) : AppendLog → Prop where
  | mapped {capacity : Nat} (hroom : bytes.size ≤ capacity) (hpos : 0 < capacity) :
      Keeps bytes (filled bytes capacity)
  | lost {zeros capacity : Nat} : Keeps bytes (unmapped bytes zeros capacity)

/-! ## One append -/

theorem size_grow (log : AppendLog) (required : Nat) (growth : Growth) :
    (log.grow required growth).2.size = log.size := by
  unfold grow
  split
  · cases growth <;> rfl
  · rfl

theorem size_put_of_error (h : (log.put data).1 = .error failure) :
    (log.put data).2.size = log.size := by
  unfold put at h ⊢
  split at h
  · cases h
  · rename_i hgone
    rw [if_neg hgone]

/-- When an append fails, as much is written as before. -/
theorem size_append_of_error (h : (log.append data growth).1 = .error failure) :
    (log.append data growth).2.size = log.size := by
  have hgrow := log.size_grow (log.offset + data.size) growth
  unfold append at h ⊢
  dsimp only at h ⊢
  split at h
  · rename_i hfull
    rw [if_pos hfull]
    generalize log.grow (log.offset + data.size) growth = grown at h hgrow ⊢
    obtain ⟨answer, log'⟩ := grown
    cases answer with
    | ok => exact (size_put_of_error h).trans hgrow
    | error => exact hgrow
  · rename_i hfits
    rw [if_neg hfits]
    exact size_put_of_error h

/-- Without a mapping, nothing is appended. -/
theorem append_unmapped (bytes data : ByteArray) (zeros capacity : Nat) (growth : Growth) :
    (unmapped bytes zeros capacity).append data growth =
      (.error closed, unmapped bytes zeros capacity) := by
  unfold append
  dsimp only
  split
  · rfl
  · rfl

/-- A log that cannot grow loses its mapping. -/
theorem grow_filled_cases (hroom : bytes.size ≤ capacity) (hpos : 0 < capacity) (required : Nat)
    (growth : Growth) :
    (filled bytes capacity).grow required growth =
        (.ok (), filled bytes (enough capacity required)) ∨
      ∃ failure zeros, (filled bytes capacity).grow required growth =
        (.error failure, unmapped bytes zeros capacity) := by
  cases growth with
  | succeeds => exact .inl (grow_filled hroom hpos required)
  | flushFails failure => exact .inr ⟨failure, _, rfl⟩
  | resizeFails failure => exact .inr ⟨failure, _, rfl⟩
  | remapFails failure =>
    refine .inr ⟨failure, enough capacity required - bytes.size, ?_⟩
    show (Except.error failure, (⟨(filled bytes capacity).file.setSize (enough capacity required),
      false, capacity, bytes.size⟩ : AppendLog)) = _
    rw [setSize_filled (Nat.le_trans hroom (le_enough hpos required).1)]
    rfl

/-- An append puts its bytes behind the others, or fails and leaves a log without a mapping. -/
theorem Keeps.append (h : Keeps bytes log) (data : ByteArray) (growth : Growth) :
    ((log.append data growth).1 = .ok () ∧ Keeps (bytes ++ data) (log.append data growth).2 ∧
        (log.append data growth).2.isMapped = log.isMapped) ∨
      ∃ failure, (log.append data growth).1 = .error failure ∧
        Keeps bytes (log.append data growth).2 ∧ (log.append data growth).2.isMapped = false := by
  cases h with
  | @mapped capacity hroom hpos =>
    obtain ⟨hcapacity, hrequired⟩ := le_enough hpos (bytes ++ data).size
    rw [append_filled_eq]
    split
    · rcases grow_filled_cases hroom hpos (bytes ++ data).size growth with hgrow |
        ⟨failure, zeros, hgrow⟩
      · rw [hgrow]
        dsimp only
        rw [put_filled]
        exact .inl ⟨rfl, .mapped hrequired (Nat.lt_of_lt_of_le hpos hcapacity), rfl⟩
      · rw [hgrow]
        exact .inr ⟨failure, rfl, .lost, rfl⟩
    · rename_i hfits
      exact .inl ⟨rfl, .mapped (Nat.le_of_not_lt hfits) hpos, rfl⟩
  | @lost zeros capacity =>
    rw [append_unmapped]
    exact .inr ⟨closed, rfl, .lost, rfl⟩

/-! ## Any appends -/

/-- After any appends, a log holds the bytes of those that succeeded. It still has its mapping if
none of them failed. -/
theorem Keeps.attempt (h : Keeps bytes log) (attempts : List Attempt) :
    Keeps (bytes ++ accepted attempts (log.attempt attempts).1) (log.attempt attempts).2 ∧
      ((log.attempt attempts).2.isMapped = true ↔ log.isMapped = true ∧
        ∀ answer ∈ (log.attempt attempts).1, answer = .ok ()) := by
  induction attempts generalizing bytes log with
  | nil =>
    rw [show accepted [] (log.attempt []).1 = .empty from rfl, ByteArray.append_empty]
    exact ⟨h, by simp [AppendLog.attempt]⟩
  | cons a attempts ih =>
    have hcons : log.attempt (a :: attempts) =
        ((log.append a.data a.growth).1 :: ((log.append a.data a.growth).2.attempt attempts).1,
          ((log.append a.data a.growth).2.attempt attempts).2) := rfl
    rcases h.append a.data a.growth with ⟨hanswer, hkeeps, hmapped⟩ |
      ⟨failure, hanswer, hkeeps, hmapped⟩
    · obtain ⟨hkeeps', hmapped'⟩ := ih hkeeps
      rw [hcons, hanswer, accepted, ← ByteArray.append_assoc]
      exact ⟨hkeeps', by simp [hmapped', hmapped]⟩
    · obtain ⟨hkeeps', hmapped'⟩ := ih hkeeps
      rw [hcons, hanswer, accepted]
      exact ⟨hkeeps', by simp [hmapped', hmapped]⟩

/-! ## What is left -/

theorem Keeps.holds (h : Keeps bytes log) : log.file.bytes = bytes ∧ log.offset = bytes.size := by
  cases h <;> exact ⟨rfl, rfl⟩

/-- What is left of a log that was closed, whether it could grow or not. -/
theorem Keeps.close (h : Keeps bytes log) : log.close.file = { bytes } := by
  obtain ⟨hbytes, hoffset⟩ := h.holds
  have hsize : log.file.bytes.size = log.offset := by rw [hbytes, hoffset]
  show log.file.setSize log.offset = _
  rw [File.setSize_of_le (Nat.le_of_eq hsize), hsize, hbytes, Nat.sub_self]

theorem content_eq_iff (bytes : ByteArray) (zeros : Nat) :
    ({ bytes, zeros } : File).content = bytes ↔ zeros = 0 := by
  constructor
  · intro h
    have hlength : (bytes.data.toList ++ List.replicate zeros 0).length = bytes.data.toList.length :=
      congrArg (fun content : ByteArray => content.data.toList.length) h
    rw [List.length_append, List.length_replicate] at hlength
    omega
  · rintro rfl
    exact File.content_of_bytes bytes

/-- A log that was let go of leaves its bytes only, if it had its mapping or no room was left. -/
theorem Keeps.drop_iff (h : Keeps bytes log) :
    log.drop.file.content = bytes ↔ log.isMapped = true ∨ log.file.size = log.size := by
  cases h with
  | @mapped capacity hroom hpos =>
    have hclose := (Keeps.mapped hroom hpos).close
    refine iff_of_true ?_ (.inl rfl)
    show (filled bytes capacity).close.file.content = bytes
    rw [hclose, File.content_of_bytes]
  | @lost zeros capacity =>
    show ({ bytes, zeros } : File).content = bytes ↔ false = true ∨ bytes.size + zeros = bytes.size
    rw [content_eq_iff]
    simp

/-- After any appends to a new log, some of which may have failed because the log could not grow: the
log has written the appends that succeeded, and one that fails leaves that as it is. Finishing the
log leaves exactly these bytes in the file. Letting go of it leaves them too, but with whatever zeros
are behind them, unless no append has failed. -/
theorem run_retains (existing : File) (first : Nat) (attempts : List Attempt) :
    let answers := ((create existing first).attempt attempts).1
    let log := ((create existing first).attempt attempts).2
    let kept := accepted attempts answers
    (∀ data growth failure, (log.append data growth).1 = .error failure →
      (log.append data growth).2.size = log.size) ∧
    log.size = kept.size ∧
    log.finish.1 = kept.size ∧ log.finish.2.file.content = kept ∧
    (log.drop.file.content = kept ↔
      (∀ answer ∈ answers, answer = .ok ()) ∨ log.file.size = log.size) := by
  intro answers log kept
  have hstart : Keeps .empty (create existing first) := by
    rw [create_eq]
    exact .mapped (Nat.zero_le _) (minCapacity_pos first)
  obtain ⟨hkeeps, hmapped⟩ := hstart.attempt attempts
  rw [ByteArray.empty_append] at hkeeps
  obtain ⟨hbytes, hoffset⟩ := hkeeps.holds
  refine ⟨fun _ _ _ => size_append_of_error, hoffset, hoffset, ?_, ?_⟩
  · show log.close.file.content = kept
    rw [hkeeps.close, File.content_of_bytes]
  · have hmapped : log.isMapped = true ↔ ∀ answer ∈ answers, answer = .ok () :=
      hmapped.trans (and_iff_right rfl)
    rw [hkeeps.drop_iff, hmapped]

/-- A log of six bytes whose file cannot be made longer for the next ones. Finished, it leaves the
six bytes; let go of, it leaves a file of 4096 bytes. -/
theorem drop_after_failure :
    let failure : Failure := { kind := .fileTooLarge, message := "File too large (os error 27)" }
    let attempts : List Attempt :=
      [{ data := "hello\n".toUTF8 }, ⟨⟨.replicate 4096 120⟩, .resizeFails failure⟩]
    let answers := ((create {} 0).attempt attempts).1
    let log := ((create {} 0).attempt attempts).2
    answers = [.ok (), .error failure] ∧ accepted attempts answers = "hello\n".toUTF8 ∧
      log.size = 6 ∧ log.finish.2.file.content = "hello\n".toUTF8 ∧
      log.drop.file.size = 4096 ∧ log.drop.file.content ≠ accepted attempts answers := by
  intro failure attempts answers log
  have hroom : "hello\n".toUTF8.size ≤ 4096 := by decide
  have hfull : 4096 < ("hello\n".toUTF8 ++ ⟨Array.replicate 4096 120⟩ : ByteArray).size := by
    rw [ByteArray.size_append, show (⟨Array.replicate 4096 120⟩ : ByteArray).size = 4096 from
      Array.size_replicate]
    decide
  have hfirst : (create {} 0).append "hello\n".toUTF8 = (.ok (), filled "hello\n".toUTF8 4096) := by
    rw [create_eq, append_filled (Nat.zero_le _) (by decide), ByteArray.empty_append]
    exact congrArg (fun capacity => (Except.ok (), filled _ capacity)) (enough_of_le hroom)
  have hsecond : (filled "hello\n".toUTF8 4096).append ⟨.replicate 4096 120⟩ (.resizeFails failure) =
      (.error failure, unmapped "hello\n".toUTF8 4090 4096) := by
    rw [append_filled_eq, if_pos hfull]
    rfl
  have hall : (create {} 0).attempt attempts =
      ([.ok (), .error failure], unmapped "hello\n".toUTF8 4090 4096) := by
    simp only [attempts, AppendLog.attempt, hfirst, hsecond]
  have hanswers : answers = [.ok (), .error failure] := congrArg Prod.fst hall
  have hlog : log = unmapped "hello\n".toUTF8 4090 4096 := congrArg Prod.snd hall
  have haccepted : accepted attempts [.ok (), .error failure] = "hello\n".toUTF8 :=
    ByteArray.append_empty
  have hlost : Keeps "hello\n".toUTF8 (unmapped "hello\n".toUTF8 4090 4096) := .lost
  rw [hanswers, hlog, haccepted]
  refine ⟨rfl, rfl, rfl, ?_, rfl, ?_⟩
  · show (unmapped "hello\n".toUTF8 4090 4096).close.file.content = _
    rw [hlost.close, File.content_of_bytes]
  · show ({ bytes := "hello\n".toUTF8, zeros := 4090 } : File).content ≠ _
    rw [Ne, content_eq_iff]
    decide

end AppendLog

end PriceTime
