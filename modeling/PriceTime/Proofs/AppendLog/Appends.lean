import PriceTime.Proofs.AppendLog.Capacity

/-!
# A log file is what was appended to it

As long as its file can be made longer and mapped again, nothing of a log depends on anything but
the bytes that were appended and the capacity it started with: neither on what was in the file
before, nor on how the bytes were cut into pieces. Growing changes nothing of what is written.

* `AppendLog.filled`: the log that holds some bytes.
* `AppendLog.fill_filled`: what any appends make of it.
* `AppendLog.run_fills`: what can be seen of a log, before and after it is closed.
-/

namespace PriceTime

namespace AppendLog

variable {log : AppendLog} {bytes data : ByteArray} {capacity required : Nat}

/-- An append, and how growing turns out if there is no room. -/
structure Attempt where
  data : ByteArray
  growth : Growth := .succeeds

/-- Appends, one after the other: what is answered, and the log afterwards. -/
def attempt (log : AppendLog) : List Attempt → List (Except Failure Unit) × AppendLog
  | [] => ([], log)
  | a :: attempts =>
    let (answer, log) := log.append a.data a.growth
    let (answers, log) := log.attempt attempts
    (answer :: answers, log)

/-- Append some pieces, while the file can always be made longer. -/
def fill (log : AppendLog) (pieces : List ByteArray) : List (Except Failure Unit) × AppendLog :=
  log.attempt (pieces.map fun data => { data })

theorem fill_cons (log : AppendLog) (data : ByteArray) (pieces : List ByteArray) :
    log.fill (data :: pieces) = ((log.append data).1 :: ((log.append data).2.fill pieces).1,
      ((log.append data).2.fill pieces).2) := rfl

/-- Some pieces as one. -/
def joined (pieces : List ByteArray) : ByteArray :=
  pieces.foldr (· ++ ·) .empty

theorem size_joined (pieces : List ByteArray) :
    (joined pieces).size = (pieces.map ByteArray.size).sum := by
  induction pieces with
  | nil => rfl
  | cons data pieces ih =>
    rw [List.map_cons, List.sum_cons, ← ih]
    exact ByteArray.size_append

theorem joined_singleton (data : ByteArray) : joined [data] = data :=
  ByteArray.append_empty

/-! ## The log that holds some bytes -/

/-- The open log of some capacity that holds some bytes. -/
def filled (bytes : ByteArray) (capacity : Nat) : AppendLog where
  file := { bytes, zeros := capacity - bytes.size }
  capacity
  offset := bytes.size

theorem write_filled (bytes data : ByteArray) (capacity : Nat) :
    (filled bytes capacity).file.write bytes.size data = (filled (bytes ++ data) capacity).file := by
  have hsize : (bytes ++ data).size = bytes.size + data.size := ByteArray.size_append
  refine (File.write_end (filled bytes capacity).file data).trans ?_
  show (⟨bytes ++ data, capacity - bytes.size - data.size⟩ : File) = ⟨_, _⟩
  rw [hsize, Nat.sub_add_eq]

theorem setSize_filled {size : Nat} (h : bytes.size ≤ size) (capacity : Nat) :
    (filled bytes capacity).file.setSize size = (filled bytes size).file :=
  File.setSize_of_le h

/-- The first bytes of a log are read off the beginning of its file. -/
theorem take_filled_append (bytes more : ByteArray) (capacity : Nat) :
    (filled (bytes ++ more) capacity).file.toList.take bytes.size = bytes.data.toList := by
  have hdata : (bytes ++ more).data.toList = bytes.data.toList ++ more.data.toList := by
    rw [ByteArray.data_append, Array.toList_append]
  show ((bytes ++ more).data.toList ++ _).take bytes.data.toList.length = _
  rw [hdata, List.append_assoc, List.take_left]

theorem take_filled (bytes : ByteArray) (capacity : Nat) :
    (filled bytes capacity).file.toList.take bytes.size = bytes.data.toList :=
  List.take_left

theorem minCapacity_pos (first : Nat) : 0 < max first minCapacity :=
  Nat.lt_of_lt_of_le (show 0 < minCapacity by decide) (Nat.le_max_right ..)

theorem create_eq (existing : File) (capacity : Nat) :
    create existing capacity = filled .empty (max capacity minCapacity) := by
  have hempty := existing.bytes_setSize_zero
  show (⟨(existing.setSize 0).setSize _, true, max capacity minCapacity, 0⟩ : AppendLog) = _
  rw [File.setSize_of_le (by rw [hempty]; exact Nat.zero_le _), hempty]
  rfl

theorem put_filled (bytes data : ByteArray) (capacity : Nat) :
    (filled bytes capacity).put data = (.ok (), filled (bytes ++ data) capacity) := by
  have hsize : bytes.size + data.size = (bytes ++ data).size := ByteArray.size_append.symm
  show (Except.ok (), (⟨(filled bytes capacity).file.write bytes.size data, true, capacity,
    bytes.size + data.size⟩ : AppendLog)) = _
  rw [write_filled, hsize]
  rfl

/-- Growing adds zeros behind the bytes. -/
theorem grow_filled (hroom : bytes.size ≤ capacity) (hpos : 0 < capacity) (required : Nat) :
    (filled bytes capacity).grow required .succeeds =
      (.ok (), filled bytes (enough capacity required)) := by
  show (Except.ok (), (⟨(filled bytes capacity).file.setSize (enough capacity required), true,
    enough capacity required, bytes.size⟩ : AppendLog)) = _
  rw [setSize_filled (Nat.le_trans hroom (le_enough hpos required).1)]
  rfl

theorem append_filled_eq (bytes data : ByteArray) (capacity : Nat) (growth : Growth) :
    (filled bytes capacity).append data growth =
      if capacity < (bytes ++ data).size then
        match (filled bytes capacity).grow (bytes ++ data).size growth with
        | (.ok _, log) => log.put data
        | (.error failure, log) => (.error failure, log)
      else (.ok (), filled (bytes ++ data) capacity) := by
  rw [← put_filled, ByteArray.size_append]
  rfl

theorem append_filled (hroom : bytes.size ≤ capacity) (hpos : 0 < capacity) (data : ByteArray) :
    (filled bytes capacity).append data =
      (.ok (), filled (bytes ++ data) (enough capacity (bytes ++ data).size)) := by
  rw [append_filled_eq, grow_filled hroom hpos]
  split
  · exact put_filled ..
  · rw [enough_of_le (by omega)]

/-- Whatever the pieces are, only all of them together count. -/
theorem fill_filled (hroom : bytes.size ≤ capacity) (hpos : 0 < capacity)
    (pieces : List ByteArray) :
    (filled bytes capacity).fill pieces = (.replicate pieces.length (.ok ()),
      filled (bytes ++ joined pieces) (enough capacity (bytes ++ joined pieces).size)) := by
  induction pieces generalizing bytes capacity with
  | nil =>
    rw [joined, List.foldr_nil, ByteArray.append_empty, enough_of_le hroom]
    rfl
  | cons data pieces ih =>
    have hjoined : bytes ++ joined (data :: pieces) = bytes ++ data ++ joined pieces :=
      ByteArray.append_assoc.symm
    obtain ⟨hcapacity, hrequired⟩ := le_enough hpos (bytes ++ data).size
    have hsize : (bytes ++ data).size ≤ (bytes ++ data ++ joined pieces).size := by
      rw [ByteArray.size_append (b := joined pieces)]
      exact Nat.le_add_right ..
    have ih := ih hrequired (Nat.lt_of_lt_of_le hpos hcapacity)
    rw [enough_enough hpos hsize] at ih
    rw [fill_cons, append_filled hroom hpos, hjoined, ih]
    rfl

theorem fill_create (existing : File) (first : Nat) (pieces : List ByteArray) :
    (create existing first).fill pieces = (.replicate pieces.length (.ok ()),
      filled (joined pieces) (enough (max first minCapacity) (joined pieces).size)) := by
  rw [create_eq, fill_filled (Nat.zero_le _) (minCapacity_pos first), ByteArray.empty_append]

/-! ## What can be seen -/

/-- What can be seen of an open log with `first` as its first capacity, to which some bytes were
appended. -/
structure Shows (log : AppendLog) (first : Nat) (bytes : ByteArray) : Prop where
  size : log.size = bytes.size
  isEmpty : log.isEmpty = true ↔ bytes = .empty
  /-- The first capacity was doubled until it was enough, and not once more. -/
  capacity : ∃ k, log.capacity = first * 2 ^ k ∧ log.size ≤ log.capacity ∧
    ∀ j < k, first * 2 ^ j < log.size
  /-- The file is as long as the mapping: there are zeros behind the bytes. -/
  opened : log.file.toList = bytes.data.toList ++ .replicate (log.capacity - log.size) 0
  /-- Finishing leaves the bytes only, and nothing to be closed any more. -/
  finished : log.finish.1 = bytes.size ∧ log.finish.2.file.content = bytes ∧
    log.finish.2.drop = log.finish.2
  dropped : log.drop.file.content = bytes

theorem filled_shows (bytes : ByteArray) {first : Nat} (hpos : 0 < first) :
    (filled bytes (enough first bytes.size)).Shows first bytes := by
  have hclosed : (filled bytes (enough first bytes.size)).close.file.content = bytes := by
    show ((filled bytes (enough first bytes.size)).file.setSize bytes.size).content = _
    rw [setSize_filled (Nat.le_refl _), filled, Nat.sub_self, File.content_of_bytes]
  obtain ⟨k, hk, hle, hleast⟩ := exists_enough hpos bytes.size
  exact {
    size := rfl
    isEmpty := beq_iff_eq.trans ByteArray.size_eq_zero_iff
    capacity := ⟨k, hk, hk ▸ hle, hleast⟩
    opened := rfl
    finished := ⟨rfl, hclosed, rfl⟩
    dropped := hclosed }

/-- Appending any pieces to a new log succeeds, however large they are and whatever was in its file
before. The log shows the pieces put together; what was written is left alone by whatever comes
later; other pieces that make up the same bytes lead to the same log; and as long as there are no
more than `2 ^ 63` bytes, doubling the capacity comes to an end within words of 64 bits. -/
theorem run_fills (existing : File) (first : UInt64) (pieces : List ByteArray)
    (hfew : (pieces.map ByteArray.size).sum ≤ 2 ^ 63) :
    let start := create existing first.toNat
    let log := (start.fill pieces).2
    (∀ answer ∈ (start.fill pieces).1, answer = .ok ()) ∧
    log.size = (pieces.map ByteArray.size).sum ∧
    log.Shows (max first.toNat 4096) (joined pieces) ∧
    (∀ more, (log.fill more).2.file.toList.take log.size = log.file.toList.take log.size) ∧
    (∀ required, (log.grow required .succeeds).2.file.toList.take log.size =
      log.file.toList.take log.size) ∧
    (∀ existing' pieces', joined pieces' = joined pieces →
      ((create existing' first.toNat).fill pieces').2 = log) ∧
    log.capacity < 2 ^ 64 ∧
    ∀ data, log.size + data.size ≤ 2 ^ 63 →
      Doubles (.ofNat (log.size + data.size)) (.ofNat log.capacity)
        (.ofNat (log.append data).2.capacity) := by
  intro start log
  rw [← size_joined] at hfew ⊢
  have hlog : log = filled (joined pieces)
      (enough (max first.toNat minCapacity) (joined pieces).size) :=
    congrArg Prod.snd (fill_create existing first.toNat pieces)
  have hpos := minCapacity_pos first.toNat
  obtain ⟨hcapacity, hroom⟩ := le_enough hpos (joined pieces).size
  have hcapacity := Nat.lt_of_lt_of_le hpos hcapacity
  have hword : max first.toNat minCapacity < UInt64.size :=
    Nat.max_lt.mpr ⟨first.toNat_lt_size, by decide⟩
  have hwords := enough_lt_size hword hfew
  refine ⟨?_, ?_, ?_, ?_, ?_, ?_, ?_, ?_⟩
  · intro answer hmem
    rw [fill_create] at hmem
    exact List.eq_of_mem_replicate hmem
  · rw [hlog]
    rfl
  · rw [hlog]
    exact filled_shows (joined pieces) hpos
  · intro more
    rw [hlog, fill_filled hroom hcapacity]
    exact (take_filled_append ..).trans (take_filled ..).symm
  · intro required
    rw [hlog, grow_filled hroom hcapacity]
    exact (take_filled ..).trans (take_filled ..).symm
  · intro existing' pieces' hsame
    rw [fill_create, hlog, hsame]
  · rw [hlog]
    exact hwords
  · intro data hdata
    rw [hlog] at hdata ⊢
    rw [append_filled hroom hcapacity, ByteArray.size_append]
    exact doubles_enough hcapacity hwords hdata

/-- Two pieces that each end exactly with the mapping, then a single byte, into a file that was not
empty. The capacity is doubled four times, as it is for the three pieces at once. -/
theorem run_fills_boundary :
    let pieces : List ByteArray := [⟨.replicate 20000 120⟩, ⟨.replicate 20000 121⟩, ⟨#[122]⟩]
    let log := ((create (.ofList [113]) (5000 : UInt64).toNat).fill pieces).2
    (pieces.map ByteArray.size).sum ≤ 2 ^ 63 ∧
    log.size = 40001 ∧ log.capacity = 80000 ∧ log.drop.file.content = joined pieces ∧
    ((create {} (5000 : UInt64).toNat).fill [joined pieces]).2 = log := by
  intro pieces log
  have hsum : (pieces.map ByteArray.size).sum = 40001 := by
    simp [pieces, ByteArray.size]
  have hfew : (pieces.map ByteArray.size).sum ≤ 2 ^ 63 := by
    rw [hsum]
    decide
  obtain ⟨-, hsize, hshows, -, -, hsplit, -⟩ := run_fills (.ofList [113]) 5000 pieces hfew
  rw [hsum] at hsize
  obtain ⟨k, hcapacity, hroom, hleast⟩ := hshows.capacity
  rw [hsize] at hroom hleast
  rw [hcapacity] at hroom
  rw [show max (5000 : UInt64).toNat 4096 = 5000 from rfl] at hcapacity hroom hleast
  obtain rfl : k = 4 := by
    have hmore : ¬ 4 < k := fun hlt => absurd (hleast 4 hlt) (by decide)
    have hless : ¬ k ≤ 3 := fun hle => by
      have := Nat.mul_le_mul_left 5000 (Nat.pow_le_pow_right (show 0 < 2 by decide) hle)
      omega
    omega
  exact ⟨hfew, hsize, hcapacity, hshows.dropped, hsplit {} [joined pieces] (joined_singleton _)⟩

end AppendLog

end PriceTime
