import PriceTime.AppendLog

/-!
# Log files hold what was appended

As long as its mapping can be grown, an open log file holds the bytes appended so far, one append
after the other, and once it is closed the file is exactly these bytes.

* `AppendLog.create_holds`, `AppendLog.Holds.append`: what an open log file holds.
* `AppendLog.Holds.content_close`: what is left when it is closed.
-/

namespace PriceTime

namespace File

theorem content_of_bytes (bytes : ByteArray) : ({ bytes } : File).content = bytes := by
  simp [content, toList]

theorem bytes_setSize_zero (f : File) : (f.setSize 0).bytes = .empty := by
  unfold setSize
  split
  · rw [ByteArray.extract_same]
  · rename_i hsize
    exact ByteArray.size_eq_zero_iff.mp (Nat.eq_zero_of_not_pos hsize)

/-- A file that is not cut off holds its bytes, and zeros behind them. -/
theorem setSize_of_le {f : File} {size : Nat} (h : f.bytes.size ≤ size) :
    f.setSize size = { bytes := f.bytes, zeros := size - f.bytes.size } :=
  if_neg (Nat.not_lt.mpr h)

theorem write_end (f : File) (data : ByteArray) : f.write f.bytes.size data =
    { bytes := f.bytes ++ data, zeros := f.zeros - data.size } :=
  if_pos rfl

end File

namespace AppendLog

variable {log : AppendLog} {bytes : ByteArray} {capacity : Nat}

theorem enough_eq (capacity required : Nat) : enough capacity required =
    if 0 < capacity ∧ capacity < required then enough (2 * capacity) required else capacity := by
  rw [enough]

theorem le_enough (hpos : 0 < capacity) (required : Nat) :
    capacity ≤ enough capacity required ∧ required ≤ enough capacity required := by
  induction capacity using enough.induct required with
  | case1 capacity hless ih =>
    rw [enough_eq, if_pos hless]
    have := ih (by omega)
    omega
  | case2 capacity henough =>
    rw [enough_eq, if_neg henough]
    omega

/-- An open log file that holds some bytes. -/
structure Holds (log : AppendLog) (bytes : ByteArray) : Prop where
  isMapped : log.isMapped = true
  capacity_pos : 0 < log.capacity
  offset_eq : log.offset = bytes.size
  bytes_eq : log.file.bytes = bytes

theorem create_holds (existing : File) (capacity : Nat) :
    (create existing capacity).Holds .empty where
  isMapped := rfl
  capacity_pos := Nat.lt_of_lt_of_le (show 0 < minCapacity by decide) (Nat.le_max_right ..)
  offset_eq := rfl
  bytes_eq := by
    have hempty := existing.bytes_setSize_zero
    show ((existing.setSize 0).setSize _).bytes = .empty
    rw [File.setSize_of_le (by rw [hempty]; exact Nat.zero_le _)]
    exact hempty

/-- Where there is room, an append puts the bytes at the end. -/
theorem Holds.put (h : log.Holds bytes) (data : ByteArray) :
    (log.put data).1 = .ok () ∧ (log.put data).2.Holds (bytes ++ data) := by
  obtain ⟨file, isMapped, capacity, offset⟩ := log
  obtain ⟨rfl, hpos, hoffset, hbytes⟩ := h
  dsimp only at hpos hoffset hbytes
  subst hbytes hoffset
  refine ⟨rfl, rfl, hpos, ?_, ?_⟩
  · show file.bytes.size + data.size = _
    rw [ByteArray.size_append]
  · show (file.write file.bytes.size data).bytes = _
    rw [File.write_end]

/-- An append succeeds and puts the bytes at the end, whether the mapping has to grow or not. -/
theorem Holds.append (h : log.Holds bytes) (data : ByteArray) :
    (log.append data).1 = .ok () ∧ (log.append data).2.Holds (bytes ++ data) := by
  unfold AppendLog.append
  dsimp only
  split
  · obtain ⟨hcapacity, hrequired⟩ := le_enough h.capacity_pos (log.offset + data.size)
    have hkept : log.file.bytes.size ≤ enough log.capacity (log.offset + data.size) := by
      rw [h.bytes_eq, ← h.offset_eq]
      omega
    have hgrown : ({ log with
        file := log.file.setSize (enough log.capacity (log.offset + data.size))
        capacity := enough log.capacity (log.offset + data.size) } : AppendLog).Holds bytes := by
      refine ⟨h.isMapped, Nat.lt_of_lt_of_le h.capacity_pos hcapacity, h.offset_eq, ?_⟩
      rw [File.setSize_of_le hkept]
      exact h.bytes_eq
    unfold grow
    rw [if_pos h.isMapped]
    exact hgrown.put data
  · exact h.put data

/-- A log that is closed leaves the bytes it held, without the zeros after them. -/
theorem Holds.content_close (h : log.Holds bytes) : log.close.file.content = bytes := by
  have hfile : log.close.file = { bytes } := by
    have hsize : log.file.bytes.size = log.offset := by rw [h.bytes_eq, h.offset_eq]
    show log.file.setSize log.offset = _
    rw [File.setSize_of_le (Nat.le_of_eq hsize), hsize, h.bytes_eq, Nat.sub_self]
  rw [hfile, File.content_of_bytes]

end AppendLog

end PriceTime
