import PriceTime.Failure

/-!
# Append-only log files

A log file is longer than what was written to it: it is made as long as the mapping through which it
is written, and grown by doubling when an append would run past the end. The file is cut back to
what was written when the log is closed, so that a reader sees no zeros at the end.

Growing flushes the mapping and gives it up, makes the file longer and maps it again. Each of the
three can fail, and then the log is left without a mapping.
-/

namespace PriceTime

/-- A file: some bytes, followed by zeros that are only counted. -/
structure File where
  bytes : ByteArray := .empty
  zeros : Nat := 0

namespace File

theorem eq_iff {f g : File} : f = g ↔ f.bytes.data = g.bytes.data ∧ f.zeros = g.zeros := by
  obtain ⟨⟨bytes⟩, zeros⟩ := f
  obtain ⟨⟨bytes'⟩, zeros'⟩ := g
  simp

instance : DecidableEq File := fun _ _ => decidable_of_decidable_of_iff eq_iff.symm

/-- The length of the file. -/
def size (f : File) : Nat :=
  f.bytes.size + f.zeros

/-- The content of the file, byte by byte. -/
def toList (f : File) : List UInt8 :=
  f.bytes.data.toList ++ List.replicate f.zeros 0

/-- The content of the file. -/
def content (f : File) : ByteArray :=
  ⟨f.toList.toArray⟩

/-- The longest a file can be, in bytes. -/
def maxSize : Nat := 17592186040320

/-- The longest a file can be asked to be, in bytes. -/
def maxRequest : Nat := 9223372036854775807

/-- A file of the given bytes. -/
def ofList (bytes : List UInt8) : File where
  bytes := ⟨bytes.toArray⟩

/-- Make the file `size` bytes long: cut it off, or fill it up with zeros. -/
def setSize (f : File) (size : Nat) : File :=
  if size < f.bytes.size then { bytes := f.bytes.extract 0 size }
  else { bytes := f.bytes, zeros := size - f.bytes.size }

/-- Overwrite the bytes from `offset` on, inside the file. -/
def write (f : File) (offset : Nat) (data : ByteArray) : File :=
  if offset = f.bytes.size then { bytes := f.bytes ++ data, zeros := f.zeros - data.size }
  else ofList (f.toList.take offset ++ data.data.toList ++ f.toList.drop (offset + data.size))

end File

/-- An open log file. -/
structure AppendLog where
  file : File
  /-- Whether the file is mapped. -/
  isMapped : Bool := true
  /-- The length of the mapping. -/
  capacity : Nat
  /-- How much was written. -/
  offset : Nat := 0

namespace AppendLog

/-- The least length of a mapping. -/
def minCapacity : Nat := 4096

/-- How an attempt to grow the mapping turns out. -/
inductive Growth where
  | succeeds
  /-- The old mapping cannot be flushed. -/
  | flushFails (failure : Failure)
  /-- The file cannot be made longer. -/
  | resizeFails (failure : Failure)
  /-- The longer file cannot be mapped. -/
  | remapFails (failure : Failure)
deriving DecidableEq

/-- What is reported once the mapping is gone. -/
def closed : Failure where
  kind := .other
  message := "log file already closed"

/-- Start a log in a file, and forget what was in the file before. -/
def create (existing : File) (capacity : Nat) : AppendLog :=
  let capacity := max capacity minCapacity
  { file := (existing.setSize 0).setSize capacity, capacity }

/-- Double a capacity until it is enough. -/
def enough (capacity required : Nat) : Nat :=
  if 0 < capacity ∧ capacity < required then enough (2 * capacity) required else capacity
termination_by required - capacity

/-- Make the mapping long enough for `required` bytes. -/
def grow (log : AppendLog) (required : Nat) (growth : Growth) : Except Failure Unit × AppendLog :=
  if log.isMapped then
    let capacity := enough log.capacity required
    match growth with
    | .flushFails failure => (.error failure, { log with isMapped := false })
    | .resizeFails failure => (.error failure, { log with isMapped := false })
    | .remapFails failure =>
      (.error failure, { log with isMapped := false, file := log.file.setSize capacity })
    | .succeeds => (.ok (), { log with file := log.file.setSize capacity, capacity })
  else (.error closed, log)

/-- Write inside the mapping, after what was written before. -/
def put (log : AppendLog) (data : ByteArray) : Except Failure Unit × AppendLog :=
  if log.isMapped then
    let ⟨file, isMapped, capacity, offset⟩ := log
    (.ok (), ⟨file.write offset data, isMapped, capacity, offset + data.size⟩)
  else (.error closed, log)

/-- Write after what was written before, and grow the mapping first if there is no room. -/
def append (log : AppendLog) (data : ByteArray) (growth : Growth := .succeeds) :
    Except Failure Unit × AppendLog :=
  let required := log.offset + data.size
  if log.capacity < required then
    match log.grow required growth with
    | (.ok _, log) => log.put data
    | (.error failure, log) => (.error failure, log)
  else log.put data

/-- How much was written. -/
def size (log : AppendLog) : Nat :=
  log.offset

/-- Whether nothing was written. -/
def isEmpty (log : AppendLog) : Bool :=
  log.offset == 0

/-- Close the log: cut the file back to what was written. -/
def close (log : AppendLog) : AppendLog :=
  let ⟨file, _, capacity, offset⟩ := log
  { file := file.setSize offset, isMapped := false, capacity, offset }

/-- Finish the log: the length of the file and the log afterwards. -/
def finish (log : AppendLog) : Nat × AppendLog :=
  (log.offset, log.close)

/-- Let go of the log. It is closed unless its mapping is already gone. -/
def drop (log : AppendLog) : AppendLog :=
  if log.isMapped then log.close else log

end AppendLog

end PriceTime
