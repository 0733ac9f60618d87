import PriceTime.Logger.Lane
import PriceTime.Proofs.AppendLog

/-!
# What an outlet gets

Records written to an outlet one after the other, up to the first one that cannot be written. A log
file and a console take all of them, and a sink takes those before the line it refuses.

* `Outlet.deliver`: writing records in one go.
* `Outlet.deliver_file`, `Outlet.deliver_console`: the header and the rows.
* `Outlet.deliver_forward`, `Outlet.deliver_forward_refused`: the lines, all of them or some.
-/

namespace PriceTime

namespace LineSink

/-- What a new sink takes of some lines. -/
def taken (sink : LineSink) (lines : List String) : List String :=
  match sink.limit with
  | some (count, _) => lines.take count
  | none => lines

/-- How a new sink refuses one of so many lines, if it does. -/
def refusal? (sink : LineSink) (lines : Nat) : Option Refusal :=
  match sink.limit with
  | some (count, refusal) => if count < lines then some refusal else none
  | none => none

/-- How a worker ends that hands so many lines to a new sink. -/
def outcome (sink : LineSink) (lines : Nat) : Except WorkerFailure Unit :=
  match sink.refusal? lines, sink.flushFailure with
  | some refusal, _ => .error refusal.toWorkerFailure
  | none, some failure => .error (.io failure)
  | none, none => .ok ()

/-- A new sink that was handed some lines, and was flushed if it refused none of them. -/
def after (sink : LineSink) (lines : List String) : LineSink where
  received := (sink.taken lines).toArray
  limit := sink.limit
  flushFailure := sink.flushFailure
  flushes := sink.flushes + if (sink.refusal? lines.length).isNone then 1 else 0

end LineSink

namespace Outlet

variable {outlet outlet' : Outlet} {record : Record} {records : List Record} {row line : String}

/-! ## One record -/

/-- Write a row or a line, whichever the outlet takes. -/
def put (outlet : Outlet) (row line : String) : Except WorkerFailure Unit × Outlet :=
  match outlet with
  | file log =>
    let (answer, log) := log.append row.toUTF8
    (answer.mapError .io, file log)
  | console text => (.ok (), console (text ++ row))
  | forward sink =>
    let (answer, sink) := sink.send line
    (answer.mapError Refusal.toWorkerFailure, forward sink)

-- The texts of a record are kept as they are: nothing that is said of an outlet looks into them.
theorem write_eq (outlet : Outlet) (record : Record) :
    outlet.write record = outlet.put record.row record.line := rfl

theorem put_file {log : AppendLog} {text : String} (h : log.Holds text.toUTF8) (row line : String) :
    ∃ log', (file log).put row line = (.ok (), file log') ∧ log'.Holds (text ++ row).toUTF8 := by
  obtain ⟨hanswer, hlog⟩ := h.append row.toUTF8
  refine ⟨(log.append row.toUTF8).2, ?_, ?_⟩
  · show ((log.append row.toUTF8).1.mapError WorkerFailure.io, file _) = _
    rw [hanswer]
    rfl
  · rw [show (text ++ row).toUTF8 = text.toUTF8 ++ row.toUTF8 from String.toByteArray_append]
    exact hlog

theorem put_console (text row line : String) :
    (console text).put row line = (.ok (), console (text ++ row)) := rfl

theorem put_forward {sink : LineSink} (row line : String)
    (htakes : ∀ {count refusal}, sink.limit = some (count, refusal) → sink.received.size < count) :
    (forward sink).put row line =
      (.ok (), forward { sink with received := sink.received.push line }) := by
  obtain ⟨received, limit, flushFailure, flushes⟩ := sink
  unfold put LineSink.send
  cases limit with
  | none => rfl
  | some bound =>
    have hlt := htakes rfl
    simp only [if_neg (Nat.not_le.mpr hlt)]
    rfl

theorem put_forward_refused {sink : LineSink} {count : Nat} {refusal : Refusal} (row line : String)
    (hlimit : sink.limit = some (count, refusal)) (hfull : count ≤ sink.received.size) :
    (forward sink).put row line = (.error refusal.toWorkerFailure, forward sink) := by
  obtain ⟨received, limit, flushFailure, flushes⟩ := sink
  dsimp only at hlimit hfull
  subst hlimit
  unfold put LineSink.send
  simp only [if_pos hfull]
  rfl

/-! ## In one go -/

/-- Write records one after the other and finish, or give up at the first one that cannot be
written: how it ends, the outlet afterwards, and how many records were written. -/
def deliver (outlet : Outlet) : List Record → Except WorkerFailure Unit × Outlet × Nat
  | [] => (outlet.finish.1, outlet.finish.2, 0)
  | record :: records =>
    match outlet.write record with
    | (.ok _, outlet) =>
      ((outlet.deliver records).1, (outlet.deliver records).2.1, (outlet.deliver records).2.2 + 1)
    | (.error failure, outlet) => (.error failure, outlet.abandon, 0)

/-- The outlet once some records are written, if all of them can be. -/
def writes (outlet : Outlet) : List Record → Option Outlet
  | [] => some outlet
  | record :: records =>
    match outlet.write record with
    | (.ok _, outlet) => outlet.writes records
    | (.error _, _) => none

theorem writes_append_singleton (h : outlet.writes records = some outlet') :
    outlet.writes (records ++ [record]) =
      match outlet'.write record with
      | (.ok _, outlet) => some outlet
      | (.error _, _) => none := by
  induction records generalizing outlet with
  | nil =>
    cases h
    rfl
  | cons first rest ih =>
    rw [List.cons_append, writes]
    rw [writes] at h
    split at h
    · exact ih h
    · cases h

theorem deliver_append (h : outlet.writes records = some outlet') (more : List Record) :
    outlet.deliver (records ++ more) = ((outlet'.deliver more).1, (outlet'.deliver more).2.1,
      (outlet'.deliver more).2.2 + records.length) := by
  induction records generalizing outlet with
  | nil =>
    cases h
    rfl
  | cons first rest ih =>
    rw [List.cons_append, deliver]
    rw [writes] at h
    split at h
    · rw [ih h, List.length_cons, Nat.add_assoc]
    · cases h

/-! ## Files, consoles and sinks -/

/-- The rows of some records, one after the other. -/
def rows (records : List Record) : String :=
  String.join (records.map Record.row)

theorem rows_nil : rows [] = "" := String.join_nil

theorem rows_cons (record : Record) (records : List Record) :
    rows (record :: records) = record.row ++ rows records := String.join_cons

theorem rows_append (records more : List Record) :
    rows (records ++ more) = rows records ++ rows more := by
  rw [rows, List.map_append, String.join_append]
  rfl

theorem deliver_file {log : AppendLog} {text : String} (h : log.Holds text.toUTF8)
    (records : List Record) :
    ∃ log', (file log).deliver records = (.ok (), file log', records.length) ∧
      log'.file.content = (text ++ rows records).toUTF8 := by
  induction records generalizing log text with
  | nil =>
    refine ⟨log.close, rfl, ?_⟩
    rw [h.content_close, rows_nil, String.append_empty]
  | cons record records ih =>
    obtain ⟨log₁, hput, hlog₁⟩ := put_file h record.row record.line
    obtain ⟨log', hdeliver, hcontent⟩ := ih hlog₁
    refine ⟨log', ?_, ?_⟩
    · rw [deliver, write_eq, hput]
      simp only [hdeliver, List.length_cons]
    · rw [hcontent, rows_cons, String.append_assoc]

theorem deliver_console (text : String) (records : List Record) :
    (console text).deliver records = (.ok (), console (text ++ rows records), records.length) := by
  induction records generalizing text with
  | nil =>
    rw [rows_nil, String.append_empty]
    rfl
  | cons record records ih =>
    rw [deliver, write_eq, put_console]
    simp only [ih, rows_cons, String.append_assoc, List.length_cons]

/-- A sink that takes all lines is flushed, and may fail then. -/
theorem deliver_forward {sink : LineSink} (records : List Record)
    (htakes : ∀ {count refusal}, sink.limit = some (count, refusal) →
      sink.received.size + records.length ≤ count) :
    (forward sink).deliver records =
      ((match sink.flushFailure with
        | some failure => .error (.io failure)
        | none => .ok ()),
        forward { sink with
          received := sink.received ++ (records.map Record.line).toArray
          flushes := sink.flushes + 1 },
        records.length) := by
  induction records generalizing sink with
  | nil =>
    obtain ⟨received, limit, flushFailure, flushes⟩ := sink
    cases flushFailure <;> simp [deliver, finish, LineSink.flush] <;> rfl
  | cons record records ih =>
    have hnext : ∀ {count refusal}, sink.limit = some (count, refusal) →
        sink.received.size + 1 + records.length ≤ count := by
      intro count refusal hlimit
      have := htakes hlimit
      rw [List.length_cons] at this
      omega
    have hput := put_forward record.row record.line fun hlimit => by
      have := hnext hlimit
      omega
    rw [deliver, write_eq, hput]
    dsimp only
    rw [ih fun hlimit => by rw [Array.size_push]; exact hnext hlimit]
    simp

/-- A sink that refuses a line has taken all lines before it, and is not flushed. -/
theorem deliver_forward_refused {sink : LineSink} {count : Nat} {refusal : Refusal}
    (records : List Record) (hlimit : sink.limit = some (count, refusal))
    (hle : sink.received.size ≤ count) (hlt : count < sink.received.size + records.length) :
    (forward sink).deliver records =
      (.error refusal.toWorkerFailure,
        forward { sink with
          received := sink.received ++
            ((records.map Record.line).take (count - sink.received.size)).toArray },
        count - sink.received.size) := by
  induction records generalizing sink with
  | nil =>
    rw [List.length_nil] at hlt
    omega
  | cons record records ih =>
    rw [List.length_cons] at hlt
    by_cases hfull : count ≤ sink.received.size
    · rw [deliver, write_eq, put_forward_refused _ _ hlimit hfull, Nat.sub_eq_zero_of_le hfull]
      simp [abandon]
    · have hput : (forward sink).put record.row record.line = _ := put_forward _ _ fun hlimit' => by
        rw [hlimit] at hlimit'
        cases hlimit'
        omega
      have hleft : count - sink.received.size = count - (sink.received.size + 1) + 1 := by omega
      rw [deliver, write_eq, hput]
      dsimp only
      have hrest := @ih { sink with received := sink.received.push record.line } hlimit
        (by rw [Array.size_push]; omega) (by rw [Array.size_push]; omega)
      rw [hrest, hleft]
      simp

theorem deliver_forward_new {sink : LineSink} (hnew : sink.received = #[])
    (records : List Record) :
    (forward sink).deliver records =
      (sink.outcome records.length, forward (sink.after (records.map Record.line)),
        (sink.taken (records.map Record.line)).length) := by
  obtain ⟨received, limit, flushFailure, flushes⟩ := sink
  dsimp only at hnew
  subst hnew
  cases limit with
  | none =>
    rw [deliver_forward records fun hlimit => by cases hlimit]
    cases flushFailure <;>
      simp [LineSink.outcome, LineSink.refusal?, LineSink.after, LineSink.taken]
  | some bound =>
    obtain ⟨count, refusal⟩ := bound
    by_cases hlt : count < records.length
    · rw [deliver_forward_refused records rfl (Nat.zero_le _) (by simpa using hlt)]
      simp [LineSink.outcome, LineSink.refusal?, LineSink.after, LineSink.taken, hlt,
        Nat.min_eq_left (Nat.le_of_lt hlt)]
    · have hle : records.length ≤ count := Nat.le_of_not_lt hlt
      have htake : (records.map Record.line).take count = records.map Record.line :=
        List.take_of_length_le (by simpa using hle)
      rw [deliver_forward records fun hlimit => by
        cases hlimit
        simpa using hle]
      cases flushFailure <;>
        simp [LineSink.outcome, LineSink.refusal?, LineSink.after, LineSink.taken, hlt, htake]

end Outlet

end PriceTime
