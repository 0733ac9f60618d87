import PriceTime.Proofs.Lifecycle

/-!
# Operations, however they are asked for

A message asks for the same four operations as the calls made directly. Here each call is read as
the operation it asks for and each answer as what became of it, and one relation says what an
operation does to a book. What holds of every performance holds of every call.

* `Book.Performs`: what an operation can do to a book, and its answer.
* `Session.process_performs`, `Session.call_performs`: messages and calls perform their operation.
-/

namespace PriceTime

/-- What can be asked of the resting orders. -/
inductive Operation where
  | add (id : UInt64) (price : Int32) (size : UInt32) (side : Side) (time : UInt64)
  | cancel (id : UInt64)
  | modify (id : UInt64) (price : Int32) (size : UInt32) (side : Side) (time : UInt64)
  | trade (id : UInt64) (price : Int32) (size : UInt32) (side : Side)
deriving DecidableEq

/-- The operation a message asks for. -/
def Message.operation (m : Message) : Operation :=
  match m.action with
  | .add => .add m.id m.price m.size m.side m.time
  | .cancel => .cancel m.id
  | .modify => .modify m.id m.price m.size m.side m.time
  | .trade => .trade m.id m.price m.size m.side

/-- The operation a call asks for, unless it draws a figure or starts over. -/
def Call.operation? : Call → Option Operation
  | .process m => some m.operation
  | .add id price size side time => some (.add id price size side time)
  | .remove id => some (.cancel id)
  | .modify id price size side time => some (.modify id price size side time)
  | .trade id price size side => some (.trade id price size side)
  | _ => none

/-- What became of the operation, if the answer is to one. -/
def Answer.applied? : Answer → Option (Except BookError Applied)
  | .processed result => some result
  | .added result => some (result.map .added)
  | .removed result => some (result.map fun order => .cancelled order.id)
  | .modified result => some (result.map .modified)
  | .traded report => some (.ok (.traded report))
  | _ => none

namespace Book

variable {b b' : Book} {id : UInt64} {price : Int32} {size : UInt32} {side : Side} {time : UInt64}
  {room : Prop}

/-- What an operation can do to a book: what becomes of it, and the book afterwards. -/
inductive Performs (b : Book) : Operation → Except BookError Applied → Book → Prop where
  | added {id : UInt64} {price : Int32} {size : UInt32} {side : Side} {time : UInt64} {b' : Book}
      {events : List Event} (hnew : b.index[id]? = none)
      (hadded : b.Added { id, price, size, side, time } b' events) :
      Performs b (.add id price size side time) (.ok (.added b.queues.orders.nextKey)) b'
  | duplicate {id : UInt64} {price : Int32} {size : UInt32} {side : Side} {time : UInt64}
      (hrests : b.contains id = true) :
      Performs b (.add id price size side time) (.error (.duplicateOrder id)) b
  | cancelled {id : UInt64} {slot : Slot} {o : Order} {key : LevelKey} {b' : Book}
      {events : List Event} (hid : b.index[id]? = some slot) (ho : b.card slot = some o)
      (hremoved : b.Removed slot o key b' events) :
      Performs b (.cancel id) (.ok (.cancelled id)) b'
  | unknown {id : UInt64} (hnone : b.index[id]? = none) :
      Performs b (.cancel id) (.error (.unknownOrder id)) b
  | modified {id : UInt64} {price : Int32} {size : UInt32} {side : Side} {time : UInt64} {b' : Book}
      {events : List Event} {result : Except BookError ModifyOutcome}
      (hmodified : b.Modified id price size side time result b' events) :
      Performs b (.modify id price size side time) (result.map .modified) b'
  | traded {id : UInt64} {price : Int32} {size : UInt32} {side : Side} {b' : Book}
      {events : List Event} {report : TradeReport}
      (htraded : b.Traded id price size side report b' events) :
      Performs b (.trade id price size side) (.ok (.traded report)) b'

/-- The order in a slot is found under its id; the book may hold it with links. -/
theorem get?_of_card {slot : Slot} {o : Order} (hid : b.index[id]? = some slot)
    (ho : b.card slot = some o) : ∃ p, b.get? id = some p ∧ p.bare = o := by
  obtain ⟨p, hp, hbare⟩ := Queues.get?_of_card ho
  refine ⟨p, ?_, hbare⟩
  rw [get?, hid, Option.bind_some]
  exact hp

theorem WellFormed.add_performs (h : b.WellFormed) :
    Yields room (b.add id price size side time) fun step => step.state.WellFormed ∧
      b.Performs (.add id price size side time) (step.result.map .added) step.state := by
  cases hnew : b.contains id with
  | true =>
    rw [add_of_contains hnew]
    exact Yields.ok ⟨h, .duplicate hnew⟩
  | false =>
    refine (h.add hnew).mono ?_
    rintro ⟨result, b', events⟩ ⟨hresult, hb', hadded⟩
    dsimp only at hresult
    subst hresult
    exact ⟨hb', .added (Std.ExtTreeMap.getElem?_eq_none_of_contains_eq_false hnew) hadded⟩

theorem WellFormed.remove_performs (h : b.WellFormed) :
    Yields b.HasRoom (b.remove id) fun step => step.state.WellFormed ∧
      b.Performs (.cancel id) (step.result.map fun order => .cancelled order.id) step.state := by
  cases hid : b.index[id]? with
  | none =>
    rw [remove_of_none hid]
    exact Yields.ok ⟨h, .unknown hid⟩
  | some slot =>
    obtain ⟨o, ho, rfl⟩ := h.index_iff.mp hid
    obtain ⟨key, hlevel⟩ := h.settled ho
    refine (h.remove hid ho hlevel).mono ?_
    rintro ⟨result, b', events⟩ ⟨hresult, hb', hremoved⟩
    dsimp only at hresult
    subst hresult
    exact ⟨hb', .cancelled hid ho hremoved⟩

theorem WellFormed.modify_performs (h : b.WellFormed) :
    Yields b.HasRoom (b.modify id price size side time) fun step =>
      step.state.WellFormed ∧
        b.Performs (.modify id price size side time) (step.result.map .modified) step.state :=
  h.modify.mono fun _ hstep => ⟨hstep.1, .modified hstep.2⟩

theorem WellFormed.trade_performs (h : b.WellFormed) :
    Yields b.HasRoom (b.trade id price size side) fun r =>
      r.2.1.WellFormed ∧ b.Performs (.trade id price size side) (.ok (.traded r.1)) r.2.1 :=
  (h.trade id price size side).mono fun _ hr => ⟨hr.1, .traded hr.2⟩

end Book

namespace Session

variable {s s' : Session} {answer : Answer} {events : List Event}

theorem cancel_performs (h : s.book.WellFormed) {id : UInt64} {side : Side} :
    Yields s.book.HasRoom (s.cancel id side) fun step =>
      step.state.book.WellFormed ∧
        s.book.Performs (.cancel id) (step.result.map .cancelled) step.state.book := by
  unfold cancel
  refine (onBook_spec h.remove_performs).bind ?_
  rintro ⟨result, state, events⟩ hstep
  cases result with
  | ok order => exact Yields.ok hstep
  | error error => exact Yields.ok hstep

/-- A message performs its operation. -/
theorem process_performs (h : s.book.WellFormed) (m : Message) :
    Yields s.book.HasRoom (s.process m) fun step =>
      step.state.book.WellFormed ∧
        s.book.Performs m.operation step.result step.state.book := by
  have htick : (s.tick m.time).book.WellFormed := h
  unfold process Message.operation
  cases m.action with
  | add => exact (onBook_spec htick.add_performs).bind fun step hstep => Yields.ok hstep
  | cancel => exact (cancel_performs htick).bind fun step hstep => Yields.ok hstep
  | modify => exact (onBook_spec htick.modify_performs).bind fun step hstep => Yields.ok hstep
  | trade => exact (trade_spec htick.trade_performs).bind fun r hr => Yields.ok hr

/-- A call performs its operation. -/
theorem call_performs (h : s.book.WellFormed) {call : Call} {op : Operation}
    (hop : call.operation? = some op) (hcall : s.call call = .ok (answer, s', events)) :
    s'.book.WellFormed ∧
      ∃ result, answer.applied? = some result ∧ s.book.Performs op result s'.book := by
  have hall : Yields s.book.HasRoom (s.call call) fun r =>
      r.2.1.book.WellFormed ∧
        ∃ result, r.1.applied? = some result ∧ s.book.Performs op result r.2.1.book := by
    cases call with
    | process m =>
      cases hop
      exact (process_performs h m).bind fun step hstep => Yields.ok ⟨hstep.1, _, rfl, hstep.2⟩
    | add =>
      cases hop
      exact (onBook_spec h.add_performs).bind fun step hstep =>
        Yields.ok ⟨hstep.1, _, rfl, hstep.2⟩
    | remove =>
      cases hop
      exact (onBook_spec h.remove_performs).bind fun step hstep =>
        Yields.ok ⟨hstep.1, _, rfl, hstep.2⟩
    | modify =>
      cases hop
      exact (onBook_spec h.modify_performs).bind fun step hstep =>
        Yields.ok ⟨hstep.1, _, rfl, hstep.2⟩
    | trade =>
      cases hop
      exact (trade_spec h.trade_performs).bind fun r hr => Yields.ok ⟨hr.1, _, rfl, hr.2⟩
    | _ => cases hop
  exact hall.sound _ hcall

/-- A call for no operation starts over, or leaves the book as it is. -/
theorem call_idles (h : s.book.WellFormed) {call : Call} (hop : call.operation? = none)
    (hcall : s.call call = .ok (answer, s', events)) :
    answer.applied? = none ∧ s'.book = if call.isReset then Book.empty else s.book := by
  cases call with
  | process | add | remove | modify | trade => cases hop
  | reset =>
    cases hcall
    exact ⟨rfl, h.clear_eq⟩
  | _ =>
    cases hcall
    exact ⟨rfl, rfl⟩

end Session

end PriceTime
