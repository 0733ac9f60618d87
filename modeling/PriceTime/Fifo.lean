/-!
# Queues

A queue as two lists: the oldest items in order, and the newest items in reverse. Every operation
but `Fifo.toList` takes constant time on average.

* `Fifo.toList_push`, `Fifo.toList_pop?`, `Fifo.head?_eq`: the operations in terms of the view
`Fifo.toList`, oldest item first.
-/

namespace PriceTime

/-- A first-in first-out queue. -/
structure Fifo (α : Type) where
  /-- The oldest items, in order. -/
  front : List α := []
  /-- The other items, the newest first. -/
  back : List α := []
  /-- The number of items. -/
  size : Nat := 0
  back_eq_nil : front = [] → back = []
  size_eq : size = front.length + back.length

namespace Fifo

variable {α : Type}

/-- A queue without items. -/
def empty : Fifo α := { back_eq_nil := fun _ => rfl, size_eq := rfl }

instance : Inhabited (Fifo α) := ⟨empty⟩

/-- The items, oldest first. -/
def toList (q : Fifo α) : List α :=
  q.front ++ q.back.reverse

/-- Whether there are no items. -/
def isEmpty (q : Fifo α) : Bool :=
  q.size == 0

/-- The oldest item. -/
def head? (q : Fifo α) : Option α :=
  q.front.head?

/-- Put an item at the end. -/
def push (q : Fifo α) (x : α) : Fifo α :=
  match q with
  | ⟨[], _, _, _, _⟩ => { front := [x], size := 1, back_eq_nil := nofun, size_eq := rfl }
  | ⟨y :: front, back, size, _, h⟩ =>
    { front := y :: front, back := x :: back, size := size + 1, back_eq_nil := nofun,
      size_eq := by simp only [List.length_cons] at h ⊢; omega }

/-- Take the oldest item out. -/
def pop? (q : Fifo α) : Option (α × Fifo α) :=
  match q with
  | ⟨[], _, _, _, _⟩ => none
  | ⟨[x], back, size, _, h⟩ =>
    some (x, { front := back.reverse, size := size - 1, back_eq_nil := fun _ => rfl,
               size_eq := by
                simp only [List.length_cons, List.length_nil, List.length_reverse] at h ⊢; omega })
  | ⟨x :: y :: front, back, size, _, h⟩ =>
    some (x, { front := y :: front, back, size := size - 1, back_eq_nil := nofun,
               size_eq := by simp only [List.length_cons] at h ⊢; omega })

/-- Take the oldest item out, if there is one. -/
def tail (q : Fifo α) : Fifo α :=
  match q.pop? with
  | some (_, rest) => rest
  | none => q

/-- Change the oldest item. -/
def modifyHead (q : Fifo α) (f : α → α) : Fifo α :=
  match q with
  | ⟨[], back, size, h, h'⟩ => ⟨[], back, size, h, h'⟩
  | ⟨x :: front, back, size, _, h⟩ =>
    { front := f x :: front, back, size, back_eq_nil := nofun,
      size_eq := by simp only [List.length_cons] at h ⊢; exact h }

@[simp] theorem toList_empty : (empty : Fifo α).toList = [] := rfl

theorem length_toList (q : Fifo α) : q.toList.length = q.size := by
  simp [toList, q.size_eq]

@[simp] theorem toList_push (q : Fifo α) (x : α) : (q.push x).toList = q.toList ++ [x] := by
  obtain ⟨_ | ⟨y, front⟩, back, size, h, _⟩ := q
  · simp [push, toList, h rfl]
  · simp [push, toList]

theorem head?_eq (q : Fifo α) : q.head? = q.toList.head? := by
  obtain ⟨_ | ⟨y, front⟩, back, size, h, _⟩ := q
  · simp [head?, toList, h rfl]
  · simp [head?, toList]

theorem toList_pop? (q : Fifo α) :
    q.pop?.map (fun (x, rest) => x :: rest.toList) =
      if q.toList = [] then none else some q.toList := by
  obtain ⟨_ | ⟨x, _ | ⟨y, front⟩⟩, back, size, h, _⟩ := q
  · simp [pop?, toList, h rfl]
  · simp [pop?, toList]
  · simp [pop?, toList]

theorem toList_tail (q : Fifo α) : q.tail.toList = q.toList.tail := by
  obtain ⟨_ | ⟨x, _ | ⟨y, front⟩⟩, back, size, h, _⟩ := q
  · simp [tail, pop?, toList, h rfl]
  · simp [tail, pop?, toList]
  · simp [tail, pop?, toList]

theorem toList_modifyHead (q : Fifo α) (f : α → α) :
    (q.modifyHead f).toList = q.toList.modifyHead f := by
  obtain ⟨_ | ⟨y, front⟩, back, size, h, _⟩ := q
  · simp [modifyHead, toList, h rfl]
  · simp [modifyHead, toList]

end Fifo

end PriceTime
