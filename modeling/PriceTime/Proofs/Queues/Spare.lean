import PriceTime.Proofs.Agreement
import PriceTime.Proofs.Arena.Spare
import PriceTime.Proofs.Queues

/-!
# Queues with spare places

Queues that differ in spare slots and spare level keys only hold the same orders and the same levels.
Every operation reads the same from both, so it does the same to both, or ends in the same fault for
both, and leaves them so.

* `Queues.SameButSpare`: the orders and the levels, each the same but for spare places.
* `Queues.SameButSpare.acquire`, `Queues.SameButSpare.openLevel`: the same place is handed out.
-/

namespace PriceTime

/-! ## Orders -/

namespace Pool

variable {pool pool' : Pool} {slot : Slot} (h : Arena.SameButSpare pool pool')

include h

theorem fetch_spare : pool'.fetch slot = pool.fetch slot := by
  unfold fetch
  rw [h.get?_eq]

theorem update_spare (f : Order → Order) :
    Agree Arena.SameButSpare (pool.update slot f) (pool'.update slot f) := by
  unfold update
  rw [h.get?_eq]
  cases pool.get? slot with
  | none => exact Agree.error _
  | some o => exact Agree.ok (h.modify slot f)

theorem updateIf_spare (slot : Option Slot) (f : Order → Order) :
    Agree Arena.SameButSpare (pool.updateIf slot f) (pool'.updateIf slot f) := by
  cases slot with
  | none => exact Agree.ok h
  | some slot => exact update_spare h f

theorem fill_spare (quantity : UInt32) :
    Agree (fun r r' => r'.1 = r.1 ∧ Arena.SameButSpare r.2 r'.2) (pool.fill slot quantity)
      (pool'.fill slot quantity) := by
  unfold fill
  rw [h.get?_eq]
  cases pool.get? slot with
  | none => exact Agree.error _
  | some o => exact Agree.ok ⟨rfl, h.set slot _⟩

end Pool

/-! ## Levels -/

namespace Level

variable {pool pool' : Pool} (h : Arena.SameButSpare pool pool') (l : Level) (slot : Slot)

include h

theorem append_spare : Agree (fun r r' => r'.1 = r.1 ∧ Arena.SameButSpare r.2 r'.2)
    (l.append slot pool) (l.append slot pool') := by
  rw [append_eq_bind, append_eq_bind, Pool.fetch_spare h]
  refine (Agree.refl _).bind ?_
  rintro o _ rfl
  refine (Pool.updateIf_spare (h.modify slot _) _ _).bind ?_
  intro pool₁ pool₁' h₁
  exact Agree.ok ⟨rfl, h₁⟩

theorem unlink_spare :
    Agree (fun r r' => r'.1 = r.1 ∧ r'.2.1 = r.2.1 ∧ Arena.SameButSpare r.2.2 r'.2.2)
      (l.unlink slot pool) (l.unlink slot pool') := by
  rw [unlink_eq_bind, unlink_eq_bind, Pool.fetch_spare h]
  refine (Agree.refl _).bind ?_
  rintro o _ rfl
  refine (Pool.updateIf_spare h _ _).bind ?_
  intro pool₁ pool₁' h₁
  refine (Pool.updateIf_spare h₁ _ _).bind ?_
  intro pool₂ pool₂' h₂
  refine Agree.ite ?_ ?_
  · exact Agree.error _
  · exact Agree.ok ⟨rfl, rfl, h₂.modify slot _⟩

/-- A walk along the links reads the orders and nothing else of the pool. -/
theorem walk_spare (steps : Nat) (slot : Option Slot) :
    Level.walk pool' steps slot = Level.walk pool steps slot := by
  induction steps generalizing slot with
  | zero => rfl
  | succ steps ih =>
    cases slot with
    | none => rfl
    | some slot =>
      unfold Level.walk
      rw [h.get?_eq]
      cases pool.get? slot with
      | none => rfl
      | some o => exact congrArg (_ :: ·) (ih o.next)

end Level

/-! ## All queues -/

namespace Queues

variable {q q' : Queues} {key : LevelKey} {slot : Slot}

/-- The queues hold the same orders and the same levels, and differ in spare places only. -/
structure SameButSpare (q q' : Queues) : Prop where
  orders : Arena.SameButSpare q.orders q'.orders
  levels : Arena.SameButSpare q.levels q'.levels

namespace SameButSpare

theorem empty : Queues.empty.SameButSpare Queues.empty where
  orders := .refl Arena.Tidy.empty
  levels := .refl Arena.Tidy.empty

theorem ordersOf_eq (h : q.SameButSpare q') (l : Level) : q'.ordersOf l = q.ordersOf l := by
  unfold Queues.ordersOf Level.orders
  rw [h.orders.room.size_eq]
  exact Level.walk_spare h.orders _ _

theorem fetchLevel_eq (h : q.SameButSpare q') : q'.fetchLevel key = q.fetchLevel key := by
  unfold Queues.fetchLevel
  rw [h.levels.get?_eq]

theorem append (h : q.SameButSpare q') :
    Agree SameButSpare (q.append key slot) (q'.append key slot) := by
  unfold Queues.append
  rw [h.fetchLevel_eq]
  refine (Agree.refl _).bind ?_
  rintro l _ rfl
  refine (l.append_spare h.orders slot).bind ?_
  rintro ⟨_, pool⟩ ⟨l₁, pool'⟩ ⟨rfl, hpool⟩
  exact Agree.ok ⟨hpool, h.levels.set key l₁⟩

theorem unlink (h : q.SameButSpare q') :
    Agree (fun r r' => r'.1 = r.1 ∧ r.2.SameButSpare r'.2) (q.unlink key slot)
      (q'.unlink key slot) := by
  unfold Queues.unlink
  rw [h.fetchLevel_eq]
  refine (Agree.refl _).bind ?_
  rintro l _ rfl
  refine (l.unlink_spare h.orders slot).bind ?_
  rintro ⟨_, _, pool⟩ ⟨size, l₁, pool'⟩ ⟨rfl, rfl, hpool⟩
  exact Agree.ok ⟨rfl, hpool, h.levels.set key l₁⟩

theorem reduce (h : q.SameButSpare q') {quantity : UInt32} :
    Agree SameButSpare (q.reduce key quantity) (q'.reduce key quantity) := by
  unfold Queues.reduce
  rw [h.fetchLevel_eq]
  refine (Agree.refl _).bind ?_
  rintro l _ rfl
  refine (Agree.refl _).bind ?_
  rintro l₁ _ rfl
  exact Agree.ok ⟨h.orders, h.levels.set key l₁⟩

theorem update (h : q.SameButSpare q') (f : Order → Order) :
    Agree SameButSpare (q.update slot f) (q'.update slot f) := by
  unfold Queues.update
  refine (Pool.update_spare h.orders f).bind ?_
  intro pool pool' hpool
  exact Agree.ok ⟨hpool, h.levels⟩

theorem fill (h : q.SameButSpare q') {quantity : UInt32} :
    Agree (fun r r' => r'.1 = r.1 ∧ r.2.SameButSpare r'.2) (q.fill slot quantity)
      (q'.fill slot quantity) := by
  unfold Queues.fill
  refine (Pool.fill_spare h.orders quantity).bind ?_
  rintro ⟨_, pool⟩ ⟨taken, pool'⟩ ⟨rfl, hpool⟩
  exact Agree.ok ⟨rfl, hpool, h.levels⟩

theorem release (h : q.SameButSpare q') :
    Agree (fun r r' => r'.1 = r.1 ∧ r.2.SameButSpare r'.2) (q.release slot) (q'.release slot) := by
  unfold Queues.release
  dsimp only
  rw [h.orders.get?_eq]
  cases ho : q.orders.get? slot with
  | none => exact Agree.error _
  | some o => exact Agree.ok ⟨rfl, h.orders.vacate ho, h.levels⟩

/-- An order gets the same slot in both. -/
theorem acquire (h : q.SameButSpare q') (o : Order) :
    (q'.acquire o).1 = (q.acquire o).1 ∧ (q.acquire o).2.SameButSpare (q'.acquire o).2 := by
  refine ⟨?_, h.orders.insert o, h.levels⟩
  show (q'.orders.insert o).1 = (q.orders.insert o).1
  rw [Arena.fst_insert, Arena.fst_insert, h.orders.room.nextKey_eq]

/-- A level gets the same key in both. -/
theorem openLevel (h : q.SameButSpare q') (price : Int32) (side : Side) :
    (q'.openLevel price side).1 = (q.openLevel price side).1 ∧
      (q.openLevel price side).2.SameButSpare (q'.openLevel price side).2 := by
  refine ⟨?_, h.orders, h.levels.insert _⟩
  show (q'.levels.insert _).1 = (q.levels.insert _).1
  rw [Arena.fst_insert, Arena.fst_insert, h.levels.room.nextKey_eq]

theorem closeLevel (h : q.SameButSpare q') {l : Level} (hl : q.levels.get? key = some l) :
    (q.closeLevel key).SameButSpare (q'.closeLevel key) :=
  ⟨h.orders, h.levels.vacate hl⟩

end SameButSpare

end Queues

end PriceTime
