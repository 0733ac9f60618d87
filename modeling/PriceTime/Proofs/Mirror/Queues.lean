import PriceTime.Proofs.Agreement
import PriceTime.Proofs.Level
import PriceTime.Queues

/-!
# Mirrored queues

The mirror image of an order or a level has the negated price and the other side; slots, links,
sizes and turns stay. The best price of a side becomes the best price of the other one, because
ranks do not change. Only the lowest price has no image: there is no price as far above zero.

Every operation on the queues does to the images what it does to the originals.

* `Side.rank_mirror`: the rank of a mirrored price.
* `Level.append_mirror`, `Level.unlink_mirror`: the operations on one level.
* `Queues.Mirrors`: queues whose levels have images, beside those images.
-/

namespace PriceTime

/-! ## Prices and sides -/

theorem toInt_neg_of_ne {p : Int32} (hp : p ≠ Int32.minValue) : (-p).toInt = -p.toInt := by
  have hne : p.toInt ≠ -2 ^ 31 := by
    intro h
    exact hp (Int32.toInt_inj.mp (h.trans Int32.toInt_minValue.symm))
  have hle := Int32.le_toInt p
  have hlt := Int32.toInt_lt p
  rw [Int32.toInt_neg, Int.bmod_eq_of_le]
  · omega
  · omega

namespace Side

theorem opposite_inj {s t : Side} : s.opposite = t.opposite ↔ s = t := by
  cases s <;> cases t <;> decide

/-- A mirrored price stands on the other side where the price stands on its own. -/
theorem rank_mirror (s : Side) {p : Int32} (hp : p ≠ Int32.minValue) :
    s.opposite.rank (-p) = s.rank p := by
  cases s with
  | bid => exact toInt_neg_of_ne hp
  | ask =>
    show -(-p).toInt = p.toInt
    rw [toInt_neg_of_ne hp, Int.neg_neg]

theorem priceOfRank_opposite (s : Side) (rank : Int) :
    s.opposite.priceOfRank rank = -s.priceOfRank rank := by
  cases s with
  | bid =>
    show Int32.ofInt rank = -Int32.ofInt (-rank)
    rw [Int32.ofInt_neg, Int32.neg_neg]
  | ask => exact Int32.ofInt_neg rank

end Side

/-! ## Orders and levels -/

/-- The order seen from the other side. -/
def Order.mirror (o : Order) : Order :=
  { o with price := -o.price, side := o.side.opposite }

/-- The level seen from the other side. -/
def Level.mirror (l : Level) : Level :=
  { l with price := -l.price, side := l.side.opposite }

namespace Pool

variable {pool : Pool} {slot : Slot}

/-- The orders seen from the other side. -/
def mirror (pool : Pool) : Pool :=
  pool.map Order.mirror

theorem get?_mirror (pool : Pool) (slot : Slot) :
    pool.mirror.get? slot = (pool.get? slot).map Order.mirror :=
  Arena.get?_map _ _ _

theorem fetch_mirror : Agree (fun o o' => o' = o.mirror) (pool.fetch slot)
    (pool.mirror.fetch slot) := by
  unfold fetch
  rw [get?_mirror]
  cases pool.get? slot with
  | none => exact Agree.error _
  | some o => exact Agree.ok rfl

theorem modify_mirror {f g : Order → Order} (h : ∀ o, g o.mirror = (f o).mirror) :
    pool.mirror.modify slot g = mirror (pool.modify slot f) :=
  Arena.modify_map _ _ h _

theorem update_mirror {f g : Order → Order} (h : ∀ o, g o.mirror = (f o).mirror) :
    Agree (fun p p' => p' = mirror p) (pool.update slot f) (pool.mirror.update slot g) := by
  unfold update
  rw [get?_mirror]
  cases pool.get? slot with
  | none => exact Agree.error _
  | some o => exact Agree.ok (modify_mirror h)

theorem fill_mirror {quantity : UInt32} :
    Agree (fun r r' => r' = (r.1, mirror r.2)) (pool.fill slot quantity)
      (pool.mirror.fill slot quantity) := by
  unfold fill
  rw [get?_mirror]
  cases pool.get? slot with
  | none => exact Agree.error _
  | some o =>
    exact Agree.ok (congrArg (Prod.mk _) (Arena.set_map Order.mirror pool slot (o.fill quantity).2))

theorem updateIf_mirror {slot : Option Slot} {f g : Order → Order}
    (h : ∀ o, g o.mirror = (f o).mirror) :
    Agree (fun p p' => p' = mirror p) (pool.updateIf slot f) (pool.mirror.updateIf slot g) := by
  cases slot with
  | none => exact Agree.ok rfl
  | some slot => exact update_mirror h

end Pool

namespace Level

variable {l : Level} {pool : Pool} {slot : Slot}

/-- An order is put at the end of the image as it is put at the end of the level. -/
theorem append_mirror : Agree
    (fun r r' => r' = (r.1.mirror, r.2.mirror) ∧ r.1.price = l.price)
    (l.append slot pool) (l.mirror.append slot pool.mirror) := by
  rw [append_eq_bind, append_eq_bind]
  refine Pool.fetch_mirror.bind ?_
  rintro o _ rfl
  rw [Pool.modify_mirror (f := fun o => { o with prev := l.tail, next := none }) (fun _ => rfl)]
  refine Agree.bind (Pool.updateIf_mirror fun _ => ?_) ?_
  · rfl
  rintro pool₁ _ rfl
  exact Agree.ok ⟨rfl, rfl⟩

/-- An order is taken out of the image as it is taken out of the level. -/
theorem unlink_mirror : Agree
    (fun r r' => r' = (r.1, r.2.1.mirror, r.2.2.mirror) ∧ r.2.1.price = l.price)
    (l.unlink slot pool) (l.mirror.unlink slot pool.mirror) := by
  rw [unlink_eq_bind, unlink_eq_bind]
  refine Pool.fetch_mirror.bind ?_
  rintro o _ rfl
  refine Agree.bind (Pool.updateIf_mirror fun _ => ?_) ?_
  · rfl
  rintro pool₁ _ rfl
  refine Agree.bind (Pool.updateIf_mirror fun _ => ?_) ?_
  · rfl
  rintro pool₂ _ rfl
  refine Agree.ite ?_ ?_
  · exact Agree.error _
  · refine Agree.ok ⟨?_, rfl⟩
    rw [Pool.modify_mirror (f := fun o => { o with prev := none, next := none }) (fun _ => rfl)]
    rfl

theorem reduce_mirror {quantity : UInt32} :
    Agree (fun r r' => r' = r.mirror ∧ r.price = l.price) (l.reduce quantity)
      (l.mirror.reduce quantity) := by
  unfold reduce
  refine Agree.ite ?_ ?_
  · exact Agree.error _
  · exact Agree.ok ⟨rfl, rfl⟩

end Level

/-! ## All queues -/

namespace Queues

variable {q q' : Queues} {key : LevelKey} {slot : Slot}

/-- The queues seen from the other side. -/
def mirror (q : Queues) : Queues :=
  ⟨q.orders.mirror, q.levels.map Level.mirror⟩

/-- Queues without a level at the lowest price, and beside them their images. -/
structure Mirrors (q q' : Queues) : Prop where
  eq : q' = q.mirror
  price_ne : ∀ key l, q.levels.get? key = some l → l.price ≠ Int32.minValue

namespace Mirrors

theorem empty : Queues.empty.Mirrors Queues.empty where
  eq := by
    show Queues.empty = ⟨Arena.map _ Arena.empty, Arena.map _ Arena.empty⟩
    rw [Arena.map_empty, Arena.map_empty]
    rfl
  price_ne key l hl := by
    rw [show Queues.empty.levels.get? key = none from Arena.get?_empty key] at hl
    cases hl

theorem orders_eq (h : q.Mirrors q') : q'.orders = q.orders.mirror :=
  congrArg Queues.orders h.eq

theorem get?_orders (h : q.Mirrors q') (slot : Slot) :
    q'.orders.get? slot = (q.orders.get? slot).map Order.mirror := by
  rw [h.orders_eq]
  exact Pool.get?_mirror _ _

theorem get?_levels (h : q.Mirrors q') (key : LevelKey) :
    q'.levels.get? key = (q.levels.get? key).map Level.mirror := by
  rw [h.eq]
  exact Arena.get?_map _ _ _

theorem size_orders (h : q.Mirrors q') : q'.orders.size = q.orders.size := by
  rw [h.orders_eq]
  exact Arena.size_map _ _

theorem fetch (h : q.Mirrors q') :
    Agree (fun o o' => o' = o.mirror) (q.orders.fetch slot) (q'.orders.fetch slot) := by
  rw [h.orders_eq]
  exact Pool.fetch_mirror

theorem fetchLevel (h : q.Mirrors q') :
    Agree (fun l l' => l' = l.mirror ∧ l.price ≠ Int32.minValue) (q.fetchLevel key)
      (q'.fetchLevel key) := by
  unfold Queues.fetchLevel
  rw [h.get?_levels]
  cases hl : q.levels.get? key with
  | none => exact Agree.error _
  | some l => exact Agree.ok ⟨rfl, h.price_ne key l hl⟩

/-- Another state of the orders and of one level, at the price it had. -/
theorem set (h : q.Mirrors q') (pool : Pool) {l : Level} (hprice : l.price ≠ Int32.minValue) :
    Mirrors ⟨pool, q.levels.set key l⟩ ⟨pool.mirror, q'.levels.set key l.mirror⟩ where
  eq := by
    rw [h.eq]
    exact congrArg (Queues.mk _) (Arena.set_map _ _ _ _)
  price_ne k m hm := by
    have hm : (q.levels.set key l).get? k = some m := hm
    rw [Arena.get?_set] at hm
    split at hm
    · cases hk : q.levels.get? k with
      | none =>
        rw [hk] at hm
        cases hm
      | some old =>
        rw [hk] at hm
        cases hm
        exact hprice
    · exact h.price_ne k m hm

/-- Another state of the orders. -/
theorem setOrders (h : q.Mirrors q') (pool : Pool) :
    Mirrors ⟨pool, q.levels⟩ ⟨pool.mirror, q'.levels⟩ where
  eq := by
    rw [h.eq]
    rfl
  price_ne := h.price_ne

theorem append (h : q.Mirrors q') : Agree Mirrors (q.append key slot) (q'.append key slot) := by
  unfold Queues.append
  refine h.fetchLevel.bind ?_
  rintro l _ ⟨rfl, hprice⟩
  dsimp only
  rw [h.orders_eq]
  refine Level.append_mirror.bind ?_
  rintro ⟨l₁, pool⟩ _ ⟨rfl, hl₁⟩
  exact Agree.ok (h.set pool (hl₁ ▸ hprice))

theorem unlink (h : q.Mirrors q') :
    Agree (fun r r' => r'.1 = r.1 ∧ r.2.Mirrors r'.2) (q.unlink key slot) (q'.unlink key slot) := by
  unfold Queues.unlink
  refine h.fetchLevel.bind ?_
  rintro l _ ⟨rfl, hprice⟩
  dsimp only
  rw [h.orders_eq]
  refine Level.unlink_mirror.bind ?_
  rintro ⟨size, l₁, pool⟩ _ ⟨rfl, hl₁⟩
  exact Agree.ok ⟨rfl, h.set pool (hl₁ ▸ hprice)⟩

theorem reduce (h : q.Mirrors q') {quantity : UInt32} :
    Agree Mirrors (q.reduce key quantity) (q'.reduce key quantity) := by
  unfold Queues.reduce
  refine h.fetchLevel.bind ?_
  rintro l _ ⟨rfl, hprice⟩
  refine Level.reduce_mirror.bind ?_
  rintro l₁ _ ⟨rfl, hl₁⟩
  refine Agree.ok ?_
  rw [h.orders_eq]
  exact h.set q.orders (hl₁ ▸ hprice)

theorem update (h : q.Mirrors q') {f g : Order → Order} (hfg : ∀ o, g o.mirror = (f o).mirror) :
    Agree Mirrors (q.update slot f) (q'.update slot g) := by
  unfold Queues.update
  dsimp only
  rw [h.orders_eq]
  refine (Pool.update_mirror hfg).bind ?_
  rintro pool _ rfl
  exact Agree.ok (h.setOrders pool)

theorem fill (h : q.Mirrors q') {quantity : UInt32} :
    Agree (fun r r' => r'.1 = r.1 ∧ r.2.Mirrors r'.2) (q.fill slot quantity)
      (q'.fill slot quantity) := by
  unfold Queues.fill
  dsimp only
  rw [h.orders_eq]
  refine Pool.fill_mirror.bind ?_
  rintro ⟨taken, pool⟩ _ rfl
  exact Agree.ok ⟨rfl, h.setOrders pool⟩

theorem release (h : q.Mirrors q') :
    Agree (fun r r' => r'.1 = r.1.mirror ∧ r.2.Mirrors r'.2) (q.release slot)
      (q'.release slot) := by
  unfold Queues.release
  dsimp only
  rw [h.get?_orders]
  cases q.orders.get? slot with
  | none => exact Agree.error _
  | some o =>
    refine Agree.ok ⟨rfl, ?_⟩
    dsimp only
    rw [h.orders_eq, show q.orders.mirror.vacate slot = Pool.mirror (q.orders.vacate slot) from
      Arena.vacate_map _ _ _]
    exact h.setOrders _

/-- The order and its image get the same slot. -/
theorem acquire (h : q.Mirrors q') (o : Order) :
    ∃ slot q₁ q₁', q.acquire o = (slot, q₁) ∧ q'.acquire o.mirror = (slot, q₁') ∧
      q₁.Mirrors q₁' := by
  have hinsert : q'.orders.insert o.mirror =
      ((q.orders.insert o).1, Pool.mirror (q.orders.insert o).2) := by
    rw [h.orders_eq]
    exact Arena.insert_map _ _ _
  refine ⟨(q.orders.insert o).1, ⟨(q.orders.insert o).2, q.levels⟩,
    ⟨Pool.mirror (q.orders.insert o).2, q'.levels⟩, rfl, ?_, h.setOrders _⟩
  unfold Queues.acquire
  dsimp only
  rw [hinsert]

/-- The level and its image get the same key. -/
theorem openLevel (h : q.Mirrors q') {price : Int32} (hprice : price ≠ Int32.minValue)
    (side : Side) :
    ∃ key q₁ q₁', q.openLevel price side = (key, q₁) ∧
      q'.openLevel (-price) side.opposite = (key, q₁') ∧ q₁.Mirrors q₁' := by
  have hinsert : q'.levels.insert { price := -price, side := side.opposite } =
      ((q.levels.insert { price, side }).1,
        (q.levels.insert { price, side }).2.map Level.mirror) := by
    rw [h.eq]
    exact Arena.insert_map Level.mirror q.levels { price, side }
  refine ⟨(q.levels.insert { price, side }).1, ⟨q.orders, (q.levels.insert { price, side }).2⟩,
    ⟨q'.orders, (q.levels.insert { price, side }).2.map Level.mirror⟩, rfl, ?_, ?_, ?_⟩
  · unfold Queues.openLevel
    dsimp only
    rw [hinsert]
  · rw [h.orders_eq]
    rfl
  · intro k m hm
    rcases Arena.eq_or_of_get?_insert hm with rfl | hold
    · exact hprice
    · exact h.price_ne k m hold

theorem closeLevel (h : q.Mirrors q') (key : LevelKey) :
    (q.closeLevel key).Mirrors (q'.closeLevel key) where
  eq := by
    rw [h.eq]
    exact congrArg (Queues.mk _) (Arena.vacate_map _ _ _)
  price_ne k m hm := by
    have hm : (q.levels.vacate key).get? k = some m := hm
    rw [Arena.get?_vacate] at hm
    split at hm
    · cases hm
    · exact h.price_ne k m hm

end Mirrors

end Queues

end PriceTime
