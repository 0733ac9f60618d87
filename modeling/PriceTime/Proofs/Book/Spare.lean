import PriceTime.Book.Audit
import PriceTime.Book.Encoding
import PriceTime.Proofs.Lockstep
import PriceTime.Proofs.Queues.Spare

/-!
# Books with spare places

A book that has grown and has lost again what made it grow keeps spare slots and spare level keys.
It shows what it has shown before, it answers every operation as it would have, with the same slots
and the same reports, and afterwards it is still the same but for spare places.

* `Book.SameButSpare`: the same ladders and indexes over queues that differ in spare places.
* `Book.ShowsSame`, `Book.SameButSpare.showsSame`: every view of the book.
* `Book.lockstep_sameButSpare`: every operation of the book.
-/

namespace PriceTime

namespace Book

variable {b b' : Book} {key : LevelKey} {slot : Slot} {id : UInt64} {price : Int32} {size : UInt32}
  {side : Side} {time : UInt64}

/-- The books are the same, but for spare slots and spare level keys. -/
structure SameButSpare (b b' : Book) : Prop where
  queues : b.queues.SameButSpare b'.queues
  bids : b'.bids = b.bids
  asks : b'.asks = b.asks
  index : b'.index = b.index

/-- Both books show the same, slots and level keys included. -/
structure ShowsSame (b b' : Book) : Prop where
  get? : ∀ id, b'.get? id = b.get? id
  slot? : ∀ id : UInt64, b'.index[id]? = b.index[id]?
  contains : ∀ id, b'.contains id = b.contains id
  isEmpty : b'.isEmpty = b.isEmpty
  count : b'.count = b.count
  sideCount : ∀ side, (b'.half side).count = (b.half side).count
  levelCount : ∀ side, b'.levelCount side = b.levelCount side
  levelKey? : ∀ side price, b'.levelKey? side price = b.levelKey? side price
  level? : ∀ side price, b'.level? side price = b.level? side price
  levels : ∀ side, b'.levels side = b.levels side
  ordersOf : ∀ level, b'.ordersOf level = b.ordersOf level
  idsAt : ∀ side price, b'.idsAt side price = b.idsAt side price
  best? : ∀ side, b'.best? side = b.best? side
  bestPrice? : ∀ side, b'.bestPrice? side = b.bestPrice? side
  bestVolume? : ∀ side, b'.bestVolume? side = b.bestVolume? side
  bestQuote? : ∀ side, b'.bestQuote? side = b.bestQuote? side
  midPrice? : b'.midPrice? = b.midPrice?
  spread? : b'.spread? = b.spread?
  encode : b'.encode = b.encode
  root : b'.root = b.root
  findViolation : b'.findViolation = b.findViolation

namespace SameButSpare

theorem half_eq (h : b.SameButSpare b') (side : Side) : b'.half side = b.half side := by
  cases side
  · exact h.bids
  · exact h.asks

/-! ## Views -/

theorem level?_eq (h : b.SameButSpare b') (side : Side) (price : Int32) :
    b'.level? side price = b.level? side price := by
  unfold Book.level? Book.levelKey?
  rw [h.half_eq]
  exact Option.bind_congr fun key _ => h.queues.levels.get?_eq key

theorem levels_eq (h : b.SameButSpare b') (side : Side) : b'.levels side = b.levels side := by
  unfold Book.levels
  rw [h.half_eq]
  exact List.filterMap_congr fun key _ => h.queues.levels.get?_eq key

theorem ordersOf_eq (h : b.SameButSpare b') (level : Level) :
    b'.ordersOf level = b.ordersOf level :=
  h.queues.ordersOf_eq level

theorem best?_eq (h : b.SameButSpare b') (side : Side) : b'.best? side = b.best? side := by
  unfold Book.best?
  rw [h.half_eq]
  exact Option.bind_congr fun entry _ => h.queues.levels.get?_eq entry.2

theorem bestQuote?_eq (h : b.SameButSpare b') (side : Side) :
    b'.bestQuote? side = b.bestQuote? side := by
  unfold Book.bestQuote?
  rw [h.half_eq]
  refine Option.bind_congr fun ⟨price, key⟩ _ => ?_
  dsimp only
  rw [h.queues.levels.get?_eq]

theorem bestPrice?_eq (h : b.SameButSpare b') (side : Side) :
    b'.bestPrice? side = b.bestPrice? side := by
  unfold Book.bestPrice?
  rw [h.half_eq]

theorem encode_eq (h : b.SameButSpare b') : b'.encode = b.encode := by
  unfold Book.encode
  refine List.flatMap_congr fun side _ => ?_
  rw [h.levels_eq]
  refine List.flatMap_congr fun level _ => ?_
  unfold Book.encodeLevel
  rw [h.ordersOf_eq]

theorem auditLevel_eq (h : b.SameButSpare b') (side : Side) (last : Option Int32) (price : Int32)
    (key : LevelKey) : b'.auditLevel side last price key = b.auditLevel side last price key := by
  have horder : b'.auditOrder side price key = b.auditOrder side price key := by
    funext tally entry
    unfold auditOrder
    rw [h.index]
  unfold auditLevel Book.levelKey?
  simp only [h.queues.levels.get?_eq, h.half_eq, horder, h.ordersOf_eq]

theorem auditLevels_eq (h : b.SameButSpare b') (side : Side) (last : Option Int32)
    (entries : List (Int32 × LevelKey)) :
    b'.auditLevels side last entries = b.auditLevels side last entries := by
  induction entries generalizing last with
  | nil => rfl
  | cons entry rest ih =>
    unfold auditLevels
    rw [h.auditLevel_eq, ih]

theorem findViolation_eq (h : b.SameButSpare b') : b'.findViolation = b.findViolation := by
  have hside : ∀ side, b'.auditSide side = b.auditSide side := by
    intro side
    unfold auditSide
    rw [h.half_eq, h.auditLevels_eq]
  unfold findViolation Book.levelCount
  rw [hside, hside, h.half_eq, h.half_eq, h.index, h.bids, h.asks, h.queues.orders.room.size_eq,
    h.queues.levels.room.size_eq]

/-- Books that differ in spare places only show the same. -/
theorem showsSame (h : b.SameButSpare b') : b.ShowsSame b' where
  get? id := by
    unfold Book.get?
    rw [h.index]
    exact Option.bind_congr fun slot _ => h.queues.orders.get?_eq slot
  slot? id := by rw [h.index]
  contains id := by rw [Book.contains, Book.contains, h.index]
  isEmpty := by rw [Book.isEmpty, Book.isEmpty, h.index]
  count := by rw [Book.count, Book.count, h.bids, h.asks]
  sideCount side := by rw [h.half_eq]
  levelCount side := by rw [Book.levelCount, Book.levelCount, h.half_eq]
  levelKey? side price := by rw [Book.levelKey?, Book.levelKey?, h.half_eq]
  level? := h.level?_eq
  levels := h.levels_eq
  ordersOf := h.ordersOf_eq
  idsAt side price := by
    unfold Book.idsAt
    rw [h.level?_eq]
    cases b.level? side price with
    | none => rfl
    | some level => exact congrArg _ (h.ordersOf_eq level)
  best? := h.best?_eq
  bestPrice? := h.bestPrice?_eq
  bestVolume? side := by rw [Book.bestVolume?, Book.bestVolume?, h.best?_eq]
  bestQuote? := h.bestQuote?_eq
  midPrice? := by rw [Book.midPrice?, Book.midPrice?, h.bestPrice?_eq, h.bestPrice?_eq]
  spread? := by rw [Book.spread?, Book.spread?, h.bestPrice?_eq, h.bestPrice?_eq]
  encode := h.encode_eq
  root := by rw [Book.root, Book.root, h.encode_eq]
  findViolation := h.findViolation_eq

/-! ## Parts of the operations -/

theorem clear (h : b.SameButSpare b') : b.clear.SameButSpare b'.clear where
  queues := .empty
  bids := congrArg HalfBook.clear h.bids
  asks := congrArg HalfBook.clear h.asks
  index := rfl

theorem setQueues (h : b.SameButSpare b') {q q' : Queues} (hq : q.SameButSpare q') :
    SameButSpare { b with queues := q } { b' with queues := q' } :=
  { h with queues := hq }

/-- Another index of the orders, made alike from the one before. -/
theorem onIndex (h : b.SameButSpare b')
    (f : Std.ExtTreeMap UInt64 Slot → Std.ExtTreeMap UInt64 Slot) :
    SameButSpare { b with index := f b.index } { b' with index := f b'.index } :=
  { h with index := congrArg f h.index }

theorem onHalf (h : b.SameButSpare b') (side : Side) (f : HalfBook → HalfBook) :
    (b.onHalf side f).SameButSpare (b'.onHalf side f) := by
  cases side
  · exact { h with bids := congrArg f h.bids }
  · exact { h with asks := congrArg f h.asks }

theorem onQueues (h : b.SameButSpare b') {f : Queues → Except Fault Queues}
    (hf : Agree Queues.SameButSpare (f b.queues) (f b'.queues)) :
    Agree SameButSpare (b.onQueues f) (b'.onQueues f) := by
  rw [onQueues_eq, onQueues_eq]
  refine hf.bind ?_
  intro q q' hq
  exact Agree.ok (h.setQueues hq)

theorem fromQueues {α : Type} (h : b.SameButSpare b') {f : Queues → Except Fault (α × Queues)}
    (hf : Agree (fun r r' => r'.1 = r.1 ∧ r.2.SameButSpare r'.2) (f b.queues) (f b'.queues)) :
    Agree (fun r r' => r'.1 = r.1 ∧ r.2.SameButSpare r'.2) (b.fromQueues f) (b'.fromQueues f) := by
  rw [fromQueues_eq, fromQueues_eq]
  refine hf.bind ?_
  rintro r r' ⟨hr, hq⟩
  exact Agree.ok ⟨hr, h.setQueues hq⟩

theorem fetch_eq (h : b.SameButSpare b') :
    b'.queues.orders.fetch slot = b.queues.orders.fetch slot :=
  Pool.fetch_spare h.queues.orders

/-- The level is there in both books, or is made in both, with the same key. -/
theorem levelFor (h : b.SameButSpare b') (side : Side) (price : Int32) :
    ∃ key b₁ b₁' events, b.levelFor side price = (key, b₁, events) ∧
      b'.levelFor side price = (key, b₁', events) ∧ b₁.SameButSpare b₁' := by
  unfold Book.levelFor Book.levelKey?
  rw [h.half_eq]
  cases (b.half side).index[price]? with
  | some key => exact ⟨_, _, _, _, rfl, rfl, h⟩
  | none =>
    obtain ⟨hkey, hq⟩ := h.queues.openLevel price side
    dsimp only
    rw [hkey]
    exact ⟨_, _, _, _, rfl, rfl, (h.setQueues hq).onHalf side _⟩

theorem closeLevel (h : b.SameButSpare b') {l : Level} (hl : b.queues.levels.get? key = some l) :
    (b.closeLevel key l).SameButSpare (b'.closeLevel key l) := by
  unfold Book.closeLevel
  exact (h.setQueues (h.queues.closeLevel hl)).onHalf l.side _

theorem link (h : b.SameButSpare b') : Agree SameButSpare (b.link key slot) (b'.link key slot) := by
  unfold Book.link
  refine h.onQueues ?_
  refine h.queues.append.bind ?_
  intro q q' hq
  exact hq.update _

theorem detach (h : b.SameButSpare b') :
    Agree (fun r r' => r.1.SameButSpare r'.1 ∧ r'.2 = r.2) (b.detach slot) (b'.detach slot) := by
  unfold Book.detach
  rw [h.fetch_eq]
  refine (Agree.refl _).bind ?_
  rintro o _ rfl
  cases o.level with
  | none => exact Agree.ok ⟨h, rfl⟩
  | some key =>
    refine Agree.bind (h.fromQueues ?_) ?_
    · refine (h.queues.update _).bind ?_
      intro q q' hq
      exact hq.unlink
    rintro ⟨_, b₁⟩ ⟨_, b₁'⟩ ⟨-, hb₁⟩
    dsimp only
    unfold Queues.fetchLevel
    rw [hb₁.queues.levels.get?_eq]
    cases hl : b₁.queues.levels.get? key with
    | none => exact Agree.error _
    | some l =>
      refine Agree.ite ?_ ?_
      · exact Agree.ok ⟨hb₁.closeLevel hl, rfl⟩
      · exact Agree.ok ⟨hb₁, rfl⟩

theorem levelOf (h : b.SameButSpare b') : b'.levelOf slot = b.levelOf slot := by
  unfold Book.levelOf
  rw [h.fetch_eq]

theorem countUp (h : b.SameButSpare b') (side : Side) :
    (b.countUp side).SameButSpare (b'.countUp side) := by
  unfold Book.countUp
  exact h.onHalf side _

theorem countDown (h : b.SameButSpare b') (side : Side) :
    Agree SameButSpare (b.countDown side) (b'.countDown side) := by
  unfold Book.countDown
  rw [h.half_eq]
  refine Agree.ite ?_ ?_
  · exact Agree.error _
  · exact Agree.ok (h.onHalf side _)

theorem take (h : b.SameButSpare b') :
    Agree (fun r r' => r'.1 = r.1 ∧ r.2.SameButSpare r'.2) (b.take slot) (b'.take slot) :=
  h.fromQueues h.queues.release

/-! ## Add and remove -/

theorem add (h : b.SameButSpare b') :
    Agree (Step.Alike SameButSpare) (b.add id price size side time)
      (b'.add id price size side time) := by
  unfold Book.add
  rw [h.showsSame.contains]
  refine Agree.ite ?_ ?_
  · exact Agree.ok ⟨rfl, h, rfl⟩
  · obtain ⟨key, b₁, b₁', events, hlevel, hlevel', hb₁⟩ := h.levelFor side price
    obtain ⟨hslot, hq⟩ := hb₁.queues.acquire { id, price, size, side, time }
    rw [hlevel, hlevel']
    dsimp only
    rw [hslot]
    refine ((hb₁.setQueues hq).onIndex (·.insert id _)).link.bind ?_
    intro b₂ b₂' hb₂
    exact Agree.ok ⟨rfl, hb₂.countUp side, rfl⟩

theorem remove (h : b.SameButSpare b') :
    Agree (Step.Alike SameButSpare) (b.remove id) (b'.remove id) := by
  unfold Book.remove
  rw [h.index]
  cases b.index[id]? with
  | none => exact Agree.ok ⟨rfl, h, rfl⟩
  | some slot =>
    refine (h.onIndex (·.erase id)).detach.bind ?_
    rintro ⟨b₁, _⟩ ⟨b₁', events⟩ ⟨hb₁, rfl⟩
    refine hb₁.take.bind ?_
    rintro ⟨_, b₂⟩ ⟨o, b₂'⟩ ⟨rfl, hb₂⟩
    refine (hb₂.countDown o.side).bind ?_
    intro b₃ b₃' hb₃
    exact Agree.ok ⟨rfl, hb₃, rfl⟩

/-! ## Modify -/

theorem reprice (h : b.SameButSpare b') :
    Agree (fun r r' => r.1.SameButSpare r'.1 ∧ r'.2 = r.2) (b.reprice slot price size side time)
      (b'.reprice slot price size side time) := by
  unfold Book.reprice
  refine h.detach.bind ?_
  rintro ⟨b₁, _⟩ ⟨b₁', released⟩ ⟨hb₁, rfl⟩
  obtain ⟨key, b₂, b₂', created, hlevel, hlevel', hb₂⟩ := hb₁.levelFor side price
  dsimp only
  rw [hlevel, hlevel']
  refine (hb₂.onQueues (hb₂.queues.update _)).bind ?_
  intro b₃ b₃' hb₃
  refine hb₃.link.bind ?_
  intro b₄ b₄' hb₄
  exact Agree.ok ⟨hb₄, rfl⟩

theorem requeue (h : b.SameButSpare b') :
    Agree SameButSpare (b.requeue slot size time) (b'.requeue slot size time) := by
  unfold Book.requeue
  rw [h.levelOf]
  refine (Agree.refl _).bind ?_
  rintro key _ rfl
  refine h.onQueues ?_
  refine h.queues.unlink.bind ?_
  rintro ⟨_, q⟩ ⟨_, q'⟩ ⟨-, hq⟩
  refine (hq.update _).bind ?_
  intro q₁ q₁' hq₁
  exact hq₁.append

theorem resize (h : b.SameButSpare b') {less : UInt32} :
    Agree SameButSpare (b.resize slot less size) (b'.resize slot less size) := by
  unfold Book.resize
  rw [h.levelOf]
  refine (Agree.refl _).bind ?_
  rintro key _ rfl
  refine h.onQueues ?_
  refine h.queues.reduce.bind ?_
  intro q q' hq
  exact hq.update _

theorem modify (h : b.SameButSpare b') :
    Agree (Step.Alike SameButSpare) (b.modify id price size side time)
      (b'.modify id price size side time) := by
  unfold Book.modify
  rw [h.index]
  cases b.index[id]? with
  | none =>
    refine h.add.bind ?_
    rintro ⟨_, b₁, _⟩ ⟨result, b₁', events⟩ ⟨rfl, hb₁, rfl⟩
    exact Agree.ok ⟨rfl, hb₁, rfl⟩
  | some slot =>
    dsimp only
    rw [h.fetch_eq]
    refine (Agree.refl _).bind ?_
    rintro o _ rfl
    refine Agree.ite ?_ (Agree.ite ?_ (Agree.ite ?_ ?_))
    · exact Agree.ok ⟨rfl, h, rfl⟩
    · refine h.reprice.bind ?_
      rintro ⟨b₁, _⟩ ⟨b₁', events⟩ ⟨hb₁, rfl⟩
      exact Agree.ok ⟨rfl, hb₁, rfl⟩
    · refine h.requeue.bind ?_
      intro b₁ b₁' hb₁
      exact Agree.ok ⟨rfl, hb₁, rfl⟩
    · refine h.resize.bind ?_
      intro b₁ b₁' hb₁
      exact Agree.ok ⟨rfl, hb₁, rfl⟩

/-! ## Trade -/

theorem tradePart (h : b.SameButSpare b') {remaining : UInt32} :
    Agree SameButSpare (b.tradePart key slot remaining) (b'.tradePart key slot remaining) := by
  unfold Book.tradePart
  refine h.onQueues ?_
  refine (h.queues.update _).bind ?_
  intro q q' hq
  exact hq.reduce

theorem tradeWhole (h : b.SameButSpare b') {remaining : UInt32} :
    Agree (fun r r' => r'.1 = r.1 ∧ r.2.1.SameButSpare r'.2.1 ∧ r'.2.2 = r.2.2)
      (b.tradeWhole side key slot id remaining) (b'.tradeWhole side key slot id remaining) := by
  unfold Book.tradeWhole
  refine Agree.bind (h.fromQueues ?_) ?_
  · refine h.queues.fill.bind ?_
    rintro ⟨_, q⟩ ⟨taken, q'⟩ ⟨rfl, hq⟩
    refine hq.reduce.bind ?_
    intro q₁ q₁' hq₁
    exact Agree.ok ⟨rfl, hq₁⟩
  rintro ⟨_, b₁⟩ ⟨taken, b₁'⟩ ⟨rfl, hb₁⟩
  refine (hb₁.onIndex (·.erase id)).detach.bind ?_
  rintro ⟨b₂, _⟩ ⟨b₂', events⟩ ⟨hb₂, rfl⟩
  refine hb₂.take.bind ?_
  rintro ⟨_, b₃⟩ ⟨o, b₃'⟩ ⟨rfl, hb₃⟩
  refine (hb₃.countDown side).bind ?_
  intro b₄ b₄' hb₄
  exact Agree.ok ⟨rfl, hb₄, rfl⟩

/-- From the same cursor on both trades take the same orders. -/
theorem tradeAlong (h : b.SameButSpare b') {turns : Nat} {cursor : Option Slot}
    {report : TradeReport} {events : List Event} :
    Agree (fun r r' => r'.1 = r.1 ∧ r.2.1.SameButSpare r'.2.1 ∧ r'.2.2 = r.2.2)
      (Book.tradeAlong side key turns cursor report b events)
      (Book.tradeAlong side key turns cursor report b' events) := by
  induction turns generalizing cursor report b b' events with
  | zero => exact Agree.error _
  | succ turns ih =>
    cases cursor with
    | none => exact Agree.ok ⟨rfl, h, rfl⟩
    | some slot =>
      unfold Book.tradeAlong
      refine Agree.ite ?_ ?_
      · exact Agree.ok ⟨rfl, h, rfl⟩
      rw [h.fetch_eq]
      refine (Agree.refl _).bind ?_
      rintro o _ rfl
      refine Agree.ite ?_ ?_
      · refine h.tradePart.bind ?_
        intro b₁ b₁' hb₁
        exact Agree.ok ⟨rfl, hb₁, rfl⟩
      · refine h.tradeWhole.bind ?_
        rintro ⟨_, b₁, _⟩ ⟨taken, b₁', more⟩ ⟨rfl, hb₁, rfl⟩
        exact ih hb₁

theorem trade (h : b.SameButSpare b') :
    Agree (fun r r' => r'.1 = r.1 ∧ r.2.1.SameButSpare r'.2.1 ∧ r'.2.2 = r.2.2)
      (b.trade id price size side) (b'.trade id price size side) := by
  unfold Book.trade Book.levelKey?
  dsimp only
  rw [h.half_eq, h.queues.orders.room.size_eq]
  cases (b.half side.opposite).index[price]? with
  | none => exact Agree.ok ⟨rfl, h, rfl⟩
  | some key =>
    dsimp only
    rw [h.queues.fetchLevel_eq]
    refine (Agree.refl _).bind ?_
    rintro l _ rfl
    exact h.tradeAlong

end SameButSpare

/-- Books that differ in spare places only answer every operation alike, and go on to differ in
spare places only. -/
theorem lockstep_sameButSpare : Lockstep SameButSpare where
  add _ _ _ _ _ h := h.add
  remove _ h := h.remove
  modify _ _ _ _ _ h := h.modify
  trade _ _ _ _ h := h.trade

end Book

end PriceTime
