import PriceTime.Proofs.Mirror.Book

/-!
# Mirrored operations

An operation and its image, at the negated price on the other side, leave mirrored books when they
are given to mirrored books. They use the same slots, answer alike and report alike, with the sides
swapped and the prices negated; and where one ends in a fault so does the other.

* `Book.Mirrors.add`, `Book.Mirrors.remove`, `Book.Mirrors.modify`: they answer alike.
* `Book.Mirrors.trade`: a trade and its image take the same orders.
-/

namespace PriceTime

/-! ## Answers -/

/-- The answer seen from the other side, where `f` mirrors what is answered without an error. -/
def mirrorResult {α : Type} (f : α → α) : Except BookError α → Except BookError α
  | .ok a => .ok (f a)
  | .error error => .error error.mirror

/-- Two operations side by side, on states related by `M`: they answer and report alike. -/
structure Step.Mirrors {σ α : Type} (M : σ → σ → Prop) (f : α → α) (step step' : Step σ α) :
    Prop where
  result : step'.result = mirrorResult f step.result
  state : M step.state step'.state
  events : step'.events = step.events.map Event.mirror

namespace Book.Mirrors

variable {b b' : Book} {key : LevelKey} {slot : Slot} {id : UInt64} {price : Int32} {size : UInt32}
  {side : Side} {time : UInt64}

/-! ## Add and remove -/

theorem add (h : b.Mirrors b') (hprice : price ≠ Int32.minValue) :
    Agree (Step.Mirrors Mirrors (fun slot => slot)) (b.add id price size side time)
      (b'.add id (-price) size side.opposite time) := by
  unfold Book.add
  rw [show b'.contains id = b.contains id from congrArg (·.contains id) h.index]
  refine Agree.ite ?_ ?_
  · exact Agree.ok ⟨rfl, h, rfl⟩
  · obtain ⟨key, b₁, b₁', events, hlevel, hlevel', hb₁⟩ := h.levelFor side hprice
    obtain ⟨slot, q, q', hslot, hslot', hq⟩ := hb₁.queues.acquire { id, price, size, side, time }
    rw [hlevel, hlevel']
    dsimp only
    rw [hslot, show b₁'.queues.acquire { id, price := -price, size, side := side.opposite, time } =
      (slot, q') from hslot']
    refine ((hb₁.setQueues hq).onIndex (·.insert id slot)).link.bind ?_
    intro b₂ b₂' hb₂
    exact Agree.ok ⟨rfl, hb₂.countUp side, rfl⟩

theorem remove (h : b.Mirrors b') :
    Agree (Step.Mirrors Mirrors Order.mirror) (b.remove id) (b'.remove id) := by
  unfold Book.remove
  rw [h.index]
  cases b.index[id]? with
  | none => exact Agree.ok ⟨rfl, h, rfl⟩
  | some slot =>
    dsimp only
    refine (h.onIndex (·.erase id)).detach.bind ?_
    rintro ⟨b₁, events⟩ ⟨b₁', _⟩ ⟨hb₁, rfl⟩
    refine hb₁.take.bind ?_
    rintro ⟨o, b₂⟩ ⟨_, b₂'⟩ ⟨rfl, hb₂⟩
    refine (hb₂.countDown o.side).bind ?_
    intro b₃ b₃' hb₃
    exact Agree.ok ⟨rfl, hb₃, rfl⟩

/-! ## Modify -/

theorem reprice (h : b.Mirrors b') (hprice : price ≠ Int32.minValue) :
    Agree (fun r r' => r.1.Mirrors r'.1 ∧ r'.2 = r.2.map Event.mirror)
      (b.reprice slot price size side time)
      (b'.reprice slot (-price) size side.opposite time) := by
  unfold Book.reprice
  refine h.detach.bind ?_
  rintro ⟨b₁, released⟩ ⟨b₁', _⟩ ⟨hb₁, rfl⟩
  obtain ⟨key, b₂, b₂', created, hlevel, hlevel', hb₂⟩ := hb₁.levelFor side hprice
  dsimp only
  rw [hlevel, hlevel']
  refine Agree.bind (hb₂.onQueues (hb₂.queues.update fun _ => ?_)) ?_
  · rfl
  intro b₃ b₃' hb₃
  refine hb₃.link.bind ?_
  intro b₄ b₄' hb₄
  exact Agree.ok ⟨hb₄, List.map_append.symm⟩

theorem requeue (h : b.Mirrors b') :
    Agree Mirrors (b.requeue slot size time) (b'.requeue slot size time) := by
  unfold Book.requeue
  refine h.levelOf.bind ?_
  rintro key _ rfl
  refine h.onQueues ?_
  refine h.queues.unlink.bind ?_
  rintro ⟨x, q⟩ ⟨_, q'⟩ ⟨rfl, hq⟩
  refine Agree.bind (hq.update fun _ => ?_) ?_
  · rfl
  intro q₁ q₁' hq₁
  exact hq₁.append

theorem resize (h : b.Mirrors b') {less : UInt32} :
    Agree Mirrors (b.resize slot less size) (b'.resize slot less size) := by
  unfold Book.resize
  refine h.levelOf.bind ?_
  rintro key _ rfl
  refine h.onQueues ?_
  refine h.queues.reduce.bind ?_
  intro q q' hq
  exact hq.update fun _ => rfl

theorem modify (h : b.Mirrors b') (hprice : price ≠ Int32.minValue) :
    Agree (Step.Mirrors Mirrors (fun outcome => outcome)) (b.modify id price size side time)
      (b'.modify id (-price) size side.opposite time) := by
  unfold Book.modify
  rw [h.index]
  cases b.index[id]? with
  | none =>
    refine (h.add hprice).bind ?_
    rintro ⟨result, b₁, events⟩ ⟨_, b₁', _⟩ ⟨rfl, hb₁, rfl⟩
    refine Agree.ok ⟨?_, hb₁, rfl⟩
    cases result <;> rfl
  | some slot =>
    refine h.queues.fetch.bind ?_
    rintro o _ rfl
    have hside : o.mirror.side ≠ side.opposite ↔ o.side ≠ side := not_congr Side.opposite_inj
    have hprices : o.mirror.price ≠ -price ↔ o.price ≠ price := not_congr Int32.neg_inj
    simp only [hside, hprices]
    refine Agree.ite ?_ (Agree.ite ?_ (Agree.ite ?_ ?_))
    · exact Agree.ok ⟨rfl, h, rfl⟩
    · refine (h.reprice hprice).bind ?_
      rintro ⟨b₁, events⟩ ⟨b₁', _⟩ ⟨hb₁, rfl⟩
      exact Agree.ok ⟨rfl, hb₁, rfl⟩
    · refine h.requeue.bind ?_
      intro b₁ b₁' hb₁
      exact Agree.ok ⟨rfl, hb₁, rfl⟩
    · refine h.resize.bind ?_
      intro b₁ b₁' hb₁
      exact Agree.ok ⟨rfl, hb₁, rfl⟩

/-! ## Trade -/

theorem tradePart (h : b.Mirrors b') {remaining : UInt32} :
    Agree Mirrors (b.tradePart key slot remaining) (b'.tradePart key slot remaining) := by
  unfold Book.tradePart
  refine h.onQueues ?_
  refine Agree.bind (h.queues.update fun _ => ?_) ?_
  · rfl
  intro q q' hq
  exact hq.reduce

theorem tradeWhole (h : b.Mirrors b') {remaining : UInt32} :
    Agree (fun r r' => r'.1 = r.1 ∧ r.2.1.Mirrors r'.2.1 ∧ r'.2.2 = r.2.2.map Event.mirror)
      (b.tradeWhole side key slot id remaining)
      (b'.tradeWhole side.opposite key slot id remaining) := by
  unfold Book.tradeWhole
  refine Agree.bind (h.fromQueues (R := fun taken taken' => taken' = taken) ?_) ?_
  · refine h.queues.fill.bind ?_
    rintro ⟨taken, q⟩ ⟨_, q'⟩ ⟨rfl, hq⟩
    refine hq.reduce.bind ?_
    intro q₁ q₁' hq₁
    exact Agree.ok ⟨rfl, hq₁⟩
  rintro ⟨taken, b₁⟩ ⟨_, b₁'⟩ ⟨rfl, hb₁⟩
  dsimp only
  refine (hb₁.onIndex (·.erase id)).detach.bind ?_
  rintro ⟨b₂, events⟩ ⟨b₂', _⟩ ⟨hb₂, rfl⟩
  refine hb₂.take.bind ?_
  rintro ⟨o, b₃⟩ ⟨_, b₃'⟩ ⟨rfl, hb₃⟩
  refine (hb₃.countDown side).bind ?_
  intro b₄ b₄' hb₄
  exact Agree.ok ⟨rfl, hb₄, rfl⟩

/-- From the same cursor on both trades take the same orders. -/
theorem tradeAlong (h : b.Mirrors b') {turns : Nat} {cursor : Option Slot} {report : TradeReport}
    {events : List Event} :
    Agree (fun r r' => r'.1 = r.1 ∧ r.2.1.Mirrors r'.2.1 ∧ r'.2.2 = r.2.2.map Event.mirror)
      (Book.tradeAlong side key turns cursor report b events)
      (Book.tradeAlong side.opposite key turns cursor report b' (events.map Event.mirror)) := by
  -- On the turns and not on the queue: whatever the books hold, the two loops read the same slots.
  induction turns generalizing cursor report b b' events with
  | zero => exact Agree.error _
  | succ turns ih =>
    cases cursor with
    | none => exact Agree.ok ⟨rfl, h, rfl⟩
    | some slot =>
      unfold Book.tradeAlong
      refine Agree.ite ?_ ?_
      · exact Agree.ok ⟨rfl, h, rfl⟩
      refine h.queues.fetch.bind ?_
      rintro o _ rfl
      refine Agree.ite ?_ ?_
      · refine h.tradePart.bind ?_
        intro b₁ b₁' hb₁
        exact Agree.ok ⟨rfl, hb₁, rfl⟩
      · refine h.tradeWhole.bind ?_
        rintro r r' ⟨htaken, hb₁, hmore⟩
        dsimp only
        rw [htaken, hmore, ← List.map_append]
        exact ih hb₁

theorem trade (h : b.Mirrors b') :
    Agree (fun r r' => r'.1 = r.1 ∧ r.2.1.Mirrors r'.2.1 ∧ r'.2.2 = r.2.2.map Event.mirror)
      (b.trade id price size side) (b'.trade id (-price) size side.opposite) := by
  unfold Book.trade
  dsimp only
  rw [h.levelKey?, h.queues.size_orders]
  cases b.levelKey? side.opposite price with
  | none => exact Agree.ok ⟨rfl, h, rfl⟩
  | some key =>
    refine h.queues.fetchLevel.bind ?_
    rintro l _ ⟨rfl, hprice⟩
    exact h.tradeAlong

end Book.Mirrors

end PriceTime
