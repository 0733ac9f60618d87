import PriceTime.Proofs.Book.Stands
import PriceTime.Proofs.Mirror.Queues

/-!
# Mirrored books

Two books are mirror images when the queues of one are the images of those of the other, and what
one knows of a side the other knows of the opposite side, at negated prices. An operation and its
image, given to mirrored books, leave mirrored books, answer alike and report alike; and where one
ends in a fault so does the other.

* `Ladder.insert_mirror`, `Ladder.remove_mirror`: the operations on a ladder.
* `Book.Mirrors`: mirrored books.
* `Book.Mirrors.add`, `Book.Mirrors.remove`, `Book.Mirrors.modify`, `Book.Mirrors.trade`: the
operations, side by side.
-/

namespace PriceTime

/-! ## Ladders -/

namespace Ladder

variable {l : Ladder} {price : Int32} {key : LevelKey}

/-- The ladder seen from the other side: the same ranks, best first. -/
def mirror (l : Ladder) : Ladder :=
  { l with side := l.side.opposite }

theorem insert_mirror (hprice : price ≠ Int32.minValue) :
    l.mirror.insert (-price) key = (l.insert price key).mirror := by
  unfold insert
  rw [show l.mirror.side = l.side.opposite from rfl, Side.rank_mirror _ hprice]
  rfl

theorem remove_mirror (hprice : price ≠ Int32.minValue) :
    (l.mirror.remove (-price)).2 = (l.remove price).2.mirror := by
  unfold remove
  rw [show l.mirror.side = l.side.opposite from rfl, Side.rank_mirror _ hprice]
  dsimp only
  rw [show l.mirror.rungs = l.rungs from rfl]
  cases l.rungs[l.side.rank price]? <;> rfl

theorem best?_mirror (l : Ladder) :
    l.mirror.best? = l.best?.map fun entry => (-entry.1, entry.2) := by
  unfold best?
  rw [show l.mirror.first = l.first from rfl, Option.map_map]
  congr 1
  funext entry
  exact congrArg (·, entry.2) (Side.priceOfRank_opposite _ _)

theorem keys_mirror (l : Ladder) : l.mirror.keys = l.keys := by
  unfold keys toList
  rw [List.map_map, List.map_map]
  rfl

end Ladder

/-! ## Sides -/

namespace HalfBook

variable {h h' : HalfBook} {price : Int32} {key : LevelKey}

/-- What a book knows of a side, and what its image knows of the other one. -/
structure Mirrors (h h' : HalfBook) : Prop where
  ladder : h'.ladder = h.ladder.mirror
  index : ∀ price : Int32, h'.index[-price]? = h.index[price]?
  count : h'.count = h.count

namespace Mirrors

theorem empty (side : Side) : (HalfBook.empty side).Mirrors (HalfBook.empty side.opposite) where
  ladder := rfl
  index price := by
    show (∅ : Std.ExtTreeMap Int32 LevelKey)[-price]? = (∅ : Std.ExtTreeMap Int32 LevelKey)[price]?
    rw [Std.ExtTreeMap.getElem?_empty, Std.ExtTreeMap.getElem?_empty]
  count := rfl

theorem clear (hm : h.Mirrors h') : h.clear.Mirrors h'.clear := by
  have hside : h'.ladder.side = h.ladder.side.opposite := congrArg Ladder.side hm.ladder
  show (HalfBook.empty h.ladder.side).Mirrors (HalfBook.empty h'.ladder.side)
  rw [hside]
  exact empty _

theorem insertLevel (hm : h.Mirrors h') (hprice : price ≠ Int32.minValue) (key : LevelKey) :
    (h.insertLevel price key).Mirrors (h'.insertLevel (-price) key) where
  ladder := by
    show h'.ladder.insert (-price) key = _
    rw [hm.ladder]
    exact Ladder.insert_mirror hprice
  index p := by
    show (h'.index.insert (-price) key)[-p]? = (h.index.insert price key)[p]?
    simp only [Std.ExtTreeMap.getElem?_insert, Std.LawfulEqCmp.compare_eq_iff_eq, Int32.neg_inj,
      hm.index]
  count := hm.count

theorem eraseLevel (hm : h.Mirrors h') (hprice : price ≠ Int32.minValue) :
    (h.eraseLevel price).Mirrors (h'.eraseLevel (-price)) where
  ladder := by
    show (h'.ladder.remove (-price)).2 = _
    rw [hm.ladder]
    exact Ladder.remove_mirror hprice
  index p := by
    show (h'.index.erase (-price))[-p]? = (h.index.erase price)[p]?
    simp only [Std.ExtTreeMap.getElem?_erase, Std.LawfulEqCmp.compare_eq_iff_eq, Int32.neg_inj,
      hm.index]
  count := hm.count

end Mirrors

end HalfBook

/-! ## Reports -/

/-- The error seen from the other side. -/
def BookError.mirror : BookError → BookError
  | duplicateOrder id => duplicateOrder id
  | unknownOrder id => unknownOrder id
  | sideMismatch id resident requested => sideMismatch id resident.opposite requested.opposite
  | invariantViolation detail => invariantViolation detail

/-- The report seen from the other side. -/
def Event.mirror : Event → Event
  | levelCreated price side => levelCreated (-price) side.opposite
  | levelReleased price side => levelReleased (-price) side.opposite
  | cancelRejected id error => cancelRejected id error.mirror
  | cancelSideDisagrees id resident requested =>
    cancelSideDisagrees id resident.opposite requested.opposite
  | modifySwitchesSides id resident requested =>
    modifySwitchesSides id resident.opposite requested.opposite
  | modifyAdds id price => modifyAdds id (-price)
  | tradeFindsNoLevel price resting => tradeFindsNoLevel (-price) resting.opposite

namespace Book

variable {b b' : Book} {key : LevelKey} {slot : Slot} {id : UInt64} {price : Int32} {size : UInt32}
  {side : Side} {time : UInt64}

/-- A book without a level at the lowest price, and its image. -/
structure Mirrors (b b' : Book) : Prop where
  queues : b.queues.Mirrors b'.queues
  half : ∀ side, (b.half side).Mirrors (b'.half side.opposite)
  index : b'.index = b.index

namespace Mirrors

theorem empty : Book.empty.Mirrors Book.empty where
  queues := Queues.Mirrors.empty
  half side := by
    cases side
    · exact HalfBook.Mirrors.empty .bid
    · exact HalfBook.Mirrors.empty .ask
  index := rfl

theorem clear (h : b.Mirrors b') : b.clear.Mirrors b'.clear where
  queues := Queues.Mirrors.empty
  half side := by
    cases side
    · exact (h.half .bid).clear
    · exact (h.half .ask).clear
  index := rfl

theorem setQueues (h : b.Mirrors b') {q q' : Queues} (hq : q.Mirrors q') :
    Mirrors { b with queues := q } { b' with queues := q' } where
  queues := hq
  half := h.half
  index := h.index

/-- Another index of the orders, made alike from the one before. -/
theorem onIndex (h : b.Mirrors b')
    (f : Std.ExtTreeMap UInt64 Slot → Std.ExtTreeMap UInt64 Slot) :
    Mirrors { b with index := f b.index } { b' with index := f b'.index } where
  queues := h.queues
  half := h.half
  index := congrArg f h.index

theorem onHalf (h : b.Mirrors b') {f g : HalfBook → HalfBook}
    (hfg : ∀ x y, HalfBook.Mirrors x y → (f x).Mirrors (g y)) (side : Side) :
    (b.onHalf side f).Mirrors (b'.onHalf side.opposite g) where
  queues := by
    rw [queues_onHalf, queues_onHalf]
    exact h.queues
  half s := by
    rw [half_onHalf, half_onHalf]
    by_cases hs : s = side
    · rw [if_pos hs, if_pos (congrArg Side.opposite hs)]
      exact hfg _ _ (h.half s)
    · rw [if_neg hs, if_neg (mt Side.opposite_inj.mp hs)]
      exact h.half s
  index := by
    rw [index_onHalf, index_onHalf]
    exact h.index

theorem onQueues (h : b.Mirrors b') {f g : Queues → Except Fault Queues}
    (hfg : Agree Queues.Mirrors (f b.queues) (g b'.queues)) :
    Agree Mirrors (b.onQueues f) (b'.onQueues g) := by
  rw [onQueues_eq, onQueues_eq]
  refine hfg.bind ?_
  intro q q' hq
  exact Agree.ok (h.setQueues hq)

theorem fromQueues {α : Type} {R : α → α → Prop} (h : b.Mirrors b')
    {f g : Queues → Except Fault (α × Queues)}
    (hfg : Agree (fun r r' => R r.1 r'.1 ∧ r.2.Mirrors r'.2) (f b.queues) (g b'.queues)) :
    Agree (fun r r' => R r.1 r'.1 ∧ r.2.Mirrors r'.2) (b.fromQueues f) (b'.fromQueues g) := by
  rw [fromQueues_eq, fromQueues_eq]
  refine hfg.bind ?_
  rintro r r' ⟨hr, hq⟩
  exact Agree.ok ⟨hr, h.setQueues hq⟩

/-! ### Levels -/

theorem levelKey? (h : b.Mirrors b') (side : Side) (price : Int32) :
    b'.levelKey? side.opposite (-price) = b.levelKey? side price :=
  (h.half side).index price

/-- The level is there in both books, or is made in both, with the same key. -/
theorem levelFor (h : b.Mirrors b') (side : Side) (hprice : price ≠ Int32.minValue) :
    ∃ key b₁ b₁' events, b.levelFor side price = (key, b₁, events) ∧
      b'.levelFor side.opposite (-price) = (key, b₁', events.map Event.mirror) ∧
      b₁.Mirrors b₁' := by
  unfold Book.levelFor
  rw [h.levelKey?]
  cases b.levelKey? side price with
  | some key => exact ⟨_, _, _, _, rfl, rfl, h⟩
  | none =>
    obtain ⟨key, q, q', hopen, hopen', hq⟩ := h.queues.openLevel hprice side
    dsimp only
    rw [hopen, hopen']
    refine ⟨_, _, _, _, rfl, rfl, ?_⟩
    refine (h.setQueues hq).onHalf ?_ side
    intro x y hxy
    exact hxy.insertLevel hprice key

theorem closeLevel (h : b.Mirrors b') {l : Level} (hprice : l.price ≠ Int32.minValue)
    (key : LevelKey) : (b.closeLevel key l).Mirrors (b'.closeLevel key l.mirror) := by
  unfold Book.closeLevel
  refine (h.setQueues (h.queues.closeLevel key)).onHalf ?_ l.side
  intro x y hxy
  exact hxy.eraseLevel hprice

theorem link (h : b.Mirrors b') : Agree Mirrors (b.link key slot) (b'.link key slot) := by
  unfold Book.link
  refine h.onQueues ?_
  refine h.queues.append.bind ?_
  intro q q' hq
  exact hq.update fun _ => rfl

theorem detach (h : b.Mirrors b') :
    Agree (fun r r' => r.1.Mirrors r'.1 ∧ r'.2 = r.2.map Event.mirror) (b.detach slot)
      (b'.detach slot) := by
  unfold Book.detach
  refine h.queues.fetch.bind ?_
  rintro o _ rfl
  obtain ⟨id, price, size, side, time, filled, prev, next, level⟩ := o
  cases level with
  | none => exact Agree.ok ⟨h, rfl⟩
  | some key =>
    refine Agree.bind (h.fromQueues (R := Eq) ?_) ?_
    · refine Agree.bind (h.queues.update fun _ => ?_) ?_
      · rfl
      intro q q' hq
      exact hq.unlink.mono fun _ _ hr => ⟨hr.1.symm, hr.2⟩
    rintro ⟨x, b₁⟩ ⟨_, b₁'⟩ ⟨rfl, hb₁⟩
    refine hb₁.queues.fetchLevel.bind ?_
    rintro l _ ⟨rfl, hprice⟩
    refine Agree.ite ?_ ?_
    · exact Agree.ok ⟨hb₁.closeLevel hprice key, rfl⟩
    · exact Agree.ok ⟨hb₁, rfl⟩

theorem levelOf (h : b.Mirrors b') : Agree Eq (b.levelOf slot) (b'.levelOf slot) := by
  unfold Book.levelOf
  refine h.queues.fetch.bind ?_
  rintro o _ rfl
  obtain ⟨id, price, size, side, time, filled, prev, next, level⟩ := o
  cases level with
  | none => exact Agree.error _
  | some key => exact Agree.ok rfl

/-! ### Counts -/

theorem countUp (h : b.Mirrors b') (side : Side) :
    (b.countUp side).Mirrors (b'.countUp side.opposite) := by
  refine h.onHalf ?_ side
  intro x y hxy
  exact ⟨hxy.ladder, hxy.index, congrArg (· + 1) hxy.count⟩

theorem countDown (h : b.Mirrors b') (side : Side) :
    Agree Mirrors (b.countDown side) (b'.countDown side.opposite) := by
  unfold Book.countDown
  rw [(h.half side).count]
  refine Agree.ite ?_ ?_
  · exact Agree.error _
  · refine Agree.ok (h.onHalf ?_ side)
    intro x y hxy
    exact ⟨hxy.ladder, hxy.index, congrArg (· - 1) hxy.count⟩

theorem take (h : b.Mirrors b') :
    Agree (fun r r' => r'.1 = r.1.mirror ∧ r.2.Mirrors r'.2) (b.take slot) (b'.take slot) :=
  h.fromQueues (R := fun o o' : Order => o' = o.mirror) h.queues.release

end Mirrors

end Book

end PriceTime
