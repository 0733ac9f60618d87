import PriceTime.Proofs.Encoding

/-!
# Books that look alike

Slots and level keys are numbers that a book gives out for itself. Two books that stand for the same
plain book may differ in them, and in nothing that can be seen: they have the same levels with the
same orders, the same counts and the same root.

* `Book.shown`: what there is to see of a side.
* `Book.encode_shown`: the bytes of a book follow from what there is to see.
* `Book.Resembles`: two books look alike.
* `Book.AtRest.resembles`: books that stand for the same plain book look alike.
-/

namespace PriceTime

namespace Book

variable {b b' : Book} {side : Side} {price : Int32} {l : Level}

/-- The levels of a side, best first, and with each its orders, oldest first. -/
def shown (b : Book) (side : Side) : List (LevelView × List Entry) :=
  (b.levels side).map fun level =>
    (level.view, (b.ordersOf level).map fun (_, order) => order.entry)

/-- Two books look alike. -/
structure Resembles (b b' : Book) : Prop where
  shown : ∀ side, b'.shown side = b.shown side
  /-- An order is in the same place, with the same size and time. -/
  get? : ∀ id, (b'.get? id).map (fun o => (o.side, o.price, o.entry)) =
    (b.get? id).map fun o => (o.side, o.price, o.entry)
  levelCount : ∀ side, b'.levelCount side = b.levelCount side
  sideCount : ∀ side, (b'.half side).count = (b.half side).count
  count : b'.count = b.count
  root : b'.root = b.root

/-! ## The bytes of what is seen -/

/-- The bytes of a level, as they follow from what there is to see of it. -/
def encodeShown (side : Side) (level : LevelView × List Entry) : List UInt8 :=
  side.tag :: littleEndian 4 level.1.price.toUInt32.toNat ++
    littleEndian 8 level.1.volume.toNat ++ littleEndian 4 level.1.count.toNat ++
    level.2.flatMap fun entry => littleEndian 8 entry.id.toNat ++ littleEndian 4 entry.size.toNat

/-- The bytes of a book follow from what there is to see, whatever its volumes and counts say. -/
theorem encode_shown (b : Book) :
    b.encode = [Side.bid, .ask].flatMap fun side => (b.shown side).flatMap (encodeShown side) := by
  have hlevel : ∀ side level, b.encodeLevel side level = encodeShown side
      (level.view, (b.ordersOf level).map fun (_, order) => order.entry) := by
    intro side level
    rw [encodeLevel, encodeShown, List.flatMap_map]
    rfl
  unfold encode shown
  simp only [List.flatMap_map, ← hlevel]

/-! ## Books with the same plain book -/

namespace WellFormed

theorem view_of_level? (h : b.WellFormed) (hlevel : b.level? side price = some l) : l.view = {
    price
    volume := UInt64.ofNat (b.plain.volume side price)
    count := UInt32.ofNat (b.plain.queue side price).length } := by
  have hview := h.view_level? side price
  rw [hlevel, PlainBook.view?] at hview
  split at hview
  · cases hview
  · exact Option.some.inj hview

/-- The levels and the orders of a side, read off the plain book. -/
theorem shown_plain (h : b.WellFormed) (side : Side) : b.shown side =
    ((b.half side).ladder.toList.map Prod.fst).map fun price => ({
      price
      volume := UInt64.ofNat (b.plain.volume side price)
      count := UInt32.ofNat (b.plain.queue side price).length }, b.plain.queue side price) := by
  apply h.map_levels
  intro price l hlevel
  have hqueue : b.plain.queue side price =
      (b.ordersOf l).map fun (_, order) => order.entry := by
    unfold plain
    dsimp only
    rw [hlevel]
  rw [h.view_of_level? hlevel, hqueue]

theorem prices_eq (h : b.WellFormed) (h' : b'.WellFormed) (hplain : b'.plain = b.plain)
    (side : Side) :
    (b'.half side).ladder.toList.map Prod.fst = (b.half side).ladder.toList.map Prod.fst := by
  refine (h'.ladder_plain side).unique (h.ladder_plain side) fun price => ?_
  rw [hplain]

end WellFormed

/-- Books that stand for the same plain book look alike. -/
theorem AtRest.resembles (h : b.AtRest) (h' : b'.AtRest) (hplain : b'.plain = b.plain) :
    b.Resembles b' := by
  have hprices := h.toWellFormed.prices_eq h'.toWellFormed hplain
  have hshown : ∀ side, b'.shown side = b.shown side := by
    intro side
    rw [h'.shown_plain, h.shown_plain, hprices, hplain]
  have hcount : ∀ side, (b'.half side).count = (b.half side).count := by
    intro side
    rw [(h'.showsSide side).count, (h.showsSide side).count, hprices, hplain]
  refine ⟨hshown, ?_, ?_, hcount, ?_, ?_⟩
  · intro id
    rw [h'.shows.get?, h.shows.get?, hplain]
  · intro side
    rw [(h'.showsSide side).levelCount, (h.showsSide side).levelCount, hprices]
  · show (b'.half .bid).count + (b'.half .ask).count = (b.half .bid).count + (b.half .ask).count
    rw [hcount, hcount]
  · rw [root, root, encode_shown, encode_shown]
    simp only [hshown]

end Book

end PriceTime
