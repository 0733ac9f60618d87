import PriceTime.Indicators
import PriceTime.Proofs.Mirror.Views
import PriceTime.Tape

/-!
# Mirrored figures

The figures drawn from mirrored books stay mirrored: the volumes near the top are swapped, every
change of volume and every mid price is negated. The tape keeps the negated sum of price times size
and the same volume. What is figured in floating point is left open.

* `Indicators.contribution_mirror`: a side contributes to the change of volume what its image does.
* `Indicators.Mirrors`, `Tape.Mirrors`: mirrored figures and mirrored tapes.
-/

namespace PriceTime

/-! ## Histories -/

/-- Histories of negated values. -/
structure Window.Mirrors {α : Type} [Neg α] (w w' : Window α) : Prop where
  capacity : w'.capacity = w.capacity
  toList : w'.toList = w.toList.map fun x => -x

namespace Window.Mirrors

variable {α : Type} [Neg α] {w w' : Window α}

theorem empty (capacity : Nat) : ({ capacity } : Window α).Mirrors { capacity } where
  capacity := rfl
  toList := rfl

theorem record (h : w.Mirrors w') (x : α) : (w.record x).Mirrors (w'.record (-x)) where
  capacity := h.capacity
  toList := by
    rw [Window.toList_record, Window.toList_record, h.toList, h.capacity, List.length_map,
      List.map_append]
    congr 1
    split
    · exact List.map_tail.symm
    · rfl

theorem clear (h : w.Mirrors w') : w.clear.Mirrors w'.clear where
  capacity := h.capacity
  toList := rfl

end Window.Mirrors

/-! ## Indicators -/

/-- A price with its volume, seen from the other side. -/
def mirrorQuote (quote : Int32 × UInt64) : Int32 × UInt64 :=
  (-quote.1, quote.2)

namespace Indicators

variable {i i' : Indicators} {b b' : Book}

theorem volumeNearTop_mirror (h : b.Mirrors b') (depth : Nat) (side : Side) :
    volumeNearTop depth b' side.opposite = volumeNearTop depth b side := by
  unfold volumeNearTop
  rw [h.levels, ← List.map_take, List.foldl_map]
  rfl

/-- Better, held and worse are the same on the other side. -/
theorem contribution_mirror (side : Side) {last : Option (Int32 × UInt64)} {now : Int32 × UInt64}
    (hlast : ∀ quote ∈ last, quote.1 ≠ Int32.minValue) (hnow : now.1 ≠ Int32.minValue) :
    contribution side.opposite (last.map mirrorQuote) (mirrorQuote now) =
      contribution side last now := by
  cases last with
  | none => rfl
  | some quote =>
    have hquote := hlast quote rfl
    unfold contribution mirrorQuote
    dsimp only [Option.map_some]
    rw [Side.rank_mirror side hnow, Side.rank_mirror side hquote]
    exact if_congr Iff.rfl rfl (if_congr Int32.neg_inj rfl rfl)

/-- The figures of a session and of its image. -/
structure Mirrors (i i' : Indicators) : Prop where
  depth : i'.depth = i.depth
  bidVolume : i'.bidVolume = i.askVolume
  askVolume : i'.askVolume = i.bidVolume
  lastBid : i'.lastBid = i.lastAsk.map mirrorQuote
  lastAsk : i'.lastAsk = i.lastBid.map mirrorQuote
  lastBid_ne : ∀ quote ∈ i.lastBid, quote.1 ≠ Int32.minValue
  lastAsk_ne : ∀ quote ∈ i.lastAsk, quote.1 ≠ Int32.minValue
  changes : i.changes.Mirrors i'.changes
  mids : i.mids.Mirrors i'.mids

namespace Mirrors

theorem fresh (depth history : Nat) : (Indicators.fresh depth history).Mirrors (.fresh depth history)
    where
  depth := rfl
  bidVolume := rfl
  askVolume := rfl
  lastBid := rfl
  lastAsk := rfl
  lastBid_ne _ hquote := by cases hquote
  lastAsk_ne _ hquote := by cases hquote
  changes := Window.Mirrors.empty history
  mids := Window.Mirrors.empty history

theorem clear (h : i.Mirrors i') : i.clear.Mirrors i'.clear where
  depth := h.depth
  bidVolume := rfl
  askVolume := rfl
  lastBid := rfl
  lastAsk := rfl
  lastBid_ne _ hquote := by cases hquote
  lastAsk_ne _ hquote := by cases hquote
  changes := h.changes.clear
  mids := h.mids.clear

theorem drawVolumes (h : i.Mirrors i') (hb : b.Mirrors b') :
    (i.drawVolumes b).Mirrors (i'.drawVolumes b') :=
  { h with
    bidVolume := by
      show volumeNearTop i'.depth b' .bid = volumeNearTop i.depth b .ask
      rw [h.depth]
      exact volumeNearTop_mirror hb _ .ask
    askVolume := by
      show volumeNearTop i'.depth b' .ask = volumeNearTop i.depth b .bid
      rw [h.depth]
      exact volumeNearTop_mirror hb _ .bid }

theorem drawImbalance (h : i.Mirrors i') : i.drawImbalance.2.Mirrors i'.drawImbalance.2 :=
  { h with }

/-- The skew itself is left open, but it is drawn from both books or from none. -/
theorem drawSkew (h : i.Mirrors i') (hb : b.Mirrors b') :
    (i'.drawSkew b').1.isSome = (i.drawSkew b).1.isSome ∧
      (i.drawSkew b).2.Mirrors (i'.drawSkew b').2 := by
  have hbid : b'.bestVolume? .bid = _ := hb.bestVolume? .ask
  have hask : b'.bestVolume? .ask = _ := hb.bestVolume? .bid
  unfold Indicators.drawSkew
  rw [hbid, hask]
  cases b.bestVolume? .bid with
  | none => cases b.bestVolume? .ask <;> exact ⟨rfl, h⟩
  | some bid =>
    cases b.bestVolume? .ask with
    | none => exact ⟨rfl, h⟩
    | some ask =>
      refine ⟨?_, { h with }⟩
      rw [Option.isSome_some, Option.isSome_some]

/-- The change of volume is negated. -/
theorem drawChange (h : i.Mirrors i') (hb : b.Mirrors b') (hwf : b.WellFormed) :
    (i'.drawChange b').1 = ((i.drawChange b).1.map fun change => -change) ∧
      (i.drawChange b).2.Mirrors (i'.drawChange b').2 := by
  have hbid : b'.bestQuote? .bid = _ := hb.bestQuote? .ask
  have hask : b'.bestQuote? .ask = _ := hb.bestQuote? .bid
  unfold Indicators.drawChange
  rw [hbid, hask]
  cases hbq : b.bestQuote? .bid with
  | none => cases b.bestQuote? .ask <;> exact ⟨rfl, h⟩
  | some bid =>
    cases haq : b.bestQuote? .ask with
    | none => exact ⟨rfl, h⟩
    | some ask =>
      have hbidne := hb.bestQuote_ne hwf hbq
      have haskne := hb.bestQuote_ne hwf haq
      have hchange : contribution .bid i'.lastBid (mirrorQuote ask) -
          contribution .ask i'.lastAsk (mirrorQuote bid) =
          -(contribution .bid i.lastBid bid - contribution .ask i.lastAsk ask) := by
        rw [h.lastBid, h.lastAsk, Int64.neg_sub]
        congr 1
        · exact contribution_mirror .ask h.lastAsk_ne haskne
        · exact contribution_mirror .bid h.lastBid_ne hbidne
      refine ⟨congrArg some hchange, ?_⟩
      exact {
        depth := h.depth
        bidVolume := h.bidVolume
        askVolume := h.askVolume
        lastBid := rfl
        lastAsk := rfl
        lastBid_ne := by
          rintro _ ⟨⟩
          exact hbidne
        lastAsk_ne := by
          rintro _ ⟨⟩
          exact haskne
        changes := by
          show (i.changes.record _).Mirrors (i'.changes.record (contribution .bid i'.lastBid
            (mirrorQuote ask) - contribution .ask i'.lastAsk (mirrorQuote bid)))
          rw [hchange]
          exact h.changes.record _
        mids := h.mids }

/-- The mid price is negated. -/
theorem drawMid (h : i.Mirrors i') (hb : b.Mirrors b') (hwf : b.WellFormed) :
    (i'.drawMid b').1 = ((i.drawMid b).1.map fun mid => -mid) ∧
      (i.drawMid b).2.Mirrors (i'.drawMid b').2 := by
  unfold Indicators.drawMid
  rw [hb.midPrice? hwf]
  cases b.midPrice? with
  | none => exact ⟨rfl, h⟩
  | some mid => exact ⟨rfl, { h with mids := h.mids.record mid }⟩

end Mirrors

end Indicators

/-! ## Tapes -/

/-- The sums over trades and over their images. -/
structure Tape.Mirrors (t t' : Tape) : Prop where
  priceVolume : t'.priceVolume = -t.priceVolume
  volume : t'.volume = t.volume

theorem Tape.Mirrors.record {t t' : Tape} (h : t.Mirrors t') {price : Int32}
    (hprice : price ≠ Int32.minValue) (size : UInt32) :
    (t.record price size).Mirrors (t'.record (-price) size) where
  priceVolume := by
    rw [(Tape.sums_record t' _ _).1, (Tape.sums_record t _ _).1, h.priceVolume,
      toInt_neg_of_ne hprice, Int.neg_mul, Int.neg_add]
  volume := by
    rw [(Tape.sums_record t' _ _).2, (Tape.sums_record t _ _).2, h.volume]

end PriceTime
