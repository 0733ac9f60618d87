import Mathlib.Data.Finmap
import PriceTime.Proofs.Ladder

/-!
# Ladders as finite maps from prices

Whatever is put into a ladder and taken out of it again, the ladder shows a finite map from prices
to levels: the same entries, best price first, and the first of them as its best one. A removal
answers with the level that was put in at the price last and is still there.

* `Ladder.Tracks.act`: one act on a ladder and on the map it stands for.
* `Ladder.Tracks.shows`: what a ladder shows of its map.
* `Ladder.run_shows`: any acts on a new ladder.
-/

namespace PriceTime

/-- Whether a price is strictly better than another one. -/
def Side.Prefers : Side → Int32 → Int32 → Prop
  | .bid, price, other => other < price
  | .ask, price, other => price < other

theorem Side.prefers_iff (side : Side) (price other : Int32) :
    side.Prefers price other ↔ side.rank price < side.rank other := by
  cases side with
  | bid =>
    show other < price ↔ -price.toInt < -other.toInt
    rw [Int32.lt_iff_toInt_lt]
    omega
  | ask => exact Int32.lt_iff_toInt_lt

/-- Every rank fits into a double word. -/
theorem Side.toInt_ofInt_rank (side : Side) (price : Int32) :
    (Int64.ofInt (side.rank price)).toInt = side.rank price := by
  have hlow := price.minValue_le_toInt
  have hhigh := price.toInt_le
  have hmin : Int32.minValue.toInt = -2147483648 := rfl
  have hmax : Int32.maxValue.toInt = 2147483647 := rfl
  apply Int64.toInt_ofInt_of_le
  · cases side <;> unfold Side.rank <;> dsimp only <;> omega
  · cases side <;> unfold Side.rank <;> dsimp only <;> omega

/-- A finite map from prices to levels. -/
abbrev PriceMap := Finmap fun _ : Int32 => LevelKey

namespace Ladder

/-- What can be done with a ladder. -/
inductive Act where
  | insert (price : Int32) (key : LevelKey)
  | remove (price : Int32)
  | clear

/-- Do an act: the level that a removal took out, and the ladder afterwards. -/
def act (l : Ladder) : Act → Option LevelKey × Ladder
  | .insert price key => (none, l.insert price key)
  | .remove price => l.remove price
  | .clear => (none, l.clear)

/-- Do one act after the other: the levels taken out, and the ladder afterwards. -/
def run (l : Ladder) : List Act → List (Option LevelKey) × Ladder
  | [] => ([], l)
  | act :: acts =>
    let (taken, l) := l.act act
    let (rest, l) := l.run acts
    (taken :: rest, l)

end Ladder

namespace PriceMap

/-- Do an act on a map. -/
def act (m : PriceMap) : Ladder.Act → Option LevelKey × PriceMap
  | .insert price key => (none, m.insert price key)
  | .remove price => (m.lookup price, m.erase price)
  | .clear => (none, ∅)

/-- Do one act after the other on a map. -/
def run (m : PriceMap) : List Ladder.Act → List (Option LevelKey) × PriceMap
  | [] => ([], m)
  | act :: acts =>
    let (taken, m) := PriceMap.act m act
    let (rest, m) := run m acts
    (taken :: rest, m)

theorem run_cons (m : PriceMap) (act : Ladder.Act) (acts : List Ladder.Act) :
    PriceMap.run m (act :: acts) =
      ((PriceMap.act m act).1 :: (PriceMap.run (PriceMap.act m act).2 acts).1,
        (PriceMap.run (PriceMap.act m act).2 acts).2) := rfl

end PriceMap

namespace Ladder

variable {l : Ladder} {m : PriceMap}

/-- A sound ladder that has the level of a map at every price. -/
structure Tracks (l : Ladder) (m : PriceMap) : Prop where
  sound : l.Sound
  key?_eq : ∀ price, l.key? price = m.lookup price

/-- What a ladder shows of a map: its entries, strictly best first, every key at its price, their
number, and the best of them. -/
structure Shows (l : Ladder) (m : PriceMap) : Prop where
  mem_toList : ∀ price key, (price, key) ∈ l.toList ↔ m.lookup price = some key
  ordered : l.toList.Pairwise fun entry later => l.side.Prefers entry.1 later.1
  keys_eq : l.keys.map some = (l.toList.map Prod.fst).map m.lookup
  size_eq : l.size = m.keys.card
  isEmpty_iff : l.isEmpty = true ↔ m = ∅
  best?_eq : l.best? = l.toList.head?

theorem run_cons (l : Ladder) (act : Act) (acts : List Act) : l.run (act :: acts) =
    ((l.act act).1 :: ((l.act act).2.run acts).1, ((l.act act).2.run acts).2) := rfl

theorem fst_remove (l : Ladder) (price : Int32) : (l.remove price).1 = l.key? price := by
  unfold remove key?
  dsimp only
  split <;> rename_i heq <;> rw [heq]

namespace Tracks

theorem empty (side : Side) : ({ side } : Ladder).Tracks ∅ where
  sound := .empty side
  key?_eq _ := by
    rw [Finmap.lookup_empty]
    exact Std.ExtTreeMap.getElem?_empty

/-- An act on a ladder and on its map takes out the same, and the map stays that of the ladder. -/
theorem act (h : l.Tracks m) (act : Act) :
    (l.act act).1 = (PriceMap.act m act).1 ∧ (l.act act).2.side = l.side ∧
      (l.act act).2.Tracks (PriceMap.act m act).2 := by
  cases act with
  | insert price key =>
    refine ⟨rfl, rfl, h.sound.insert price key, fun p => ?_⟩
    refine (key?_insert l price key p).trans ?_
    show _ = Finmap.lookup p (m.insert price key)
    by_cases hp : p = price
    · rw [if_pos hp, hp, Finmap.lookup_insert]
    · rw [if_neg hp, Finmap.lookup_insert_of_ne _ hp, h.key?_eq]
  | remove price =>
    refine ⟨(fst_remove l price).trans (h.key?_eq price), side_remove l price,
      h.sound.remove price, fun p => ?_⟩
    refine (key?_remove l price p).trans ?_
    show _ = Finmap.lookup p (m.erase price)
    by_cases hp : p = price
    · rw [if_pos hp, hp, Finmap.lookup_erase]
    · rw [if_neg hp, Finmap.lookup_erase_ne hp, h.key?_eq]
  | clear => exact ⟨rfl, rfl, .empty l.side⟩

theorem run (h : l.Tracks m) (acts : List Act) :
    (l.run acts).1 = (PriceMap.run m acts).1 ∧ (l.run acts).2.side = l.side ∧
      (l.run acts).2.Tracks (PriceMap.run m acts).2 := by
  induction acts generalizing l m with
  | nil => exact ⟨rfl, rfl, h⟩
  | cons act acts ih =>
    obtain ⟨htaken, hside, hact⟩ := h.act act
    obtain ⟨hrest, hside', hrun⟩ := ih hact
    rw [run_cons, PriceMap.run_cons]
    exact ⟨congrArg₂ List.cons htaken hrest, hside'.trans hside, hrun⟩

theorem mem_toList (h : l.Tracks m) (price : Int32) (key : LevelKey) :
    (price, key) ∈ l.toList ↔ m.lookup price = some key := by
  rw [h.sound.mem_toList, h.key?_eq]

/-- The prices of a ladder are those of its map, each once. -/
theorem prices (h : l.Tracks m) :
    (l.toList.map Prod.fst).Nodup ∧ (l.toList.map Prod.fst).toFinset = m.keys := by
  constructor
  · refine List.pairwise_map.mpr (h.sound.pairwise_toList.imp ?_)
    intro entry later hlt heq
    rw [heq] at hlt
    exact absurd hlt (Int.lt_irrefl _)
  · ext price
    rw [List.mem_toFinset, List.mem_map, Finmap.mem_keys, Finmap.mem_iff]
    constructor
    · rintro ⟨⟨p, key⟩, hentry, rfl⟩
      exact ⟨key, (h.mem_toList p key).mp hentry⟩
    · rintro ⟨key, hkey⟩
      exact ⟨(price, key), (h.mem_toList price key).mpr hkey, rfl⟩

theorem size_eq (h : l.Tracks m) : l.size = m.keys.card := by
  obtain ⟨hnodup, hkeys⟩ := h.prices
  rw [← hkeys, List.toFinset_card_of_nodup hnodup, List.length_map, length_toList]

theorem shows (h : l.Tracks m) : l.Shows m where
  mem_toList := h.mem_toList
  ordered := h.sound.pairwise_toList.imp fun hlt => (l.side.prefers_iff _ _).mpr hlt
  keys_eq := by
    rw [keys, List.map_map, List.map_map]
    refine List.map_congr_left fun entry hentry => ?_
    exact ((h.mem_toList entry.1 entry.2).mp hentry).symm
  size_eq := h.size_eq
  isEmpty_iff := by
    have hsize : l.isEmpty = true ↔ l.size = 0 := by
      rw [isEmpty, size, Std.ExtTreeMap.isEmpty_eq_size_beq_zero, beq_iff_eq]
    rw [hsize, h.size_eq, Finset.card_eq_zero]
    constructor
    · intro hnone
      refine Finmap.ext_lookup fun price => ?_
      rw [Finmap.lookup_empty, Finmap.lookup_eq_none, ← Finmap.mem_keys, hnone]
      exact Finset.notMem_empty price
    · rintro rfl
      exact Finmap.keys_empty
  best?_eq := h.sound.best?_eq

end Tracks

/-- After any acts on a new ladder, the ladder shows the map that these acts make, and every removal
has answered with the level that the map had at the price. Prices come back from their ranks, the
lowest and the highest one included, and no rank is too large for a double word. -/
theorem run_shows (side : Side) (acts : List Act) :
    (Ladder.run { side } acts).1 = (PriceMap.run ∅ acts).1 ∧
      (Ladder.run { side } acts).2.side = side ∧
      (Ladder.run { side } acts).2.Shows (PriceMap.run ∅ acts).2 ∧
      ∀ price, side.priceOfRank (side.rank price) = price ∧
        (Int64.ofInt (side.rank price)).toInt = side.rank price := by
  obtain ⟨htaken, hside, htracks⟩ := (Tracks.empty side).run acts
  exact ⟨htaken, hside, htracks.shows,
    fun price => ⟨side.priceOfRank_rank price, side.toInt_ofInt_rank price⟩⟩

end Ladder

end PriceTime
