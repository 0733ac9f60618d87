import PriceTime.Proofs.Text.Reading
import PriceTime.Snapshot

/-!
# Reading a snapshot back from its text

The text of a snapshot has a line for each level, bids before asks and best first. Every line says
all there is to say of its level but for the number of orders, and the time of the snapshot. So the
text tells two snapshots apart exactly if they differ in more than numbers of orders. The one thing
that needs a level to be told is the time.

* `LevelRecord.readLine_line`: reading a line.
* `Snapshot.readText_text`: reading a text.
* `Snapshot.text_lossless`: what a text is made of and what it tells.
-/

namespace PriceTime

open Text

/-- What a line of a snapshot tells. -/
structure LevelTold where
  side : Side
  price : Int32
  volume : UInt64
  time : UInt64
deriving DecidableEq

/-- All of a level but how many orders it has. -/
def LevelView.quote (level : LevelView) : Int32 × UInt64 :=
  (level.price, level.volume)

/-- What is told of a level. -/
def LevelTold.ofQuote (side : Side) (time : UInt64) (quote : Int32 × UInt64) : LevelTold :=
  { side, price := quote.1, volume := quote.2, time }

/-- A record that tells this, of a level without orders. -/
def LevelTold.record (told : LevelTold) : LevelRecord where
  level := { price := told.price, volume := told.volume, count := 0 }
  side := told.side
  time := told.time

namespace LevelRecord

/-- What is told of the level of a record. -/
def told (r : LevelRecord) : LevelTold :=
  .ofQuote r.side r.time r.level.quote

/-- Whether a side is the bids, and what is behind that. -/
def readSide (text : List Char) : Option (Side × List Char) :=
  match expect "true".toList text with
  | some rest => some (.bid, rest)
  | none => (expect "false".toList text).map fun rest => (.ask, rest)

/-- Read a line. -/
def readLine (line : List Char) : Option LevelTold := do
  let text ← expect "limit_orderbook price=".toList line
  let (price, text) ← readInt32 text
  let text ← expect "i,volume=".toList text
  let (volume, text) ← readUInt64 text
  let text ← expect "i,side=".toList text
  let (side, text) ← readSide text
  let text ← expect " ".toList text
  let (time, text) ← readUInt64 text
  if text = [] then return { side, price, volume, time } else none

theorem readSide_append (side : Side) (rest : List Char) :
    readSide ((if side.isBid then "true" else "false").toList ++ rest) = some (side, rest) := by
  cases side <;> rfl

theorem readLine_line (r : LevelRecord) : readLine r.line.toList = some r.told := by
  have hprice (rest : List Char) :=
    @readInt32_ofInt r.level.price ("i,volume=".toList ++ rest) (by rintro _ ⟨⟩; rfl)
  have hvolume (rest : List Char) :=
    @readUInt64_ofNat r.level.volume ("i,side=".toList ++ rest) (by rintro _ ⟨⟩; rfl)
  have htime := @readUInt64_ofNat r.time [] nofun
  rw [List.append_nil] at htime
  unfold readLine line
  simp only [String.toList_append, List.append_assoc, expect_append, hprice, hvolume, htime,
    readSide_append, Option.bind_eq_bind, Option.bind_some, if_true]
  rfl

theorem newline_not_mem_line (r : LevelRecord) : '\n' ∉ r.line.toList := by
  have hnat := not_mem_ofNat (c := '\n') rfl
  have hint := not_mem_ofInt (c := '\n') rfl (by decide)
  have hside : '\n' ∉ (if r.side.isBid then "true" else "false").toList := by
    cases r.side <;> decide
  unfold line
  simp [String.toList_append, hnat, hint, hside]

end LevelRecord

namespace Snapshot

/-- Read a text. -/
def readText (text : String) : Option (List LevelTold) := do
  (← cutLines text.toList).mapM LevelRecord.readLine

/-- What is told of the levels, bids first. -/
def told (s : Snapshot) : List LevelTold :=
  (s.bids.map LevelView.quote).map (.ofQuote .bid s.time) ++
    (s.asks.map LevelView.quote).map (.ofQuote .ask s.time)

variable {s s' : Snapshot}

theorem map_told_records (s : Snapshot) : s.records.map LevelRecord.told = s.told := by
  rw [records, told, List.map_append, List.map_map, List.map_map, List.map_map, List.map_map]
  rfl

theorem toList_text (s : Snapshot) :
    s.text.toList = (s.lines.map String.toList).flatMap fun line => line ++ ['\n'] := by
  rw [text, lines, String.toList_join, List.flatMap_map, List.flatMap_map, List.flatMap_map]
  simp only [String.toList_append]
  rfl

theorem newline_not_mem_lines {line : String} (h : line ∈ s.lines) : '\n' ∉ line.toList := by
  obtain ⟨r, -, rfl⟩ := List.mem_map.mp h
  exact r.newline_not_mem_line

theorem map_readLine_lines (s : Snapshot) :
    s.lines.map (fun line => LevelRecord.readLine line.toList) = s.told.map some := by
  rw [lines, List.map_map, ← map_told_records, List.map_map]
  exact List.map_congr_left fun r _ => r.readLine_line

theorem readText_text (s : Snapshot) : readText s.text = some s.told := by
  have hlines : ∀ line ∈ s.lines.map String.toList, '\n' ∉ line :=
    List.forall_mem_map.mpr fun _ => newline_not_mem_lines
  have hread : (LevelRecord.readLine ∘ String.toList) ∘ LevelRecord.line =
      fun r => some r.told := funext LevelRecord.readLine_line
  rw [readText, toList_text, cutLines_flatMap hlines, Option.bind_eq_bind, Option.bind_some, lines,
    List.mapM_map, List.mapM_map, hread, ← map_told_records]
  exact List.mapM_pure

/-- A text shows nothing but what it tells. -/
theorem text_eq (s : Snapshot) :
    s.text = String.join (s.told.map fun told => told.record.line ++ "\n") := by
  rw [← map_told_records, List.map_map]
  rfl

theorem quotes_of_map {side : Side} {time time' : UInt64} {quotes quotes' : List (Int32 × UInt64)}
    (h : quotes.map (LevelTold.ofQuote side time) = quotes'.map (LevelTold.ofQuote side time')) :
    quotes = quotes' ∧ (quotes ≠ [] → time = time') := by
  constructor
  · have hback := congrArg (List.map fun told : LevelTold => (told.price, told.volume)) h
    simpa only [List.map_map, Function.comp_def, LevelTold.ofQuote, List.map_id'] using hback
  · intro hsome
    obtain ⟨quote, quotes, rfl⟩ := List.exists_cons_of_ne_nil hsome
    cases quotes' with
    | nil => cases h
    | cons quote' quotes' => exact (LevelTold.mk.inj (List.cons.inj h).1).2.2.2

theorem filter_ofQuote (keep : Side → Bool) (side : Side) (time : UInt64)
    (quotes : List (Int32 × UInt64)) :
    (quotes.map (LevelTold.ofQuote side time)).filter (fun told => keep told.side) =
      if keep side then quotes.map (.ofQuote side time) else [] := by
  split
  · rename_i hkeep
    refine List.filter_eq_self.mpr (List.forall_mem_map.mpr fun _ _ => hkeep)
  · rename_i hdrop
    refine List.filter_eq_nil_iff.mpr (List.forall_mem_map.mpr fun _ _ => hdrop)

/-- The levels that are told of a side. -/
theorem filter_told (s : Snapshot) :
    s.told.filter (fun told => told.side.isBid) =
        (s.bids.map LevelView.quote).map (.ofQuote .bid s.time) ∧
      s.told.filter (fun told => !told.side.isBid) =
        (s.asks.map LevelView.quote).map (.ofQuote .ask s.time) := by
  constructor
  · rw [told, List.filter_append, filter_ofQuote Side.isBid, filter_ofQuote Side.isBid]
    exact List.append_nil _
  · rw [told, List.filter_append, filter_ofQuote (!·.isBid), filter_ofQuote (!·.isBid)]
    rfl

theorem told_eq_iff : s.told = s'.told ↔
    s.bids.map LevelView.quote = s'.bids.map LevelView.quote ∧
      s.asks.map LevelView.quote = s'.asks.map LevelView.quote ∧
      (s.bids ≠ [] ∨ s.asks ≠ [] → s.time = s'.time) := by
  constructor
  · intro h
    obtain ⟨hbid, hask⟩ := s.filter_told
    obtain ⟨hbid', hask'⟩ := s'.filter_told
    rw [h] at hbid hask
    obtain ⟨hbids, htime⟩ := quotes_of_map (hbid.symm.trans hbid')
    obtain ⟨hasks, htime'⟩ := quotes_of_map (hask.symm.trans hask')
    refine ⟨hbids, hasks, ?_⟩
    rintro (hsome | hsome)
    · exact htime (by simpa using hsome)
    · exact htime' (by simpa using hsome)
  · rintro ⟨hbids, hasks, htime⟩
    by_cases hsome : s.bids ≠ [] ∨ s.asks ≠ []
    · rw [told, told, hbids, hasks, htime hsome]
    · obtain ⟨hnobids, hnoasks⟩ : s.bids = [] ∧ s.asks = [] := by simpa using hsome
      rw [hnobids, List.map_nil] at hbids
      rw [hnoasks, List.map_nil] at hasks
      rw [told, told, ← hbids, ← hasks, hnobids, hnoasks]
      rfl

/-- The text of a snapshot is its lines with a newline after each. There is one line for each level,
bids first, and no line is broken. From the text one gets back the sides, the prices and the volumes
in their order, with the time in each line. So two snapshots have the same text exactly if they
agree in all of their levels but the numbers of orders, and in their time if there is any level. -/
theorem text_lossless (s : Snapshot) :
    s.text = String.join (s.lines.map fun line => line ++ "\n") ∧
    s.lines.length = s.bids.length + s.asks.length ∧
    (∀ line ∈ s.lines, '\n' ∉ line.toList) ∧
    s.lines.map (fun line => LevelRecord.readLine line.toList) = s.told.map some ∧
    readText s.text = some s.told ∧
    s.told = s.bids.map (fun level => ⟨.bid, level.price, level.volume, s.time⟩) ++
      s.asks.map (fun level => ⟨.ask, level.price, level.volume, s.time⟩) ∧
    ∀ s' : Snapshot, s.text = s'.text ↔
      s.bids.map LevelView.quote = s'.bids.map LevelView.quote ∧
      s.asks.map LevelView.quote = s'.asks.map LevelView.quote ∧
      (s.bids ≠ [] ∨ s.asks ≠ [] → s.time = s'.time) := by
  refine ⟨?_, ?_, fun _ => newline_not_mem_lines, s.map_readLine_lines, s.readText_text, ?_, ?_⟩
  · rw [text, lines, List.map_map]
    rfl
  · simp [lines, records]
  · rw [told, List.map_map, List.map_map]
    rfl
  · intro s'
    rw [← told_eq_iff]
    constructor
    · intro htext
      have hread := s.readText_text
      rw [htext, readText_text] at hread
      exact (Option.some.inj hread).symm
    · intro htold
      rw [text_eq, text_eq, htold]

end Snapshot

end PriceTime
