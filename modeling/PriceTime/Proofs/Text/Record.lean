import PriceTime.Proofs.Decimal
import PriceTime.Proofs.Text.Time
import PriceTime.Record

/-!
# Reading a record back from its texts

A record is written as a row of comma-separated values and as a line of the line protocol. Both can
be read back. The prices, the position and the trades are told exactly by either text; the time is
told exactly by the line and to the millisecond by the row. The profit is the same text in both, and
it shows the decimal fraction that is nearest to the exact value.

* `Decimal.Amount.read_fixedBits`: reading what is shown of a number.
* `Record.readRow_row`, `Record.readLine_lineText`: reading a row and a line.
* `Record.texts_lossless`: what the texts are made of and what they tell.
-/

namespace PriceTime

open Text

/-! ## Amounts -/

namespace Decimal

/-- Read the units of a decimal fraction with exactly `places` places. -/
def readUnits (places : Nat) (text : List Char) : Option (Nat × List Char) := do
  let (front, text) ← readNat text
  let text ← expect ['.'] text
  let (back, text) ← readDigits places text
  return (front * 10 ^ places + back, text)

/-- Read what is shown of a number. -/
def Amount.read (places : Nat) (text : List Char) : Option (Amount × List Char) :=
  match expect ['N', 'a', 'N'] text with
  | some rest => some (.nan, rest)
  | none =>
    let negative := (expect ['-'] text).isSome
    let text := if negative then text.tail else text
    match expect ['i', 'n', 'f'] text with
    | some rest => some (.infinite negative, rest)
    | none => (readUnits places text).map fun (units, rest) => (.decimal negative units, rest)

variable {places : Nat}

theorem toList_pointed (hplaces : 0 < places) (units : Nat) : (pointed places units).toList =
    (ofNat (units / 10 ^ places)).toList ++
      '.' :: (padded places (units % 10 ^ places)).toList := by
  simp [pointed, if_neg (Nat.ne_of_gt hplaces)]

theorem readUnits_pointed (hplaces : 0 < places) (units : Nat) (rest : List Char) :
    readUnits places ((pointed places units).toList ++ rest) = some (units, rest) := by
  have hfront (rest : List Char) :=
    @readNat_ofNat (units / 10 ^ places) ('.' :: rest) (by rintro _ ⟨⟩; rfl)
  have hback := readDigits_padded hplaces (Nat.mod_lt units (Nat.pow_pos (by decide))) rest
  rw [toList_pointed hplaces, List.append_assoc, List.cons_append, readUnits]
  simp only [hfront, expect_char, hback, Option.bind_eq_bind, Option.bind_some,
    Nat.div_add_mod']
  rfl

theorem exists_digit_pointed (hplaces : 0 < places) (units : Nat) :
    ∃ c text, (pointed places units).toList = c :: text ∧ c.isDigit = true := by
  obtain ⟨c, digits, hdigits⟩ := List.exists_cons_of_ne_nil (ofNat_ne_nil (units / 10 ^ places))
  refine ⟨c, digits ++ '.' :: (padded places (units % 10 ^ places)).toList, ?_, ?_⟩
  · rw [toList_pointed hplaces, hdigits, List.cons_append]
  · exact isDigit_of_mem_ofNat (n := units / 10 ^ places) (hdigits ▸ List.mem_cons_self)

theorem Amount.read_pointed (hplaces : 0 < places) (negative : Bool) (units : Nat)
    (rest : List Char) :
    Amount.read places (((if negative then "-" else "") ++ pointed places units).toList ++ rest) =
      some (.decimal negative units, rest) := by
  have hread := readUnits_pointed hplaces units rest
  obtain ⟨c, text, htext, hdigit⟩ := exists_digit_pointed hplaces units
  -- A digit is neither a sign nor the start of a word.
  have hother (d : Char) (word text : List Char) (hd : d.isDigit = false) :
      expect (d :: word) (c :: text) = none := by
    refine expect_eq_none ?_ word text
    rintro rfl
    rw [hdigit] at hd
    cases hd
  have hnan (text : List Char) := hother 'N' ['a', 'N'] text rfl
  have hinf (text : List Char) := hother 'i' ['n', 'f'] text rfl
  have hsign (text : List Char) := hother '-' [] text rfl
  have hnosign (text : List Char) : expect ['N', 'a', 'N'] ('-' :: text) = none :=
    expect_eq_none (by decide) _ _
  rw [htext, List.cons_append] at hread
  rw [String.toList_append, htext]
  cases negative with
  | false => simp [Amount.read, hnan, hinf, hsign, hread]
  | true => simp [Amount.read, hnosign, hinf, expect_char, hread]

theorem Amount.read_fixedBits (hplaces : 0 < places) (bits : UInt64) (rest : List Char) :
    Amount.read places ((fixedBits places bits).toList ++ rest) =
      some (amount places bits, rest) := by
  unfold fixedBits amount
  dsimp only
  cases Magnitude.ofBits bits with
  | nan => simp [Amount.read, expect]
  | infinite =>
    cases isNegative bits with
    | false => simp [Amount.read, expect]
    | true => simp [Amount.read, expect]
  | finite significand exponent => exact Amount.read_pointed hplaces _ _ rest

theorem not_mem_pointed {c : Char} (hdigit : c.isDigit = false) (hpoint : c ≠ '.') (units : Nat) :
    c ∉ (pointed places units).toList := by
  unfold pointed
  split
  · exact not_mem_ofNat hdigit units
  · simp [not_mem_ofNat hdigit, not_mem_padded hdigit, hpoint]

theorem not_mem_fixedBits {c : Char} (hdigit : c.isDigit = false)
    (hword : c ∉ ['-', '.', 'N', 'a', 'i', 'n', 'f']) (bits : UInt64) :
    c ∉ (fixedBits places bits).toList := by
  simp only [List.mem_cons, List.not_mem_nil, or_false, not_or] at hword
  obtain ⟨hsign, hpoint, hN, ha, hi, hn, hf⟩ := hword
  have hsign : c ∉ (if isNegative bits then "-" else "").toList := by
    split
    · simp [hsign]
    · simp
  unfold fixedBits
  dsimp only
  cases Magnitude.ofBits bits with
  | nan => simp [hN, ha]
  | infinite => simp [hsign, hi, hn, hf]
  | finite significand exponent => simp [hsign, not_mem_pointed hdigit hpoint]

end Decimal

/-! ## Records -/

namespace Record

/-- What a text of a record tells but for the time. The profit is left as it stands. -/
structure Told where
  bid : Int32
  ask : Int32
  position : Int64
  tradeCount : UInt64
  pnl : List Char
deriving DecidableEq

/-- Read a row. -/
def readRow (row : List Char) : Option (Calendar.Moment × Told) :=
  match row.splitOn ',' with
  | [time, bid, ask, position, tradeCount, pnl] => do
    let moment ← Calendar.Moment.read time
    let bid ← whole readInt32 bid
    let ask ← whole readInt32 ask
    let position ← whole readInt64 position
    let tradeCount ← whole readUInt64 tradeCount
    return (moment, { bid, ask, position, tradeCount, pnl })
  | _ => none

/-- Read a line. -/
def readLine (line : List Char) : Option (Told × UInt64) := do
  let text ← expect "trading_log bid=".toList line
  let (bid, text) ← readInt32 text
  let text ← expect "i,ask=".toList text
  let (ask, text) ← readInt32 text
  let text ← expect "i,position=".toList text
  let (position, text) ← readInt64 text
  let text ← expect "i,trade_count=".toList text
  let (tradeCount, text) ← readUInt64 text
  let text ← expect "i,pnl=".toList text
  let (pnl, text) := text.span (· ≠ ' ')
  let text ← expect " ".toList text
  let time ← whole readUInt64 text
  return ({ bid, ask, position, tradeCount, pnl }, time)

/-- What is to be told of a record but for the time. -/
def told (r : Record) : Told where
  bid := r.bid
  ask := r.ask
  position := r.position
  tradeCount := r.tradeCount
  pnl := r.pnlText.toList

/-- The values of a row. -/
def values (r : Record) : List (List Char) :=
  [(Calendar.format r.time).toList, (Decimal.ofInt r.bid.toInt).toList,
    (Decimal.ofInt r.ask.toInt).toList, (Decimal.ofInt r.position.toInt).toList,
    (Decimal.ofNat r.tradeCount.toNat).toList, r.pnlText.toList]

theorem toList_row (r : Record) : r.row.toList = [','].intercalate r.values ++ ['\n'] := by
  simp [row, values, List.intercalate]

theorem not_mem_values (r : Record) {c : Char} (hdigit : c.isDigit = false)
    (htime : c ∉ "YYYY-MM-DD HH:MM:SS.mmm".toList)
    (hword : c ∉ ['-', '.', 'N', 'a', 'i', 'n', 'f']) : ∀ value ∈ r.values, c ∉ value := by
  have hsign : c ≠ '-' := by
    rintro rfl
    simp at hword
  have hmoment := (Calendar.format_shaped r.time).not_mem hdigit htime
  simp [values, hmoment, not_mem_ofInt hdigit hsign, not_mem_ofNat hdigit, pnlText,
    Decimal.fixed, Decimal.not_mem_fixedBits hdigit hword]

theorem splitOn_values (r : Record) : ([','].intercalate r.values).splitOn ',' = r.values :=
  List.splitOn_intercalate ',' (r.not_mem_values rfl (by decide) (by decide)) nofun

theorem cutLines_row (r : Record) : cutLines r.row.toList = some [[','].intercalate r.values] := by
  have hvalues := r.not_mem_values (c := '\n') rfl (by decide) (by decide)
  rw [toList_row]
  refine cutLines_line ?_ rfl
  simp only [values, List.forall_mem_cons] at hvalues
  simp [values, List.intercalate, hvalues]

theorem readRow_row (r : Record) : readRow ([','].intercalate r.values) =
    some (Calendar.Moment.ofMilliseconds (Calendar.milliseconds r.time), r.told) := by
  have hbid := whole_eq (readInt32_ofInt r.bid nofun)
  have hask := whole_eq (readInt32_ofInt r.ask nofun)
  have hposition := whole_eq (readInt64_ofInt r.position nofun)
  have htrades := whole_eq (readUInt64_ofNat r.tradeCount nofun)
  rw [readRow, splitOn_values, values]
  simp only [Calendar.read_format, hbid, hask, hposition, htrades, Option.bind_eq_bind,
    Option.bind_some]
  rfl

/-- The line without its newline. -/
def lineText (r : Record) : List Char :=
  "trading_log bid=".toList ++ ((Decimal.ofInt r.bid.toInt).toList ++ ("i,ask=".toList ++
    ((Decimal.ofInt r.ask.toInt).toList ++ ("i,position=".toList ++
    ((Decimal.ofInt r.position.toInt).toList ++ ("i,trade_count=".toList ++
    ((Decimal.ofNat r.tradeCount.toNat).toList ++ ("i,pnl=".toList ++
    (r.pnlText.toList ++ (" ".toList ++ (Decimal.ofNat r.time.toNat).toList))))))))))

theorem toList_line (r : Record) : r.line.toList = r.lineText ++ ['\n'] := by
  show r.line.toList = r.lineText ++ "\n".toList
  unfold line lineText
  simp only [String.toList_append, List.append_assoc]

theorem cutLines_line (r : Record) : cutLines r.line.toList = some [r.lineText] := by
  -- Rewriting would try to evaluate the line.
  refine (congrArg cutLines r.toList_line).trans (Text.cutLines_line ?_ rfl)
  have hnat := not_mem_ofNat (c := '\n') rfl
  have hint := not_mem_ofInt (c := '\n') rfl (by decide)
  have hpnl : '\n' ∉ r.pnlText.toList := Decimal.not_mem_fixedBits rfl (by decide) _
  have hwords : '\n' ∉ "trading_log bid=".toList ∧ '\n' ∉ "i,ask=".toList ∧
      '\n' ∉ "i,position=".toList ∧ '\n' ∉ "i,trade_count=".toList ∧ '\n' ∉ "i,pnl=".toList ∧
      '\n' ∉ " ".toList := by decide
  unfold lineText
  simp only [List.mem_append, hwords, hnat, hint, hpnl, or_self, not_false_eq_true]

theorem readLine_lineText (r : Record) : readLine r.lineText = some (r.told, r.time) := by
  have hbid (rest : List Char) := readInt32_ofInt r.bid (ends_append
    (by decide : "i,ask=".toList.head? = some 'i') rfl rest)
  have hask (rest : List Char) := readInt32_ofInt r.ask (ends_append
    (by decide : "i,position=".toList.head? = some 'i') rfl rest)
  have hposition (rest : List Char) := readInt64_ofInt r.position (ends_append
    (by decide : "i,trade_count=".toList.head? = some 'i') rfl rest)
  have htrades (rest : List Char) := readUInt64_ofNat r.tradeCount (ends_append
    (by decide : "i,pnl=".toList.head? = some 'i') rfl rest)
  have htime := whole_eq (readUInt64_ofNat r.time nofun)
  have hpnl (rest : List Char) : (r.pnlText.toList ++ (" ".toList ++ rest)).span (· ≠ ' ') =
      (r.pnlText.toList, " ".toList ++ rest) := by
    have hword : ∀ c ∈ r.pnlText.toList, decide (c ≠ ' ') = true := by
      intro c hc
      rw [decide_eq_true_iff]
      rintro rfl
      exact Decimal.not_mem_fixedBits rfl (by decide) _ hc
    rw [List.span_eq_takeWhile_dropWhile, List.takeWhile_append_of_pos hword,
      List.dropWhile_append_of_pos hword]
    simp
  unfold readLine lineText
  simp only [expect_append, hbid, hask, hposition, htrades, hpnl, htime, Option.bind_eq_bind,
    Option.bind_some]
  rfl

/-- Each text of a record is one line, the row with six values. Both tell all fields as they are but
for the time, which the row tells to the millisecond, up to the last one of the clock. The profit is
the same text in both: it says that the bits are no number or infinite, or it shows the number of
millionths that is nearest to the exact value, with the sign of the bits. -/
theorem texts_lossless (time : UInt64) (bid ask : Int32) (position : Int64)
    (tradeCount bits : UInt64) :
    let r : Record := { time, bid, ask, position, tradeCount, pnl := Float.ofBits bits }
    ∃ row line moment amount,
      cutLines r.row.toList = some [row] ∧ (row.splitOn ',').length = 6 ∧
      readRow row = some (moment, { bid, ask, position, tradeCount, pnl := r.pnlText.toList }) ∧
      moment.IsValid ∧
      moment.sinceEpoch = (min time.toNat (2 ^ 63 - 1) / 10 ^ 6 : Nat) ∧
      cutLines r.line.toList = some [line] ∧
      readLine line = some ({ bid, ask, position, tradeCount, pnl := r.pnlText.toList }, time) ∧
      whole (Decimal.Amount.read 6) r.pnlText.toList = some amount ∧ amount.Denotes 6 bits := by
  intro r
  refine ⟨[','].intercalate r.values, r.lineText, _, Decimal.amount 6 r.pnl.toBits, r.cutLines_row,
    ?_, r.readRow_row, Calendar.Moment.ofMilliseconds_isValid _, ?_, r.cutLines_line,
    r.readLine_lineText, ?_, ?_⟩
  · rw [splitOn_values]
    rfl
  · rw [Calendar.Moment.sinceEpoch_ofMilliseconds, Calendar.milliseconds_eq]
  · exact whole_eq (Decimal.Amount.read_fixedBits (by decide) _ [])
  · exact .of_ofBits (Decimal.amount_denotes 6 _)

end Record

end PriceTime
