import PriceTime.Proofs.Book.Parts
import PriceTime.Proofs.Surroundings

/-!
# A trade may come in parts

A print of some size may reach a session as one trade or as several at the same price, with the same
size in all. Where the parts end does not matter: within an order, between two orders, before orders
of size zero, or beyond the end of the queue. The session is the same in the end, with its slots,
its level keys and its tape, and the reports of the parts add up to the report of the whole, but for
the number of orders that were left with a smaller size.

* `Session.trade_whole`: what becomes of a session in one trade.
* `Session.trade_parts`: what becomes of it in the parts, by induction along them.
* `Session.run_parts`: the parts and the whole, from any session that a run can reach.
-/

namespace PriceTime

/-- The trades of the parts of a print. Each part says who trades and how much. -/
def Call.inParts (price : Int32) (side : Side) (parts : List (UInt64 × UInt32)) : List Call :=
  parts.map fun part => .trade part.1 price part.2 side

theorem Tape.record_parts (t : Tape) (price : Int32) (parts : List (UInt64 × UInt32))
    {size : UInt32} (hsize : (parts.map fun part => part.2.toNat).sum = size.toNat) :
    parts.foldl (fun t part => t.record price part.2) t = t.record price size := by
  induction parts generalizing t size with
  | nil =>
    obtain rfl : 0 = size := UInt32.toNat_inj.mp hsize
    rw [record_zero, List.foldl_nil]
  | cons part parts ih =>
    rw [List.map_cons, List.sum_cons] at hsize
    have hle : part.2 ≤ size := UInt32.le_iff_toNat_le.mpr (by omega)
    have hless := UInt32.toNat_sub_of_le _ _ hle
    have hrest : (parts.map fun part => part.2.toNat).sum = (size - part.2).toNat := by omega
    rw [List.foldl_cons, ih _ hrest]
    exact t.record_add price (by omega)

namespace Session

variable {s : Session} {price : Int32} {side : Side}

/-- A trade changes the book and the tape of a session, and nothing else. -/
theorem trade_whole (h : s.book.WellFormed) (id : UInt64) (price : Int32) (size : UInt32)
    (side : Side) :
    Yields s.book.HasRoom (s.call (.trade id price size side)) fun r =>
      ∃ (report : TradeReport) (book : Book), r.1 = .traded report ∧ book.WellFormed ∧
        s.book.Traded id price size side report book r.2.2 ∧
        r.2.1 = { s with book, tape := s.tape.record price size } := by
  have heq : s.call (.trade id price size side) =
      s.book.trade id price size side >>= fun r => .ok (Answer.traded r.1,
        { s with book := r.2.1, tape := s.tape.record price size }, r.2.2) := by
    show (s.trade id price size side >>= fun r => .ok (Answer.traded r.1, r.2.1, r.2.2)) = _
    rw [trade_eq, bind_assoc]
    rfl
  rw [heq]
  refine (h.trade id price size side).bind ?_
  rintro ⟨report, book, events⟩ ⟨hbook, htraded⟩
  exact Yields.ok ⟨report, book, rfl, hbook, htraded, rfl⟩

/-- Trades one after the other: each goes on with what the one before it has left. -/
theorem trade_parts (h : s.book.WellFormed) (price : Int32) (side : Side)
    (parts : List (UInt64 × UInt32)) :
    Yields s.book.HasRoom (s.run (Call.inParts price side parts)) fun r =>
      ∃ (reports : List TradeReport) (book : Book), r.2.map Prod.fst = reports.map .traded ∧
        book.WellFormed ∧ Book.TradedInParts price side s.book parts book reports ∧
        r.1 = { s with
          book
          tape := parts.foldl (fun t part => t.record price part.2) s.tape } := by
  induction parts generalizing s with
  | nil => exact Yields.ok ⟨[], s.book, rfl, h, .nil, rfl⟩
  | cons part parts ih =>
    rw [Call.inParts, List.map_cons, run_cons]
    refine (trade_whole h part.1 price part.2 side).bind ?_
    rintro ⟨_, _, events⟩ ⟨report, book, rfl, hbook, htraded, rfl⟩
    -- A trade brings no order in, so the room for the first part is room for all of them.
    refine ((ih hbook).of_room (htraded.hasRoom h)).bind ?_
    rintro ⟨_, replies⟩ ⟨reports, book', hreplies, hbook', hparts, rfl⟩
    refine Yields.ok ⟨report :: reports, book', ?_, hbook', .cons htraded hbook hparts, rfl⟩
    rw [List.map_cons, hreplies, List.map_cons]

/-- After any run, a print in any parts leaves the session that the print as one trade leaves, and
with fewer than `2 ^ 32` orders all the trades have answers. What the parts take, what they leave
unmatched and the orders they take completely add up to what the report of the one trade says. -/
theorem run_parts {config : BookConfig} {calls : List Call} {s : Session}
    {log : List (Answer × List Event)} (hrun : (ofConfig config).run calls = .ok (s, log))
    (id : UInt64) (price : Int32) (size : UInt32) (side : Side) (parts : List (UInt64 × UInt32))
    (hsize : (parts.map fun part => part.2.toNat).sum = size.toNat) :
    (s.book.index.size < 2 ^ 32 →
      ∃ r r', s.call (.trade id price size side) = .ok r ∧
        s.run (Call.inParts price side parts) = .ok r') ∧
    ∀ answer whole events inParts replies,
      s.call (.trade id price size side) = .ok (answer, whole, events) →
      s.run (Call.inParts price side parts) = .ok (inParts, replies) →
      inParts = whole ∧ ∃ (report : TradeReport) (reports : List TradeReport),
        answer = .traded report ∧
        replies.map Prod.fst = reports.map .traded ∧
        (reports.map fun report => report.traded.toNat).sum = report.traded.toNat ∧
        (reports.map fun report => report.unmatched.toNat).sum = report.unmatched.toNat ∧
        UInt32.ofNat (reports.map fun report => report.filled.toNat).sum = report.filled ∧
        (s.book.index.size < 2 ^ 32 →
          (reports.map fun report => report.filled.toNat).sum = report.filled.toNat) := by
  have h := wellFormed_of_run hrun
  have hwhole := trade_whole h id price size side
  have hparts := trade_parts h price side parts
  rw [h.size_index]
  refine ⟨fun hroom => ?_, ?_⟩
  · obtain ⟨r, hr⟩ := hwhole.answers (h.hasRoom (h.size_index ▸ hroom))
    obtain ⟨r', hr'⟩ := hparts.answers (h.hasRoom (h.size_index ▸ hroom))
    exact ⟨r, r', hr, hr'⟩
  rintro _ _ _ _ _ hcall hrest
  obtain ⟨report, book, rfl, hbook, htraded, rfl⟩ := hwhole.sound _ hcall
  obtain ⟨reports, book', hreplies, hbook', htradedInParts, rfl⟩ := hparts.sound _ hrest
  dsimp only at hreplies htraded ⊢
  have hdepletes := htraded.depletes
  rw [← hsize] at hdepletes
  obtain rfl := htradedInParts.eq_of_whole hdepletes h hbook
  refine ⟨?_, report, reports, rfl, hreplies, ?_⟩
  · rw [s.tape.record_parts price parts hsize]
  -- Both ways take the same from the side, so what they report of it is the same.
  obtain ⟨orders, hfilled, horders, hsizes⟩ := htraded.takes h
  obtain ⟨orders', hfilled', horders', hsizes', hexact⟩ := htradedInParts.takes h
  have horders := horders side.opposite
  have hsizes := hsizes side.opposite
  rw [if_pos rfl] at horders hsizes
  obtain rfl : orders' = orders := by omega
  have hopen := htraded.traded_add_unmatched
  have hopen' := htradedInParts.traded_add_unmatched
  refine ⟨by omega, by omega, hfilled'.trans hfilled.symm, fun hroom => ?_⟩
  have hle := h.ordersOn_le_size side.opposite
  rw [hexact (by omega), hfilled]
  exact (UInt32.toNat_ofNat_of_lt' (show orders' < 2 ^ 32 by omega)).symm

/-- An order without size waits between two others. The first part ends where the first order does,
the second one has no size either, and the last one goes beyond the end of the queue. -/
theorem run_parts_boundary :
    ∃ s log r r', (ofConfig {}).run [.add 1 100 5 .bid 0, .add 2 100 0 .bid 1,
        .add 3 100 4 .bid 2] = .ok (s, log) ∧
      s.call (.trade 9 100 12 .ask) = .ok r ∧
      s.run (Call.inParts 100 .ask [(9, 5), (8, 0), (7, 3), (9, 4)]) = .ok r' ∧
      r'.1 = r.2.1 := by
  have hroom := roomy_of_length_lt {} [.add 1 100 5 .bid 0, .add 2 100 0 .bid 1,
    .add 3 100 4 .bid 2] (by decide)
  obtain ⟨s, log, hrun⟩ := exists_run hroom
  obtain ⟨hanswers, hsame⟩ :=
    run_parts hrun 9 100 12 .ask [(9, 5), (8, 0), (7, 3), (9, 4)] (by decide)
  obtain ⟨r, r', hr, hr'⟩ := hanswers (hroom.last hrun)
  exact ⟨s, log, r, r', hrun, hr, hr', (hsame _ _ _ _ _ hr hr').1⟩

end Session

end PriceTime
