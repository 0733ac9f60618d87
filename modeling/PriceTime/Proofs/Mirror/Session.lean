import Mathlib.Data.List.Forall2
import PriceTime.Proofs.Mirror.Figures
import PriceTime.Proofs.Mirror.Operation
import PriceTime.Proofs.Run

/-!
# Mirrored sessions

Bids and asks are treated alike. When every side in a run is swapped and every price is negated, the
run answers and reports the same, call by call, up to the swap, and ends in the mirrored session.
Only the lowest price is left out, which has no image.

* `Session.call_mirror`: one call and its image.
* `Session.run_mirrors`: a whole run and its image.
* `Session.run_mirror`: what a run from a fresh session and its image answer, and what they show at
their ends.
-/

namespace PriceTime

/-! ## Calls and answers -/

/-- The message seen from the other side. -/
def Message.mirror (m : Message) : Message :=
  { m with price := -m.price, side := m.side.opposite }

namespace Call

/-- The call seen from the other side. -/
def mirror : Call → Call
  | process m => process m.mirror
  | add id price size side time => add id (-price) size side.opposite time
  | modify id price size side time => modify id (-price) size side.opposite time
  | trade id price size side => trade id (-price) size side.opposite
  | call => call

/-- The price that a call names. -/
def price? : Call → Option Int32
  | process m => some m.price
  | add _ price _ _ _ => some price
  | modify _ price _ _ _ => some price
  | trade _ price _ _ => some price
  | _ => none

end Call

/-- The answers to a call and to its image. Figures in floating point are left open, but they are
drawn in both sessions or in none. -/
inductive Answer.Mirrors : Answer → Answer → Prop where
  | processed (result : Except BookError Applied) :
    Mirrors (.processed result) (.processed (mirrorResult (fun applied => applied) result))
  | added (result : Except BookError Slot) :
    Mirrors (.added result) (.added (mirrorResult (fun slot => slot) result))
  | removed (result : Except BookError Order) :
    Mirrors (.removed result) (.removed (mirrorResult Order.mirror result))
  | modified (result : Except BookError ModifyOutcome) :
    Mirrors (.modified result) (.modified (mirrorResult (fun outcome => outcome) result))
  | traded (report : TradeReport) : Mirrors (.traded report) (.traded report)
  | imbalance (value value' : Float) : Mirrors (.imbalance value) (.imbalance value')
  | skew (value value' : Option Float) (h : value'.isSome = value.isSome) :
    Mirrors (.skew value) (.skew value')
  | change (value : Option Int64) :
    Mirrors (.change value) (.change (value.map fun change => -change))
  | mid (value : Option Int32) : Mirrors (.mid value) (.mid (value.map fun mid => -mid))
  | done : Mirrors .done .done

/-- The answers and the reports on a call and on its image. -/
structure MirrorsReply (reply reply' : Answer × List Event) : Prop where
  answer : reply.1.Mirrors reply'.1
  events : reply'.2 = reply.2.map Event.mirror

namespace Session

variable {s s' : Session}

/-- A session and its image. -/
structure Mirrors (s s' : Session) : Prop where
  config : s'.config = s.config
  book : s.book.Mirrors s'.book
  tape : s.tape.Mirrors s'.tape
  indicators : s.indicators.Mirrors s'.indicators
  messages : s'.messages = s.messages
  clock : s'.clock = s.clock

namespace Mirrors

theorem ofConfig (config : BookConfig) : (ofConfig config).Mirrors (ofConfig config) where
  config := rfl
  book := Book.Mirrors.empty
  tape := ⟨rfl, rfl⟩
  indicators := Indicators.Mirrors.fresh _ _
  messages := rfl
  clock := rfl

theorem reset (h : s.Mirrors s') : s.reset.Mirrors s'.reset where
  config := h.config
  book := h.book.clear
  tape := ⟨rfl, rfl⟩
  indicators := h.indicators.clear
  messages := rfl
  clock := rfl

theorem tick (h : s.Mirrors s') (time : UInt64) : (s.tick time).Mirrors (s'.tick time) :=
  { h with
    messages := congrArg (· + 1) h.messages
    clock := rfl }

theorem setIndicators (h : s.Mirrors s') {i i' : Indicators} (hi : i.Mirrors i') :
    Mirrors { s with indicators := i } { s' with indicators := i' } :=
  { h with indicators := hi }

/-! ## One call -/

theorem onBook {α : Type} {f : α → α} {op op' : Book → Except Fault (Step Book α)}
    (h : s.Mirrors s') (hop : Agree (Step.Mirrors Book.Mirrors f) (op s.book) (op' s'.book)) :
    Agree (Step.Mirrors Mirrors f) (s.onBook op) (s'.onBook op') := by
  rw [onBook_eq, onBook_eq]
  refine hop.bind ?_
  intro step step' hstep
  exact Agree.ok ⟨hstep.result, { h with book := hstep.state }, hstep.events⟩

theorem trade (h : s.Mirrors s') {id : UInt64} {price : Int32} {size : UInt32} {side : Side}
    (hprice : price ≠ Int32.minValue) :
    Agree (fun r r' => r'.1 = r.1 ∧ r.2.1.Mirrors r'.2.1 ∧ r'.2.2 = r.2.2.map Event.mirror)
      (s.trade id price size side) (s'.trade id (-price) size side.opposite) := by
  rw [trade_eq, trade_eq]
  refine h.book.trade.bind ?_
  rintro r r' ⟨hreport, hbook, hevents⟩
  exact Agree.ok ⟨hreport, { h with book := hbook, tape := h.tape.record hprice size }, hevents⟩

theorem cancel (h : s.Mirrors s') {id : UInt64} {side : Side} :
    Agree (Step.Mirrors Mirrors fun id => id) (s.cancel id side) (s'.cancel id side.opposite) := by
  unfold Session.cancel
  refine (h.onBook h.book.remove).bind ?_
  rintro ⟨result, state, events⟩ ⟨_, state', _⟩ ⟨rfl, hstate, rfl⟩
  cases result with
  | ok o =>
    refine Agree.ok ⟨rfl, hstate, ?_⟩
    have hside : o.mirror.side = side.opposite ↔ o.side = side := Side.opposite_inj
    by_cases hagree : o.side = side
    · simp only [if_pos (hside.mpr hagree), if_pos hagree]
    · simp only [if_neg (mt hside.mp hagree), if_neg hagree, List.map_append]
      rfl
  | error error =>
    refine Agree.ok ⟨rfl, hstate, ?_⟩
    dsimp only
    rw [List.map_append]
    rfl

theorem process (h : s.Mirrors s') {m : Message} (hprice : m.price ≠ Int32.minValue) :
    Agree (Step.Mirrors Mirrors fun applied => applied) (s.process m) (s'.process m.mirror) := by
  obtain ⟨action, id, price, size, side, time⟩ := m
  have htick := h.tick time
  cases action with
  | add =>
    refine (htick.onBook (htick.book.add hprice)).bind ?_
    rintro ⟨result, state, events⟩ ⟨_, state', _⟩ ⟨rfl, hstate, rfl⟩
    refine Agree.ok ⟨?_, hstate, rfl⟩
    cases result <;> rfl
  | cancel =>
    refine htick.cancel.bind ?_
    rintro ⟨result, state, events⟩ ⟨_, state', _⟩ ⟨rfl, hstate, rfl⟩
    refine Agree.ok ⟨?_, hstate, rfl⟩
    cases result <;> rfl
  | modify =>
    refine (htick.onBook (htick.book.modify hprice)).bind ?_
    rintro ⟨result, state, events⟩ ⟨_, state', _⟩ ⟨rfl, hstate, rfl⟩
    refine Agree.ok ⟨?_, hstate, rfl⟩
    cases result <;> rfl
  | trade =>
    refine (htick.trade hprice).bind ?_
    rintro r r' ⟨hreport, hstate, hevents⟩
    refine Agree.ok ⟨?_, hstate, hevents⟩
    dsimp only
    rw [hreport]
    rfl

end Mirrors

/-- A call and its image leave a session and its image, and are answered alike. -/
theorem call_mirror (h : s.Mirrors s') (hs : s.book.WellFormed) {call : Call}
    (hprice : call.price? ≠ some Int32.minValue) :
    Agree (fun r r' => r.2.1.Mirrors r'.2.1 ∧ MirrorsReply (r.1, r.2.2) (r'.1, r'.2.2))
      (s.call call) (s'.call call.mirror) := by
  cases call with
  | process m =>
    refine (h.process (mt (congrArg some) hprice)).bind ?_
    rintro ⟨result, state, events⟩ ⟨_, state', _⟩ ⟨rfl, hstate, rfl⟩
    exact Agree.ok ⟨hstate, .processed result, rfl⟩
  | add id price size side time =>
    refine (h.onBook (h.book.add (mt (congrArg some) hprice))).bind ?_
    rintro ⟨result, state, events⟩ ⟨_, state', _⟩ ⟨rfl, hstate, rfl⟩
    exact Agree.ok ⟨hstate, .added result, rfl⟩
  | remove id =>
    refine (h.onBook h.book.remove).bind ?_
    rintro ⟨result, state, events⟩ ⟨_, state', _⟩ ⟨rfl, hstate, rfl⟩
    exact Agree.ok ⟨hstate, .removed result, rfl⟩
  | modify id price size side time =>
    refine (h.onBook (h.book.modify (mt (congrArg some) hprice))).bind ?_
    rintro ⟨result, state, events⟩ ⟨_, state', _⟩ ⟨rfl, hstate, rfl⟩
    exact Agree.ok ⟨hstate, .modified result, rfl⟩
  | trade id price size side =>
    refine (h.trade (mt (congrArg some) hprice)).bind ?_
    rintro r r' ⟨hreport, hstate, hevents⟩
    refine Agree.ok ⟨hstate, ?_, hevents⟩
    dsimp only
    rw [hreport]
    exact .traded r.1
  | drawVolumes =>
    exact Agree.ok ⟨h.setIndicators (h.indicators.drawVolumes h.book), .done, rfl⟩
  | drawImbalance =>
    exact Agree.ok ⟨h.setIndicators h.indicators.drawImbalance, .imbalance _ _, rfl⟩
  | drawSkew =>
    obtain ⟨hskew, hi⟩ := h.indicators.drawSkew h.book
    exact Agree.ok ⟨h.setIndicators hi, .skew _ _ hskew, rfl⟩
  | drawChange =>
    obtain ⟨hchange, hi⟩ := h.indicators.drawChange h.book hs
    refine Agree.ok ⟨h.setIndicators hi, ?_, rfl⟩
    show Answer.Mirrors (.change (s.indicators.drawChange s.book).1)
      (.change (s'.indicators.drawChange s'.book).1)
    rw [hchange]
    exact .change _
  | drawMid =>
    obtain ⟨hmid, hi⟩ := h.indicators.drawMid h.book hs
    refine Agree.ok ⟨h.setIndicators hi, ?_, rfl⟩
    show Answer.Mirrors (.mid (s.indicators.drawMid s.book).1)
      (.mid (s'.indicators.drawMid s'.book).1)
    rw [hmid]
    exact .mid _
  | reset => exact Agree.ok ⟨h.reset, .done, rfl⟩

/-! ## A run -/

/-- A run and its image leave a session and its image, and are answered alike call by call. -/
theorem run_mirrors (h : s.Mirrors s') (hs : s.book.WellFormed) {calls : List Call}
    (hcalls : ∀ call ∈ calls, call.price? ≠ some Int32.minValue) :
    Agree (fun r r' => r.1.Mirrors r'.1 ∧ List.Forall₂ MirrorsReply r.2 r'.2)
      (s.run calls) (s'.run (calls.map Call.mirror)) := by
  -- Well-formedness travels along: the figures of the two sides agree only in a well-formed book.
  induction calls generalizing s s' with
  | nil => exact Agree.ok ⟨h, .nil⟩
  | cons call calls ih =>
    rw [List.map_cons, run_cons, run_cons]
    refine ((call_mirror h hs (hcalls call List.mem_cons_self)).and_yields
      (call_follows hs call)).bind ?_
    rintro r r' ⟨⟨hr, hreply⟩, hfollows⟩
    refine (ih hr hfollows.wellFormed fun c hc => hcalls c (List.mem_cons_of_mem _ hc)).bind ?_
    rintro last last' ⟨hlast, hlog⟩
    exact Agree.ok ⟨hlast, .cons hreply hlog⟩

/-- A run from a fresh session that never names the lowest price, and the run with every side swapped
and every price negated: call by call they answer and report alike, and they end in a session and
its image, where the books show each other's mirror image. With fewer than `2 ^ 32` orders at any
time neither ends in a fault. -/
theorem run_mirror (config : BookConfig) (calls : List Call)
    (hcalls : ∀ call ∈ calls, call.price? ≠ some Int32.minValue) :
    ((ofConfig config).Roomy calls → ∃ r, (ofConfig config).run calls = .ok r) ∧
      Agree (fun r r' => List.Forall₂ MirrorsReply r.2 r'.2 ∧ r.1.Mirrors r'.1 ∧
          r.1.book.Reflects r'.1.book)
        ((ofConfig config).run calls) ((ofConfig config).run (calls.map Call.mirror)) := by
  have hrun := run_wellFormed (s := ofConfig config) Book.WellFormed.empty calls
  refine ⟨hrun.answers, ?_⟩
  refine ((run_mirrors (.ofConfig config) Book.WellFormed.empty hcalls).and_yields hrun).mono ?_
  rintro r r' ⟨⟨hr, hlog⟩, hwf⟩
  exact ⟨hlog, hr, hr.book.reflects hwf⟩

/-- A bid that rests, an ask that crosses it at another price, figures, a trade with a part of the
bid and a move, and the same from the other side. -/
theorem run_mirror_crossed :
    ∃ r r', (ofConfig {}).run [.add 1 100 5 .bid 0, .add 2 97 4 .ask 1, .drawChange, .drawMid,
        .trade 9 100 2 .ask, .modify 2 103 4 .ask 2, .drawChange] = .ok r ∧
      (ofConfig {}).run [.add 1 (-100) 5 .ask 0, .add 2 (-97) 4 .bid 1, .drawChange, .drawMid,
        .trade 9 (-100) 2 .bid, .modify 2 (-103) 4 .bid 2, .drawChange] = .ok r' ∧
      List.Forall₂ MirrorsReply r.2 r'.2 ∧ r.1.book.Reflects r'.1.book := by
  obtain ⟨hanswers, hagree⟩ := run_mirror {} [.add 1 100 5 .bid 0, .add 2 97 4 .ask 1, .drawChange,
    .drawMid, .trade 9 100 2 .ask, .modify 2 103 4 .ask 2, .drawChange] (by decide)
  obtain ⟨r, hr⟩ := hanswers (roomy_of_length_lt _ _ (by decide))
  rw [hr] at hagree
  obtain ⟨r', hr', hlog, -, hreflects⟩ := hagree.exists_ok
  exact ⟨r, r', hr, hr', hlog, hreflects⟩

end Session

end PriceTime
