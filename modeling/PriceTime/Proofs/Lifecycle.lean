import PriceTime.Proofs.Book.Lifecycle
import PriceTime.Proofs.Run

/-!
# The life of levels along a run

The reports of a run tell which levels there are. At each price of each side levels are made and
given up in turns, starting with one that is made; a level is there exactly if the last report of it
says that it was made; and there are as many levels as were made and not given up. A level that
loses its last order is reported in the same step.

A new start forgets all levels without a report of each, so the reports before it no longer count.

* `Book.Told`: the reports tell which levels there are.
* `Book.Told.step`: they still do after one more step.
* `Session.Moves`: what the reports of a call say.
* `Session.run_lifecycle`: what the reports of a run say.
-/

namespace PriceTime

namespace Event

/-- Levels are made and given up in turns. -/
def turn (side : Side) (price : Int32) (i : Nat) : Event :=
  if i % 2 = 0 then .levelCreated price side else .levelReleased price side

/-- The first `n` turns. -/
def turns (side : Side) (price : Int32) (n : Nat) : List Event :=
  (List.range n).map (turn side price)

variable {side : Side} {price : Int32}

theorem turns_succ (side : Side) (price : Int32) (n : Nat) :
    turns side price (n + 1) = turns side price n ++ [turn side price n] := by
  simp [turns, List.range_succ]

theorem getLast?_turns (n : Nat) :
    (turns side price n).getLast? = some (.levelCreated price side) ↔ n % 2 = 1 := by
  cases n with
  | zero => simp [turns]
  | succ n =>
    rw [turns_succ, List.getLast?_concat, Option.some.injEq, turn]
    split
    · rename_i heven
      exact iff_of_true rfl (by omega)
    · rename_i hodd
      exact iff_of_false nofun (by omega)

/-- A passage is at most one more turn, and it is the right one. -/
theorem turns_append_passage (n : Nat) (after : Bool) :
    ∃ m, turns side price n ++ passage side price (decide (n % 2 = 1)) after =
      turns side price m ∧ after = decide (m % 2 = 1) := by
  by_cases hsame : decide (n % 2 = 1) = after
  · refine ⟨n, ?_, hsame.symm⟩
    rw [hsame, passage_self, List.append_nil]
  · refine ⟨n + 1, ?_⟩
    rw [turns_succ, turn]
    rcases Nat.mod_two_eq_zero_or_one n with heven | hodd
    · have hsucc : (n + 1) % 2 = 1 := by omega
      obtain rfl : after = true := by simpa [heven] using hsame
      simp [heven, hsucc, passage]
    · have hsucc : (n + 1) % 2 = 0 := by omega
      obtain rfl : after = false := by simpa [hodd] using hsame
      simp [hodd, hsucc, passage]

end Event

namespace Book

open Event

variable {b b' : Book} {events more : List Event}

/-- The reports since a book was empty tell which levels it has. -/
structure Told (b : Book) (events : List Event) : Prop where
  /-- At each price of each side levels are made and given up in turns, starting with one that is
  made. -/
  alternates : ∀ side price, ∃ n, events.filter (concerns side price) = turns side price n
  /-- A level is there exactly if the last report of it says that it was made. -/
  there_iff : ∀ side price, (b.level? side price).isSome ↔
    (events.filter (concerns side price)).getLast? = some (.levelCreated price side)
  /-- There are as many levels as were made and not given up. -/
  count_eq : b.levelCount .bid + b.levelCount .ask + events.countP isReleased =
    events.countP isCreated

theorem WellFormed.size_levels (h : b.WellFormed) :
    b.queues.levels.size = b.levelCount .bid + b.levelCount .ask := by
  obtain ⟨members, hstands⟩ := h.stands
  exact hstands.size_levels

theorem Told.empty : Book.empty.Told [] where
  alternates _ _ := ⟨0, rfl⟩
  there_iff side price := by
    cases side <;> simp [level?, levelKey?, half, Book.empty, HalfBook.empty]
  count_eq := by
    have hsize := WellFormed.empty.size_levels
    have hzero : Book.empty.queues.levels.size = 0 := rfl
    simp only [List.countP_nil]
    omega

/-- The reports of one more step are told with the others. -/
theorem Told.step (htold : b.Told events) (h : b.WellFormed) (h' : b'.WellFormed)
    (htells : b.Tells b' more) : b'.Told (events ++ more) := by
  -- Whether the number of turns is odd ties the reports of a place to the level that is there.
  have hplace : ∀ side price, ∃ n, (events ++ more).filter (concerns side price) =
      turns side price n ∧ (b'.level? side price).isSome = decide (n % 2 = 1) := by
    intro side price
    obtain ⟨n, hn⟩ := htold.alternates side price
    have hthere := htold.there_iff side price
    rw [hn, getLast?_turns, h.isSome_level?] at hthere
    have hbefore : (b.levelKey? side price).isSome = decide (n % 2 = 1) := by
      rw [Bool.eq_iff_iff, hthere, decide_eq_true_iff]
    rw [List.filter_append, hn, htells.filter_eq, hbefore, h'.isSome_level?]
    exact turns_append_passage n _
  refine ⟨?_, ?_, ?_⟩
  · intro side price
    obtain ⟨n, hn, -⟩ := hplace side price
    exact ⟨n, hn⟩
  · intro side price
    obtain ⟨n, hn, hthere⟩ := hplace side price
    rw [hn, getLast?_turns, hthere, decide_eq_true_iff]
  · have := htold.count_eq
    have := htells.size_eq
    have := h.size_levels
    have := h'.size_levels
    simp only [List.countP_append]
    omega

end Book

/-! ## One call -/

/-- Whether a call is a new start. -/
def Call.isReset : Call → Bool
  | .reset => true
  | _ => false

/-- The id and the price of the modify a call asks for. -/
def Call.modify? : Call → Option (UInt64 × Int32)
  | .modify id price .. => some (id, price)
  | .process m => if m.action = .modify then some (m.id, m.price) else none
  | _ => none

/-- What a modify did to its order, if the answer is to a modify that was not rejected. -/
def Answer.outcome? : Answer → Option ModifyOutcome
  | .modified (.ok outcome) => some outcome
  | .processed (.ok (.modified outcome)) => some outcome
  | _ => none

namespace Session

open Event

variable {s : Session}

theorem trade_tells (h : s.book.WellFormed) {id : UInt64} {price : Int32} {size : UInt32}
    {side : Side} :
    Yields s.book.HasRoom (s.trade id price size side)
      fun r => s.book.Tells r.2.1.book r.2.2 :=
  trade_spec h.trade_tells

/-- The complaints of a cancel tell of no level. -/
theorem cancel_tells (h : s.book.WellFormed) {id : UInt64} {side : Side} :
    Yields s.book.HasRoom (s.cancel id side)
      fun step => s.book.Tells step.state.book step.events := by
  unfold cancel
  refine (onBook_spec h.remove_tells).bind ?_
  rintro ⟨result, state, events⟩ htells
  cases result with
  | ok order =>
    apply Yields.ok
    dsimp only
    split
    · exact htells
    · exact htells.append_quiet (by simp [isQuiet, isCreated, isReleased])
  | error error =>
    exact Yields.ok (htells.append_quiet (by simp [isQuiet, isCreated, isReleased]))

theorem process_tells (h : s.book.WellFormed) (m : Message) :
    Yields s.book.HasRoom (s.process m)
      fun step => s.book.Tells step.state.book step.events := by
  have htick : (s.tick m.time).book.WellFormed := h
  unfold process
  cases m.action with
  | add => exact (onBook_spec htick.add_tells).bind fun step hstep => Yields.ok hstep
  | cancel => exact (cancel_tells htick).bind fun step hstep => Yields.ok hstep
  | modify => exact (onBook_spec htick.modify_tells).bind fun step hstep => Yields.ok hstep
  | trade => exact (trade_tells htick).bind fun r hr => Yields.ok hr

/-- The reports of a call tell which levels came and went, unless it is a new start. -/
theorem call_tells (h : s.book.WellFormed) (call : Call) (hcall : call.isReset = false) :
    Yields s.book.HasRoom (s.call call)
      fun r => s.book.Tells r.2.1.book r.2.2 := by
  have hsame : s.book.Tells s.book [] := .refl s.book (by simp)
  cases call with
  | process m => exact (process_tells h m).bind fun step hstep => Yields.ok hstep
  | add => exact (onBook_spec h.add_tells).bind fun step hstep => Yields.ok hstep
  | remove => exact (onBook_spec h.remove_tells).bind fun step hstep => Yields.ok hstep
  | modify => exact (onBook_spec h.modify_tells).bind fun step hstep => Yields.ok hstep
  | trade => exact (trade_tells h).bind fun r hr => Yields.ok hr
  | drawVolumes => exact Yields.ok hsame
  | drawImbalance => exact Yields.ok hsame
  | drawSkew =>
    apply Yields.ok
    exact hsame
  | drawChange =>
    apply Yields.ok
    exact hsame
  | drawMid =>
    apply Yields.ok
    exact hsame
  | reset => cases hcall

/-- Only a message that modifies is answered with what a modify did. -/
theorem process_modified (h : s.book.WellFormed) (m : Message) :
    Yields s.book.HasRoom (s.process m) fun step => ∀ outcome,
      (Answer.processed step.result).outcome? = some outcome → m.action = .modify ∧
        s.book.Modified m.id m.price m.size m.side m.time (.ok outcome) step.state.book
          step.events := by
  have htick : (s.tick m.time).book.WellFormed := h
  unfold process
  cases m.action with
  | add =>
    refine (onBook_spec htick.add_follows).bind ?_
    rintro ⟨result, state, events⟩ -
    apply Yields.ok
    intro outcome houtcome
    cases result <;> cases houtcome
  | cancel =>
    refine (cancel_follows htick).bind ?_
    rintro ⟨result, state, events⟩ -
    apply Yields.ok
    intro outcome houtcome
    cases result <;> cases houtcome
  | modify =>
    refine (onBook_spec htick.modify).bind ?_
    rintro ⟨result, state, events⟩ ⟨-, hmodified⟩
    apply Yields.ok
    intro outcome houtcome
    cases result with
    | error error => cases houtcome
    | ok outcome' =>
      obtain rfl := Option.some.inj houtcome
      exact ⟨rfl, hmodified⟩
  | trade =>
    refine (trade_follows htick).bind ?_
    rintro r -
    apply Yields.ok
    intro outcome houtcome
    cases houtcome

/-- Only a modify is answered with what a modify did. -/
theorem call_modified (h : s.book.WellFormed) (call : Call) :
    Yields s.book.HasRoom (s.call call) fun r => ∀ outcome,
      r.1.outcome? = some outcome → ∃ id price size side time, call.modify? = some (id, price) ∧
        s.book.Modified id price size side time (.ok outcome) r.2.1.book r.2.2 := by
  cases call with
  | process m =>
    refine (process_modified h m).bind ?_
    rintro step hstep
    apply Yields.ok
    intro outcome houtcome
    obtain ⟨haction, hmodified⟩ := hstep outcome houtcome
    exact ⟨m.id, m.price, m.size, m.side, m.time, if_pos haction, hmodified⟩
  | add => exact (onBook_spec h.add_follows).bind fun step _ => Yields.ok nofun
  | remove => exact (onBook_spec h.remove_follows).bind fun step _ => Yields.ok nofun
  | modify id price size side time =>
    refine (onBook_spec h.modify).bind ?_
    rintro ⟨result, state, events⟩ ⟨-, hmodified⟩
    apply Yields.ok
    intro outcome houtcome
    cases result with
    | error error => cases houtcome
    | ok outcome' =>
      obtain rfl := Option.some.inj houtcome
      exact ⟨id, price, size, side, time, rfl, hmodified⟩
  | trade => exact (trade_follows h).bind fun r _ => Yields.ok nofun
  | drawVolumes => exact Yields.ok nofun
  | drawImbalance => exact Yields.ok nofun
  | drawSkew =>
    apply Yields.ok
    exact nofun
  | drawChange =>
    apply Yields.ok
    exact nofun
  | drawMid =>
    apply Yields.ok
    exact nofun
  | reset => exact Yields.ok nofun

/-- What the reports of a call say of the levels, for any call but a new start. -/
structure Moves (s : Session) (call : Call) (answer : Answer) (s' : Session) (events : List Event) :
    Prop where
  /-- What is reported of a price of a side is whether its level came, went or stayed as it was. -/
  passage : ∀ side price, events.filter (concerns side price) =
    Event.passage side price (s.book.level? side price).isSome (s'.book.level? side price).isSome
  /-- A level that loses its last order is given up in the same step, with a report. -/
  emptied : ∀ side price, s.book.idsAt side price ≠ [] → s'.book.idsAt side price = [] →
    s'.book.level? side price = none ∧ .levelReleased price side ∈ events
  /-- An order that goes to the end of its queue moves no level, were it the only one there. -/
  requeued : answer.outcome? = some .requeued → events = []
  /-- An order that moves to another price gives up its old level, if it was the last one there,
  before it makes a new one, if it is the first one there. -/
  repriced : ∀ id price, call.modify? = some (id, price) → answer.outcome? = some .repriced →
    ∃ o, s.book.get? id = some o ∧ o.price ≠ price ∧ events =
      (if (s'.book.level? o.side o.price).isSome then [] else [.levelReleased o.price o.side]) ++
        if (s.book.level? o.side price).isSome then [] else [.levelCreated price o.side]

theorem call_moves (h : s.book.WellFormed) {call : Call} (hother : call.isReset = false)
    {answer : Answer} {s' : Session} {events : List Event}
    (hcall : s.call call = .ok (answer, s', events)) : s.Moves call answer s' events := by
  have h' : s'.book.WellFormed := ((call_follows h call).sound _ hcall).wellFormed
  have htells : s.book.Tells s'.book events := (call_tells h call hother).sound _ hcall
  have hmodified := (call_modified h call).sound _ hcall
  refine ⟨?_, ?_, ?_, ?_⟩
  · intro side price
    rw [h.isSome_level?, h'.isSome_level?]
    exact htells.filter_eq side price
  · intro side price hids hids'
    exact htells.of_emptied h h' hids hids'
  · intro houtcome
    obtain ⟨id, price, size, side, time, -, hrequeued⟩ := hmodified _ houtcome
    exact hrequeued.events_of_requeued
  · intro id price hmodify houtcome
    obtain ⟨id', price', size, side, time, hmodify', hrepriced⟩ := hmodified _ houtcome
    rw [hmodify] at hmodify'
    cases hmodify'
    exact hrepriced.events_of_repriced h h'

/-! ## A run -/

/-- What was reported since the last new start: the reports `past` from before some calls, followed
by those of the calls. -/
def reported (past : List Event) (calls : List Call) (log : List (Answer × List Event)) :
    List Event :=
  (calls.zip log).foldl (fun past entry =>
    if entry.1.isReset then [] else past ++ entry.2.2) past

theorem book_of_reset (h : s.book.WellFormed) {call : Call} (hreset : call.isReset = true)
    {answer : Answer} {s' : Session} {events : List Event}
    (hcall : s.call call = .ok (answer, s', events)) : s'.book = Book.empty := by
  cases call with
  | reset =>
    cases hcall
    exact h.clear_eq
  | _ => cases hreset

/-- The reports of one more call are told with the others, unless it is a new start. -/
theorem call_told {past : List Event} (h : s.book.WellFormed) (htold : s.book.Told past)
    {call : Call} {answer : Answer} {s' : Session} {events : List Event}
    (hcall : s.call call = .ok (answer, s', events)) :
    s'.book.Told (if call.isReset then [] else past ++ events) := by
  split
  · rename_i hreset
    rw [book_of_reset h hreset hcall]
    exact Book.Told.empty
  · rename_i hother
    have h' : s'.book.WellFormed := ((call_follows h call).sound _ hcall).wellFormed
    have htells := (call_tells h call (by simpa using hother)).sound _ hcall
    exact htold.step h h' htells

/-- The reports of a run tell which levels there are. -/
theorem run_told {past : List Event} (h : s.book.WellFormed) (htold : s.book.Told past)
    {calls : List Call} {s' : Session} {log : List (Answer × List Event)}
    (hrun : s.run calls = .ok (s', log)) :
    s'.book.WellFormed ∧ s'.book.Told (reported past calls log) := by
  refine run_keeps (fun past s => s.book.WellFormed ∧ s.book.Told past)
    (fun past call reply => if call.isReset then [] else past ++ reply.2) ?_ ⟨h, htold⟩ hrun
  rintro past s call answer s' events ⟨hs, htold⟩ hcall
  exact ⟨((call_follows hs call).sound _ hcall).wellFormed, call_told hs htold hcall⟩

/-- Along every run from a fresh session, what was reported since the last new start tells which
levels there are: each was made and given up in turns, it is there if it was made last, and together
they are as many as were made and not given up. And whatever is done next, unless it is another new
start, reports each level that comes or goes, in the step and in the order in which it does. -/
theorem run_lifecycle (config : BookConfig) (calls : List Call) :
    ((ofConfig config).Roomy calls → ∃ s log, (ofConfig config).run calls = .ok (s, log)) ∧
      ∀ s log, (ofConfig config).run calls = .ok (s, log) →
        s.book.Told (reported [] calls log) ∧
          ∀ call answer s' events, call.isReset = false →
            s.call call = .ok (answer, s', events) → s.Moves call answer s' events := by
  have hfresh : (ofConfig config).book.WellFormed := Book.WellFormed.empty
  constructor
  · intro hroom
    obtain ⟨⟨s, log⟩, heq⟩ := (run_wellFormed hfresh calls).answers hroom
    exact ⟨s, log, heq⟩
  · intro s log heq
    obtain ⟨hbook, htold⟩ := run_told hfresh Book.Told.empty heq
    refine ⟨htold, ?_⟩
    intro call answer s' events hother hcall
    exact call_moves hbook hother hcall

/-- The only order of a level grows, which is not reported, moves to another price, and is traded
away. -/
theorem run_lifecycle_only_order :
    ∃ s log s' answer events, (ofConfig {}).run [.add 2 99 1 .ask 0, .reset, .add 1 100 5 .bid 1,
        .modify 1 100 7 .bid 2, .modify 1 101 7 .bid 3] = .ok (s, log) ∧
      s.book.Told [.levelCreated 100 .bid, .levelReleased 100 .bid, .levelCreated 101 .bid] ∧
      s.call (.trade 9 101 7 .ask) = .ok (answer, s', events) ∧
      events = [.levelReleased 101 .bid] ∧ s.Moves (.trade 9 101 7 .ask) answer s' events := by
  obtain ⟨hanswers, hall⟩ := run_lifecycle {} [.add 2 99 1 .ask 0, .reset, .add 1 100 5 .bid 1,
    .modify 1 100 7 .bid 2, .modify 1 101 7 .bid 3]
  obtain ⟨s, log, hrun⟩ := hanswers (roomy_of_length_lt _ _ (by decide))
  obtain ⟨htold, hmoves⟩ := hall s log hrun
  have heval : ((ofConfig {}).run [.add 2 99 1 .ask 0, .reset, .add 1 100 5 .bid 1,
      .modify 1 100 7 .bid 2, .modify 1 101 7 .bid 3]).map (fun r =>
        (reported [] [.add 2 99 1 .ask 0, .reset, .add 1 100 5 .bid 1, .modify 1 100 7 .bid 2,
          .modify 1 101 7 .bid 3] r.2, (r.1.call (.trade 9 101 7 .ask)).map fun r => r.2.2)) =
      .ok ([.levelCreated 100 .bid, .levelReleased 100 .bid, .levelCreated 101 .bid],
        .ok [.levelReleased 101 .bid]) := by decide +kernel
  rw [hrun] at heval
  obtain ⟨hreported, hevents⟩ := Prod.mk.inj (Except.ok.inj heval)
  rw [hreported] at htold
  cases hcall : s.call (.trade 9 101 7 .ask) with
  | error fault =>
    rw [hcall] at hevents
    cases hevents
  | ok r =>
    obtain ⟨answer, s', events⟩ := r
    rw [hcall] at hevents
    exact ⟨s, log, s', answer, events, hrun, htold, hcall, Except.ok.inj hevents,
      hmoves _ _ _ _ rfl hcall⟩

end Session

end PriceTime
