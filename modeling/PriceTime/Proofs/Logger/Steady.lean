import Mathlib.Algebra.GroupWithZero.Nat
import PriceTime.Proofs.Logger.Lane
import PriceTime.Proofs.Logger.Threads

/-!
# What a logger keeps to under every schedule

Whatever the threads of a logger do, each lane serves the records that its channel accepted, the
owner hears of every refusal, and a stop has entered what the workers it waited for have written.

* `Threads.Steady`: the invariant of the threads.
* `Threads.Steady.effect`: one act, whichever it is.
* `Threads.run_steady`: any schedule.
-/

namespace PriceTime

namespace Threads

variable {t t' : Threads} {move : Move} {outlets : List Outlet} {place : Nat} {call : LogCall}
  {calls : List LogCall}

/-! ## What the lanes accepted -/

/-- The records that the lane at a place accepted, in the order of the calls. -/
def acceptedAt (place : Nat) (calls : List LogCall) : List Record :=
  (calls.filter fun call => call.answers[place]? == some true).map LogCall.record

/-- How many records the lane at a place refused. -/
def refusedAt (place : Nat) (calls : List LogCall) : Nat :=
  calls.countP fun call => call.answers[place]? == some false

theorem acceptedAt_append (place : Nat) (calls more : List LogCall) :
    acceptedAt place (calls ++ more) = acceptedAt place calls ++ acceptedAt place more := by
  rw [acceptedAt, List.filter_append, List.map_append]
  rfl

theorem refusedAt_append (place : Nat) (calls more : List LogCall) :
    refusedAt place (calls ++ more) = refusedAt place calls + refusedAt place more :=
  List.countP_append

theorem acceptedAt_singleton (place : Nat) (call : LogCall) : acceptedAt place [call] =
    if call.answers[place]? == some true then [call.record] else [] := by
  rw [acceptedAt, List.filter_cons]
  split <;> rfl

theorem refusedAt_singleton (place : Nat) (call : LogCall) : refusedAt place [call] =
    if call.answers[place]? == some false then 1 else 0 :=
  List.countP_singleton

theorem length_acceptedAt_le (place : Nat) (calls : List LogCall) :
    (acceptedAt place calls).length ≤ calls.length := by
  rw [acceptedAt, List.length_map]
  exact List.length_filter_le _ _

/-- Every lane that was asked has accepted the record or refused it. -/
theorem acceptedAt_add_refusedAt (h : ∀ call ∈ calls, place < call.answers.length) :
    (acceptedAt place calls).length + refusedAt place calls = calls.length := by
  induction calls with
  | nil => rfl
  | cons call calls ih =>
    have hcall := ih fun call hmem => h call (List.mem_cons_of_mem _ hmem)
    obtain ⟨answer, hanswer⟩ : ∃ answer, call.answers[place]? = some answer :=
      ⟨_, List.getElem?_eq_getElem (h call List.mem_cons_self)⟩
    rw [← List.singleton_append, acceptedAt_append, refusedAt_append, acceptedAt_singleton,
      refusedAt_singleton, hanswer, List.length_append, List.length_append, ← hcall]
    cases answer <;> simp <;> omega

theorem acceptedAt_of_accepted (h : ∀ call ∈ calls, place < call.answers.length)
    (hall : ∀ call ∈ calls, call.answers.all id = true) :
    acceptedAt place calls = calls.map LogCall.record := by
  rw [acceptedAt, List.filter_eq_self.mpr]
  intro call hmem
  have hlt := h call hmem
  have hanswer : call.answers[place] = true :=
    List.all_eq_true.mp (hall call hmem) _ (List.getElem_mem hlt)
  rw [List.getElem?_eq_getElem hlt, hanswer]
  rfl

theorem hear_answers_self (call : LogCall) (answer : Bool) :
    (call.hear answer).answers[call.answers.length]? = some answer :=
  List.getElem?_concat_length

theorem hear_answers_of_ne (answer : Bool) (hplace : place ≠ call.answers.length) :
    (call.hear answer).answers[place]? = call.answers[place]? := by
  show (call.answers ++ [answer])[place]? = _
  rw [List.getElem?_append]
  split
  · rfl
  · rw [List.getElem?_eq_none (by simp; omega), List.getElem?_eq_none (by omega)]

/-- The lane that is asked next has not answered yet. -/
theorem acceptedAt_next (calls : List LogCall) (call : LogCall) :
    acceptedAt call.answers.length (calls ++ [call]) = acceptedAt call.answers.length calls ∧
      refusedAt call.answers.length (calls ++ [call]) = refusedAt call.answers.length calls := by
  rw [acceptedAt_append, refusedAt_append, acceptedAt_singleton, refusedAt_singleton,
    List.getElem?_eq_none (Nat.le_refl _)]
  exact ⟨List.append_nil _, rfl⟩

theorem acceptedAt_hear (calls : List LogCall) (call : LogCall) (answer : Bool) :
    acceptedAt call.answers.length (calls ++ [call.hear answer]) =
        (if answer then acceptedAt call.answers.length calls ++ [call.record]
          else acceptedAt call.answers.length calls) ∧
      refusedAt call.answers.length (calls ++ [call.hear answer]) =
        (if answer then refusedAt call.answers.length calls
          else refusedAt call.answers.length calls + 1) := by
  rw [acceptedAt_append, refusedAt_append, acceptedAt_singleton, refusedAt_singleton,
    hear_answers_self]
  cases answer
  · exact ⟨List.append_nil _, rfl⟩
  · exact ⟨rfl, rfl⟩

theorem acceptedAt_hear_of_ne (calls : List LogCall) (answer : Bool)
    (hplace : place ≠ call.answers.length) :
    acceptedAt place (calls ++ [call.hear answer]) = acceptedAt place (calls ++ [call]) ∧
      refusedAt place (calls ++ [call.hear answer]) = refusedAt place (calls ++ [call]) := by
  have hsame := hear_answers_of_ne answer hplace
  rw [acceptedAt_append, refusedAt_append, acceptedAt_append, refusedAt_append,
    acceptedAt_singleton, refusedAt_singleton, acceptedAt_singleton, refusedAt_singleton, hsame]
  exact ⟨rfl, rfl⟩

/-! ## Workers -/

theorem getElem?_worked (logger : Logger) (place place' : Nat) :
    (worked logger place).lanes[place']? = logger.lanes[place']?.map fun lane =>
      if place = place' then lane.step logger.running else lane :=
  List.getElem?_modify ..

theorem length_worked (logger : Logger) (place : Nat) :
    (worked logger place).lanes.length = logger.lanes.length :=
  List.length_modify ..

/-- A worker that is done takes no more steps. -/
theorem take_worked {logger : Logger} {n : Nat}
    (hdone : ∀ lane ∈ logger.lanes.take n, lane.worker.isDone = true) (place : Nat) :
    (worked logger place).lanes.take n = logger.lanes.take n := by
  refine List.ext_getElem? fun i => ?_
  rw [List.getElem?_take, List.getElem?_take]
  split
  · rename_i hlt
    rw [getElem?_worked]
    cases hlane : logger.lanes[i]? with
    | none => rfl
    | some lane =>
      have hmem : lane ∈ logger.lanes.take n :=
        List.mem_of_getElem? (by rw [List.getElem?_take, if_pos hlt, hlane])
      rw [Option.map_some, Lane.step_of_isDone (hdone lane hmem), ite_self]
  · rfl

theorem lanes_worked {logger : Logger}
    (hdone : ∀ lane ∈ logger.lanes, lane.worker.isDone = true) (place : Nat) :
    worked logger place = logger := by
  have hall : ∀ lane ∈ logger.lanes.take logger.lanes.length, lane.worker.isDone = true := by
    rwa [List.take_length]
  have hlanes := take_worked hall place
  rw [← length_worked logger place, List.take_length, length_worked, List.take_length] at hlanes
  show (⟨logger.running, (worked logger place).lanes⟩ : Logger) = _
  rw [hlanes]

theorem dropped_eq_foldl (logger : Logger) : logger.dropped =
    (logger.lanes.map fun lane => lane.queue.dropped).foldl (fun sum words => sum + words) 0 :=
  List.foldl_map.symm

theorem dropped_worked (logger : Logger) (place : Nat) :
    (worked logger place).dropped = logger.dropped := by
  have hmap : (worked logger place).lanes.map (fun lane => lane.queue.dropped) =
      logger.lanes.map fun lane => lane.queue.dropped := by
    refine List.ext_getElem? fun i => ?_
    rw [List.getElem?_map, List.getElem?_map, getElem?_worked, Option.map_map]
    congr 1
    funext lane
    dsimp only [Function.comp_apply]
    split
    · exact lane.dropped_step _
    · rfl
  rw [dropped_eq_foldl, hmap, ← dropped_eq_foldl]

/-! ## Stops -/

/-- How far the owner has come with stopping. -/
inductive Phase (t : Threads) : Prop where
  /-- The logger runs. -/
  | opened (hrunning : t.logger.running = true) (hjoined : t.joined = 0) (hreports : t.reports = [])
      (howner : ∀ stats error?, t.owner ≠ .stopping stats error?)
  /-- The owner has waited for the first workers, and entered what they wrote or the first failure
  among them. -/
  | closing {stats : LoggerStats} {error? : Option LoggerError} (hrunning : t.logger.running = false)
      (howner : t.owner = .stopping stats error?) (hreports : t.reports = [])
      (hjoined : t.joined ≤ t.logger.lanes.length)
      (hdone : ∀ lane ∈ t.logger.lanes.take t.joined, lane.worker.isDone = true)
      (herror : error? = (t.logger.lanes.take t.joined).findSome? Logger.laneError?)
      (hstats : error? = none → stats =
        (t.logger.lanes.take t.joined).foldl Logger.countLane { dropped := t.logger.dropped })
  /-- All workers are done, and nothing happens any more. Another stop has no worker to wait for. -/
  | closed {later : List (Except LoggerError LoggerStats)} (hrunning : t.logger.running = false)
      (howner : t.owner = .free ∨ t.owner = .stopping { dropped := t.logger.dropped } none)
      (hjoined : t.joined = t.logger.lanes.length)
      (hdone : ∀ lane ∈ t.logger.lanes, lane.worker.isDone = true)
      (hreports : t.reports = t.logger.report :: later)
      (hlater : ∀ report ∈ later, report = .ok { dropped := t.logger.dropped })

namespace Phase

theorem opened_of_logging (h : t.Phase) (howner : t.owner = .logging call) :
    t.logger.running = true ∧ t.joined = 0 ∧ t.reports = [] := by
  cases h with
  | opened hrunning hjoined hreports => exact ⟨hrunning, hjoined, hreports⟩
  | closing _ hstopping => cases howner.symm.trans hstopping
  | closed _ hfree =>
    obtain hfree | hfree := hfree
    · cases howner.symm.trans hfree
    · cases howner.symm.trans hfree

theorem opened_of_running (h : t.Phase) (hrunning : t.logger.running = true) :
    t.joined = 0 ∧ t.reports = [] := by
  cases h with
  | opened _ hjoined hreports => exact ⟨hjoined, hreports⟩
  | closing hstopped => exact absurd hrunning (hstopped ▸ Bool.false_ne_true)
  | closed hstopped => exact absurd hrunning (hstopped ▸ Bool.false_ne_true)

/-- Nothing is reported before all workers are done. -/
theorem closed_of_report (h : t.Phase) (hreported : t.reports ≠ []) :
    (∀ lane ∈ t.logger.lanes, lane.worker.isDone = true) ∧
      ∃ later, t.reports = t.logger.report :: later ∧
        ∀ report ∈ later, report = .ok { dropped := t.logger.dropped } := by
  cases h with
  | opened _ _ hreports => exact absurd hreports hreported
  | closing _ _ hreports => exact absurd hreports hreported
  | closed _ _ _ hdone hreports hlater => exact ⟨hdone, _, hreports, hlater⟩

theorem work (h : t.Phase) (place : Nat) :
    ({ t with logger := worked t.logger place } : Threads).Phase := by
  cases h with
  | opened hrunning hjoined hreports howner => exact .opened hrunning hjoined hreports howner
  | closing hrunning howner hreports hjoined hdone herror hstats =>
    have htake := take_worked hdone place
    refine .closing hrunning howner hreports ?_ ?_ ?_ ?_
    · rwa [length_worked]
    · rwa [htake]
    · rwa [htake]
    · rwa [htake, dropped_worked]
  | closed hrunning howner hjoined hdone hreports hlater =>
    rw [lanes_worked hdone]
    exact .closed hrunning howner hjoined hdone hreports hlater

theorem stop (h : t.Phase) (howner : t.owner = .free) :
    ({ t with
      logger := { t.logger with running := false }
      owner := .stopping { dropped := t.logger.dropped } none } : Threads).Phase := by
  obtain ⟨⟨running, lanes⟩, owner, calls, joined, reports⟩ := t
  dsimp only at howner
  subst howner
  cases h with
  | opened _ hjoined hreports =>
    dsimp only at hjoined hreports
    subst hjoined
    exact .closing rfl rfl hreports (Nat.zero_le _) (by simp) rfl fun _ => rfl
  | closing _ hstopping => cases hstopping
  | closed hrunning _ hjoined hdone hreports hlater =>
    dsimp only at hrunning
    subst hrunning
    exact .closed rfl (.inr rfl) hjoined hdone hreports hlater

theorem join {stats : LoggerStats} {error? : Option LoggerError} {lane : Lane} (h : t.Phase)
    (howner : t.owner = .stopping stats error?) (hlane : t.logger.lanes[t.joined]? = some lane)
    (hdone : lane.worker.isDone = true) : (t.wait stats error? lane).Phase := by
  cases h with
  | opened _ _ _ hfree => exact absurd howner (hfree _ _)
  | closing hrunning hstopping hreports _ hbefore herror hstats =>
    cases howner.symm.trans hstopping
    have htake : t.logger.lanes.take (t.joined + 1) = t.logger.lanes.take t.joined ++ [lane] := by
      rw [List.take_add_one, hlane]
      rfl
    refine .closing hrunning rfl hreports (List.getElem?_eq_some_iff.mp hlane).choose ?_ ?_ ?_
    · show ∀ lane ∈ t.logger.lanes.take (t.joined + 1), _
      rw [htake]
      exact List.forall_mem_append.mpr ⟨hbefore, List.forall_mem_singleton.mpr hdone⟩
    · show _ = (t.logger.lanes.take (t.joined + 1)).findSome? _
      rw [htake, List.findSome?_append, ← herror]
      simp
    · intro hnone
      obtain ⟨hnone, hlane⟩ := Option.or_eq_none_iff.mp hnone
      show (if (Logger.laneError? lane).isSome then stats else Logger.countLane stats lane) =
        (t.logger.lanes.take (t.joined + 1)).foldl _ { dropped := t.logger.dropped }
      rw [htake, List.foldl_append, ← hstats hnone, hlane]
      rfl
  | closed _ hfree hjoined =>
    rw [hjoined, List.getElem?_eq_none (Nat.le_refl _)] at hlane
    cases hlane

theorem stopped {stats : LoggerStats} {error? : Option LoggerError} (h : t.Phase)
    (howner : t.owner = .stopping stats error?) (hall : t.joined = t.logger.lanes.length) :
    ({ t with owner := .free, reports := t.reports ++ [outcome stats error?] } : Threads).Phase := by
  cases h with
  | opened _ _ _ hfree => exact absurd howner (hfree _ _)
  | closing hrunning hstopping hreports _ hdone herror hstats =>
    cases howner.symm.trans hstopping
    rw [hall, List.take_length] at hdone herror hstats
    refine @closed _ [] hrunning (.inl rfl) hall hdone ?_ nofun
    show t.reports ++ [outcome stats error?] = [t.logger.report]
    rw [hreports, Logger.report, ← herror]
    cases error? with
    | none =>
      rw [hstats rfl]
      rfl
    | some error => rfl
  | @closed later hrunning hfree hjoined hdone hreports hlater =>
    obtain hfree | hfree := hfree
    · cases howner.symm.trans hfree
    · cases howner.symm.trans hfree
      refine @closed _ (later ++ [.ok { dropped := t.logger.dropped }]) hrunning (.inl rfl) hjoined
        hdone ?_ ?_
      · show t.reports ++ _ = _
        rw [hreports]
        rfl
      · exact List.forall_mem_append.mpr ⟨hlater, List.forall_mem_singleton.mpr rfl⟩

theorem effect (h : t.Phase) (heffect : t.Effect move t') : t'.Phase := by
  cases heffect with
  | log hrunning =>
    obtain ⟨hjoined, hreports⟩ := h.opened_of_running hrunning
    exact .opened hrunning hjoined hreports nofun
  | offer howner =>
    obtain ⟨hrunning, hjoined, hreports⟩ := h.opened_of_logging howner
    exact .opened hrunning hjoined hreports nofun
  | work => exact h.work _
  | stop howner => exact h.stop howner
  | join howner hlane hdone => exact h.join howner hlane hdone
  | logged howner =>
    obtain ⟨hrunning, hjoined, hreports⟩ := h.opened_of_logging howner
    exact .opened hrunning hjoined hreports nofun
  | stopped howner hall => exact h.stopped howner hall

end Phase

/-! ## The invariant -/

/-- The threads of a logger with lanes to some outlets. -/
structure Steady (outlets : List Outlet) (t : Threads) : Prop where
  lanes_length : t.logger.lanes.length = outlets.length
  serves : ∀ {place} {outlet : Outlet} {lane : Lane}, outlets[place]? = some outlet →
    t.logger.lanes[place]? = some lane → lane.Serves outlet t.logger.running
      (acceptedAt place t.history) (refusedAt place t.history)
  /-- The owner hears of every refusal. -/
  heard : ∀ call ∈ t.history, call.accepted = call.answers.all id
  answered : ∀ call ∈ t.calls, call.answers.length = outlets.length
  /-- As long as the records logged so far would fit into a channel, all of them are accepted. -/
  roomy : t.history.length < Lane.queueSlots → ∀ call ∈ t.history, call.accepted = true
  phase : t.Phase

theorem history_of_free (howner : t.owner.call? = none) : t.history = t.calls := by
  rw [history, howner]
  exact List.append_nil _

theorem history_of_logging (howner : t.owner = .logging call) : t.history = t.calls ++ [call] := by
  rw [history, howner]
  rfl

theorem steady_start {logger : Logger} (hrunning : logger.running = true)
    (hlanes : logger.lanes = outlets.map Lane.ofOutlet) : Steady outlets { logger } where
  lanes_length := by
    show logger.lanes.length = _
    rw [hlanes, List.length_map]
  serves := by
    intro place outlet lane houtlet hlane
    dsimp only at hlane ⊢
    rw [hlanes, List.getElem?_map, houtlet] at hlane
    cases hlane
    rw [hrunning]
    exact Lane.serves_ofOutlet outlet
  heard := nofun
  answered := nofun
  roomy := nofun
  phase := .opened hrunning rfl rfl nofun

namespace Steady

/-- What changes neither the lanes nor the calls keeps the invariant, if it fits the stops. -/
theorem of_phase (h : t.Steady outlets) (hlogger : t'.logger = t.logger)
    (hhistory : t'.history = t.history)
    (hanswered : ∀ call ∈ t'.calls, call.answers.length = outlets.length) (hphase : t'.Phase) :
    t'.Steady outlets where
  lanes_length := hlogger ▸ h.lanes_length
  serves := by
    rw [hlogger, hhistory]
    exact h.serves
  heard := hhistory ▸ h.heard
  answered := hanswered
  roomy := hhistory ▸ h.roomy
  phase := hphase

theorem log (h : t.Steady outlets) (hrunning : t.logger.running = true) (howner : t.owner = .free)
    (record : Record) : ({ t with owner := .logging { record } } : Threads).Steady outlets := by
  have hhistory : t.history = t.calls := history_of_free (howner ▸ rfl)
  obtain ⟨hlength, hserves, hheard, hanswered, hroomy, hphase⟩ := h
  rw [hhistory] at hserves hheard hroomy
  refine ⟨hlength, ?_, ?_, hanswered, ?_, hphase.effect (.log hrunning howner)⟩
  · intro place outlet lane houtlet hlane
    have hlane := hserves houtlet hlane
    rw [history_of_logging rfl, acceptedAt_append, refusedAt_append, acceptedAt_singleton,
      refusedAt_singleton]
    simpa using hlane
  · rw [history_of_logging rfl]
    exact List.forall_mem_append.mpr ⟨hheard, List.forall_mem_singleton.mpr rfl⟩
  · rw [history_of_logging rfl, List.length_append]
    intro hfew
    exact List.forall_mem_append.mpr ⟨hroomy (Nat.lt_of_le_of_lt (Nat.le_add_right _ _) hfew),
      List.forall_mem_singleton.mpr rfl⟩

/-- The lane that is asked next has served the calls before. -/
theorem asked {lane : Lane} (h : t.Steady outlets) (howner : t.owner = .logging call)
    (hlane : t.logger.lanes[call.answers.length]? = some lane) :
    ∃ outlet, outlets[call.answers.length]? = some outlet ∧ lane.Serves outlet true
      (acceptedAt call.answers.length t.calls) (refusedAt call.answers.length t.calls) := by
  have hlt : call.answers.length < outlets.length := by
    rw [← h.lanes_length]
    exact (List.getElem?_eq_some_iff.mp hlane).choose
  have hserves := h.serves (List.getElem?_eq_getElem hlt) hlane
  rw [history_of_logging howner, (acceptedAt_next _ _).1, (acceptedAt_next _ _).2,
    (h.phase.opened_of_logging howner).1] at hserves
  exact ⟨_, List.getElem?_eq_getElem hlt, hserves⟩

theorem offer {lane : Lane} (h : t.Steady outlets) (howner : t.owner = .logging call)
    (hlane : t.logger.lanes[call.answers.length]? = some lane) :
    ({ t with
      logger := { t.logger with
        lanes := t.logger.lanes.set call.answers.length (lane.offer call.record).2 }
      owner := .logging (call.hear (lane.offer call.record).1) } : Threads).Steady outlets := by
  obtain ⟨asked, hnext, hasked⟩ := h.asked howner hlane
  obtain ⟨hrunning, -, -⟩ := h.phase.opened_of_logging howner
  have hhistory := history_of_logging howner
  have hphase := h.phase.effect (.offer howner hlane)
  obtain ⟨hlength, hserves, hheard, hanswered, hroomy, -⟩ := h
  rw [hhistory] at hserves hheard hroomy
  refine ⟨?_, ?_, ?_, hanswered, ?_, hphase⟩
  · rw [← hlength]
    exact List.length_set
  · intro place outlet lane' houtlet hlane'
    rw [history_of_logging rfl]
    dsimp only at hlane' ⊢
    -- nothing changes for the lanes that were asked before or are still to be asked
    by_cases hplace : place = call.answers.length
    · subst hplace
      rw [List.getElem?_set_self (List.getElem?_eq_some_iff.mp hlane).choose] at hlane'
      cases hlane'
      cases hnext.symm.trans houtlet
      rw [(acceptedAt_hear _ _ _).1, (acceptedAt_hear _ _ _).2, hrunning]
      exact hasked.offer call.record
    · rw [List.getElem?_set_ne (Ne.symm hplace)] at hlane'
      rw [(acceptedAt_hear_of_ne _ _ hplace).1, (acceptedAt_hear_of_ne _ _ hplace).2]
      exact hserves houtlet hlane'
  · obtain ⟨hcalls, hcall⟩ := List.forall_mem_append.mp hheard
    rw [history_of_logging rfl]
    refine List.forall_mem_append.mpr ⟨hcalls, List.forall_mem_singleton.mpr ?_⟩
    simp [LogCall.hear, hcall call List.mem_cons_self]
  · rw [history_of_logging rfl, List.length_append]
    intro hfew
    obtain ⟨hcalls, hcall⟩ := List.forall_mem_append.mp (hroomy (by rwa [List.length_append]))
    refine List.forall_mem_append.mpr ⟨hcalls, List.forall_mem_singleton.mpr ?_⟩
    have hroom : (acceptedAt call.answers.length t.calls).length < Lane.queueSlots - 1 :=
      Nat.lt_of_le_of_lt (length_acceptedAt_le _ _) (Nat.lt_sub_of_add_lt hfew)
    simp [LogCall.hear, hcall call List.mem_cons_self, hasked.offer_eq_true hroom]

theorem work (h : t.Steady outlets) (place : Nat) :
    ({ t with logger := worked t.logger place } : Threads).Steady outlets := by
  refine ⟨?_, ?_, h.heard, h.answered, h.roomy, h.phase.work place⟩
  · rw [← h.lanes_length]
    exact length_worked _ _
  · intro place' outlet lane houtlet hlane
    dsimp only at hlane
    rw [getElem?_worked] at hlane
    obtain ⟨lane', hlane', rfl⟩ := Option.map_eq_some_iff.mp hlane
    have hserves := h.serves houtlet hlane'
    split
    · exact hserves.step
    · exact hserves

theorem stop (h : t.Steady outlets) (howner : t.owner = .free) :
    ({ t with
      logger := { t.logger with running := false }
      owner := .stopping { dropped := t.logger.dropped } none } : Threads).Steady outlets := by
  have hhistory : t.history = t.calls := history_of_free (howner ▸ rfl)
  obtain ⟨hlength, hserves, hheard, hanswered, hroomy, hphase⟩ := h
  rw [hhistory] at hserves hheard hroomy
  have hcalls : ({ t with
      logger := { t.logger with running := false }
      owner := .stopping { dropped := t.logger.dropped } none } : Threads).history = t.calls :=
    history_of_free rfl
  refine ⟨hlength, ?_, ?_, hanswered, ?_, hphase.stop howner⟩
  · rw [hcalls]
    intro place outlet lane houtlet hlane
    exact (hserves houtlet hlane).stop
  · rwa [hcalls]
  · rwa [hcalls]

theorem effect (h : t.Steady outlets) (heffect : t.Effect move t') : t'.Steady outlets := by
  have hphase := h.phase.effect heffect
  cases heffect with
  | log hrunning howner => exact h.log hrunning howner _
  | offer howner hlane => exact h.offer howner hlane
  | work => exact h.work _
  | stop howner => exact h.stop howner
  | join howner =>
    refine h.of_phase rfl ?_ h.answered hphase
    rw [history_of_free (t := t) (howner ▸ rfl)]
    exact history_of_free rfl
  | @logged call howner hall =>
    refine h.of_phase rfl ?_ ?_ hphase
    · rw [history_of_logging howner, history_of_free rfl]
    · exact List.forall_mem_append.mpr ⟨h.answered,
        List.forall_mem_singleton.mpr (hall.trans h.lanes_length)⟩
  | stopped howner =>
    refine h.of_phase rfl ?_ h.answered hphase
    rw [history_of_free (t := t) (howner ▸ rfl)]
    exact history_of_free rfl

end Steady

theorem Steady.dropped_eq (h : t.Steady outlets) : t.logger.dropped = UInt64.ofNat
    ((List.range outlets.length).map fun place => refusedAt place t.history).sum := by
  have hwords : (t.logger.lanes.map fun lane => lane.queue.dropped) =
      ((List.range outlets.length).map fun place => refusedAt place t.history).map UInt64.ofNat := by
    refine List.ext_getElem (by simp [h.lanes_length]) fun place hlane hplace => ?_
    have hlt : place < outlets.length := by simpa using hplace
    have hserves := h.serves (List.getElem?_eq_getElem hlt)
      (List.getElem?_eq_getElem (by simpa using hlane))
    simpa using hserves.dropped_eq
  rw [dropped_eq_foldl, hwords, List.foldl_map, List.sum_eq_foldl]
  exact List.foldl_hom UInt64.ofNat fun sum count => (UInt64.ofNat_add sum count).symm

theorem run_steady {moves : List Move} (h : t.Steady outlets) (hrun : t.run moves = some t') :
    t'.Steady outlets :=
  run_induction Steady.effect h hrun

end Threads

end PriceTime
