import PriceTime.Proofs.Logger.Steady

/-!
# Every call on a logger returns

The owner never gets stuck. It may log a record and return before anybody else acts. Once it has
stopped the logger, every worker that gets enough steps is done, whatever the others do in between,
and then nothing keeps the owner from reporting. What the workers leave behind does not depend on the
order of their steps: it is what `Logger.stop` gives.

* `Threads.run_log`, `Threads.run_work`: what `Logger.log` and `Logger.work` do.
* `Threads.isDone_run`: the end of a worker.
* `Threads.exists_run_report`: the report.
* `Threads.exists_run_stop`: stopping without a break, as `Logger.stop` does.
-/

namespace PriceTime

namespace Threads

variable {t t' : Threads} {move : Move} {moves : List Move} {outlets : List Outlet} {place : Nat}

/-! ## Logging -/

theorem run_offers {call : LogCall} (before after : List Lane) (howner : t.owner = .logging call)
    (hlanes : t.logger.lanes = before ++ after) (hasked : call.answers.length = before.length) :
    t.run (.replicate after.length .offer) = some { t with
      logger := { t.logger with
        lanes := before ++ after.map fun lane => (lane.offer call.record).2 }
      owner := .logging {
        record := call.record
        answers := call.answers ++ after.map fun lane => (lane.offer call.record).1
        accepted := call.accepted && after.all fun lane => (lane.offer call.record).1 } } := by
  induction after generalizing t before call with
  | nil =>
    obtain ⟨⟨running, lanes⟩, owner, calls, joined, reports⟩ := t
    dsimp only at howner hlanes
    subst howner hlanes
    simp [run]
  | cons lane after ih =>
    have hlane : t.logger.lanes[call.answers.length]? = some lane := by
      rw [hlanes, hasked, List.getElem?_append_right (Nat.le_refl _), Nat.sub_self]
      rfl
    rw [List.length_cons, List.replicate_succ, run_cons (.offer howner hlane),
      ih (before ++ [(lane.offer call.record).2]) rfl]
    · simp [LogCall.hear, Bool.and_assoc]
    · simp [hlanes, hasked]
    · simp [LogCall.hear, hasked]

/-- A record may be logged without a break. -/
theorem run_log (howner : t.owner = .free) (hrunning : t.logger.running = true) (record : Record) :
    t.run (.log record :: .replicate t.logger.lanes.length .offer ++ [.answer]) = some { t with
      logger := (t.logger.log record).2
      calls := t.calls ++ [{
        record
        answers := t.logger.lanes.map fun lane => (lane.offer record).1
        accepted := (t.logger.log record).1 }] } := by
  have hoffers := run_offers (t := { t with owner := .logging { record } }) [] t.logger.lanes rfl rfl
    rfl
  rw [List.cons_append, run_cons (.log hrunning howner), run_append, hoffers, Option.bind_some]
  obtain ⟨⟨running, lanes⟩, owner, calls, joined, reports⟩ := t
  dsimp only at howner
  subst howner
  rw [run_cons (.logged rfl (by simp))]
  simp [run, Logger.log, List.all_map, Function.comp_def]

/-- Any records may be logged one after the other. -/
theorem exists_run_logs (howner : t.owner = .free) (hrunning : t.logger.running = true)
    (records : List Record) :
    ∃ moves t', t.run moves = some t' ∧ t'.owner = .free ∧ t'.logger.running = true ∧
      t'.calls.map LogCall.record = t.calls.map LogCall.record ++ records := by
  induction records generalizing t with
  | nil => exact ⟨[], t, rfl, howner, hrunning, (List.append_nil _).symm⟩
  | cons record records ih =>
    have hlog := run_log howner hrunning record
    obtain ⟨moves, t', hrun, hfree, hstill, hcalls⟩ := ih (t := { t with
      logger := (t.logger.log record).2
      calls := t.calls ++ [{
        record
        answers := t.logger.lanes.map fun lane => (lane.offer record).1
        accepted := (t.logger.log record).1 }] }) howner hrunning
    refine ⟨_, t', (run_append _ _ moves).trans (Option.bind_eq_some_iff.mpr ⟨_, hlog, hrun⟩), hfree,
      hstill, ?_⟩
    rw [hcalls, List.map_append, List.append_assoc]
    rfl

/-! ## Stopping -/

/-- Once the logger has stopped, nothing but the steps of its worker changes a lane. -/
theorem lanes_effect (h : t.Steady outlets) (hrunning : t.logger.running = false)
    (heffect : t.Effect move t') (place : Nat) :
    t'.logger.lanes[place]? = t.logger.lanes[place]?.map
      (Lane.step false)^[if move.isWork place then 1 else 0] := by
  have hkept : ∀ lanes : List Lane, lanes[place]? = lanes[place]?.map (Lane.step false)^[0] :=
    fun lanes => Option.map_id'.symm
  cases heffect with
  | log hopened => exact absurd hopened (hrunning ▸ Bool.false_ne_true)
  | offer howner =>
    have hopened := (h.phase.opened_of_logging howner).1
    exact absurd hopened (hrunning ▸ Bool.false_ne_true)
  | @work place' =>
    dsimp only
    rw [getElem?_worked, hrunning]
    by_cases hplace : place' = place
    · rw [hplace]
      simp [Move.isWork]
    · simp [Move.isWork, hplace]
  | stop => exact hkept _
  | join => exact hkept _
  | logged => exact hkept _
  | stopped => exact hkept _

theorem running_effect (heffect : t.Effect move t') (hrunning : t.logger.running = false) :
    t'.logger.running = false := by
  cases heffect with
  | log | offer | work | join | logged | stopped => exact hrunning
  | stop => rfl

/-- After any schedule of a logger that was stopped, a lane is where the steps of its worker have
brought it. -/
theorem lanes_run (h : t.Steady outlets) (hrunning : t.logger.running = false)
    (hrun : t.run moves = some t') (place : Nat) :
    t'.logger.lanes[place]? = t.logger.lanes[place]?.map
      (Lane.step false)^[moves.countP (Move.isWork place)] := by
  induction moves generalizing t with
  | nil =>
    cases hrun
    exact Option.map_id'.symm
  | cons move moves ih =>
    obtain ⟨t₁, hmove, hrest⟩ := Option.bind_eq_some_iff.mp hrun
    have heffect := effect_of_move hmove
    rw [ih (h.effect heffect) (running_effect heffect hrunning) hrest,
      lanes_effect h hrunning heffect, Option.map_map, ← Function.iterate_add, List.countP_cons]

/-- A worker of a logger that was stopped is done once it has got its steps, whatever the others do
in between. -/
theorem isDone_run (h : t.Steady outlets) (hrunning : t.logger.running = false)
    (hrun : t.run moves = some t') {lane : Lane} (hlane : t.logger.lanes[place]? = some lane)
    (hsteps : lane.queue.ring.size + 5 ≤ moves.countP (Move.isWork place)) :
    t'.logger.lanes[place]? = some lane.drain ∧ lane.drain.worker.isDone = true := by
  have hlt : place < outlets.length := by
    rw [← h.lanes_length]
    exact (List.getElem?_eq_some_iff.mp hlane).choose
  have hserves := h.serves (List.getElem?_eq_getElem hlt) hlane
  rw [hrunning] at hserves
  rw [lanes_run h hrunning hrun, hlane, Option.map_some]
  exact ⟨congrArg some (hserves.iterate_eq_drain hsteps), hserves.isDone_drain⟩

theorem run_works (t : Threads) (places : List Nat) :
    t.run (places.map .work) = some { t with logger := places.foldl worked t.logger } := by
  induction places generalizing t with
  | nil => rfl
  | cons place places ih =>
    rw [List.map_cons, run_cons .work, ih]
    rfl

theorem running_worked (logger : Logger) (places : List Nat) :
    (places.foldl worked logger).running = logger.running := by
  induction places generalizing logger with
  | nil => rfl
  | cons place places ih => exact ih _

theorem getElem?_foldl_worked (logger : Logger) (places : List Nat) (place : Nat) :
    (places.foldl worked logger).lanes[place]? =
      logger.lanes[place]?.map (Lane.step logger.running)^[places.count place] := by
  induction places generalizing logger with
  | nil => exact Option.map_id'.symm
  | cons first places ih =>
    rw [List.foldl_cons, ih, getElem?_worked, Option.map_map, List.count_cons]
    congr 1
    funext lane
    dsimp only [Function.comp_apply, worked]
    by_cases hplace : first = place
    · rw [if_pos hplace, hplace, beq_self_eq_true, if_pos rfl, Function.iterate_succ_apply]
    · rw [if_neg hplace, if_neg (by simpa using hplace), Nat.add_zero]

/-- Every worker may take a step. -/
theorem run_work (t : Threads) : t.run ((List.range t.logger.lanes.length).map .work) =
    some { t with logger := t.logger.work } := by
  have hlanes : ((List.range t.logger.lanes.length).foldl worked t.logger).lanes =
      t.logger.lanes.map (Lane.step t.logger.running) := by
    refine List.ext_getElem? fun place => ?_
    rw [getElem?_foldl_worked, List.getElem?_map, List.count_range]
    split
    · rfl
    · rename_i hge
      rw [List.getElem?_eq_none (Nat.le_of_not_lt hge)]
      rfl
  have hlogger : (List.range t.logger.lanes.length).foldl worked t.logger = t.logger.work := by
    show _ = (⟨t.logger.running, t.logger.lanes.map (Lane.step t.logger.running)⟩ : Logger)
    rw [← hlanes, ← running_worked t.logger (List.range t.logger.lanes.length)]
  rw [run_works, hlogger]

/-- When all workers are done, nothing keeps the owner from reporting. -/
theorem run_joins {stats : LoggerStats} {error? : Option LoggerError}
    (howner : t.owner = .stopping stats error?) (hjoined : t.joined ≤ t.logger.lanes.length)
    (hdone : ∀ lane ∈ t.logger.lanes, lane.worker.isDone = true) :
    ∃ report, t.run (.replicate (t.logger.lanes.length - t.joined) .join ++ [.answer]) = some { t with
      owner := .free
      joined := t.logger.lanes.length
      reports := t.reports ++ [report] } := by
  -- the induction is on the workers that the owner has still to wait for
  generalize hleft : t.logger.lanes.length - t.joined = left
  induction left generalizing t stats error? with
  | zero =>
    have hall : t.joined = t.logger.lanes.length := by omega
    refine ⟨outcome stats error?, ?_⟩
    rw [List.replicate_zero, List.nil_append, run_cons (.stopped howner hall), ← hall]
    rfl
  | succ left ih =>
    have hlt : t.joined < t.logger.lanes.length := by omega
    have hlane := List.getElem?_eq_getElem hlt
    rw [List.replicate_succ, List.cons_append,
      run_cons (.join howner hlane (hdone _ (List.getElem_mem hlt)))]
    exact ih (t := t.wait stats error? _) rfl hlt hdone (by
      show t.logger.lanes.length - (t.joined + 1) = left
      omega)

/-- The workers of a logger that was stopped can finish without a break. -/
theorem exists_run_drain (h : t.Steady outlets) (hrunning : t.logger.running = false) :
    ∃ moves, t.run moves = some { t with
        logger := { running := false, lanes := t.logger.lanes.map Lane.drain } } ∧
      ∀ lane ∈ t.logger.lanes.map Lane.drain, lane.worker.isDone = true := by
  -- every worker gets as many steps as a full channel needs
  let rounds := (List.replicate (Lane.queueSlots + 4) (List.range t.logger.lanes.length)).flatten
  have hrun := run_works t rounds
  have hdrained : ∀ {place : Nat} {lane : Lane}, t.logger.lanes[place]? = some lane →
      (rounds.foldl worked t.logger).lanes[place]? = some lane.drain ∧
        lane.drain.worker.isDone = true := by
    intro place lane hlane
    have hlt : place < t.logger.lanes.length := (List.getElem?_eq_some_iff.mp hlane).choose
    have hserves := h.serves (List.getElem?_eq_getElem (h.lanes_length ▸ hlt)) hlane
    refine isDone_run h hrunning hrun hlane ?_
    have hcount : (rounds.map Move.work).countP (Move.isWork place) = Lane.queueSlots + 4 := by
      rw [List.countP_map]
      show rounds.count place = _
      rw [List.count_flatten, List.map_replicate, List.sum_replicate_nat, List.count_range,
        if_pos hlt, Nat.mul_one]
    have := hserves.size_lt
    omega
  have hlogger : rounds.foldl worked t.logger =
      { running := false, lanes := t.logger.lanes.map Lane.drain } := by
    have hlanes : (rounds.foldl worked t.logger).lanes = t.logger.lanes.map Lane.drain := by
      refine List.ext_getElem? fun place => ?_
      rw [List.getElem?_map]
      cases hlane : t.logger.lanes[place]? with
      | none =>
        have hnone := lanes_run h hrunning hrun place
        rwa [hlane] at hnone
      | some lane => exact (hdrained hlane).1
    rw [← hlanes, ← hrunning, ← running_worked t.logger rounds]
  rw [hlogger] at hrun
  refine ⟨_, hrun, ?_⟩
  intro lane hmem
  obtain ⟨lane', hlane', rfl⟩ := List.mem_map.mp hmem
  obtain ⟨place, hplace⟩ := List.mem_iff_getElem?.mp hlane'
  exact (hdrained hplace).2

/-- Once all workers are done, the stop that waits for them can return. -/
theorem exists_run_report (h : t.Steady outlets) (hrunning : t.logger.running = false)
    (hdone : ∀ lane ∈ t.logger.lanes, lane.worker.isDone = true) (hreports : t.reports = []) :
    ∃ moves t', t.run moves = some t' ∧ t'.logger = t.logger ∧ t'.calls = t.calls ∧
      t'.reports = [t.logger.report] := by
  cases h.phase with
  | opened hopened => exact absurd hopened (hrunning ▸ Bool.false_ne_true)
  | closing _ howner _ hjoined =>
    obtain ⟨report, hjoins⟩ := run_joins howner hjoined hdone
    refine ⟨_, _, hjoins, rfl, rfl, ?_⟩
    obtain ⟨-, later, hall, -⟩ := (run_steady h hjoins).phase.closed_of_report (by simp)
    dsimp only at hall ⊢
    rw [hreports] at hall ⊢
    cases hall
    rfl
  | closed _ _ _ _ hreported => cases hreports.symm.trans hreported

/-- The owner may stop the logger and wait until all workers are done. -/
theorem exists_run_stop (h : t.Steady outlets) (howner : t.owner = .free)
    (hrunning : t.logger.running = true) :
    ∃ moves t', t.run moves = some t' ∧ t'.logger = (Logger.stop t.logger).2 ∧
      t'.calls = t.calls ∧ t'.reports = [(Logger.stop t.logger).1] := by
  have hstop := Effect.stop howner
  have hstopped := h.effect hstop
  obtain ⟨works, hworks, hdone⟩ := exists_run_drain hstopped rfl
  obtain ⟨joins, t', hjoins, hlogger, hcalls, hreports⟩ :=
    exists_run_report (run_steady hstopped hworks) rfl hdone (h.phase.opened_of_running hrunning).2
  have hrun := (run_cons hstop).trans ((run_append _ works joins).trans
    (Option.bind_eq_some_iff.mpr ⟨_, hworks, hjoins⟩))
  exact ⟨_, t', hrun, hlogger, hcalls, hreports⟩

/-- Whenever the owner is not in the middle of logging, a stop can return. -/
theorem exists_run_reports (h : t.Steady outlets) (howner : t.owner.call? = none) :
    ∃ moves t', t.run moves = some t' ∧ t'.calls = t.calls ∧ t'.reports ≠ [] := by
  cases h.phase with
  | opened hrunning _ _ hopened =>
    have hfree : t.owner = .free := by
      cases hwhich : t.owner with
      | free => rfl
      | logging => rw [hwhich] at howner; cases howner
      | stopping => exact absurd hwhich (hopened _ _)
    obtain ⟨moves, t', hrun, -, hcalls, hreports⟩ := exists_run_stop h hfree hrunning
    exact ⟨moves, t', hrun, hcalls, hreports ▸ List.cons_ne_nil _ _⟩
  | closing hrunning _ hreports =>
    obtain ⟨works, hworks, hdone⟩ := exists_run_drain h hrunning
    obtain ⟨joins, t', hjoins, -, hcalls, hreported⟩ :=
      exists_run_report (run_steady h hworks) rfl hdone hreports
    have hrun := (run_append t works joins).trans
      (Option.bind_eq_some_iff.mpr ⟨_, hworks, hjoins⟩)
    exact ⟨_, t', hrun, hcalls, hreported ▸ List.cons_ne_nil _ _⟩
  | closed _ _ _ _ hreports => exact ⟨[], t, rfl, rfl, hreports ▸ List.cons_ne_nil _ _⟩

/-- Any records may be logged before the logger is stopped. -/
theorem exists_run_records (h : t.Steady outlets) (howner : t.owner = .free)
    (hrunning : t.logger.running = true) (records : List Record) :
    ∃ moves t', t.run moves = some t' ∧
      t'.calls.map LogCall.record = t.calls.map LogCall.record ++ records ∧ t'.reports ≠ [] := by
  obtain ⟨logs, t₁, hlogs, hfree, -, hcalls⟩ := exists_run_logs howner hrunning records
  obtain ⟨moves, t', hrun, hsame, hreports⟩ :=
    exists_run_reports (run_steady h hlogs) (by rw [hfree]; rfl)
  exact ⟨_, t', (run_append _ logs moves).trans (Option.bind_eq_some_iff.mpr ⟨_, hlogs, hrun⟩),
    hsame ▸ hcalls, hreports⟩

end Threads

end PriceTime
