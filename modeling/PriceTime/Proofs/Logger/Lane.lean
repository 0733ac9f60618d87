import Mathlib.Logic.Function.Iterate
import PriceTime.Proofs.Channel
import PriceTime.Proofs.Logger.Delivery

/-!
# What a lane delivers

However the steps of a worker fall between those of the others, in the end its outlet has got the
records that the channel of its lane accepted, as if they had been written in one go. The invariant
of a lane ties together what was written, what is still in the channel, what the worker does next and
whether the logger runs: a worker that is about to leave knows that nothing more will come.

* `Lane.Serves`: the invariant of a lane.
* `Lane.Serves.offer`, `Lane.Serves.step`, `Lane.Serves.stop`: what the owner and the worker preserve.
* `Lane.Serves.pending_step`: once the logger has stopped, each step brings the worker nearer to its
  end.
* `Lane.Serves.delivered`: what a lane has delivered when its worker is done.
-/

namespace PriceTime

namespace Lane

variable {lane : Lane} {outlet : Outlet} {running : Bool} {accepted : List Record} {refused : Nat}

theorem offer_eq (lane : Lane) (record : Record) : lane.offer record =
    ((lane.queue.enqueue record).1.isOk, { lane with queue := (lane.queue.enqueue record).2 }) :=
  rfl

theorem finish_eq (lane : Lane) : lane.finish =
    { lane with outlet := lane.outlet.finish.2, worker := .done lane.outlet.finish.1 } := rfl

theorem queue_poll (lane : Lane) : lane.poll.queue = lane.queue.dequeue.2 := by
  unfold poll
  dsimp only
  split
  · simp only [*]
  · split <;> simp only [*]

/-- Only offers are refused. -/
theorem dropped_step (lane : Lane) (running : Bool) :
    (lane.step running).queue.dropped = lane.queue.dropped := by
  unfold step
  split
  · rw [queue_poll]
    rfl
  · rfl
  · split <;> rfl
  · rfl

/-- How far the worker of a lane to `outlet` has come, whose channel has accepted some records and
still holds the last of them: what it does next, what it has made of the outlet, and how many records
it has counted. -/
inductive Stage (outlet : Outlet) (running : Bool) (accepted items : List Record) :
    Worker → Outlet → UInt64 → Prop where
  /-- It has written what the channel does not hold any more. It only leaves a logger that does not
  run. -/
  | working {worker : Worker} {outlet' : Outlet} {written : List Record}
      (hworker : worker.isDone = false) (hwrites : outlet.writes written = some outlet')
      (haccepted : accepted = written ++ items) (hleaving : worker = .leaving → running = false) :
      Stage outlet running accepted items worker outlet' (UInt64.ofNat written.length)
  /-- It has delivered the records, whatever may still be accepted. Only a failure makes it give up a
  logger that runs. -/
  | done {result : Except WorkerFailure Unit} {outlet' : Outlet} {n : Nat}
      (hitems : items.length ≤ accepted.length) (hfailed : running = true → result ≠ .ok ())
      (hdeliver : ∀ more, (running = false → more = []) →
        outlet.deliver (accepted ++ more) = (result, outlet', n)) :
      Stage outlet running accepted items (.done result) outlet' (UInt64.ofNat n)

/-- A lane to `outlet`, whose channel has accepted some records and refused some others. -/
def Serves (outlet : Outlet) (running : Bool) (accepted : List Record) (refused : Nat)
    (lane : Lane) : Prop :=
  ∃ account, lane.queue.Keeps queueSlots account ∧ account.refused = refused ∧
    Stage outlet running accepted account.items lane.worker lane.outlet lane.lines

theorem Stage.polling {items written : List Record} {outlet' : Outlet}
    (hwrites : outlet.writes written = some outlet') (haccepted : accepted = written ++ items) :
    Stage outlet running accepted items .polling outlet' (UInt64.ofNat written.length) :=
  .working rfl hwrites haccepted nofun

theorem serves_ofOutlet (outlet : Outlet) : (ofOutlet outlet).Serves outlet true [] 0 :=
  ⟨{}, Channel.keeps_ofSlots (by decide), rfl, @Stage.polling _ _ _ _ [] _ rfl rfl⟩

namespace Stage

variable {items : List Record} {worker : Worker} {outlet' : Outlet} {lines : UInt64}

theorem length_le (h : Stage outlet running accepted items worker outlet' lines) :
    items.length ≤ accepted.length := by
  cases h with
  | working _ _ haccepted =>
    rw [haccepted, List.length_append]
    omega
  | done hitems => exact hitems

theorem accept (h : Stage outlet true accepted items worker outlet' lines) (record : Record) :
    Stage outlet true (accepted ++ [record]) (items ++ [record]) worker outlet' lines := by
  cases h with
  | working hworker hwrites haccepted hleaving =>
    refine .working hworker hwrites ?_ hleaving
    rw [haccepted, List.append_assoc]
  | done hitems hfailed hdeliver =>
    refine .done (by simpa using hitems) hfailed ?_
    intro more _
    rw [List.append_assoc]
    exact hdeliver _ nofun

theorem stop (h : Stage outlet running accepted items worker outlet' lines) :
    Stage outlet false accepted items worker outlet' lines := by
  cases h with
  | working hworker hwrites haccepted => exact .working hworker hwrites haccepted fun _ => rfl
  | done hitems _ hdeliver =>
    refine .done hitems nofun ?_
    rintro _ hnone
    obtain rfl := hnone rfl
    exact hdeliver [] fun _ => rfl

end Stage

/-! ## The end of a worker -/

/-- How many steps the worker of a stopped logger has before it at most. -/
def pending (lane : Lane) : Nat :=
  match lane.worker with
  | .polling => lane.queue.ring.size + 3
  | .idle => if lane.queue.ring.size = 0 then 2 else lane.queue.ring.size + 5
  | .leaving => if lane.queue.ring.size = 0 then 1 else lane.queue.ring.size + 4
  | .done _ => 0

theorem pending_le (lane : Lane) : lane.pending ≤ lane.queue.ring.size + 5 := by
  unfold pending
  split
  · omega
  · split <;> omega
  · split <;> omega
  · exact Nat.zero_le _

theorem step_of_isDone (hworker : lane.worker.isDone = true) : lane.step running = lane := by
  unfold Lane.step
  split <;> simp_all [Worker.isDone]

theorem run_eq_iterate (lane : Lane) (running : Bool) (n : Nat) :
    lane.run running n = (Lane.step running)^[n] lane := by
  induction n generalizing lane with
  | zero => rfl
  | succ n ih =>
    rw [Lane.run, Function.iterate_succ_apply]
    split
    · rename_i hworker
      rw [step_of_isDone hworker, Function.iterate_fixed (step_of_isDone hworker)]
    · exact ih _

theorem pending_poll {queue : Channel Record} {account : Account Record} {lines : UInt64}
    (h : queue.Keeps queueSlots account) :
    (poll { outlet, queue, worker := .polling, lines }).pending < queue.ring.size + 3 := by
  have hsize : queue.ring.size = account.items.length := h.holds.size_eq
  unfold poll
  dsimp only
  cases hitems : account.items with
  | nil =>
    rw [hitems, List.length_nil] at hsize
    rw [h.dequeue_nil hitems]
    show (if queue.ring.size = 0 then 2 else _) < _
    rw [if_pos hsize]
    omega
  | cons record items =>
    obtain ⟨hitem, hkeeps⟩ := h.dequeue_cons hitems
    have hsize' := hkeeps.holds.size_eq
    rw [hitems, List.length_cons] at hsize
    generalize queue.dequeue = taken at hitem hsize' ⊢
    obtain ⟨item, queue'⟩ := taken
    dsimp only at hitem hsize' ⊢
    subst hitem
    dsimp only
    split
    · show queue'.ring.size + 3 < _
      omega
    · exact Nat.succ_pos _

namespace Serves

/-- A channel that has not accepted as many records as it has room for accepts another one. -/
theorem offer_eq_true (h : lane.Serves outlet running accepted refused)
    (hfew : accepted.length < queueSlots - 1) (record : Record) : (lane.offer record).1 = true := by
  obtain ⟨account, hkeeps, -, hstage⟩ := h
  have hitems := hstage.length_le
  obtain ⟨hanswer, -⟩ := hkeeps.enqueue_room (by omega) record
  rw [offer_eq, hanswer]
  rfl

theorem offer (h : lane.Serves outlet true accepted refused) (record : Record) :
    (lane.offer record).2.Serves outlet true
      (if (lane.offer record).1 then accepted ++ [record] else accepted)
      (if (lane.offer record).1 then refused else refused + 1) := by
  obtain ⟨account, hkeeps, hrefused, hstage⟩ := h
  rw [offer_eq]
  by_cases hfull : account.items.length = queueSlots - 1
  · have hanswer := congrArg Prod.fst (hkeeps.enqueue_full hfull record)
    rw [hanswer]
    exact ⟨_, hkeeps.keeps_refused hfull record, congrArg (· + 1) hrefused, hstage⟩
  · obtain ⟨hanswer, hkeeps'⟩ := hkeeps.enqueue_room hfull record
    rw [hanswer]
    exact ⟨_, hkeeps', hrefused, hstage.accept record⟩

theorem stop (h : lane.Serves outlet running accepted refused) :
    lane.Serves outlet false accepted refused := by
  obtain ⟨account, hkeeps, hrefused, hstage⟩ := h
  exact ⟨account, hkeeps, hrefused, hstage.stop⟩

theorem poll (h : lane.Serves outlet running accepted refused) (hpolling : lane.worker = .polling) :
    lane.poll.Serves outlet running accepted refused := by
  obtain ⟨account, hkeeps, hrefused, hstage⟩ := h
  obtain ⟨outlet', queue, worker, lines⟩ := lane
  dsimp only at hkeeps hstage hpolling
  subst hpolling
  cases hstage with
  | @working _ _ written _ hwrites haccepted =>
    unfold Lane.poll
    dsimp only
    cases hitems : account.items with
    | nil =>
      rw [hkeeps.dequeue_nil hitems]
      exact ⟨account, hkeeps, hrefused, .working rfl hwrites haccepted nofun⟩
    | cons record items =>
      obtain ⟨hitem, hkeeps'⟩ := hkeeps.dequeue_cons hitems
      rw [hitems] at haccepted
      generalize queue.dequeue = taken at hitem hkeeps' ⊢
      obtain ⟨item, queue'⟩ := taken
      dsimp only at hitem hkeeps' ⊢
      subst hitem
      dsimp only
      have hmore : outlet.writes (written ++ [record]) = _ :=
        Outlet.writes_append_singleton hwrites
      generalize hwrite : outlet'.write record = answered at hmore ⊢
      obtain ⟨answer, outlet''⟩ := answered
      cases answer with
      | ok =>
        refine ⟨_, hkeeps', hrefused, ?_⟩
        show Stage _ _ _ _ _ _ (UInt64.ofNat written.length + 1)
        rw [← Channel.ofNat_succ,
          show written.length + 1 = (written ++ [record]).length by simp]
        refine .polling hmore ?_
        rw [haccepted, List.append_assoc]
        rfl
      | error failure =>
        -- whatever comes after a record that cannot be written is not written either
        refine ⟨_, hkeeps', hrefused, .done ?_ nofun ?_⟩
        · rw [haccepted]
          simp
          omega
        · intro more _
          rw [haccepted, List.append_assoc, Outlet.deliver_append hwrites, List.cons_append,
            Outlet.deliver, hwrite]
          simp

theorem step (h : lane.Serves outlet running accepted refused) :
    (lane.step running).Serves outlet running accepted refused := by
  unfold Lane.step
  split
  · exact h.poll (by assumption)
  · rename_i hidle
    obtain ⟨account, hkeeps, hrefused, hstage⟩ := h
    refine ⟨account, hkeeps, hrefused, ?_⟩
    rw [hidle] at hstage
    generalize lane.lines = lines at hstage
    cases hstage with
    | working _ hwrites haccepted =>
      cases running with
      | true => exact .polling hwrites haccepted
      | false => exact .working rfl hwrites haccepted fun _ => rfl
  · rename_i hworker
    obtain ⟨account, hkeeps, hrefused, hstage⟩ := h
    rw [hworker] at hstage
    generalize hlines : lane.lines = lines at hstage
    cases hstage with
    | @working _ _ written _ hwrites haccepted hleaving =>
      obtain rfl : running = false := hleaving rfl
      split
      · rename_i hempty
        -- the worker looked at the flag first, so a channel that is empty now stays empty
        have hitems := hkeeps.holds.isEmpty_iff.mp hempty
        rw [finish_eq, hlines]
        refine ⟨account, hkeeps, hrefused, .done ?_ (absurd · Bool.false_ne_true) ?_⟩
        · rw [hitems]
          exact Nat.zero_le _
        · intro more hmore
          rw [hmore rfl, haccepted, hitems, List.append_nil, Outlet.deliver_append hwrites]
          simp [Outlet.deliver]
      · exact ⟨account, hkeeps, hrefused, .polling hwrites haccepted⟩
  · exact h

/-- Once the logger has stopped, a worker that is not done comes nearer to its end with each step. -/
theorem pending_step (h : lane.Serves outlet false accepted refused)
    (hworker : lane.worker.isDone = false) : (lane.step false).pending < lane.pending := by
  obtain ⟨account, hkeeps, -, -⟩ := h
  obtain ⟨outlet', queue, worker, lines⟩ := lane
  have hsize : queue.ring.size = account.items.length := hkeeps.holds.size_eq
  cases worker with
  | polling => exact pending_poll hkeeps
  | idle =>
    show (if queue.ring.size = 0 then 1 else queue.ring.size + 4) <
      if queue.ring.size = 0 then 2 else queue.ring.size + 5
    split <;> omega
  | leaving =>
    unfold Lane.step
    dsimp only
    split
    · rename_i hempty
      have hitems : account.items = [] := hkeeps.holds.isEmpty_iff.mp hempty
      rw [hitems, List.length_nil] at hsize
      show 0 < if queue.ring.size = 0 then 1 else queue.ring.size + 4
      rw [if_pos hsize]
      exact Nat.one_pos
    · rename_i hempty
      have hitems : queue.ring.size ≠ 0 := by
        rw [hsize]
        exact fun hlength => hempty (hkeeps.holds.isEmpty_iff.mpr (List.length_eq_zero_iff.mp hlength))
      show queue.ring.size + 3 < if queue.ring.size = 0 then 1 else queue.ring.size + 4
      rw [if_neg hitems]
      omega
  | done => cases hworker

theorem dropped_eq (h : lane.Serves outlet running accepted refused) :
    lane.queue.dropped = UInt64.ofNat refused := by
  obtain ⟨account, hkeeps, rfl, -⟩ := h
  exact hkeeps.dropped_eq

/-- What a lane has delivered when its worker is done. -/
theorem delivered (h : lane.Serves outlet running accepted refused)
    (hdone : lane.worker.isDone = true) :
    ∃ result n, lane.worker = .done result ∧ lane.lines = UInt64.ofNat n ∧
      outlet.deliver accepted = (result, lane.outlet, n) ∧ (running = true → result ≠ .ok ()) := by
  obtain ⟨account, -, -, hstage⟩ := h
  obtain ⟨outlet', queue, worker, lines⟩ := lane
  cases hstage with
  | working hworker => exact absurd hdone (hworker ▸ Bool.false_ne_true)
  | done _ hfailed hdeliver =>
    refine ⟨_, _, rfl, rfl, ?_, hfailed⟩
    rw [← List.append_nil accepted]
    exact hdeliver [] fun _ => rfl

/-- A worker of a stopped logger that gets enough steps is done. -/
theorem isDone_iterate (h : lane.Serves outlet false accepted refused) {n : Nat}
    (hpending : lane.pending ≤ n) : ((Lane.step false)^[n] lane).worker.isDone = true := by
  induction n generalizing lane with
  | zero =>
    by_contra hworker
    have := h.pending_step (Bool.eq_false_iff.mpr hworker)
    omega
  | succ n ih =>
    by_cases hworker : lane.worker.isDone = true
    · rw [Function.iterate_fixed (step_of_isDone hworker)]
      exact hworker
    · rw [Function.iterate_succ_apply]
      have := h.pending_step (Bool.eq_false_iff.mpr hworker)
      exact ih h.step (by omega)

theorem size_lt (h : lane.Serves outlet running accepted refused) :
    lane.queue.ring.size < queueSlots := by
  obtain ⟨account, hkeeps, -, -⟩ := h
  have hle := hkeeps.holds.length_le_capacity
  rw [hkeeps.capacity_eq, ← hkeeps.holds.size_eq] at hle
  exact Nat.lt_of_le_of_lt hle (by decide)

theorem isDone_drain (h : lane.Serves outlet false accepted refused) :
    lane.drain.worker.isDone = true := by
  rw [drain, run_eq_iterate]
  exact h.isDone_iterate lane.pending_le

/-- More steps than needed make no difference. -/
theorem iterate_eq_drain (h : lane.Serves outlet false accepted refused) {n : Nat}
    (hsteps : lane.queue.ring.size + 5 ≤ n) : (Lane.step false)^[n] lane = lane.drain := by
  have hdone := h.isDone_drain
  obtain ⟨more, rfl⟩ := Nat.exists_eq_add_of_le' hsteps
  rw [Function.iterate_add_apply, ← run_eq_iterate lane]
  exact Function.iterate_fixed (step_of_isDone hdone) more

end Serves

end Lane

end PriceTime
