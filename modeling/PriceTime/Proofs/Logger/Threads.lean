import PriceTime.Logger.Basic

/-!
# The threads of a logger

A logger is used by its owner, and each of its lanes has a worker of its own. What one of them does
to a queue, to the flag or to an outlet happens at once, and what others do may come between any two
such acts: a record may be written before the next lane is asked for room, and a worker may go on
while the owner waits for another one. All of them see the acts in one order; how a queue keeps to
that between two processors is not told here.

* `Threads`, `Threads.move`: a logger with its threads, and one act of one of them.
* `Threads.Effect`: all that an act can do.
* `Threads.run`: a schedule, which is any list of acts, as long as each of them is possible.
-/

namespace PriceTime

/-- A call of the owner that logs a record: what the lanes asked so far answered, and whether none
of them refused. -/
structure LogCall where
  record : Record
  answers : List Bool := []
  accepted : Bool := true

/-- The next lane answers. -/
def LogCall.hear (call : LogCall) (answer : Bool) : LogCall where
  record := call.record
  answers := call.answers ++ [answer]
  accepted := call.accepted && answer

/-- What the owner is busy with. -/
inductive Owner where
  | free
  /-- It copies a record into the lanes, one after the other. -/
  | logging (call : LogCall)
  /-- It waits for the workers, one after the other, and enters what they wrote, or the first failure
  among them. -/
  | stopping (stats : LoggerStats) (error? : Option LoggerError)

/-- The call that the owner is busy with. -/
def Owner.call? : Owner → Option LogCall
  | logging call => some call
  | _ => none

/-- A logger with its threads. -/
structure Threads where
  logger : Logger
  owner : Owner := .free
  /-- The calls that returned. -/
  calls : List LogCall := []
  /-- How many workers the owner has waited for. -/
  joined : Nat := 0
  /-- What the stops reported. -/
  reports : List (Except LoggerError LoggerStats) := []

/-- An act of a thread. -/
inductive Move where
  /-- The owner begins to log a record. -/
  | log (record : Record)
  /-- The owner offers its record to the next lane. -/
  | offer
  /-- The worker of a lane takes a step. -/
  | work (place : Nat)
  /-- The owner says that the logger does not run any more. -/
  | stop
  /-- The owner notes that the next worker is done. -/
  | join
  /-- The call of the owner returns. -/
  | answer

/-- Whether an act is a step of the worker of the lane at a place. -/
def Move.isWork (place : Nat) : Move → Bool
  | work place' => place' == place
  | _ => false

namespace Threads

/-- The calls that logged a record, the one that has not returned yet among them. -/
def history (t : Threads) : List LogCall :=
  t.calls ++ t.owner.call?.toList

/-- The logger once the worker of the lane at a place has taken a step. -/
def worked (logger : Logger) (place : Nat) : Logger :=
  { logger with lanes := logger.lanes.modify place (Lane.step logger.running) }

/-- The owner waits for the next worker. -/
def wait (t : Threads) (stats : LoggerStats) (error? : Option LoggerError) (lane : Lane) : Threads where
  logger := t.logger
  owner := .stopping
    (if (Logger.laneError? lane).isSome then stats else Logger.countLane stats lane)
    (error?.or (Logger.laneError? lane))
  calls := t.calls
  joined := t.joined + 1
  reports := t.reports

/-- What a stop reports. -/
def outcome (stats : LoggerStats) : Option LoggerError → Except LoggerError LoggerStats
  | some error => .error error
  | none => .ok stats

/-- One act, if it is possible. A logger that was stopped logs nothing more. -/
def move (t : Threads) : Move → Option Threads
  | .log record =>
    match t.owner with
    | .free => if t.logger.running then some { t with owner := .logging { record } } else none
    | _ => none
  | .offer =>
    match t.owner with
    | .logging call =>
      match t.logger.lanes[call.answers.length]? with
      | some lane =>
        let (answer, lane) := lane.offer call.record
        let lanes := t.logger.lanes.set call.answers.length lane
        some { t with logger := { t.logger with lanes }, owner := .logging (call.hear answer) }
      | none => none
    | _ => none
  | .work place => some { t with logger := worked t.logger place }
  | .stop =>
    match t.owner with
    | .free => some { t with
        logger := { t.logger with running := false }
        owner := .stopping { dropped := t.logger.dropped } none }
    | _ => none
  | .join =>
    match t.owner with
    | .stopping stats error? =>
      match t.logger.lanes[t.joined]? with
      | some lane => if lane.worker.isDone then some (t.wait stats error? lane) else none
      | none => none
    | _ => none
  | .answer =>
    match t.owner with
    | .free => none
    | .logging call =>
      if call.answers.length = t.logger.lanes.length then
        some { t with owner := .free, calls := t.calls ++ [call] }
      else none
    | .stopping stats error? =>
      if t.joined = t.logger.lanes.length then
        some { t with owner := .free, reports := t.reports ++ [outcome stats error?] }
      else none

/-- All that an act can do. -/
inductive Effect (t : Threads) : Move → Threads → Prop where
  | log {record : Record} (hrunning : t.logger.running = true) (howner : t.owner = .free) :
      Effect t (.log record) { t with owner := .logging { record } }
  | offer {call : LogCall} {lane : Lane} (howner : t.owner = .logging call)
      (hlane : t.logger.lanes[call.answers.length]? = some lane) :
      Effect t .offer { t with
        logger := { t.logger with
          lanes := t.logger.lanes.set call.answers.length (lane.offer call.record).2 }
        owner := .logging (call.hear (lane.offer call.record).1) }
  | work {place : Nat} : Effect t (.work place) { t with logger := worked t.logger place }
  | stop (howner : t.owner = .free) : Effect t .stop { t with
      logger := { t.logger with running := false }
      owner := .stopping { dropped := t.logger.dropped } none }
  | join {stats : LoggerStats} {error? : Option LoggerError} {lane : Lane}
      (howner : t.owner = .stopping stats error?) (hlane : t.logger.lanes[t.joined]? = some lane)
      (hdone : lane.worker.isDone = true) : Effect t .join (t.wait stats error? lane)
  | logged {call : LogCall} (howner : t.owner = .logging call)
      (hall : call.answers.length = t.logger.lanes.length) :
      Effect t .answer { t with owner := .free, calls := t.calls ++ [call] }
  | stopped {stats : LoggerStats} {error? : Option LoggerError}
      (howner : t.owner = .stopping stats error?) (hall : t.joined = t.logger.lanes.length) :
      Effect t .answer { t with owner := .free, reports := t.reports ++ [outcome stats error?] }

variable {t t' : Threads} {move : Move}

theorem effect_of_move (h : t.move move = some t') : t.Effect move t' := by
  cases move with
  | log record =>
    simp only [Threads.move] at h
    split at h
    · split at h
      · cases h
        exact .log (by assumption) (by assumption)
      · cases h
    · cases h
  | offer =>
    simp only [Threads.move] at h
    split at h
    · split at h
      · cases h
        exact .offer (by assumption) (by assumption)
      · cases h
    · cases h
  | work place =>
    cases h
    exact .work
  | stop =>
    simp only [Threads.move] at h
    split at h
    · cases h
      exact .stop (by assumption)
    · cases h
  | join =>
    simp only [Threads.move] at h
    split at h
    · split at h
      · split at h
        · cases h
          exact .join (by assumption) (by assumption) (by assumption)
        · cases h
      · cases h
    · cases h
  | answer =>
    simp only [Threads.move] at h
    split at h
    · cases h
    · split at h
      · cases h
        exact .logged (by assumption) (by assumption)
      · cases h
    · split at h
      · cases h
        exact .stopped (by assumption) (by assumption)
      · cases h

theorem Effect.move_eq (h : t.Effect move t') : t.move move = some t' := by
  cases h with
  | log hrunning howner => simp only [Threads.move, howner, hrunning, if_true]
  | offer howner hlane => simp only [Threads.move, howner, hlane]
  | work => rfl
  | stop howner => simp only [Threads.move, howner]
  | join howner hlane hdone => simp only [Threads.move, howner, hlane, hdone, if_true]
  | logged howner hall => simp only [Threads.move, howner, hall, if_true]
  | stopped howner hall => simp only [Threads.move, howner, hall, if_true]

/-- One act after the other, if each of them is possible. -/
def run (t : Threads) : List Move → Option Threads
  | [] => some t
  | move :: moves => (t.move move).bind fun t => t.run moves

theorem run_cons {moves : List Move} (h : t.Effect move t') :
    t.run (move :: moves) = t'.run moves := by
  rw [run, h.move_eq, Option.bind_some]

theorem run_append (t : Threads) (moves more : List Move) :
    t.run (moves ++ more) = (t.run moves).bind fun t => t.run more := by
  induction moves generalizing t with
  | nil => rfl
  | cons move moves ih =>
    rw [List.cons_append, run, run, Option.bind_assoc]
    exact congrArg _ (funext ih)

/-- What every act preserves, a schedule preserves. -/
theorem run_induction {p : Threads → Prop} (hp : ∀ {t t' move}, p t → t.Effect move t' → p t')
    {moves : List Move} (h : p t) (hrun : t.run moves = some t') : p t' := by
  induction moves generalizing t with
  | nil =>
    cases hrun
    exact h
  | cons move moves ih =>
    obtain ⟨t₁, hmove, hrest⟩ := Option.bind_eq_some_iff.mp hrun
    exact ih (hp h (effect_of_move hmove)) hrest

end Threads

end PriceTime
