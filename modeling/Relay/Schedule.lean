import Relay.Router.Step

/-!
Running a system by itself: tasks that can move wait in line, each moves until it has to wait, and
when the line is empty the clock goes to the next timer. Every run is a run in the sense of
`State.Reachable`: the schedule only chooses among the steps that are possible.
-/

namespace Relay

/-- A system and the line of its tasks that can move. -/
structure Schedule where
  state : State
  /-- The tasks that can move, in the order in which they may. -/
  line : List Nat := []
  /-- The tasks that have moved or waited, the one that has waited longest first. -/
  rested : List Nat := []
  /-- The workers that have been told that their stream has ended. -/
  told : List Nat := []

namespace Schedule

def branch (s : State) (t : Nat) : Branch :=
  match s.tasks[t]? with
  | some (.run v) => (s.branches v).headD .shutdown
  | _ => .shutdown

/-- All tasks, the one that has waited longest first; new ones come last. -/
def byRest (s : Schedule) : List Nat :=
  s.rested ++ List.range' s.rested.length (s.state.tasks.length - s.rested.length)

/-- Whether a task is a worker whose stream has ended. -/
def hasEnded (s : State) (t : Nat) : Bool :=
  match s.tasks[t]? with
  | some (.worker w) =>
    (s.world.exchange.subscriptions[w.subscription]?).any (s.world.exchange.hasEnded s.world.tokens ·)
  | _ => false

/-- Puts the tasks that can move and are not in line behind the others. Workers wait for the end of
their stream from their beginning on, so those whose stream has just ended come first, in the order of
their beginning; of the others, the one that has waited longest is the first. -/
def wake (s : Schedule) : Schedule :=
  let all := s.byRest
  let told := (List.range s.state.tasks.length).filter (hasEnded s.state ·)
  let news := told.filter (!s.told.contains ·)
  let woken := (news ++ all.filter (!news.contains ·)).filter fun t =>
    s.state.isReady t && !s.line.contains t
  { s with line := s.line ++ woken, rested := all, told }

def rest (s : Schedule) (t : Nat) : Schedule := { s with rested := s.byRest.erase t ++ [t] }

/-- One step of the first in line, which goes if it cannot move any more. -/
def step (s : Schedule) : Schedule :=
  match s.line with
  | [] => s
  | t :: others =>
    if s.state.isReady t then
      let s := { s with state := s.state.turn t (branch s.state t) }
      if s.state.isReady t then s.wake else wake (rest { s with line := others } t)
    else { s with line := others }

/-- Runs until no task can move, for at most `fuel` steps. -/
def settle : Nat → Schedule → Schedule
  | 0, s => s
  | fuel + 1, s => if s.line.isEmpty then s else settle fuel s.step

/-- The timer that comes first among those that have not come. -/
def nextTimer (s : State) : Option Timer :=
  s.timers.foldl (fun best t =>
    match best with
    | none => some t
    | some b => if t.due < b.due then some t else best) none

/-- Lets the clock go to a time, and puts in line the tasks whose timers have come by then, in the
order in which they were set. -/
def moveClock (s : Schedule) (time : Nat) : Schedule :=
  let state := s.state.apply (.tick (time - s.state.world.clock))
  let due := (List.range state.tasks.length).filterMap fun t =>
    match state.tasks[t]?.bind (·.timer?) with
    | some timer => if timer.due ≤ time then some (timer.order, t) else none
    | none => none
  let due := (due.mergeSort fun a b => a.1 ≤ b.1).map (·.2)
  wake { s with state, line := s.line ++ due.filter fun t => !s.line.contains t }

/-- Runs until a time, if there is a limit, for at most `fuel` rounds: from timer to timer, and at each
until no task can move. It stops early as soon as `done` holds of a settled system. -/
def runUntil (done : State → Bool) (limit : Option Nat) : Nat → Schedule → Schedule
  | 0, s => s
  | fuel + 1, s =>
    let s := settle fuel s.wake
    if done s.state then s
    else
      match (nextTimer s.state).map (·.due) with
      | some due =>
        if limit.all (due ≤ ·) then runUntil done limit fuel (s.moveClock due)
        else s.moveClock (limit.getD due)
      | none => s.moveClock (limit.getD s.state.world.clock)

end Schedule

end Relay
