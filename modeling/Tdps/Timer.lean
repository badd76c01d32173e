import Mathlib.Data.BitVec
import Mathlib.Logic.Function.Basic

/-!
# The timers of the kernel (`timer.c`, `clock.c`)

The active timers are on one list, ordered by a comparison of 32-bit tick counts that wrap around after
49 days. A thread that sleeps or waits with a time limit starts its timer; the tick interrupt runs
`rt_timer_check`, which takes the timers that are due from the head of the list.

The state is over an arbitrary type `τ` of timer objects. A timeout function is what `rt_timer_check`
puts out; it does not itself start or stop timers (`_thread_timeout` does not).
-/

namespace Tdps

abbrev RtTick : Type := BitVec 32

def RT_TICK_MAX : RtTick := 0xffffffff

/-- Error codes; the functions return them negated. -/
inductive RtErr where
  | RT_EOK
  | RT_ERROR
  | RT_ETIMEOUT
  | RT_EFULL
deriving DecidableEq, Repr

/-- `struct rt_timer` with the two flags that are read. -/
structure RtTimer where
  init_tick : RtTick
  timeout_tick : RtTick
  /-- `RT_TIMER_FLAG_ACTIVATED`. -/
  activated : Bool
  /-- `RT_TIMER_FLAG_PERIODIC`. -/
  periodic : Bool
deriving DecidableEq, Repr

/-- `_timer_init`. -/
def RtTimer.init (time : RtTick) (periodic : Bool) : RtTimer := ⟨time, 0, false, periodic⟩

/-- `rt_tick`, the timer objects and `_timer_list[0]` (`RT_TIMER_SKIP_LIST_LEVEL` is 1). -/
structure Timers (τ : Type) where
  rt_tick : RtTick
  timer : τ → RtTimer
  timer_list : List τ

namespace Timers

variable {τ : Type} [DecidableEq τ]

def modify (s : Timers τ) (t : τ) (f : RtTimer → RtTimer) : Timers τ :=
  { s with timer := Function.update s.timer t (f (s.timer t)) }

/-- `_timer_remove`. -/
def remove (s : Timers τ) (t : τ) : Timers τ := { s with timer_list := s.timer_list.erase t }

/-- The loop of `rt_timer_start` that looks for the place of `t`, and the insertion there. -/
def insert (timer : τ → RtTimer) (t : τ) : List τ → List τ
  | [] => [t]
  | p :: l =>
    let ahead := (timer p).timeout_tick - (timer t).timeout_tick
    if ahead = 0 then p :: insert timer t l
    else if ahead < RT_TICK_MAX / 2 then t :: p :: l
    else p :: insert timer t l

/-- `rt_timer_start`. -/
def rtTimerStart (s : Timers τ) (t : τ) : Timers τ :=
  let s := (s.remove t).modify t fun timer =>
    { timer with activated := false, timeout_tick := s.rt_tick + timer.init_tick }
  let s := { s with timer_list := insert s.timer t s.timer_list }
  s.modify t fun timer => { timer with activated := true }

/-- `rt_timer_stop`. -/
def rtTimerStop (s : Timers τ) (t : τ) : Timers τ × RtErr :=
  if (s.timer t).activated then
    ((s.remove t).modify t fun timer => { timer with activated := false }, .RT_EOK)
  else (s, .RT_ERROR)

/-- `rt_timer_detach`. -/
def rtTimerDetach (s : Timers τ) (t : τ) : Timers τ :=
  (s.remove t).modify t fun timer => { timer with activated := false }

/-- The commands of `rt_timer_control` that change a timer. -/
inductive Control where
  | RT_TIMER_CTRL_SET_TIME (time : RtTick)
  | RT_TIMER_CTRL_SET_ONESHOT
  | RT_TIMER_CTRL_SET_PERIODIC
deriving DecidableEq, Repr

/-- `rt_timer_control`. -/
def rtTimerControl (s : Timers τ) (t : τ) : Control → Timers τ
  | .RT_TIMER_CTRL_SET_TIME time => s.modify t fun timer => { timer with init_tick := time }
  | .RT_TIMER_CTRL_SET_ONESHOT => s.modify t fun timer => { timer with periodic := false }
  | .RT_TIMER_CTRL_SET_PERIODIC => s.modify t fun timer => { timer with periodic := true }

/-- The body of the loop of `rt_timer_check` for a timer that is due. -/
def expire (s : Timers τ) (t : τ) : Timers τ :=
  let s := s.remove t
  let s := if (s.timer t).periodic then s
    else s.modify t fun timer => { timer with activated := false }
  -- `timeout_func` runs here
  if (s.timer t).periodic && (s.timer t).activated then
    (s.modify t fun timer => { timer with activated := false }).rtTimerStart t
  else s

/-- `rt_timer_check`, at most `fuel` rounds of its loop: the timers whose timeout functions it calls, in
order, or `none` if the loop has not ended by then. -/
def rtTimerCheck : ℕ → Timers τ → Option (Timers τ × List τ)
  | 0, _ => none
  | fuel + 1, s =>
    match s.timer_list with
    | [] => some (s, [])
    | t :: _ =>
      if s.rt_tick - (s.timer t).timeout_tick < RT_TICK_MAX / 2 then
        (rtTimerCheck fuel (s.expire t)).map fun r => (r.1, t :: r.2)
      else some (s, [])

/-- `++ rt_tick`. -/
def advance (s : Timers τ) : Timers τ := { s with rt_tick := s.rt_tick + 1 }

/-- What `rt_tick_increase` does to the timers. No timer has its timeout twice in one check, so the
length of the list bounds the rounds of the loop. -/
def tick (s : Timers τ) : Timers τ × List τ :=
  (rtTimerCheck (s.timer_list.length + 1) s.advance).getD (s.advance, [])

/-- A call of the kernel's timer functions, or a tick. -/
inductive Call (τ : Type) where
  | control (t : τ) (cmd : Control)
  | start (t : τ)
  | stop (t : τ)
  | tick
deriving DecidableEq

/-- The timer that a call is about. -/
def Call.timer : Call τ → Option τ
  | control t _ => some t
  | start t => some t
  | stop t => some t
  | tick => none

/-- A step, with the timers whose timeout functions are called. -/
def step (s : Timers τ) : Call τ → Timers τ × List τ
  | .control t cmd => (s.rtTimerControl t cmd, [])
  | .start t => (s.rtTimerStart t, [])
  | .stop t => ((s.rtTimerStop t).1, [])
  | .tick => s.tick

/-- The timer objects after `rt_timer_init` with these times and flags, at any tick count. -/
def init (rt_tick : RtTick) (time : τ → RtTick) (periodic : τ → Bool) : Timers τ :=
  ⟨rt_tick, fun t => RtTimer.init (time t) (periodic t), []⟩

/-- What the callers keep: a time below `RT_TICK_MAX / 2`, as `rt_timer_init` and `rt_timer_control`
assert, and no periodic timer with time 0, which `rt_timer_check` would restart for ever. -/
def Allowed (s : Timers τ) : Call τ → Prop
  | .control t (.RT_TIMER_CTRL_SET_TIME time) =>
    time < RT_TICK_MAX / 2 ∧ ((s.timer t).periodic = true → time ≠ 0)
  | .control t .RT_TIMER_CTRL_SET_PERIODIC => (s.timer t).init_tick ≠ 0
  | _ => True

instance (s : Timers τ) : (b : Call τ) → Decidable (Allowed s b)
  | .control _ (.RT_TIMER_CTRL_SET_TIME _) => inferInstanceAs (Decidable (_ ∧ _))
  | .control _ .RT_TIMER_CTRL_SET_ONESHOT => isTrue trivial
  | .control _ .RT_TIMER_CTRL_SET_PERIODIC => inferInstanceAs (Decidable (_ ≠ _))
  | .start _ => isTrue trivial
  | .stop _ => isTrue trivial
  | .tick => isTrue trivial

end Timers

end Tdps
