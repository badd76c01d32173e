import Mathlib.Data.List.FinRange
import Mathlib.Data.List.Sort
import Tdps.Board
import Tdps.Timer

/-!
# Threads and semaphores of the kernel (`scheduler.c`, `thread.c`, `ipc.c`, `clock.c`)

The scheduler keeps the ready threads in one list for each priority and a bit mask of the lists that are
not empty. A thread that waits for a semaphore is on the semaphore's list, and its timer is on the timer
list if it waits with a time limit; a thread that sleeps is on the timer list alone.

A step is what runs with the interrupts disabled. Between two steps interrupt handlers can come in: the
tick, and handlers that release a semaphore. So a thread can be resumed, and another one switched to,
between the step in which a thread suspends itself and its call of `rt_schedule`. `pc` says where each
thread is in its call of the kernel, `irq` what the interrupt handlers have left to do.

Threads and semaphores are arbitrary types `τ` and `ς`.
-/

namespace Tdps

/-- `RT_THREAD_PRIORITY_MAX`. -/
def RT_THREAD_PRIORITY_MAX : ℕ := 32

instance : NeZero RT_THREAD_PRIORITY_MAX := ⟨Nat.succ_ne_zero 31⟩

/-- A thread's priority; 0 is the highest. -/
abbrev Priority : Type := Fin RT_THREAD_PRIORITY_MAX

/-- `stat & RT_THREAD_STAT_MASK`. -/
inductive ThreadStat where
  | init
  | ready
  | suspend
  | running
  | close
deriving DecidableEq, Repr

/-- `struct rt_thread`; its timer is in `Timers`. -/
structure RtThread where
  stat : ThreadStat
  /-- `RT_THREAD_STAT_YIELD`. -/
  yield : Bool
  current_priority : Priority
  init_tick : RtTick
  remaining_tick : RtTick
  error : RtErr
deriving DecidableEq, Repr

inductive IpcFlag where
  /-- `RT_IPC_FLAG_FIFO`. -/
  | fifo
  /-- `RT_IPC_FLAG_PRIO`. -/
  | prio
deriving DecidableEq, Repr

/-- `struct rt_semaphore`. -/
structure RtSem (τ : Type) where
  value : ℕ
  suspend_thread : List τ
  flag : IpcFlag
deriving DecidableEq, Repr

namespace Kernel

/-- The calls in which a thread calls `rt_schedule`. -/
inductive Call (ς : Type) where
  | take (s : ς)
  | sleep
  | exit
  /-- A call that is over when `rt_schedule` returns. -/
  | other
deriving DecidableEq, Repr

/-- Where a thread is. -/
inductive Pc (ς : Type) where
  /-- In its own code. -/
  | user
  /-- Before `rt_schedule`. -/
  | schedule (c : Call ς)
  /-- `rt_schedule` returns as soon as the thread runs. -/
  | back (c : Call ς)
deriving DecidableEq, Repr

/-- What an interrupt handler has left to do. -/
inductive Irq where
  | schedule
  | timerCheck
deriving DecidableEq, Repr

/-- What a step shows to the outside. -/
inductive Event (τ ς : Type) where
  /-- `rt_sem_take` returns `RT_EOK`. -/
  | took (t : τ) (s : ς)
  /-- `rt_sem_take` returns `-RT_ETIMEOUT`. -/
  | timedOut (t : τ) (s : ς)
  /-- `rt_sem_release` has given a unit. -/
  | released (s : ς)
  /-- `rt_sem_release` returns `-RT_EFULL`. -/
  | full (s : ς)
  /-- `rt_tick` is increased. -/
  | tick
deriving DecidableEq, Repr

end Kernel

structure Kernel (τ ς : Type) where
  thread : τ → RtThread
  timers : Timers τ
  rt_thread_priority_table : Priority → List τ
  rt_thread_ready_priority_group : BitVec 32
  rt_current_thread : τ
  rt_scheduler_lock_nest : ℕ
  sem : ς → RtSem τ
  /-- The idle thread. -/
  idle : τ
  pc : τ → Kernel.Pc ς
  irq : List Kernel.Irq

namespace Kernel

variable {τ ς : Type} [DecidableEq τ] [DecidableEq ς]

def modifyThread (k : Kernel τ ς) (t : τ) (f : RtThread → RtThread) : Kernel τ ς :=
  { k with thread := Function.update k.thread t (f (k.thread t)) }

def setPc (k : Kernel τ ς) (t : τ) (pc : Pc ς) : Kernel τ ς :=
  { k with pc := Function.update k.pc t pc }

/-! ## The ready queues -/

/-- `rt_list_remove(&(thread->tlist))`, whatever list the thread is on. -/
def listRemove (k : Kernel τ ς) (t : τ) : Kernel τ ς :=
  { k with
    rt_thread_priority_table := fun p => (k.rt_thread_priority_table p).erase t
    sem := fun s => { k.sem s with suspend_thread := (k.sem s).suspend_thread.erase t } }

/-- `number_mask`. -/
def numberMask (p : Priority) : BitVec 32 := 1 <<< p.val

/-- `rt_schedule_remove_thread`. -/
def rtScheduleRemoveThread (k : Kernel τ ς) (t : τ) : Kernel τ ς :=
  let k := k.listRemove t
  let p := (k.thread t).current_priority
  { k with
    rt_thread_ready_priority_group :=
      if k.rt_thread_priority_table p = [] then k.rt_thread_ready_priority_group &&& ~~~ numberMask p
      else k.rt_thread_ready_priority_group }

/-- `rt_schedule_insert_thread`. -/
def rtScheduleInsertThread (k : Kernel τ ς) (t : τ) : Kernel τ ς :=
  if t = k.rt_current_thread then k.modifyThread t fun thread => { thread with stat := .running }
  else
    let k := k.modifyThread t fun thread => { thread with stat := .ready }
    let p := (k.thread t).current_priority
    { k with
      rt_thread_priority_table :=
        Function.update k.rt_thread_priority_table p (k.rt_thread_priority_table p ++ [t])
      rt_thread_ready_priority_group := k.rt_thread_ready_priority_group ||| numberMask p }

/-- `__rt_ffs(value) - 1`: the lowest bit that is set. -/
def ffs (value : BitVec 32) : Option Priority :=
  (List.finRange RT_THREAD_PRIORITY_MAX).find? fun p => value.getLsbD p

/-- `_scheduler_get_highest_priority_thread`; `none` if the mask is 0. -/
def getHighestPriorityThread (k : Kernel τ ς) : Option (τ × Priority) :=
  match ffs k.rt_thread_ready_priority_group with
  | none => none
  | some p => (k.rt_thread_priority_table p).head?.map fun t => (t, p)

/-- `rt_schedule`. -/
def rtSchedule (k : Kernel τ ς) : Kernel τ ς :=
  if k.rt_scheduler_lock_nest ≠ 0 then k
  else
    match k.getHighestPriorityThread with
    | none => k
    | some (highest, highest_ready_priority) =>
      let from_thread := k.rt_current_thread
      let thread := k.thread from_thread
      let keep := thread.stat = .running ∧
        (thread.current_priority < highest_ready_priority ∨
          thread.current_priority = highest_ready_priority ∧ thread.yield = false)
      let to_thread := if keep then from_thread else highest
      let need_insert_from_thread := thread.stat = .running ∧ ¬ keep
      let k := if thread.stat = .running then
          k.modifyThread from_thread fun thread => { thread with yield := false }
        else k
      if to_thread ≠ from_thread then
        let k := { k with rt_current_thread := to_thread }
        let k := if need_insert_from_thread then k.rtScheduleInsertThread from_thread else k
        (k.rtScheduleRemoveThread to_thread).modifyThread to_thread fun thread =>
          { thread with stat := .running }
      else
        (k.rtScheduleRemoveThread from_thread).modifyThread from_thread fun thread =>
          { thread with stat := .running }

/-! ## Threads -/

/-- `rt_thread_suspend`. -/
def rtThreadSuspend (k : Kernel τ ς) (t : τ) : Kernel τ ς :=
  if (k.thread t).stat ≠ .ready ∧ (k.thread t).stat ≠ .running then k
  else
    let k := (k.rtScheduleRemoveThread t).modifyThread t fun thread => { thread with stat := .suspend }
    { k with timers := (k.timers.rtTimerStop t).1 }

/-- `rt_thread_resume`. -/
def rtThreadResume (k : Kernel τ ς) (t : τ) : Kernel τ ς :=
  if (k.thread t).stat ≠ .suspend then k
  else
    let k := k.listRemove t
    let k := { k with timers := (k.timers.rtTimerStop t).1 }
    k.rtScheduleInsertThread t

/-- `_thread_timeout`. -/
def threadTimeout (k : Kernel τ ς) (t : τ) : Kernel τ ς :=
  let k := k.modifyThread t fun thread => { thread with error := .RT_ETIMEOUT }
  ((k.listRemove t).rtScheduleInsertThread t).rtSchedule

/-- Setting and starting a thread's timer. -/
def startTimer (k : Kernel τ ς) (t : τ) (time : RtTick) : Kernel τ ς :=
  let timers := k.timers.rtTimerControl t (.RT_TIMER_CTRL_SET_TIME time)
  { k with timers := timers.rtTimerStart t }

/-- `rt_thread_startup`, up to its call of `rt_schedule`. -/
def rtThreadStartup (k : Kernel τ ς) (t : τ) : Kernel τ ς :=
  (k.modifyThread t fun thread => { thread with stat := .suspend, yield := false }).rtThreadResume t

/-- `rt_thread_yield`. -/
def rtThreadYield (k : Kernel τ ς) : Kernel τ ς :=
  (k.modifyThread k.rt_current_thread fun thread =>
    { thread with remaining_tick := thread.init_tick, yield := true }).rtSchedule

/-- `rt_thread_sleep`, up to its call of `rt_schedule`. -/
def rtThreadSleep (k : Kernel τ ς) (tick : RtTick) : Kernel τ ς :=
  let t := k.rt_current_thread
  let k := k.modifyThread t fun thread => { thread with error := .RT_EOK }
  (k.rtThreadSuspend t).startTimer t tick

/-- `_thread_exit`, up to its call of `rt_schedule`. -/
def threadExit (k : Kernel τ ς) : Kernel τ ς :=
  let t := k.rt_current_thread
  let k := k.rtScheduleRemoveThread t
  let k := { k with timers := k.timers.rtTimerDetach t }
  k.modifyThread t fun thread => { thread with stat := .close, yield := false }

/-! ## Semaphores -/

/-- Where `_ipc_list_suspend` puts the thread on the list. -/
def ipcListInsert (k : Kernel τ ς) (t : τ) (list : List τ) : IpcFlag → List τ
  | .fifo => list ++ [t]
  | .prio =>
    list.orderedInsert
      (fun t u => (k.thread t).current_priority < (k.thread u).current_priority) t

/-- `_ipc_list_suspend`. -/
def ipcListSuspend (k : Kernel τ ς) (s : ς) (t : τ) : Kernel τ ς :=
  let k := k.rtThreadSuspend t
  let list := k.ipcListInsert t (k.sem s).suspend_thread (k.sem s).flag
  { k with sem := Function.update k.sem s { k.sem s with suspend_thread := list } }

/-- `rt_sem_take`, up to its call of `rt_schedule`, or to its return with an event. -/
def rtSemTake (k : Kernel τ ς) (s : ς) (time : Int32) : Kernel τ ς × Option (Event τ ς) :=
  let t := k.rt_current_thread
  if 0 < (k.sem s).value then
    ({ k with sem := Function.update k.sem s { k.sem s with value := (k.sem s).value - 1 } },
      some (.took t s))
  else if time = 0 then (k, some (.timedOut t s))
  else
    let k := k.modifyThread t fun thread => { thread with error := .RT_EOK }
    let k := k.ipcListSuspend s t
    let k := if 0 < time then k.startTimer t time.toBitVec else k
    (k, none)

/-- `rt_sem_release`, up to its call of `rt_schedule`, which it makes if the flag is `true`. -/
def rtSemRelease (k : Kernel τ ς) (s : ς) : Kernel τ ς × Bool × Event τ ς :=
  match (k.sem s).suspend_thread with
  | t :: _ => (k.rtThreadResume t, true, .released s)
  | [] =>
    if (k.sem s).value < RT_SEM_VALUE_MAX then
      ({ k with sem := Function.update k.sem s { k.sem s with value := (k.sem s).value + 1 } },
        false, .released s)
    else (k, false, .full s)

/-! ## The tick -/

/-- `rt_tick_increase` up to its first call: what it does to the current thread's time slice. -/
def rtTickIncrease (k : Kernel τ ς) : Kernel τ ς :=
  let k := { k with timers := k.timers.advance }
  let t := k.rt_current_thread
  let k := k.modifyThread t fun thread => { thread with remaining_tick := thread.remaining_tick - 1 }
  if (k.thread t).remaining_tick = 0 then
    let k := k.modifyThread t fun thread =>
      { thread with remaining_tick := thread.init_tick, yield := true }
    { k with irq := .schedule :: .timerCheck :: k.irq }
  else { k with irq := .timerCheck :: k.irq }

/-- `rt_timer_check`. The timeout functions do not touch the timers, so they can run after its loop. -/
def rtTimerCheck (k : Kernel τ ς) : Kernel τ ς :=
  match Timers.rtTimerCheck (k.timers.timer_list.length + 1) k.timers with
  | none => k
  | some (timers, timedout) => timedout.foldl threadTimeout { k with timers := timers }

/-! ## Steps -/

inductive Choice (τ ς : Type) where
  | startup (t : τ)
  | take (s : ς) (time : Int32)
  | release (s : ς)
  | yield
  | sleep (tick : RtTick)
  | exit
  | enterCritical
  | exitCritical
  /-- The current thread goes on in its call. -/
  | proceed
  /-- An interrupt handler releases a semaphore. -/
  | isrRelease (s : ς)
  /-- The tick interrupt. -/
  | tick
  /-- The interrupt handler goes on. -/
  | irq
deriving DecidableEq

/-- The processor runs the current thread's own code. -/
def ThreadMode (k : Kernel τ ς) : Prop := k.irq = [] ∧ k.pc k.rt_current_thread = .user

/-- The current thread may suspend itself: it is not the idle thread and the scheduler is not locked. -/
def MayBlock (k : Kernel τ ς) : Prop :=
  k.rt_current_thread ≠ k.idle ∧ k.rt_scheduler_lock_nest = 0

/-- The semaphore that a step calls. -/
def Choice.sem : Choice τ ς → Option ς
  | take s _ => some s
  | release s => some s
  | isrRelease s => some s
  | _ => none

/-- What can come next, given the kernel's rules for its callers: only a new thread is started, the idle
thread never blocks, nor does a thread that has locked the scheduler, time limits are below
`RT_TICK_MAX / 2`, and the scheduler is locked at most as often as `rt_scheduler_lock_nest`, an
`rt_int16_t`, can count. The tick interrupt does not interrupt itself. -/
def Enabled (k : Kernel τ ς) : Choice τ ς → Prop
  | .startup t => k.ThreadMode ∧ (k.thread t).stat = .init
  | .take s time => k.ThreadMode ∧ ((k.sem s).value = 0 → time ≠ 0 →
      k.MayBlock ∧ (0 < time → time.toBitVec < RT_TICK_MAX / 2))
  | .release _ => k.ThreadMode
  | .yield => k.ThreadMode
  | .sleep tick => k.ThreadMode ∧ k.MayBlock ∧ tick < RT_TICK_MAX / 2
  | .exit => k.ThreadMode ∧ k.MayBlock
  | .enterCritical => k.ThreadMode ∧ k.rt_scheduler_lock_nest < 32767
  | .exitCritical => k.ThreadMode
  | .proceed => k.irq = [] ∧ k.pc k.rt_current_thread ≠ .user
  | .isrRelease _ => True
  | .tick => .timerCheck ∉ k.irq
  | .irq => k.irq ≠ []

instance (k : Kernel τ ς) : Decidable k.ThreadMode := inferInstanceAs (Decidable (_ ∧ _))

instance (k : Kernel τ ς) : Decidable k.MayBlock := inferInstanceAs (Decidable (_ ∧ _))

instance (k : Kernel τ ς) : (c : Choice τ ς) → Decidable (k.Enabled c)
  | .startup _ => inferInstanceAs (Decidable (_ ∧ _))
  | .take _ _ => inferInstanceAs (Decidable (_ ∧ (_ → _ → _ ∧ (_ → _))))
  | .release _ => inferInstanceAs (Decidable (ThreadMode _))
  | .yield => inferInstanceAs (Decidable (ThreadMode _))
  | .sleep _ => inferInstanceAs (Decidable (_ ∧ _ ∧ _))
  | .exit => inferInstanceAs (Decidable (_ ∧ _))
  | .enterCritical => inferInstanceAs (Decidable (_ ∧ _))
  | .exitCritical => inferInstanceAs (Decidable (ThreadMode _))
  | .proceed => inferInstanceAs (Decidable (_ ∧ _ ≠ _))
  | .isrRelease _ => isTrue trivial
  | .tick => inferInstanceAs (Decidable (_ ∉ _))
  | .irq => inferInstanceAs (Decidable (_ ≠ _))

/-- The current thread calls `rt_schedule`, or comes back from it. -/
def proceed (k : Kernel τ ς) : Kernel τ ς × List (Event τ ς) :=
  let t := k.rt_current_thread
  match k.pc t with
  | .user => (k, [])
  | .schedule c => ((k.setPc t (.back c)).rtSchedule, [])
  | .back (.take s) =>
    (k.setPc t .user, if (k.thread t).error = .RT_EOK then [.took t s] else [.timedOut t s])
  | .back .sleep =>
    ((k.setPc t .user).modifyThread t fun thread =>
      { thread with error := if thread.error = .RT_ETIMEOUT then .RT_EOK else thread.error }, [])
  -- a thread that has exited is never switched to
  | .back .exit => (k, [])
  | .back .other => (k.setPc t .user, [])

/-- A step that is enabled. -/
def exec (k : Kernel τ ς) : Choice τ ς → Kernel τ ς × List (Event τ ς)
  | .startup t => ((k.rtThreadStartup t).setPc k.rt_current_thread (.schedule .other), [])
  | .take s time =>
    match k.rtSemTake s time with
    | (k', some e) => (k', [e])
    | (k', none) => (k'.setPc k.rt_current_thread (.schedule (.take s)), [])
  | .release s =>
    let (k', need_schedule, e) := k.rtSemRelease s
    (if need_schedule then k'.setPc k.rt_current_thread (.schedule .other) else k', [e])
  | .yield => ((k.setPc k.rt_current_thread (.back .other)).rtThreadYield, [])
  | .sleep tick => ((k.rtThreadSleep tick).setPc k.rt_current_thread (.schedule .sleep), [])
  | .exit => (k.threadExit.setPc k.rt_current_thread (.schedule .exit), [])
  | .enterCritical => ({ k with rt_scheduler_lock_nest := k.rt_scheduler_lock_nest + 1 }, [])
  | .exitCritical =>
    if k.rt_scheduler_lock_nest ≤ 1 then
      ({ k with rt_scheduler_lock_nest := 0 }.setPc k.rt_current_thread (.schedule .other), [])
    else ({ k with rt_scheduler_lock_nest := k.rt_scheduler_lock_nest - 1 }, [])
  | .proceed => k.proceed
  | .isrRelease s =>
    let (k', need_schedule, e) := k.rtSemRelease s
    (if need_schedule then { k' with irq := .schedule :: k'.irq } else k', [e])
  | .tick => (k.rtTickIncrease, [.tick])
  | .irq =>
    match k.irq with
    | [] => (k, [])
    | .schedule :: irq => ({ k with irq := irq }.rtSchedule, [])
    | .timerCheck :: irq => ({ k with irq := irq }.rtTimerCheck, [])

/-- A step; a choice that is not enabled changes nothing. -/
def step (k : Kernel τ ς) (c : Choice τ ς) : Kernel τ ς × List (Event τ ς) :=
  if k.Enabled c then k.exec c else (k, [])

/-- The kernel when the idle thread runs and no other thread is started. -/
def boot (rt_tick : RtTick) (idle : τ) (priority : τ → Priority) (tick : τ → RtTick)
    (value : ς → ℕ) (flag : ς → IpcFlag) : Kernel τ ς :=
  { thread := fun t =>
      { stat := if t = idle then .running else .init
        yield := false
        current_priority := priority t
        init_tick := tick t
        remaining_tick := tick t
        error := .RT_EOK }
    timers := Timers.init rt_tick (fun _ => 0) fun _ => false
    rt_thread_priority_table := fun _ => []
    rt_thread_ready_priority_group := 0
    rt_current_thread := idle
    rt_scheduler_lock_nest := 0
    sem := fun s => ⟨value s, [], flag s⟩
    idle := idle
    pc := fun _ => .user
    irq := [] }

end Kernel

end Tdps
