import Mathlib.Data.List.DropRight
import Tdps.Lib.Machine
import Tdps.Steering

/-!
# The course state machine (`main.py`)

Every pass of the main loop tracks the line, calls the function of the current state and sends a speed
command that depends on `direction`. A pass is a step of a machine whose input is what the pass sees
(`Snapshot`) and whose output is what it did (`Iter`). Only `state_5` can wait inside a pass.
-/

namespace Tdps

def DIS_CONST : UInt8 := 35
def FOR_DELAY : ℕ := 11500

/-- The globals of `main.py`, and the bytes in the receive buffer of its UART. -/
structure Globals extends Tracker where
  current_state : ℕ
  state_cnt : ℕ
  get_around_flag : Bool
  delay_flag : Bool
  uart : List UInt8
deriving DecidableEq, Repr

/-- The globals as `main.py` initialises them; the first state is the constant its authors edit. -/
def Globals.init (current_state : ℕ) : Globals :=
  { Tracker.init with
    current_state := current_state
    state_cnt := 0
    get_around_flag := false
    delay_flag := false
    uart := [] }

/-- What a pass of the main loop sees. -/
structure Snapshot where
  /-- The blue mask after `dilate`. -/
  img_blue : ℕ → ℕ → Bool
  /-- Whether `find_template` finds the template of this file. -/
  find_template : String → Bool
  /-- Whether `find_circles` finds a red circle, and a green one. -/
  red_circle : Bool
  green_circle : Bool
  /-- Whether `find_blobs` finds a green blob in `green_roi`. -/
  green_blob : Bool
  /-- The value of `millis()`. -/
  tnow : ℤ
  /-- The bytes that arrive on the UART before the pass has done its last read. -/
  arrivals : List UInt8

/-- Nothing is seen and these bytes arrive. -/
def Snapshot.readings (arrivals : List UInt8) : Snapshot :=
  ⟨fun _ _ => false, fun _ => false, false, false, false, 0, arrivals⟩

def Snapshot.blank : Snapshot := .readings []

/-- What the camera does to the outside. -/
inductive Effect where
  | send_sp (sp_l sp_r : ℚ)
  | send_gate
  | delay (ms : ℕ)
  /-- `uart.read(1)` returned this byte. -/
  | read (distance : UInt8)
deriving DecidableEq, Repr

/-- What a state function did: the globals, the effects and the state it returned; `none` is for
`state_5` that still waits for a byte. -/
structure Call where
  globals : Globals
  effects : List Effect
  ret : Option ℕ

/-- The effects that came before. -/
def Call.after (effects : List Effect) (c : Call) : Call := { c with effects := effects ++ c.effects }

/-! ## The state functions -/

def templates1 : List String := ["/left1.pgm"]
def templates2 : List String := ["/forward1.pgm", "/forward2.pgm", "/forward3.pgm"]

/-- State 1. -/
def checkArrow (img : Snapshot) (g : Globals) : Call :=
  if templates2.any img.find_template then ⟨{ g with direction := .forward }, [], some 2⟩
  else if templates1.any img.find_template then ⟨{ g with direction := .left }, [], some 2⟩
  else
    let state_cnt := g.state_cnt + 1
    if 500 < state_cnt then ⟨{ g with state_cnt := 0 }, [], some 2⟩
    else ⟨{ g with state_cnt := state_cnt }, [], some 1⟩

/-- State 2. -/
def trafficLight (img : Snapshot) (g : Globals) : Call :=
  let g := if img.red_circle then { g with direction := .stop } else g
  if img.green_circle ∧ g.old_direction = .stop then ⟨{ g with direction := .right }, [], some 3⟩
  else ⟨g, [], some 2⟩

/-- The loop `while(uart.any())` of `pedestrian` over the received bytes. -/
def pedestrianLoop (g : Globals) : List UInt8 → Call
  | [] => ⟨{ g with uart := [] }, [], some 3⟩
  | distance :: uart =>
    if distance < DIS_CONST then
      let g := { g with direction := .stop, state_cnt := g.state_cnt + 1 }
      if 160 < g.state_cnt then ⟨{ g with state_cnt := 0, uart := uart }, [.read distance], some 4⟩
      else (pedestrianLoop g uart).after [.read distance]
    else
      (pedestrianLoop { g with direction := .right, state_cnt := 0 } uart).after [.read distance]

/-- State 3. -/
def pedestrian (_img : Snapshot) (g : Globals) : Call := pedestrianLoop g g.uart

/-- The six commands of `get_around`. -/
def manoeuvre : List Effect :=
  [.send_sp 0 (SP_R + 30), .delay 900, .send_sp SP_L SP_R, .delay 1500,
    .send_sp (SP_L + 30) 0, .delay 1200, .send_sp SP_L SP_R, .delay 1500,
    .send_sp (SP_L + 10) 0, .delay 750, .send_sp SP_L SP_R, .delay 1100]

/-- State 4. -/
def getAround (img : Snapshot) (g : Globals) : Call :=
  if ¬ g.get_around_flag then
    ⟨{ g with get_around_flag := true, direction := .right }, manoeuvre, some 4⟩
  else if img.green_blob then ⟨g, [], some 5⟩
  else ⟨g, [], some 4⟩

/-- The loop `while(1)` of `state_5` over the received bytes, and the assignment after it. -/
def awaitZero (g : Globals) : List UInt8 → Call
  | [] => ⟨{ g with uart := [] }, [], none⟩
  | distance :: uart =>
    if distance = 0 then ⟨{ g with uart := uart, direction := .stop }, [.read distance], some 5⟩
    else (awaitZero g uart).after [.read distance]

/-- State 5. -/
def state5 (_img : Snapshot) (g : Globals) : Call :=
  if ¬ g.delay_flag then
    (awaitZero { g with delay_flag := true } g.uart).after
      [.send_sp SP_L (SP_R + 10), .delay 2000, .send_gate]
  else
    match g.uart with
    | [] => ⟨g, [], some 5⟩
    | distance :: uart =>
      let g := { g with uart := uart }
      if distance < DIS_CONST then ⟨{ g with direction := .stop }, [.read distance], some 5⟩
      else ⟨{ g with direction := .right }, [.read distance], some 6⟩

/-- State 6. -/
def state6 (_img : Snapshot) (g : Globals) : Call :=
  ⟨g, [.send_sp SP_L (SP_R + 10), .delay 5000], some 7⟩

/-- State 7. -/
def state7 (_img : Snapshot) (g : Globals) : Call := ⟨{ g with direction := .stop }, [], some 7⟩

/-- The dictionary `state_functions`. -/
def stateFunctions : ℕ → Option (Snapshot → Globals → Call)
  | 1 => some checkArrow
  | 2 => some trafficLight
  | 3 => some pedestrian
  | 4 => some getAround
  | 5 => some state5
  | 6 => some state6
  | 7 => some state7
  | _ => none

/-! ## The main loop -/

/-- The command at the end of a pass. -/
def command (sp_l sp_r : ℚ) (g : Globals) : Globals × List Effect :=
  match g.direction with
  | .forward =>
    ({ g with direction := .right, old_error := -30 }, [.send_sp SP_L SP_R, .delay FOR_DELAY])
  | .stop => (g, [.send_sp 0 0])
  | _ => (g, [.send_sp sp_l sp_r])

/-- Where the main loop is between two steps. -/
inductive LoopPc where
  /-- At the top of `while True`. -/
  | top
  /-- In the loop `while(1)` of `state_5`, with the speeds that `track` returned. -/
  | wait (sp_l sp_r : ℚ)
  /-- After a `KeyError` of `state_functions[current_state]`. -/
  | raised
deriving DecidableEq, Repr

structure Camera where
  globals : Globals
  pc : LoopPc
deriving DecidableEq, Repr

def Camera.init (current_state : ℕ) : Camera := ⟨Globals.init current_state, .top⟩

/-- How a step of the main loop ended. -/
inductive Outcome where
  /-- A complete pass, with this `current_state`. -/
  | next (current_state : ℕ)
  | waits
  | raised
deriving DecidableEq, Repr

/-- The record of a step of the main loop: the globals at its start, what the state function did, and
`direction` and the command at the end of the pass. -/
structure Iter where
  start : Globals
  work : List Effect
  direction : Direction
  command : List Effect
  outcome : Outcome
deriving DecidableEq, Repr

/-- The rest of a pass after the call of the state function. -/
def finish (start : Globals) (sp_l sp_r : ℚ) (c : Call) : Camera × Iter :=
  match c.ret with
  | none => (⟨c.globals, .wait sp_l sp_r⟩, ⟨start, c.effects, c.globals.direction, [], .waits⟩)
  | some current_state =>
    let r := command sp_l sp_r { c.globals with current_state := current_state }
    (⟨r.1, .top⟩, ⟨start, c.effects, c.globals.direction, r.2, .next current_state⟩)

/-- The bytes that arrive are in the receive buffer. -/
def Globals.receive (g : Globals) (img : Snapshot) : Globals :=
  { g with uart := g.uart ++ img.arrivals }

/-- The globals after `track`, when the state function is called. -/
def Globals.tracked (g : Globals) (img : Snapshot) : Globals :=
  { g.receive img with toTracker := (track img.img_blue img.tnow g.toTracker).1 }

/-- One step of the main loop. -/
def Camera.step (c : Camera) (img : Snapshot) : Camera × List Iter :=
  match c.pc with
  | .raised => (c, [])
  | .wait sp_l sp_r =>
    let g := c.globals.receive img
    let r := finish c.globals sp_l sp_r (awaitZero g g.uart)
    (r.1, [r.2])
  | .top =>
    let g := c.globals.tracked img
    let sp := (track img.img_blue img.tnow c.globals.toTracker).2
    match stateFunctions g.current_state with
    | none => (⟨g, .raised⟩, [⟨c.globals, [], g.direction, [], .raised⟩])
    | some f =>
      let r := finish c.globals sp.1 sp.2 (f img g)
      (r.1, [r.2])

/-! ### The steps one by one -/

namespace Camera

variable {c : Camera} {img : Snapshot}

theorem step_raised (hpc : c.pc = .raised) : c.step img = (c, []) := by
  unfold step
  rw [hpc]

theorem step_wait {sp_l sp_r : ℚ} (hpc : c.pc = .wait sp_l sp_r) :
    c.step img =
      ((finish c.globals sp_l sp_r
          (awaitZero (c.globals.receive img) (c.globals.receive img).uart)).1,
        [(finish c.globals sp_l sp_r
          (awaitZero (c.globals.receive img) (c.globals.receive img).uart)).2]) := by
  unfold step
  rw [hpc]

theorem step_top {f : Snapshot → Globals → Call} (hpc : c.pc = .top)
    (hf : stateFunctions c.globals.current_state = some f) :
    c.step img =
      ((finish c.globals (track img.img_blue img.tnow c.globals.toTracker).2.1
          (track img.img_blue img.tnow c.globals.toTracker).2.2 (f img (c.globals.tracked img))).1,
        [(finish c.globals (track img.img_blue img.tnow c.globals.toTracker).2.1
          (track img.img_blue img.tnow c.globals.toTracker).2.2
          (f img (c.globals.tracked img))).2]) := by
  have hf' : stateFunctions (c.globals.tracked img).current_state = some f := hf
  unfold step
  rw [hpc]
  dsimp only
  rw [hf']

theorem step_lookup_fails (hpc : c.pc = .top) (hf : stateFunctions c.globals.current_state = none) :
    c.step img = (⟨c.globals.tracked img, .raised⟩,
      [⟨c.globals, [], (c.globals.tracked img).direction, [], .raised⟩]) := by
  have hf' : stateFunctions (c.globals.tracked img).current_state = none := hf
  unfold step
  rw [hpc]
  dsimp only
  rw [hf']

end Camera

/-! ## Reading a record -/

/-- The arguments of a speed command. -/
def Effect.speed : Effect → Option (ℚ × ℚ)
  | .send_sp sp_l sp_r => some (sp_l, sp_r)
  | _ => none

/-- A received byte. -/
def Effect.distance : Effect → Option UInt8
  | .read distance => some distance
  | _ => none

namespace Iter

/-- The effects in order. -/
def effects (it : Iter) : List Effect := it.work ++ it.command

/-- The speed commands in order. -/
def speeds (it : Iter) : List (ℚ × ℚ) := it.effects.filterMap Effect.speed

/-- The bytes read, in order. -/
def reads (it : Iter) : List UInt8 := it.effects.filterMap Effect.distance

end Iter

/-- The last steps of a run that were taken in this state, from where it was entered. -/
def stay (current_state : ℕ) (tr : List Iter) : List Iter :=
  tr.rtakeWhile fun it => it.start.current_state = current_state

/-! ## The steps of a run -/

/-- A step of the main loop: the camera before it, and what it sees. -/
abbrev Visit : Type := Camera × Snapshot

/-- The steps of a run in order. -/
def visits (c : Camera) (imgs : List Snapshot) : List Visit := Machine.visits Camera.step c imgs

namespace Visit

/-- A pass that executes the function of this state begins. -/
def InState (n : ℕ) (v : Visit) : Prop := v.1.pc = .top ∧ v.1.globals.current_state = n

instance (n : ℕ) : DecidablePred (InState n) := fun v => by
  unfold InState
  infer_instance

/-- The camera after the step. -/
def after (v : Visit) : Camera := (v.1.step v.2).1

/-- The speed commands of the step in order. -/
def speeds (v : Visit) : List (ℚ × ℚ) := (v.1.step v.2).2.flatMap Iter.speeds

end Visit

end Tdps
