import Mathlib.Data.Int.Notation
import Mathlib.Logic.Function.Basic
import Tdps.Lib.Machine

/-!
# The pulse encoders (`drv_pulse_encoder.c`, `encoder.c`)

The driver counts the edges of a wheel in a timer and the wraps of the timer in software. `encoder_th`
reads the counts of both wheels every 100 ms and then clears them; an edge can come between any two of
these operations.
-/

namespace Tdps

inductive Edge where
  | up
  | down
deriving DecidableEq, Repr

def Edge.delta : Edge → ℤ
  | .up => 1
  | .down => -1

/-! ## The driver -/

def AUTO_RELOAD_VALUE : ℕ := 0x7FFF

/-- `stm32_pulse_encoder_device`, with the counter of its timer. -/
structure PulseEncoder where
  CNT : Fin (AUTO_RELOAD_VALUE + 1)
  over_under_flowcount : Int32
deriving DecidableEq

namespace PulseEncoder

def init : PulseEncoder := ⟨0, 0⟩

/-- `pulse_encoder_update_isr` on an update event. -/
def updateIsr (d : PulseEncoder) (counting_down : Bool) : PulseEncoder :=
  if counting_down then { d with over_under_flowcount := d.over_under_flowcount - 1 }
  else { d with over_under_flowcount := d.over_under_flowcount + 1 }

/-- An edge; a wrap of the counter raises the update event. -/
def edge (d : PulseEncoder) : Edge → PulseEncoder
  | .up =>
    if h : d.CNT.val < AUTO_RELOAD_VALUE then { d with CNT := ⟨d.CNT + 1, by omega⟩ }
    else updateIsr { d with CNT := 0 } false
  | .down =>
    if 0 < d.CNT.val then { d with CNT := ⟨d.CNT - 1, by omega⟩ }
    else updateIsr { d with CNT := Fin.last AUTO_RELOAD_VALUE } true

/-- `pulse_encoder_clear_count`. -/
def clearCount (_ : PulseEncoder) : PulseEncoder := ⟨0, 0⟩

/-- `pulse_encoder_get_count`. -/
def getCount (d : PulseEncoder) : Int32 :=
  (Int16.ofNat d.CNT).toInt32 + d.over_under_flowcount * Int32.ofNat AUTO_RELOAD_VALUE

inductive Op where
  | edge (e : Edge)
  | clear
deriving DecidableEq, Repr

def apply (d : PulseEncoder) : Op → PulseEncoder
  | .edge e => d.edge e
  | .clear => d.clearCount

/-- The device after these operations. -/
def run (ops : List Op) : PulseEncoder := ops.foldl apply init

end PulseEncoder

/-! ## The sampling thread -/

inductive Wheel where
  | l
  | r
deriving DecidableEq, Repr

/-- `PULSE_COUNT_THRESHOLD`. -/
def PULSE_COUNT_THRESHOLD : ℤ := 1040 / 2

/-- Where `encoder_th` is in its loop. -/
inductive EncoderPc where
  /-- In `rt_thread_mdelay(100)`, between two iterations. -/
  | mdelay
  /-- Before `rt_device_read`. -/
  | read (w : Wheel)
  /-- Before `rt_device_control` with `PULSE_ENCODER_CMD_CLEAR_COUNT`. -/
  | clear (w : Wheel)
  /-- Before the tests of the counts. -/
  | test
deriving DecidableEq, Repr

/-- The order of the loop. -/
def EncoderPc.next : EncoderPc → EncoderPc
  | .mdelay => .read .l
  | .read .l => .read .r
  | .read .r => .clear .l
  | .clear .l => .clear .r
  | .clear .r => .test
  | .test => .mdelay

/-- `encoder_th` with ideal counters of the edges behind its devices. -/
structure Sampler where
  pulse_encoder : Wheel → ℤ
  count : Wheel → ℤ
  pc : EncoderPc

namespace Sampler

def init : Sampler := ⟨fun _ => 0, fun _ => 0, .mdelay⟩

inductive Choice where
  | edge (w : Wheel) (e : Edge)
  | thread
deriving DecidableEq, Repr

inductive Act where
  | edge (w : Wheel) (e : Edge)
  | read (w : Wheel) (count : ℤ)
  | clear (w : Wheel)
  /-- The counts that are printed. -/
  | printf (count_l count_r : ℤ)
deriving DecidableEq, Repr

/-- `count <= -PULSE_COUNT_THRESHOLD || count >= PULSE_COUNT_THRESHOLD`. -/
def Abnormal (count : ℤ) : Prop := count ≤ -PULSE_COUNT_THRESHOLD ∨ PULSE_COUNT_THRESHOLD ≤ count

instance : DecidablePred Abnormal := fun count =>
  inferInstanceAs (Decidable (count ≤ -PULSE_COUNT_THRESHOLD ∨ PULSE_COUNT_THRESHOLD ≤ count))

/-- The next step of `encoder_th`. -/
def stepThread (s : Sampler) : Sampler × List Act :=
  match s.pc with
  | .mdelay => ({ s with pc := s.pc.next }, [])
  | .read w =>
    ({ s with count := Function.update s.count w (s.pulse_encoder w), pc := s.pc.next },
      [.read w (s.pulse_encoder w)])
  | .clear w =>
    ({ s with pulse_encoder := Function.update s.pulse_encoder w 0, pc := s.pc.next }, [.clear w])
  | .test =>
    if Abnormal (s.count .l) then ({ s with pc := s.pc.next }, [])
    else if Abnormal (s.count .r) then ({ s with pc := s.pc.next }, [])
    else ({ s with pc := s.pc.next }, [.printf (s.count .l) (s.count .r)])

def step (s : Sampler) : Choice → Sampler × List Act
  | .edge w e =>
    ({ s with pulse_encoder := Function.update s.pulse_encoder w (s.pulse_encoder w + e.delta) },
      [.edge w e])
  | .thread => s.stepThread

end Sampler

end Tdps
