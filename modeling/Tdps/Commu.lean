import Tdps.Lib.Machine

/-!
# The serial command decoder (`commu.c`)

`commu_decoder_th` reads the command UART one byte at a time. A frame is `AA 01` (start the gate
handshake) or `AA 55` and four payload bytes (integer and fraction part of the left and of the right
wheel speed, in percent). The state between two bytes is `RecCmd_Step`, `index` and `Rx_buffer`.
-/

namespace Tdps

/-- The literals of `Fin 4`. -/
instance neZero_four : @NeZero ℕ Zero.ofOfNat0 4 := Nat.instNeZeroSucc

/-- A `uint8_t[4]`. -/
structure Bytes4 where
  b0 : UInt8
  b1 : UInt8
  b2 : UInt8
  b3 : UInt8
deriving DecidableEq, Repr

namespace Bytes4

/-- The zero-initialised array. -/
def zero : Bytes4 := ⟨0, 0, 0, 0⟩

/-- `q[i] = b`; the decoder never writes at an index above 3 (`Decoder.WF`). -/
def set (q : Bytes4) (i : ℕ) (b : UInt8) : Bytes4 :=
  match i with
  | 0 => { q with b0 := b }
  | 1 => { q with b1 := b }
  | 2 => { q with b2 := b }
  | 3 => { q with b3 := b }
  | _ => q

def get (q : Bytes4) (i : Fin 4) : UInt8 :=
  match i with
  | 0 => q.b0
  | 1 => q.b1
  | 2 => q.b2
  | 3 => q.b3

end Bytes4

/-- What a complete frame makes the decoder thread do. -/
inductive Event where
  /-- `rt_sem_release(sem_infrared)` and `stop_flag = 1`. -/
  | gate
  /-- `memcpy(sp_data, Rx_buffer, 4)` and `rt_sem_release(sem_motorctrl)`. -/
  | motor (Rx_buffer : Bytes4)
deriving DecidableEq, Repr

/-- The variables that `commu_decoder_th` keeps between two bytes. -/
structure Decoder where
  RecCmd_Step : ℕ
  index : ℕ
  Rx_buffer : Bytes4
deriving DecidableEq, Repr

namespace Decoder

/-- `RecCmd_Step = 0`, `index = 0` and any buffer contents. -/
def start (Rx_buffer : Bytes4) : Decoder := ⟨0, 0, Rx_buffer⟩

/-- The `switch` of `commu_decoder_th` on one received byte. -/
def feed (d : Decoder) (buffer : UInt8) : Decoder × List Event :=
  match d.RecCmd_Step with
  | 0 => if buffer = 0xAA then ({ d with RecCmd_Step := 1 }, []) else (d, [])
  | 1 =>
    if buffer = 0x55 then ({ d with RecCmd_Step := 2 }, [])
    else if buffer = 0x01 then ({ d with RecCmd_Step := 0 }, [.gate])
    else ({ d with RecCmd_Step := 0 }, [])
  | 2 =>
    let Rx_buffer := d.Rx_buffer.set d.index buffer
    if d.index + 1 = 4 then (⟨0, 0, Rx_buffer⟩, [.motor Rx_buffer])
    else (⟨2, d.index + 1, Rx_buffer⟩, [])
  | _ => (d, [])

/-- The states the decoder can be in: `index` counts payload bytes and is 0 outside a payload. -/
def WF (d : Decoder) : Prop :=
  ((d.RecCmd_Step = 0 ∨ d.RecCmd_Step = 1) ∧ d.index = 0) ∨ (d.RecCmd_Step = 2 ∧ d.index < 4)

/-- Outside a frame. -/
def Idle (d : Decoder) : Prop := d.RecCmd_Step = 0 ∧ d.index = 0

/-- The decoder loop over a received byte stream. -/
abbrev decode (d : Decoder) (bytes : List UInt8) : Decoder × List Event := Machine.run feed d bytes

end Decoder

/-! ## Frames -/

/-- A frame of the command link. -/
inductive Frame where
  | gate
  | speed (payload : Bytes4)
deriving DecidableEq, Repr

namespace Frame

def bytes : Frame → List UInt8
  | gate => [0xAA, 0x01]
  | speed p => [0xAA, 0x55, p.b0, p.b1, p.b2, p.b3]

/-- The event of an intact frame. -/
def event : Frame → Event
  | gate => .gate
  | speed p => .motor p

/-- The payload bytes are percentages, as `send_sp` writes them. -/
def InRange : Frame → Prop
  | gate => True
  | speed p => p.b0 ≤ 100 ∧ p.b1 ≤ 100 ∧ p.b2 ≤ 100 ∧ p.b3 ≤ 100

instance : DecidablePred InRange := fun f => by
  cases f <;> unfold InRange <;> infer_instance

end Frame

end Tdps
