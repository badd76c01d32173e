import Tdps.Board
import Tdps.Course
import Tdps.SendSp
import Tdps.Serial
import Tdps.Sr04

/-!
# The gate handshake

The camera and the board joined by two in-order links. On the board the decoder thread sets
`stop_flag`, `sr04_th` reads it, and the receive interrupt of the infrared UART clears it when a byte
0x22 comes in (`infrared.c`; `infrared_th` sends its code while the flag is set and writes nothing
that is modelled here). A pass of the camera's main loop, with the delays in it, is one step. A run is a
list of choices of the scheduler and the environment; a choice that is not enabled changes nothing.
-/

namespace Tdps

/-- The bytes that an effect puts on the command link. -/
def Effect.bytes : Effect → List UInt8
  | .send_sp sp_l sp_r => frameBytes (sendSp sp_l sp_r)
  | .send_gate => frameBytes sendGate
  | _ => []

/-- The two processors and the links between them. -/
structure Gate where
  camera : Camera
  /-- Bytes on the way to the command UART. -/
  cmd : List UInt8
  decoder : DecoderThread
  shared : Shared
  sr04 : Sr04
  /-- Bytes on the way to the camera's UART. -/
  back : List UInt8
  /-- The receive FIFO of the infrared UART. -/
  infrared_uart : RxFifo
  revc_data : UInt8
deriving DecidableEq

namespace Gate

/-- The board after power-up and a camera in any state; distance bytes may be on the way. -/
def init (globals : Globals) (back : List UInt8) : Gate :=
  { camera := ⟨globals, .top⟩
    cmd := []
    decoder := DecoderThread.init
    shared := Shared.init
    sr04 := .read
    back := back
    infrared_uart := RxFifo.empty
    revc_data := 0 }

/-- A choice of the scheduler and the environment. -/
inductive Choice where
  /-- A step of the main loop. -/
  | camera (img : Snapshot)
  /-- `commu_decoder_th` reads a byte. -/
  | uart
  /-- `commu_decoder_th` makes its next access. -/
  | decoder
  /-- `sr04_th` reads the sensor. -/
  | sense (proximity : Int32)
  | senseFails
  /-- `sr04_th` tests the flag or writes its byte. -/
  | sr04
  /-- A byte arrives in the receive buffer of the camera. -/
  | deliver
  /-- The receive interrupt of the infrared UART, with the bytes that came in. -/
  | infrared (bytes : List UInt8)

/-- The byte of a reading cannot be taken for `stop_data`. -/
def Choice.NonZero : Choice → Prop
  | sense proximity => sendData proximity ≠ stop_data
  | _ => True

instance : DecidablePred Choice.NonZero
  | .sense proximity => inferInstanceAs (Decidable (sendData proximity ≠ stop_data))
  | .camera _ | .uart | .decoder | .senseFails | .sr04 | .deliver | .infrared _ => isTrue trivial

/-- What can be seen of a step. -/
inductive Act where
  /-- A step of the main loop. -/
  | pass (it : Iter)
  /-- `stop_flag = 1` in `commu_decoder_th`. -/
  | set_stop_flag
  /-- `infrared_rx_callback` read this byte. -/
  | revc (revc_data : UInt8)

/-- What can be seen of an access of the decoder thread. -/
def acts : Op → List Act
  | .set_stop_flag => [.set_stop_flag]
  | _ => []

/-- `infrared_rx_callback`, called by the interrupt when the FIFO holds a byte. -/
def infraredRxCallback (s : Gate) : Gate × List Act :=
  match s.infrared_uart.intRx with
  | none => (s, [])
  | some (revc_data, infrared_uart) =>
    let s := { s with infrared_uart := infrared_uart, revc_data := revc_data }
    if revc_data = 0x22 then
      ({ s with shared := { s.shared with stop_flag := false } }, [.revc revc_data])
    else (s, [.revc revc_data])

/-- One step of the system. -/
def step (s : Gate) (c : Choice) : Gate × List Act :=
  match c with
  | .camera img =>
    -- the bytes that arrive at the camera are those that `deliver` moves
    let r := s.camera.step { img with arrivals := [] }
    ({ s with
        camera := r.1
        cmd := s.cmd ++ r.2.flatMap fun it => it.effects.flatMap Effect.bytes },
      r.2.map .pass)
  | .uart =>
    match s.cmd with
    | [] => (s, [])
    | buffer :: cmd =>
      if s.decoder.todo = [] then
        let r := s.decoder.dec.feed buffer
        ({ s with cmd := cmd, decoder := ⟨r.1, r.2.flatMap Event.ops⟩ }, [])
      else (s, [])
  | .decoder =>
    match s.decoder.todo with
    | [] => (s, [])
    | op :: ops =>
      ({ s with decoder := { s.decoder with todo := ops }, shared := op.exec s.shared }, acts op)
  | .sense proximity => ({ s with sr04 := s.sr04.sense proximity }, [])
  | .senseFails => ({ s with sr04 := s.sr04.senseFails }, [])
  | .sr04 =>
    let r := s.sr04.step s.shared.stop_flag
    ({ s with sr04 := r.1, back := s.back ++ r.2 }, [])
  | .deliver =>
    match s.back with
    | [] => (s, [])
    | distance :: back =>
      let g := s.camera.globals
      ({ s with back := back, camera := { s.camera with globals := { g with uart := g.uart ++ [distance] } } },
        [])
  | .infrared bytes =>
    infraredRxCallback { s with infrared_uart := bytes.foldl RxFifo.put s.infrared_uart }

/-! ## What a trace shows -/

/-- The gate request has been sent. -/
def Requested (tr : List Act) : Prop := ∃ it, Act.pass it ∈ tr ∧ Effect.send_gate ∈ it.effects

/-- The request has been sent and then the decoder has set `stop_flag`. -/
def Stopped (tr : List Act) : Prop := ∃ a b, tr = a ++ .set_stop_flag :: b ∧ Requested a

/-- After all that `infrared_rx_callback` has read a byte 0x22. -/
def Cleared (tr : List Act) : Prop := ∃ a b, tr = a ++ .revc 0x22 :: b ∧ Stopped a

/-- `state_5` has read the zero byte. -/
def Acked (tr : List Act) : Prop :=
  ∃ it, Act.pass it ∈ tr ∧ it.start.current_state = 5 ∧ 0 ∈ it.reads

/-- A pass has entered state 6. -/
def Entered6 (tr : List Act) : Prop := ∃ it, Act.pass it ∈ tr ∧ it.outcome = .next 6

end Gate

end Tdps
