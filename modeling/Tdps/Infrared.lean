import Tdps.Lib.Machine
import Tdps.Serial

/-!
# The receive interrupt of the infrared UART (`infrared.c`, `serial.c`)

`rt_hw_serial_isr` puts all bytes that the UART has into the ring buffer and then calls
`infrared_rx_callback` once, if that is registered. `infrared_th` opens the device first and registers
the callback after that. A run is a list of interrupts and of accesses of the two threads, from
`rt_device_open` on.
-/

namespace Tdps

/-- The ring buffer of the infrared UART and what the callback writes. -/
structure Infrared where
  rx_fifo : RxFifo
  /-- `infrared_rx_callback` is registered. -/
  rx_indicate : Bool
  revc_data : UInt8
  stop_flag : Bool
deriving DecidableEq

namespace Infrared

/-- After `rt_device_open`. -/
def init : Infrared := ⟨RxFifo.empty, false, 0, false⟩

/-- `rt_device_read(infrared_uart, 0, &revc_data, 1)`. -/
def read (s : Infrared) : Infrared :=
  match s.rx_fifo.intRx with
  | none => s
  | some (revc_data, rx_fifo) => { s with revc_data := revc_data, rx_fifo := rx_fifo }

/-- `infrared_rx_callback`. -/
def infraredRxCallback (s : Infrared) : Infrared :=
  let s := s.read
  if s.revc_data = 0x22 then { s with stop_flag := false } else s

/-- `rt_hw_serial_isr` when `getc` returns these bytes and then -1. -/
def hwSerialIsr (s : Infrared) (bytes : List UInt8) : Infrared :=
  let s := { s with rx_fifo := bytes.foldl RxFifo.put s.rx_fifo }
  if s.rx_indicate then
    if s.rx_fifo.rxLength ≠ 0 then s.infraredRxCallback else s
  else s

inductive Choice where
  /-- A receive interrupt with at least one byte. -/
  | irq (ch : UInt8) (more : List UInt8)
  /-- `rt_device_set_rx_indicate` in `infrared_th`. -/
  | set_rx_indicate
  /-- `stop_flag = 1` in `commu_decoder_th`. -/
  | set_stop_flag
deriving DecidableEq, Repr

def step (s : Infrared) : Choice → Infrared × List Empty
  | .irq ch more => (s.hwSerialIsr (ch :: more), [])
  | .set_rx_indicate => ({ s with rx_indicate := true }, [])
  | .set_stop_flag => ({ s with stop_flag := true }, [])

end Infrared

end Tdps
