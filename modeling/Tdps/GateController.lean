import Tdps.Lib.Machine

/-!
# The gate controller (`mbed/main.cpp`)

The main loop opens the gate and sends the go code when `send_flag` is set, which the receive interrupt
of the infrared link does on a byte 0x44. The interrupt can come between any two statements of the loop.
-/

namespace Tdps

/-- The statements of the main loop, with those of `send_go`. -/
inductive GatePc where
  /-- `if(send_flag == 1)`. -/
  | test
  /-- `myled.write(0.075)`. -/
  | opens
  /-- The first `thread_sleep_for(2000)`. -/
  | sleep
  /-- The call of `send_go`. -/
  | send_go
  /-- `device.write(&c, 5)`. -/
  | write
  /-- `send_flag = 0`. -/
  | clear
  /-- The second `thread_sleep_for(2000)`. -/
  | sleep'
  /-- `myled.write(0.025)`. -/
  | closes
deriving DecidableEq, Repr

structure GateController where
  send_flag : Bool
  pc : GatePc
deriving DecidableEq, Repr

namespace GateController

def init : GateController := ⟨false, .test⟩

/-- The array `c` of `send_go`. -/
def send_code : List UInt8 := [0xfa, 0xf1, 0x22, 0x33, 0x44]

inductive Choice where
  /-- The next statement of `main`. -/
  | main
  /-- The receive interrupt, with the byte that `device.read` gives. -/
  | rx_irp2 (c : UInt8)
deriving DecidableEq, Repr

/-- What can be seen of a step. -/
inductive Act where
  /-- The duty cycle of the gate's servo, in thousandths. -/
  | myled (duty : ℕ)
  /-- `send_go` begins. -/
  | send_go
  /-- Bytes written to the infrared link. -/
  | write (bytes : List UInt8)
  /-- A byte received, and echoed to the terminal. -/
  | received (c : UInt8)
deriving DecidableEq, Repr

/-- The next statement of `main`. -/
def stepMain (s : GateController) : GateController × List Act :=
  match s.pc with
  | .test => if s.send_flag then ({ s with pc := .opens }, []) else (s, [])
  | .opens => ({ s with pc := .sleep }, [.myled 75])
  | .sleep => ({ s with pc := .send_go }, [])
  | .send_go => ({ s with pc := .write }, [.send_go])
  | .write => ({ s with pc := .clear }, [.write send_code])
  | .clear => ({ send_flag := false, pc := .sleep' }, [])
  | .sleep' => ({ s with pc := .closes }, [])
  | .closes => ({ s with pc := .test }, [.myled 25])

/-- `rx_irp2`. -/
def rxIrp2 (s : GateController) (c : UInt8) : GateController × List Act :=
  (if c = 0x44 then { s with send_flag := true } else s, [.received c])

def step (s : GateController) : Choice → GateController × List Act
  | .main => s.stepMain
  | .rx_irp2 c => s.rxIrp2 c

end GateController

end Tdps
