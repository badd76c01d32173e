import Mathlib.Data.UInt

/-!
# The distance sensor thread (`sr04.c`)

`sr04_th` reads the sensor, tests `stop_flag` and writes one byte to the camera: the distance in
centimetres, or 0 while the flag is set. The test and the write are separate steps.
-/

namespace Tdps

/-- `(uint16_t)sensor_data.data.proximity`, in tenths of a centimetre. -/
def distance (proximity : Int32) : UInt16 := UInt16.ofInt proximity.toInt

/-- `(uint8_t)(distance / 10)`. -/
def sendData (proximity : Int32) : UInt8 := (distance proximity / 10).toUInt8

/-- `stop_data`. -/
def stop_data : UInt8 := 0

/-- Where `sr04_th` is in its loop. -/
inductive Sr04 where
  /-- Before `rt_device_read`. -/
  | read
  /-- Before `if (stop_flag)`. -/
  | test (send_data : UInt8)
  /-- Before `rt_device_write` of this byte. -/
  | write (data : UInt8)
  /-- After a failed read. -/
  | returned
deriving DecidableEq, Repr

namespace Sr04

/-- `rt_device_read` returns one reading. -/
def sense (proximity : Int32) : Sr04 → Sr04
  | read => test (sendData proximity)
  | pc => pc

/-- `rt_device_read` fails and the thread returns. -/
def senseFails : Sr04 → Sr04
  | read => returned
  | pc => pc

/-- A step of the thread that is not a read of the sensor, with the bytes it writes. -/
def step (stop_flag : Bool) : Sr04 → Sr04 × List UInt8
  | test send_data => (write (if stop_flag then stop_data else send_data), [])
  | write data => (read, [data])
  | pc => (pc, [])

/-- The bytes of one round of the loop after this reading, with the flag at this value. -/
def round (stop_flag : Bool) (proximity : Int32) : List UInt8 :=
  let tested := (read.sense proximity).step stop_flag
  let written := tested.1.step stop_flag
  tested.2 ++ written.2

end Sr04

end Tdps
