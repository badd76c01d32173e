import Mathlib.Data.Fintype.Basic
import Mathlib.Tactic.FinCases
import Tdps.Commu

/-!
# What the threads of the board share

The semaphores of RT-Thread (`ipc.c`), the global variables of the application, and the single
accesses to them that `commu_decoder_th` makes when a frame is complete. A thread can be preempted
between any two of these accesses.
-/

namespace Tdps

/-- `RT_SEM_VALUE_MAX`. -/
def RT_SEM_VALUE_MAX : ℕ := 65535

/-- A semaphore that one thread takes: its `value`, and whether that thread is on its
`suspend_thread` list. -/
structure Sem where
  value : ℕ
  suspended : Bool
deriving DecidableEq, Repr

namespace Sem

/-- `rt_sem_create(name, 0, RT_IPC_FLAG_FIFO)`. -/
def create : Sem := ⟨0, false⟩

/-- `rt_sem_release`: a suspended thread is resumed and the count stays; otherwise the count grows,
and at its maximum the release fails. -/
def release (s : Sem) : Sem :=
  if s.suspended then { s with suspended := false }
  else if s.value < RT_SEM_VALUE_MAX then { s with value := s.value + 1 }
  else s

/-- `rt_sem_take(sem, RT_WAITING_FOREVER)` up to the point where it returns (`true`) or the calling
thread is suspended (`false`). -/
def take (s : Sem) : Sem × Bool :=
  if 0 < s.value then ({ s with value := s.value - 1 }, true)
  else ({ s with suspended := true }, false)

/-- After a release no thread is suspended. -/
theorem release_suspended (s : Sem) : s.release.suspended = false := by
  unfold release
  split_ifs with h1 h2
  · rfl
  · simpa using h1
  · simpa using h1

/-- A release that resumes nobody leaves a positive count, also at the maximum. -/
theorem release_value_pos (s : Sem) (h : ¬ s.suspended = true) : 0 < s.release.value := by
  unfold release
  rw [if_neg h]
  split_ifs with hmax
  · exact Nat.succ_pos _
  · exact Nat.lt_of_lt_of_le (by decide) (Nat.le_of_not_lt hmax)

end Sem

/-- The globals that the threads and interrupt handlers share. -/
structure Shared where
  sp_data : Bytes4
  sem_motorctrl : Sem
  sem_infrared : Sem
  /-- `stop_flag` is only ever set to 0 or 1. -/
  stop_flag : Bool
deriving DecidableEq, Repr

def Shared.init : Shared := ⟨Bytes4.zero, Sem.create, Sem.create, false⟩

/-- One access of the decoder thread to what it shares. -/
inductive Op where
  /-- Byte `i` of `memcpy(sp_data, Rx_buffer, 4)`. -/
  | store (i : Fin 4) (b : UInt8)
  | release_motorctrl
  | release_infrared
  | set_stop_flag
deriving DecidableEq, Repr

/-- The accesses of an event, in the order of the source. -/
def Event.ops : Event → List Op
  | .gate => [.release_infrared, .set_stop_flag]
  | .motor q => [.store 0 q.b0, .store 1 q.b1, .store 2 q.b2, .store 3 q.b3, .release_motorctrl]

def Op.exec (op : Op) (m : Shared) : Shared :=
  match op with
  | store i b => { m with sp_data := m.sp_data.set i b }
  | release_motorctrl => { m with sem_motorctrl := m.sem_motorctrl.release }
  | release_infrared => { m with sem_infrared := m.sem_infrared.release }
  | set_stop_flag => { m with stop_flag := true }

/-- The accesses of these events, one after the other. -/
def Shared.handle (m : Shared) (events : List Event) : Shared :=
  (events.flatMap Event.ops).foldl (fun m op => op.exec m) m

/-- `commu_decoder_th`: the decoder's variables and the accesses that are left of the current event.
A new byte is read when there are none. (`RecCmd_Step` and `index` are reset with the last byte of a
frame and not after its accesses; no other thread reads them.) -/
structure DecoderThread where
  dec : Decoder
  todo : List Op
deriving DecidableEq, Repr

def DecoderThread.init : DecoderThread := ⟨Decoder.start Bytes4.zero, []⟩

/-! ## Bytes of an array -/

namespace Bytes4

@[simp] theorem get_set_self (q : Bytes4) (i : Fin 4) (b : UInt8) : (q.set i b).get i = b := by
  fin_cases i <;> rfl

theorem get_set_ne (q : Bytes4) {i j : Fin 4} (h : i ≠ j) (b : UInt8) :
    (q.set i b).get j = q.get j := by
  fin_cases i <;> fin_cases j <;> first
    | rfl
    | exact absurd rfl h

theorem ext_get {p q : Bytes4} (h : ∀ i, p.get i = q.get i) : p = q := by
  obtain ⟨p0, p1, p2, p3⟩ := p
  obtain ⟨q0, q1, q2, q3⟩ := q
  have h0 : p0 = q0 := h 0
  have h1 : p1 = q1 := h 1
  have h2 : p2 = q2 := h 2
  have h3 : p3 = q3 := h 3
  rw [h0, h1, h2, h3]

/-- The first `n` bytes of the two arrays are the same. -/
def AgreeBelow (n : ℕ) (p q : Bytes4) : Prop := ∀ i : Fin 4, i.val < n → p.get i = q.get i

theorem agreeBelow_zero (p q : Bytes4) : AgreeBelow 0 p q := fun _ h => absurd h (Nat.not_lt_zero _)

theorem agreeBelow_four {p q : Bytes4} (h : AgreeBelow 4 p q) : p = q :=
  ext_get fun i => h i i.isLt

/-- Copying byte `i` of `q` extends the agreement by one. -/
theorem AgreeBelow.set {p q : Bytes4} {i : Fin 4} (h : AgreeBelow i p q) :
    AgreeBelow (i + 1) (p.set i (q.get i)) q := by
  intro j hj
  by_cases hji : i = j
  · subst hji
    exact get_set_self p i (q.get i)
  · rw [get_set_ne p hji]
    exact h j (by have : i.val ≠ j.val := fun e => hji (Fin.ext e); omega)

end Bytes4

end Tdps
