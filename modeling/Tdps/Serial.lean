import Mathlib.Tactic.SplitIfs
import Tdps.Lib.Ring

/-!
# The serial driver (`serial.c`)

In interrupt mode every received byte goes into a ring buffer of `RT_SERIAL_RB_BUFSZ` cells. One cell
stays free: the byte that fills the last one pushes out the oldest byte.
-/

namespace Tdps

open Ring

/-- `RT_SERIAL_RB_BUFSZ`, the `bufsz` of both configurations. -/
def bufsz : ℕ := 64

instance neZero_bufsz : NeZero bufsz := ⟨by decide⟩

/-- `struct rt_serial_rx_fifo`. -/
structure RxFifo where
  buffer : Vector UInt8 bufsz
  put_index : Fin bufsz
  get_index : Fin bufsz
  is_full : Bool
  /-- The flag is set when a byte was pushed out and cleared by the next read. -/
  full_spec : is_full = true → get_index = next put_index
deriving DecidableEq

namespace RxFifo

/-- After `rt_serial_open`. -/
def empty : RxFifo where
  buffer := Vector.replicate bufsz 0
  put_index := 0
  get_index := 0
  is_full := false
  full_spec := by simp

/-- The body of the loop of `rt_hw_serial_isr` for one received byte. -/
def put (f : RxFifo) (ch : UInt8) : RxFifo :=
  if h : next f.put_index = f.get_index then
    { buffer := f.buffer.set f.put_index ch
      put_index := next f.put_index
      get_index := next f.get_index
      is_full := true
      full_spec := fun _ => by rw [h] }
  else
    { buffer := f.buffer.set f.put_index ch
      put_index := next f.put_index
      get_index := f.get_index
      is_full := f.is_full
      full_spec := fun hf => absurd (f.full_spec hf).symm h }

/-- `_serial_int_rx` for one byte. -/
def intRx (f : RxFifo) : Option (UInt8 × RxFifo) :=
  if f.get_index = f.put_index ∧ f.is_full = false then none
  else some (f.buffer.get f.get_index,
    { buffer := f.buffer
      put_index := f.put_index
      get_index := next f.get_index
      is_full := false
      full_spec := by simp })

/-- The `rx_length` that `rt_hw_serial_isr` computes. -/
def rxLength (f : RxFifo) : ℕ :=
  if f.put_index ≥ f.get_index then f.put_index - f.get_index
  else bufsz - (f.get_index - f.put_index)

/-- The bytes that have been received and not read. -/
def contents (f : RxFifo) : List UInt8 := window f.buffer.get f.get_index f.rxLength

/-- The next byte pushes out the oldest one. -/
def Full (f : RxFifo) : Prop := next f.put_index = f.get_index

instance : DecidablePred Full := fun f => inferInstanceAs (Decidable (next f.put_index = f.get_index))

/-! ## The ring as a queue -/

theorem rxLength_eq (f : RxFifo) : f.rxLength = distance f.get_index f.put_index := rfl

theorem get_set (v : Vector UInt8 bufsz) (i : Fin bufsz) (ch : UInt8) :
    (v.set i ch).get = Function.update v.get i ch := by
  funext j
  rw [Function.update_apply]
  show (v.set i ch)[j.val] = if j = i then ch else v[j.val]
  rw [Vector.getElem_set]
  simp only [Fin.ext_iff, eq_comm]

/-! ### What `put` writes -/

@[simp] theorem put_buffer (f : RxFifo) (ch : UInt8) :
    (f.put ch).buffer = f.buffer.set f.put_index ch := by
  unfold put
  split_ifs <;> rfl

@[simp] theorem put_put_index (f : RxFifo) (ch : UInt8) :
    (f.put ch).put_index = next f.put_index := by
  unfold put
  split_ifs <;> rfl

theorem put_get_index {f : RxFifo} (h : ¬ f.Full) (ch : UInt8) :
    (f.put ch).get_index = f.get_index := by
  unfold put
  split_ifs with hf
  · exact absurd hf h
  · rfl

theorem put_get_index_full {f : RxFifo} (h : f.Full) (ch : UInt8) :
    (f.put ch).get_index = next f.get_index := by
  unfold put
  split_ifs with hf
  · rfl
  · exact absurd h hf

/-! ### The operations on the queue -/

@[simp] theorem contents_empty : empty.contents = [] := rfl

theorem contents_eq_nil {f : RxFifo} : f.contents = [] ↔ f.get_index = f.put_index := by
  rw [← distance_eq_zero, ← rxLength_eq, ← List.length_eq_zero_iff]
  unfold contents
  rw [length_window]

/-- The position of the next byte in terms of the window. -/
theorem put_index_eq (f : RxFifo) : ahead f.get_index f.rxLength = f.put_index :=
  ahead_distance f.get_index f.put_index

theorem full_iff (f : RxFifo) : f.Full ↔ f.rxLength + 1 = bufsz := by
  have hlt : f.rxLength < bufsz := distance_lt f.get_index f.put_index
  unfold Full
  rw [← put_index_eq, next_eq_ahead, ahead_ahead]
  constructor
  · intro h
    by_contra hne
    exact ahead_ne (i := 0) (p := f.get_index) (by omega) (by omega : f.rxLength + 1 < bufsz)
      (by rw [h, ahead_zero])
  · intro h
    rw [h]
    apply Fin.ext
    rw [val_ahead, Nat.add_mod_right, Nat.mod_eq_of_lt f.get_index.isLt]

/-- A byte is appended while there is room. -/
theorem contents_put {f : RxFifo} (h : ¬ f.Full) (ch : UInt8) :
    (f.put ch).contents = f.contents ++ [ch] := by
  have hlt : f.rxLength < bufsz := distance_lt f.get_index f.put_index
  have hroom : f.rxLength + 1 < bufsz := by
    have := mt f.full_iff.2 h
    omega
  have hlen : (f.put ch).rxLength = f.rxLength + 1 := by
    refine distance_eq hroom ?_
    rw [put_get_index h, put_put_index, ← ahead_ahead, put_index_eq, next_eq_ahead]
  unfold contents
  rw [hlen, put_get_index h, put_buffer, get_set, ← put_index_eq]
  exact window_push f.buffer.get f.get_index hlt ch

/-- In a full ring the oldest byte gives way. -/
theorem contents_put_full {f : RxFifo} (h : f.Full) (ch : UInt8) :
    (f.put ch).contents = f.contents.tail ++ [ch] := by
  have hfull := f.full_iff.1 h
  obtain ⟨k, hk⟩ : ∃ k, f.rxLength = k + 1 :=
    ⟨f.rxLength - 1, by have : bufsz = 64 := rfl; omega⟩
  have hidx : ahead (next f.get_index) k = f.put_index := by
    rw [← put_index_eq, hk, next_eq_ahead, ahead_ahead, Nat.add_comm]
  have hlen : (f.put ch).rxLength = k + 1 := by
    refine distance_eq (by omega) ?_
    rw [put_get_index_full h, put_put_index, ← ahead_ahead, hidx, next_eq_ahead]
  unfold contents
  rw [hlen, put_get_index_full h, put_buffer, get_set, ← hidx,
    window_push f.buffer.get (next f.get_index) (by omega) ch, hk, window_succ', List.tail_cons]

/-- Bytes are lost at the old end only. -/
theorem contents_foldl_put_suffix (f : RxFifo) (bytes : List UInt8) :
    (bytes.foldl put f).contents <:+ f.contents ++ bytes := by
  induction bytes generalizing f with
  | nil => simp
  | cons ch bytes ih =>
    have hput : (f.put ch).contents <:+ f.contents ++ [ch] := by
      by_cases h : f.Full
      · rw [contents_put_full h]
        obtain ⟨l, hl⟩ := List.tail_suffix f.contents
        exact ⟨l, by rw [← List.append_assoc, hl]⟩
      · exact ⟨[], contents_put h ch⟩
    obtain ⟨l, hl⟩ := hput
    refine (ih (f.put ch)).trans ⟨l, ?_⟩
    rw [← List.append_assoc, hl, List.append_assoc, List.singleton_append]

/-- Nothing is read if and only if nothing is there. -/
theorem intRx_eq_none {f : RxFifo} : f.intRx = none ↔ f.contents = [] := by
  unfold intRx
  rw [contents_eq_nil]
  constructor
  · intro h
    split_ifs at h with hc
    exact hc.1
  · intro h
    refine if_pos ⟨h, ?_⟩
    -- the flag cannot be set: a pushed-out byte leaves 63 others
    by_contra hf
    have hnext := f.full_spec (by simpa using hf)
    rw [h] at hnext
    have hlen := f.full_iff.1 (by rw [Full, ← hnext, h])
    rw [rxLength_eq, distance_eq_zero.2 h] at hlen
    exact absurd hlen (by decide)

/-- A read takes the oldest byte. -/
theorem contents_of_intRx {f f' : RxFifo} {ch : UInt8} (h : f.intRx = some (ch, f')) :
    f.contents = ch :: f'.contents := by
  have hne : f.contents ≠ [] := fun e => by
    rw [intRx_eq_none.2 e] at h
    cases h
  have hlt : f.rxLength < bufsz := distance_lt f.get_index f.put_index
  obtain ⟨k, hk⟩ : ∃ k, f.rxLength = k + 1 := by
    refine ⟨f.rxLength - 1, ?_⟩
    have := mt (fun e => contents_eq_nil.2 (distance_eq_zero.1 e)) hne
    have hpos : f.rxLength ≠ 0 := this
    omega
  unfold intRx at h
  split_ifs at h
  obtain ⟨rfl, rfl⟩ := Prod.mk.inj (Option.some.inj h)
  have hlen : distance (next f.get_index) f.put_index = k := by
    refine distance_eq (by omega) ?_
    rw [next_eq_ahead, ahead_ahead, Nat.add_comm, ← hk, put_index_eq]
  show window f.buffer.get f.get_index f.rxLength =
    f.buffer.get f.get_index ::
      window f.buffer.get (next f.get_index) (distance (next f.get_index) f.put_index)
  rw [hlen, hk, window_succ']

/-! ### The number of unread bytes -/

theorem length_contents (f : RxFifo) : f.contents.length = f.rxLength := Ring.length_window _ _ _

theorem length_contents_le (f : RxFifo) : f.contents.length ≤ 63 := by
  rw [length_contents]
  exact Nat.le_of_lt_succ (Ring.distance_lt f.get_index f.put_index)

theorem full_iff_length (f : RxFifo) : f.Full ↔ f.contents.length = 63 := by
  rw [full_iff, length_contents]
  exact Nat.succ_inj

/-- A byte more, or as many as before when there is no room. -/
theorem length_put (f : RxFifo) (ch : UInt8) :
    (f.put ch).contents.length = min (f.contents.length + 1) 63 := by
  have hle := f.length_contents_le
  by_cases h : f.Full
  · have hfull := f.full_iff_length.1 h
    rw [contents_put_full h, List.length_append, List.length_tail, List.length_singleton]
    omega
  · have hroom := mt f.full_iff_length.2 h
    rw [contents_put h, List.length_append, List.length_singleton]
    omega

theorem length_foldl_put (f : RxFifo) (bytes : List UInt8) :
    (bytes.foldl put f).contents.length = min (f.contents.length + bytes.length) 63 := by
  induction bytes generalizing f with
  | nil =>
    have hle := f.length_contents_le
    rw [List.foldl_nil, List.length_nil]
    omega
  | cons ch bytes ih =>
    rw [List.foldl_cons, ih, length_put, List.length_cons]
    omega

theorem contents_foldl_put {f : RxFifo} {bytes : List UInt8}
    (h : f.contents.length + bytes.length ≤ 63) :
    (bytes.foldl put f).contents = f.contents ++ bytes := by
  induction bytes generalizing f with
  | nil => simp
  | cons ch bytes ih =>
    rw [List.length_cons] at h
    have hroom : ¬ f.Full := by
      rw [full_iff_length]
      omega
    have hlen := f.length_put ch
    rw [List.foldl_cons, ih (by omega), contents_put hroom, List.append_assoc, List.singleton_append]

end RxFifo

end Tdps
