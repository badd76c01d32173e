import Tdps.Proofs.CourseProofs
import Tdps.Sr04

/-!
# Proofs: the distance byte

`sr04_th` narrows a reading in tenths of a centimetre to 16 bits, divides it by 10 and narrows the
result to 8 bits. `faithful_iff` says for which readings the camera draws the right conclusion from the
byte: not for those below 1 cm, nor for those whose remainder after the wrap-arounds is below 35 cm.
-/

namespace Tdps

/-- What the camera needs of the byte for a reading: its tests give the same result on the byte as on
the distance, and it does not take the byte for the acknowledgement of the gate. -/
structure Faithful (proximity : Int32) (data : UInt8) : Prop where
  below : data < DIS_CONST ↔ proximity.toInt < 350
  nonzero : data ≠ stop_data
  pedestrian : ∀ img g, g.uart = [data] →
    ((pedestrian img g).globals.direction = .stop ↔ proximity.toInt < 350)
  state_5 : ∀ img g rest, g.delay_flag = true → g.uart = data :: rest →
    ((state5 img g).globals.direction = .stop ↔ proximity.toInt < 350)
  waits : ∀ img g, g.delay_flag = false → g.uart = [data] → (state5 img g).ret = none

/-- The reading is at least 1 cm and below 35 cm, or it is at least 35 cm and still is after the
wrap-arounds at 65536 tenths (of `uint16_t`) and at 256 cm (of `uint8_t`). -/
def InScale (proximity : ℤ) : Prop :=
  (10 ≤ proximity ∧ proximity < 350) ∨ (350 ≤ proximity ∧ 350 ≤ proximity % 65536 % 2560)

instance : DecidablePred InScale := fun p => by
  unfold InScale
  infer_instance

theorem round_eq (proximity : Int32) : Sr04.round false proximity = [sendData proximity] := rfl

/-- The value of the byte. -/
theorem sendData_toNat (proximity : Int32) :
    ((sendData proximity).toNat : ℤ) = proximity.toInt % 65536 / 10 % 256 := by
  have hpos : 0 ≤ proximity.toInt % 2 ^ 16 := Int.emod_nonneg _ (by decide)
  have hdist : (distance proximity).toNat = (proximity.toInt % 2 ^ 16).toNat := by
    unfold distance UInt16.ofInt
    rw [UInt16.toNat_ofNat']
    exact Nat.mod_eq_of_lt (by omega)
  unfold sendData
  rw [UInt16.toNat_toUInt8, UInt16.toNat_div, hdist]
  have h10 : (10 : UInt16).toNat = 10 := rfl
  rw [h10]
  omega

/-- The direction that `pedestrian` takes after a single byte. -/
theorem pedestrian_direction (img : Snapshot) {g : Globals} {data : UInt8} (h : g.uart = [data]) :
    (pedestrian img g).globals.direction = if data < DIS_CONST then .stop else .right := by
  unfold pedestrian
  rw [h]
  unfold pedestrianLoop
  split_ifs with hd
  · dsimp only
    split_ifs <;> rfl
  · rfl

/-- The direction that `state_5` takes in the gate. -/
theorem state5_direction (img : Snapshot) {g : Globals} {data : UInt8} {rest : List UInt8}
    (hf : g.delay_flag = true) (h : g.uart = data :: rest) :
    (state5 img g).globals.direction = if data < DIS_CONST then .stop else .right := by
  unfold state5
  rw [if_neg (by simp [hf]), h]
  dsimp only
  split_ifs <;> rfl

theorem state5_waits (img : Snapshot) {g : Globals} {data : UInt8} (hf : g.delay_flag = false)
    (h : g.uart = [data]) (hd : data ≠ 0) : (state5 img g).ret = none := by
  unfold state5
  rw [if_pos (by simp [hf]), h]
  unfold awaitZero
  rw [if_neg hd]
  rfl

/-- The camera decides by the byte alone, so its part follows from the byte's. -/
theorem faithful_of_byte {proximity : Int32} {data : UInt8}
    (hb : data < DIS_CONST ↔ proximity.toInt < 350) (hne : data ≠ stop_data) :
    Faithful proximity data where
  below := hb
  nonzero := hne
  pedestrian := by
    intro img g h
    rw [pedestrian_direction img h, ← hb]
    split_ifs with hd <;> simp [hd]
  state_5 := by
    intro img g rest hf h
    rw [state5_direction img hf h, ← hb]
    split_ifs with hd <;> simp [hd]
  waits := fun img _ hf h => state5_waits img hf h hne

/-- **The distance byte.** For a non-negative reading, with `stop_flag` 0, `sr04_th` sends one byte that
the camera takes for what it is if and only if the reading is in scale. -/
theorem faithful_iff (proximity : Int32) (h0 : 0 ≤ proximity.toInt) :
    (∃ data, Sr04.round false proximity = [data] ∧ Faithful proximity data) ↔
      InScale proximity.toInt := by
  have hval := sendData_toNat proximity
  have hbelow : sendData proximity < DIS_CONST ↔ (sendData proximity).toNat < 35 := Iff.rfl
  have hzero : sendData proximity = stop_data ↔ (sendData proximity).toNat = 0 := by
    rw [← UInt8.toNat_inj]
    rfl
  rw [round_eq]
  unfold InScale
  constructor
  · rintro ⟨data, hdata, hf⟩
    obtain rfl : sendData proximity = data := List.singleton_inj.1 hdata
    have hb := hbelow.symm.trans hf.below
    have hne := mt hzero.2 hf.nonzero
    omega
  · intro hs
    refine ⟨sendData proximity, rfl, faithful_of_byte ?_ ?_⟩
    · rw [hbelow]
      omega
    · rw [Ne, hzero]
      omega

theorem faithful_at_one_metre :
    ∃ data, Sr04.round false 1000 = [data] ∧ Faithful 1000 data :=
  (faithful_iff 1000 (by decide)).2 (by decide)

/-- An obstacle at 256 cm is reported as the acknowledgement of the gate. -/
theorem wrapped_reading :
    Sr04.round false 2560 = [stop_data] ∧
      ¬ ∃ data, Sr04.round false 2560 = [data] ∧ Faithful 2560 data := by
  refine ⟨by decide, ?_⟩
  rintro ⟨data, hdata, hf⟩
  exact hf.nonzero (List.singleton_inj.1 (hdata.symm.trans (by decide)))

end Tdps
