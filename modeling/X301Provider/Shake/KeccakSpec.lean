import X301Provider.Shake.Keccak

/-!
# The software permutations are the step mappings

The standard describes the permutations on an array of bits, round by round; the offsets
of the rotations and the round constants come from a walk over the lanes and a feedback
shift register. The in-place lanes compute the same array, for all four lane widths and
every number of rounds. The hash of the signature scheme is the sponge over them.
-/

namespace X301Provider

/-- The bits of a state: column, row and position in the lane. -/
abbrev StateArray (width : ℕ) := Fin 5 → Fin 5 → Fin width → Bool

namespace StepMapping

variable {width : ℕ} [NeZero width]

def parity (A : StateArray width) (x : Fin 5) (z : Fin width) : Bool :=
  A x 0 z ^^ A x 1 z ^^ A x 2 z ^^ A x 3 z ^^ A x 4 z

def theta (A : StateArray width) : StateArray width := fun x y z =>
  A x y z ^^ (parity A (x - 1) z ^^ parity A (x + 1) (z - 1))

/-- The lanes in the order of their rotation offsets. -/
def rhoWalk : ℕ → Fin 5 × Fin 5
  | 0 => (1, 0)
  | t + 1 => ((rhoWalk t).2, 2 * (rhoWalk t).1 + 3 * (rhoWalk t).2)

def rhoOffset (x y : Fin 5) : ℕ :=
  match (List.range 24).find? fun t => rhoWalk t = (x, y) with
  | some t => (t + 1) * (t + 2) / 2
  | none => 0

def rho (A : StateArray width) : StateArray width := fun x y z =>
  A x y (z - Fin.ofNat width (rhoOffset x y))

def pi (A : StateArray width) : StateArray width := fun x y z => A (x + 3 * y) x z

def chi (A : StateArray width) : StateArray width := fun x y z =>
  A x y z ^^ (!A (x + 1) y z && A (x + 2) y z)

/-- One step of the shift register behind the round constants. -/
def shiftRegister : List Bool → List Bool
  | [r₀, r₁, r₂, r₃, r₄, r₅, r₆, r₇] => [r₇, r₀, r₁, r₂, r₃ ^^ r₇, r₄ ^^ r₇, r₅ ^^ r₇, r₆]
  | register => register

def registerOutput (t : ℕ) : Bool :=
  (shiftRegister^[t % 255] [true, false, false, false, false, false, false, false]).headD false

/-- Bit `2 ^ j - 1` of a round constant is the output `j + 7 * round` of the register. -/
def roundBit (round z : ℕ) : Bool :=
  (List.range 7).any fun j => z = 2 ^ j - 1 && registerOutput (j + 7 * round)

def iota (round : ℕ) (A : StateArray width) : StateArray width := fun x y z =>
  A x y z ^^ (decide (x = 0 ∧ y = 0) && roundBit round z)

def round (A : StateArray width) (index : ℕ) : StateArray width :=
  iota index (chi (pi (rho (theta A))))

/-- The last `rounds` of `12 + 2 * log` rounds on lanes of `2 ^ log` bits. -/
def keccakP (log rounds : ℕ) (A : StateArray (2 ^ log)) : StateArray (2 ^ log) :=
  (List.range' (12 + 2 * log - rounds) rounds).foldl round A

end StepMapping

/-- A lane type whose values are strings of `2 ^ log` bits. -/
class LaneBits (L : Type) [LaneSize L] where
  log : ℕ
  bit : L → Fin (2 ^ log) → Bool
  log_le : log ≤ 6
  rounds : LaneSize.keccakFRoundCount L = 12 + 2 * log
  bit_default : ∀ z, bit LaneSize.default z = false
  bit_xor : ∀ a b z, bit (a ^^^ b) z = (bit a z ^^ bit b z)
  bit_and : ∀ a b z, bit (a &&& b) z = (bit a z && bit b z)
  bit_complement : ∀ a z, bit (~~~a) z = !bit a z
  bit_truncateRc : ∀ rc z, bit (LaneSize.truncateRc rc) z = rc.toBitVec.getLsbD z
  bit_rotateLeft : ∀ a count z,
    bit (LaneSize.rotateLeft a count) z = bit a (z - Fin.ofNat (2 ^ log) count)

theorem getLsbD_rotateLeft_sub (log : ℕ) (a : BitVec (2 ^ log)) (count : ℕ) (z : Fin (2 ^ log)) :
    (a.rotateLeft count).getLsbD z = a.getLsbD (z - Fin.ofNat (2 ^ log) count : Fin (2 ^ log)) := by
  have hz := z.isLt
  have hCount := Nat.mod_lt count (Nat.two_pow_pos log)
  rw [BitVec.getLsbD_rotateLeft, Fin.sub_def]
  have hValue : (Fin.ofNat (2 ^ log) count : ℕ) = count % 2 ^ log := rfl
  simp only [hValue]
  generalize count % 2 ^ log = shift at *
  by_cases hWrap : (z : ℕ) < shift
  · have hIndex : (2 ^ log - shift + z) % 2 ^ log = 2 ^ log - shift + z :=
      Nat.mod_eq_of_lt (by omega)
    rw [decide_eq_true hWrap, cond_true, hIndex]
  · have hIndex : (2 ^ log - shift + z) % 2 ^ log = z - shift := by
      have hSum : 2 ^ log - shift + z = (z - shift) + 2 ^ log := by omega
      rw [hSum, Nat.add_mod_right, Nat.mod_eq_of_lt (by omega)]
    rw [decide_eq_false hWrap, cond_false, decide_eq_true hz, Bool.true_and, hIndex]

instance laneBitsByte : LaneBits UInt8 where
  log := 3
  bit lane z := lane.toBitVec.getLsbD z
  log_le := by decide
  rounds := rfl
  bit_default _ := BitVec.getLsbD_zero
  bit_xor a b z := by rw [UInt8.toBitVec_xor, BitVec.getLsbD_xor]
  bit_and a b z := by rw [UInt8.toBitVec_and, BitVec.getLsbD_and]
  bit_complement a z := by
    have hz : (z : ℕ) < 8 := z.isLt
    rw [UInt8.toBitVec_not, BitVec.getLsbD_not, decide_eq_true hz, Bool.true_and]
  bit_truncateRc rc z := by
    have hz : (z : ℕ) < 8 := z.isLt
    have hLane : (LaneSize.truncateRc rc : UInt8).toBitVec = rc.toBitVec.setWidth 8 :=
      UInt64.toBitVec_toUInt8 rc
    rw [hLane, BitVec.getLsbD_setWidth, decide_eq_true hz, Bool.true_and]
  bit_rotateLeft lane count z := getLsbD_rotateLeft_sub 3 lane.toBitVec count z

instance laneBitsHalf : LaneBits UInt16 where
  log := 4
  bit lane z := lane.toBitVec.getLsbD z
  log_le := by decide
  rounds := rfl
  bit_default _ := BitVec.getLsbD_zero
  bit_xor a b z := by rw [UInt16.toBitVec_xor, BitVec.getLsbD_xor]
  bit_and a b z := by rw [UInt16.toBitVec_and, BitVec.getLsbD_and]
  bit_complement a z := by
    have hz : (z : ℕ) < 16 := z.isLt
    rw [UInt16.toBitVec_not, BitVec.getLsbD_not, decide_eq_true hz, Bool.true_and]
  bit_truncateRc rc z := by
    have hz : (z : ℕ) < 16 := z.isLt
    have hLane : (LaneSize.truncateRc rc : UInt16).toBitVec = rc.toBitVec.setWidth 16 :=
      UInt64.toBitVec_toUInt16 rc
    rw [hLane, BitVec.getLsbD_setWidth, decide_eq_true hz, Bool.true_and]
  bit_rotateLeft lane count z := getLsbD_rotateLeft_sub 4 lane.toBitVec count z

instance laneBitsSingle : LaneBits UInt32 where
  log := 5
  bit lane z := lane.toBitVec.getLsbD z
  log_le := by decide
  rounds := rfl
  bit_default _ := BitVec.getLsbD_zero
  bit_xor a b z := by rw [UInt32.toBitVec_xor, BitVec.getLsbD_xor]
  bit_and a b z := by rw [UInt32.toBitVec_and, BitVec.getLsbD_and]
  bit_complement a z := by
    have hz : (z : ℕ) < 32 := z.isLt
    rw [UInt32.toBitVec_not, BitVec.getLsbD_not, decide_eq_true hz, Bool.true_and]
  bit_truncateRc rc z := by
    have hz : (z : ℕ) < 32 := z.isLt
    have hLane : (LaneSize.truncateRc rc : UInt32).toBitVec = rc.toBitVec.setWidth 32 :=
      UInt64.toBitVec_toUInt32 rc
    rw [hLane, BitVec.getLsbD_setWidth, decide_eq_true hz, Bool.true_and]
  bit_rotateLeft lane count z := getLsbD_rotateLeft_sub 5 lane.toBitVec count z

instance laneBitsWord : LaneBits UInt64 where
  log := 6
  bit lane z := lane.toBitVec.getLsbD z
  log_le := by decide
  rounds := rfl
  bit_default _ := BitVec.getLsbD_zero
  bit_xor a b z := by rw [UInt64.toBitVec_xor, BitVec.getLsbD_xor]
  bit_and a b z := by rw [UInt64.toBitVec_and, BitVec.getLsbD_and]
  bit_complement a z := by
    have hz : (z : ℕ) < 64 := z.isLt
    rw [UInt64.toBitVec_not, BitVec.getLsbD_not, decide_eq_true hz, Bool.true_and]
  bit_truncateRc _ _ := rfl
  bit_rotateLeft lane count z := getLsbD_rotateLeft_sub 6 lane.toBitVec count z

namespace Keccak

def laneX (j : Fin 25) : Fin 5 := ⟨j % 5, Nat.mod_lt _ (by decide)⟩

def laneY (j : Fin 25) : Fin 5 := ⟨j / 5, by omega⟩

@[simp] theorem laneX_lane (x y : Fin 5) : laneX (lane x y) = x := by
  apply Fin.ext
  simp only [laneX, lane]
  omega

@[simp] theorem laneY_lane (x y : Fin 5) : laneY (lane x y) = y := by
  apply Fin.ext
  simp only [laneY, lane]
  omega

theorem lane_laneX_laneY (j : Fin 25) : lane (laneX j) (laneY j) = j := by
  apply Fin.ext
  simp only [laneX, laneY, lane]
  omega

theorem lane_injective_left (y : Fin 5) : Function.Injective fun x => lane x y := by
  intro x x' h
  have hX := congrArg laneX h
  simpa using hX

theorem lane_injective_right (x : Fin 5) : Function.Injective fun y => lane x y := by
  intro y y' h
  have hY := congrArg laneY h
  simpa using hY

theorem unroll5_eq {α : Type*} (body : Fin 5 → α → α) (a : α) :
    unroll5 body a = [0, 1, 2, 3, 4].foldl (fun a x => body x a) a := rfl

theorem nodup_unroll5 : ([0, 1, 2, 3, 4] : List (Fin 5)).Nodup := by decide

theorem mem_unroll5 (x : Fin 5) : x ∈ ([0, 1, 2, 3, 4] : List (Fin 5)) := by
  revert x
  decide

/-- An unrolled loop whose passes fill disjoint regions. -/
theorem get_unroll5 {α : Type*} {n : ℕ} {region : Fin 5 → Fin n → Prop}
    {pass : Fin 5 → List.Vector α n → List.Vector α n} {value : Fin n → List.Vector α n → α}
    (h : FillsRegions region pass value) {x : Fin 5} {j : Fin n} (hj : region x j)
    (array : List.Vector α n) : (unroll5 pass array).get j = value j array :=
  h.get nodup_unroll5 (mem_unroll5 x) hj array

theorem get_unroll5_frame {α : Type*} {n : ℕ} {region : Fin 5 → Fin n → Prop}
    {pass : Fin 5 → List.Vector α n → List.Vector α n} {value : Fin n → List.Vector α n → α}
    (h : FillsRegions region pass value) {j : Fin n} (hj : ∀ x, ¬region x j)
    (array : List.Vector α n) : (unroll5 pass array).get j = array.get j := by
  rw [unroll5_eq]
  exact h.get_of_forall_not (fun x _ => hj x) array

section Lanes

variable {L : Type} [LaneSize L]

open LaneSize (rotateLeft)

theorem get_columnParity (state : List.Vector L 25) (x : Fin 5) :
    (columnParity state).get x =
      LaneSize.default ^^^ state.get (lane x 0) ^^^ state.get (lane x 1) ^^^
        state.get (lane x 2) ^^^ state.get (lane x 3) ^^^ state.get (lane x 4) := by
  have hSum : ∀ (x : Fin 5) (array : List.Vector L 5),
      (unroll5 (fun y array => array.set x (array.get x ^^^ state.get (lane x y))) array).get x =
        array.get x ^^^ state.get (lane x 0) ^^^ state.get (lane x 1) ^^^
          state.get (lane x 2) ^^^ state.get (lane x 3) ^^^ state.get (lane x 4) := by
    intro x array
    simp only [unroll5, List.Vector.get_set_same]
  have hFill : FillsRegions (fun x j => j = x)
      (fun x array => unroll5 (fun y array =>
        array.set x (array.get x ^^^ state.get (lane x y))) array)
      (fun x (array : List.Vector L 5) =>
        array.get x ^^^ state.get (lane x 0) ^^^ state.get (lane x 1) ^^^
          state.get (lane x 2) ^^^ state.get (lane x 3) ^^^ state.get (lane x 4)) := by
    refine ⟨fun _ _ _ h h' => h.symm.trans h', ?_, ?_, ?_⟩
    · intro x array j hj
      simp only [unroll5, List.Vector.get_set_of_ne (Ne.symm hj)]
    · intro x array j hj
      subst hj
      exact hSum j array
    · intro x array array' j hj hSame
      rw [hSame j hj]
  rw [columnParity, get_unroll5 hFill rfl, List.Vector.get_replicate]

theorem get_theta (state : List.Vector L 25) (x y : Fin 5) :
    (theta state).get (lane x y) = state.get (lane x y) ^^^
      ((columnParity state).get (x + 4) ^^^ rotateLeft ((columnParity state).get (x + 1)) 1) := by
  generalize hArray : columnParity state = array
  have hColumn := fun x => FillsRegions.of_set (lane_injective_right x) fun (_ : Fin 25) (entry : L) =>
    entry ^^^ (array.get (x + 4) ^^^ rotateLeft (array.get (x + 1)) 1)
  have hFill : FillsRegions (fun x j => laneX j = x)
      (fun x => unroll5 fun y (state : List.Vector L 25) =>
        state.set (lane x y) (state.get (lane x y) ^^^
          (array.get (x + 4) ^^^ rotateLeft (array.get (x + 1)) 1)))
      (fun j state => state.get j ^^^
        (array.get (laneX j + 4) ^^^ rotateLeft (array.get (laneX j + 1)) 1)) := by
    refine ⟨fun _ _ _ h h' => h.symm.trans h', ?_, ?_, ?_⟩
    · intro x state j hj
      refine get_unroll5_frame (hColumn x) (fun y hy => hj ?_) state
      rw [hy, laneX_lane]
    · intro x state j hj
      subst hj
      exact get_unroll5 (hColumn (laneX j)) (lane_laneX_laneY j).symm state
    · intro x state state' j hj hSame
      rw [hSame j hj]
  have hGet := get_unroll5 hFill (laneX_lane x y) state
  rw [laneX_lane] at hGet
  rw [theta, hArray]
  exact hGet

theorem get_chi (state : List.Vector L 25) (x y : Fin 5) :
    (chi state).get (lane x y) = state.get (lane x y) ^^^
      (~~~state.get (lane (x + 1) y) &&& state.get (lane (x + 2) y)) := by
  have hRow := fun (y : Fin 5) (array : Fin 5 → L) =>
    FillsRegions.of_set (lane_injective_left y) fun j _ =>
      array (laneX j) ^^^ (~~~array (laneX j + 1) &&& array (laneX j + 2))
  simp only [laneX_lane] at hRow
  have hFill : FillsRegions (fun y j => laneY j = y)
      (fun y (state : List.Vector L 25) => unroll5 (fun x state' =>
        state'.set (lane x y) (state.get (lane x y) ^^^
          (~~~state.get (lane (x + 1) y) &&& state.get (lane (x + 2) y)))) state)
      (fun j state => state.get j ^^^ (~~~state.get (lane (laneX j + 1) (laneY j)) &&&
        state.get (lane (laneX j + 2) (laneY j)))) := by
    refine ⟨fun _ _ _ h h' => h.symm.trans h', ?_, ?_, ?_⟩
    · intro y state j hj
      refine get_unroll5_frame (hRow y fun x => state.get (lane x y)) (fun x hx => hj ?_) state
      rw [hx, laneY_lane]
    · intro y state j hj
      subst hj
      have hGet := get_unroll5 (hRow (laneY j) fun x => state.get (lane x (laneY j)))
        (lane_laneX_laneY j).symm state
      rw [lane_laneX_laneY] at hGet
      exact hGet
    · intro y state state' j hj hSame
      subst hj
      rw [hSame j rfl, hSame _ (laneY_lane _ _), hSame _ (laneY_lane _ _)]
  have hGet := get_unroll5 hFill (laneY_lane x y) state
  rw [laneX_lane, laneY_lane] at hGet
  exact hGet

/-- The walk visits the lanes in the order of the offsets, each with its own offset. -/
theorem pi_rho_table : (pi.Nodup ∧ pi.length = 24 ∧ rho.length = 24 ∧ 0 ∉ pi) ∧
    ∀ x y : Fin 5, lane x y ≠ 0 → ∃ i : Fin 24,
      pi[i]? = some (lane x y) ∧ (1 :: pi)[i]? = some (lane (x + 3 * y) x) ∧
        rho[i]? = some (StepMapping.rhoOffset (x + 3 * y) x % 64) := by
  decide +kernel

/-- The constants are the outputs of the shift register. -/
theorem rc_table : rc.length = 24 ∧ ∀ round < 24, ∀ z < 64,
    (rc.getD round 0).toBitVec.getLsbD z = StepMapping.roundBit round z := by
  decide +kernel

end Lanes

section Bits

variable {L : Type} [LaneSize L] [LaneBits L]

open LaneBits (log bit)

/-- The bits of the lanes. -/
def stateArray (state : List.Vector L 25) : StateArray (2 ^ log L) := fun x y z =>
  bit (state.get (lane x y)) z

theorem stateArray_theta (state : List.Vector L 25) :
    stateArray (theta state) = StepMapping.theta (stateArray state) := by
  have hParity : ∀ x z, bit ((columnParity state).get x) z =
      StepMapping.parity (stateArray state) x z := by
    intro x z
    simp only [get_columnParity, LaneBits.bit_xor, LaneBits.bit_default, Bool.false_xor]
    rfl
  have hPrevious : ∀ x : Fin 5, x + 4 = x - 1 := by decide
  funext x y z
  have hOne : Fin.ofNat (2 ^ log L) 1 = 1 := rfl
  simp only [stateArray, get_theta, LaneBits.bit_xor, LaneBits.bit_rotateLeft, hParity, hPrevious,
    hOne]
  rfl

theorem stateArray_chi (state : List.Vector L 25) :
    stateArray (chi state) = StepMapping.chi (stateArray state) := by
  funext x y z
  simp only [stateArray, get_chi, LaneBits.bit_xor, LaneBits.bit_and, LaneBits.bit_complement]
  rfl

/-- A rotation offset counts modulo the width of the lane, which divides 64. -/
theorem ofNat_mod_word (offset : ℕ) :
    Fin.ofNat (2 ^ log L) (offset % 64) = Fin.ofNat (2 ^ log L) offset := by
  apply Fin.ext
  have hDvd : 2 ^ log L ∣ 64 := Nat.pow_dvd_pow 2 (LaneBits.log_le : log L ≤ 6)
  exact Nat.mod_mod_of_dvd offset hDvd

theorem stateArray_rhoPi (state : List.Vector L 25) :
    stateArray (rhoPi state) = StepMapping.pi (StepMapping.rho (stateArray state)) := by
  obtain ⟨⟨hNodup, hPi, hRho, hZero⟩, hTable⟩ := pi_rho_table
  generalize hSteps : (pi.zip (rho.map fun count (lane : L) =>
    LaneSize.rotateLeft lane count)) = steps
  have hPositions : steps.map Prod.fst = pi := by
    rw [← hSteps]
    exact List.map_fst_zip (by rw [List.length_map, hPi, hRho])
  rw [← hPositions] at hNodup
  funext x y z
  have hGet : bit ((walk (state.get 1, state) steps).2.get (lane x y)) z =
      stateArray state (x + 3 * y) x
        (z - Fin.ofNat (2 ^ log L) (StepMapping.rhoOffset (x + 3 * y) x)) := by
    by_cases hOrigin : lane x y = 0
    · -- The walk leaves the first lane, whose offset is zero.
      have hFirst : x = 0 ∧ y = 0 := ⟨(laneX_lane x y).symm.trans (congrArg laneX hOrigin),
        (laneY_lane x y).symm.trans (congrArg laneY hOrigin)⟩
      have hUnmoved : lane x y ∉ steps.map Prod.fst := by
        rw [hPositions, hOrigin]
        exact hZero
      rw [walk_get_of_notMem hUnmoved, hFirst.1, hFirst.2]
      have hOffset : Fin.ofNat (2 ^ log L) (StepMapping.rhoOffset (0 + 3 * 0) 0) = 0 := rfl
      rw [hOffset, sub_zero]
      rfl
    · obtain ⟨i, hTarget, hSource, hOffset⟩ := hTable x y hOrigin
      have hStep : steps[(i : ℕ)]? = some (lane x y, fun entry : L =>
          LaneSize.rotateLeft entry (StepMapping.rhoOffset (x + 3 * y) x % 64)) := by
        rw [← hSteps, List.getElem?_zip_eq_some, List.getElem?_map]
        refine ⟨hTarget, ?_⟩
        exact congrArg (Option.map fun count (entry : L) => LaneSize.rotateLeft entry count) hOffset
      have hSource' : (1 :: steps.map Prod.fst)[(i : ℕ)]? = some (lane (x + 3 * y) x) := by
        rw [hPositions]
        exact hSource
      rw [walk_get_index hNodup hStep hSource' state, LaneBits.bit_rotateLeft, ofNat_mod_word]
      rfl
  rw [stateArray, rhoPi, hSteps]
  exact hGet

theorem stateArray_iota {round : ℕ} (hRound : round < 24) (state : List.Vector L 25) :
    stateArray (iota (LaneSize.truncateRc (rc.getD round 0)) state) =
      StepMapping.iota round (stateArray state) := by
  funext x y z
  have hz : (z : ℕ) < 64 :=
    z.isLt.trans_le (Nat.pow_le_pow_right (by decide) (LaneBits.log_le : log L ≤ 6))
  by_cases hOrigin : x = 0 ∧ y = 0
  · obtain ⟨rfl, rfl⟩ := hOrigin
    have hGet : (iota (LaneSize.truncateRc (rc.getD round 0)) state).get (lane 0 0) =
        state.get (lane 0 0) ^^^ LaneSize.truncateRc (rc.getD round 0) :=
      List.Vector.get_set_same _ _ _
    rw [stateArray, hGet, LaneBits.bit_xor, LaneBits.bit_truncateRc, rc_table.2 round hRound z hz,
      StepMapping.iota, decide_eq_true ⟨rfl, rfl⟩, Bool.true_and]
    rfl
  · have hLane : (0 : Fin 25) ≠ lane x y := fun h => hOrigin
      ⟨(laneX_lane x y).symm.trans (congrArg laneX h.symm),
        (laneY_lane x y).symm.trans (congrArg laneY h.symm)⟩
    rw [stateArray, iota, List.Vector.get_set_of_ne hLane, StepMapping.iota,
      decide_eq_false hOrigin, Bool.false_and, Bool.xor_false]
    rfl

/-- One round on the lanes is one round on the bits. -/
theorem stateArray_round {round : ℕ} (hRound : round < 24) (state : List.Vector L 25) :
    stateArray (iota (LaneSize.truncateRc (rc.getD round 0)) (chi (rhoPi (theta state)))) =
      StepMapping.round (stateArray state) round := by
  rw [stateArray_iota hRound, stateArray_chi, stateArray_rhoPi, stateArray_theta]
  rfl

theorem roundConsts_eq {rounds : ℕ} (h : rounds ≤ 12 + 2 * log L) :
    roundConsts L rounds = some ((List.range' (12 + 2 * log L - rounds) rounds).map fun round =>
      LaneSize.truncateRc (rc.getD round 0)) := by
  have hCount : 12 + 2 * log L ≤ rc.length := by
    rw [rc_table.1]
    exact Nat.add_le_add_left (Nat.mul_le_mul_left 2 (LaneBits.log_le : log L ≤ 6)) 12
  have hConstants : (rc.take (12 + 2 * log L)).drop (12 + 2 * log L - rounds) =
      (List.range' (12 + 2 * log L - rounds) rounds).map fun round => rc.getD round 0 := by
    apply List.ext_getElem
    · simp only [List.length_drop, List.length_take, List.length_map, List.length_range']
      omega
    · intro i hi hi'
      rw [List.length_map, List.length_range'] at hi'
      have hIndex : 12 + 2 * log L - rounds + i < rc.length := by omega
      simp only [List.getElem_drop, List.getElem_take, List.getElem_map, List.getElem_range',
        Nat.one_mul]
      exact (List.getD_eq_getElem rc 0 hIndex).symm
  rw [roundConsts, LaneBits.rounds, if_pos h, hConstants, List.map_map]
  rfl

/-- The permutation on the lanes is the permutation on the bits, for every lane width. -/
theorem keccakP_of_le {rounds : ℕ} (hRounds : rounds ≤ 12 + 2 * log L) (state : List.Vector L 25) :
    (keccakP rounds state).map stateArray =
      some (StepMapping.keccakP (log L) rounds (stateArray state)) := by
  have hRun : ∀ (indices : List ℕ) (state : List.Vector L 25), (∀ index ∈ indices, index < 24) →
      stateArray ((indices.map fun index => LaneSize.truncateRc (rc.getD index 0)).foldl
        (fun state rc => iota rc (chi (rhoPi (theta state)))) state) =
      indices.foldl StepMapping.round (stateArray state) := by
    intro indices
    induction indices with
    | nil => exact fun _ _ => rfl
    | cons index indices ih =>
      intro state hIndices
      rw [List.forall_mem_cons] at hIndices
      rw [List.map_cons, List.foldl_cons, ih _ hIndices.2, stateArray_round hIndices.1,
        List.foldl_cons]
  have hLog : log L ≤ 6 := LaneBits.log_le
  have hIndices : ∀ index ∈ List.range' (12 + 2 * log L - rounds) rounds, index < 24 := by
    intro index hIndex
    rw [List.mem_range'_1] at hIndex
    omega
  rw [keccakP, roundConsts_eq hRounds, Option.map_some, Option.map_some, hRun _ _ hIndices]
  rfl

/-- The permutation on the lanes is the permutation on the bits; more rounds than the permutation
has are refused. -/
theorem keccakP_eq (rounds : ℕ) (state : List.Vector L 25) :
    (keccakP rounds state).map stateArray =
      if rounds ≤ 12 + 2 * log L then
        some (StepMapping.keccakP (log L) rounds (stateArray state))
      else none := by
  split_ifs with hRounds
  · exact keccakP_of_le hRounds state
  · rw [keccakP, roundConsts, LaneBits.rounds, if_neg hRounds]
    rfl

end Bits

end Keccak

/-- The software backend is the full permutation on lanes of 64 bits. -/
theorem stateArray_softF1600 (state : State1600) :
    Keccak.stateArray (softF1600 state) =
      StepMapping.keccakP 6 24 (Keccak.stateArray state) := by
  have hRun : (Keccak.keccakP 24 state).map Keccak.stateArray =
      some (StepMapping.keccakP 6 24 (Keccak.stateArray state)) :=
    Keccak.keccakP_of_le (by decide) state
  have hSome : Keccak.keccakP 24 state = some (softF1600 state) := (Option.some_get rfl).symm
  rw [hSome] at hRun
  exact Option.some.inj hRun

/-- How a transcript is cut into parts does not matter: seed, nonce and challenge hashes are the
hash of their concatenation, which is what the signature scheme assumes of its hash. That hash is
the sponge over the padded concatenation, and the permutation of the software backend is the one
of the standard. -/
theorem Shake.hashParts_eq (littleEndian : Bool) (parts : List (List UInt8)) :
    (∀ f1600 : State1600 → State1600,
      Shake.hashParts littleEndian f1600 parts =
          (shake256With littleEndian f1600).hashParts parts ∧
        (Shake.hashParts littleEndian f1600 parts).1 =
          (laneSponge rate136 f1600).extendableOutput 0x1f 0x80 Shake.zeroState parts.flatten 76) ∧
      ∀ state, Keccak.stateArray (softF1600 state) =
        StepMapping.keccakP 6 24 (Keccak.stateArray state) := by
  refine ⟨fun f1600 => ⟨?_, Shake.hashParts_val littleEndian f1600 parts⟩, stateArray_softF1600⟩
  apply Subtype.ext
  rw [Shake256.hashParts, shake256With, Shake.hashParts_val, Shake.hashParts_val,
    List.flatten_singleton]

end X301Provider
