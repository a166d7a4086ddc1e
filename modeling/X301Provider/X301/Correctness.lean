import X301Provider.X301.ReferenceSpec

/-!
# The X301 function

The limb ladder agrees with the reference for all inputs, and both compute the
multiple by the clamped scalar on the Montgomery curve or its twist. The
coordinates `0`, `1` and `-1` are always rejected.
-/

namespace X301Provider.X301

open Limbs MontgomeryCurve

/-- The reference error code of each error. -/
def code : X301Error → Reference.Failure
  | .invalidSecretLength => .secretLength
  | .invalidPublicLength => .length
  | .allZeroSharedSecret => .allZero

/-- The encoding of a coordinate, with zero rejected. -/
def outcome (x : Fp) : Except X301Error (Bytes 38) :=
  if x = 0 then .error .allZeroSharedSecret else .ok (Fe301.oracleBytes x)

theorem x301_of_secret_length [ModularInverse] {secret : List UInt8} (h : secret.length ≠ 38)
    (u : List UInt8) : x301 secret u = .error .invalidSecretLength := by
  rw [x301, toArray_of_length_ne h]

theorem x301_of_public_length [ModularInverse] (secret : Bytes 38) {u : List UInt8}
    (h : u.length ≠ 38) : x301 secret.1 u = .error .invalidPublicLength := by
  simp only [x301, toArray_val, decodePublic, toArray_of_length_ne h]

theorem x301_of_bytes [ModularInverse] (secret u : Bytes 38) :
    x301 secret.1 u.1 =
      let r := fieldLadder (decodedU u)
        (digitsDown (bytesValue (clampScalar secret).1 / 4).testBit 298)
      outcome (r.1 / r.2) := by
  obtain ⟨hx, hz⟩ := ladder_repr (clampScalar secret) (Fe301.fromX301Bytes_repr u)
  simp only [x301, toArray_val, decodePublic]
  exact finalize_eq hx hz

theorem clamped_bounds (secret : Bytes 38) :
    2 ^ 300 ≤ bytesValue (clampScalar secret).1 ∧ bytesValue (clampScalar secret).1 < 2 ^ 301 ∧
      4 ∣ bytesValue (clampScalar secret).1 := by
  rw [bytesValue_clampScalar]
  exact clampedValue_bounds _

theorem x301_eq_outcome [ModularInverse] (secret u : Bytes 38) {M : MontgomeryCurve Fp}
    (hA : M.A = E.montgomery.A) {v : Fp} (hCurve : M.OnCurve (decodedU u) v)
    (hu : decodedU u ≠ 0) :
    x301 secret.1 u.1 =
      outcome (bytesValue (clampScalar secret).1 • Point.affine (decodedU u) v hCurve).uOrZero := by
  obtain ⟨hLow, hHigh, hFour⟩ := clamped_bounds secret
  rw [x301_of_bytes]
  exact congrArg outcome (fieldLadder_represents hA hCurve hu hLow hHigh hFour).div_eq

theorem x301_of_decodedU_zero [ModularInverse] (secret : Bytes 38) {u : Bytes 38}
    (hu : decodedU u = 0) : x301 secret.1 u.1 = .error .allZeroSharedSecret := by
  rw [x301_of_bytes, hu]
  simp only [fieldLadder_zero, div_zero]
  exact if_pos rfl

theorem w_ne_zero {u : Fp} (hu : u ≠ 0) : u ^ 3 + E.montgomery.A * u ^ 2 + u ≠ 0 :=
  E.montgomery_w_ne_zero hu

theorem finalRegisters_eq_fieldLadder {k : ℕ} (hLow : 2 ^ 300 ≤ k) (hHigh : k < 2 ^ 301)
    (hFour : 4 ∣ k) (u : Fp) :
    (Reference.finalRegisters k u).x₂ / (Reference.finalRegisters k u).z₂ =
      (fieldLadder u (digitsDown (k / 4).testBit 298)).1 /
        (fieldLadder u (digitsDown (k / 4).testBit 298)).2 := by
  by_cases hu : u = 0
  · rw [hu, Reference.finalRegisters_zero, fieldLadder_zero, div_zero]
  · have hCurve := E.montgomery.through_onCurve u (w_ne_zero hu)
    have hA := E.montgomery.through_A u (w_ne_zero hu)
    have hReference := Reference.finalRegisters_represents hA hCurve hu hHigh
    have hLimbs := fieldLadder_represents hA hCurve hu hLow hHigh hFour
    exact hReference.div_eq.trans hLimbs.div_eq.symm

/-- What the reference prescribes: the two length errors, then the all-zero error when the
final `z` or the quotient vanishes, then the encoded quotient. -/
def prescribed (secret encodedU : List UInt8) : Except X301Error (Bytes 38) :=
  match Reference.clampScalar secret, Reference.decodeU encodedU with
  | .error _, _ => .error .invalidSecretLength
  | .ok _, .error _ => .error .invalidPublicLength
  | .ok scalar, .ok u =>
    let (x, z) := Reference.montgomeryLadder scalar u
    let output := x * Reference.powInverse z % P
    if z = 0 ∨ output = 0 then .error .allZeroSharedSecret
    else .ok ⟨leBytes 38 output.toNat, leBytes_length 38 _⟩

theorem prescribed_of_bytes (secret u : Bytes 38) :
    prescribed secret.1 u.1 =
      let r := Reference.finalRegisters (bytesValue (clampScalar secret).1) (decodedU u)
      outcome (r.x₂ / r.z₂) := by
  have hOutput : ∀ X Z : Fp, Z ≠ 0 →
      (X.val : ℤ) * Reference.powInverse Z.val % P = ((X / Z).val : ℤ) := by
    intro X Z hZ
    apply Reference.emod_eq
    rw [Int.cast_mul, Reference.cast_powInverse (by rwa [Reference.intCast_val]),
      Reference.intCast_val, Reference.intCast_val, div_eq_mul_inv]
  simp only [prescribed, Reference.clampScalar_eq, Reference.decodeU_eq,
    Reference.montgomeryLadder_eq, Reference.val_eq_zero_iff]
  by_cases hZ : (Reference.finalRegisters (bytesValue (clampScalar secret).1) (decodedU u)).z₂ = 0
  · rw [if_pos (Or.inl hZ), hZ, div_zero, outcome, if_pos rfl]
  · simp only [hOutput _ _ hZ, hZ, false_or, Reference.val_eq_zero_iff]
    rfl

/-- The X301 function agrees with the reference on all byte strings. -/
theorem x301_eq_reference [ModularInverse] (secret u : List UInt8) :
    x301 secret u = prescribed secret u ∧
      (x301 secret u).mapError code = Reference.x301 secret u := by
  cases hSecret : toArray 38 secret with
  | none =>
    have hLength := toArray_eq_none_iff.mp hSecret
    rw [x301_of_secret_length hLength]
    simp only [prescribed, Reference.x301, Reference.clampScalar, hSecret]
    exact ⟨trivial, rfl⟩
  | some secretBytes =>
    obtain rfl := toArray_eq_some_iff.mp hSecret
    cases hPublic : toArray 38 u with
    | none =>
      have hLength := toArray_eq_none_iff.mp hPublic
      rw [x301_of_public_length secretBytes hLength]
      simp only [prescribed, Reference.x301, Reference.clampScalar_eq, Reference.decodeU, hPublic]
      exact ⟨trivial, rfl⟩
    | some publicBytes =>
      obtain rfl := toArray_eq_some_iff.mp hPublic
      obtain ⟨hLow, hHigh, hFour⟩ := clamped_bounds secretBytes
      have hLadders := finalRegisters_eq_fieldLadder hLow hHigh hFour (decodedU publicBytes)
      rw [x301_of_bytes, prescribed_of_bytes, Reference.x301_of_bytes]
      simp only [hLadders]
      refine ⟨trivial, ?_⟩
      rw [outcome]
      split_ifs with hZero
      · rfl
      · rfl

def basePoint (u : Fp) (hw : u ^ 3 + E.montgomery.A * u ^ 2 + u ≠ 0) :
    (E.montgomery.through u hw).Point :=
  .affine u 1 (E.montgomery.through_onCurve u hw)

theorem onCurve_zero (M : MontgomeryCurve Fp) : M.OnCurve 0 0 := by
  rw [OnCurve]
  ring

theorem eq_zero_of_onCurve {M : MontgomeryCurve Fp} {v : Fp} (h : M.OnCurve 0 v) : v = 0 := by
  rw [OnCurve] at h
  have hProduct : M.B * v ^ 2 = 0 := by
    rw [h]
    ring
  exact pow_eq_zero_iff (two_ne_zero) |>.mp ((mul_eq_zero.mp hProduct).resolve_left M.B_ne_zero)

/-- X301 computes the coordinate of the clamped multiple, on the curve or its twist. -/
theorem x301_eq_scalar_multiple [ModularInverse] (secret u : Bytes 38)
    (hw : decodedU u ^ 3 + E.montgomery.A * decodedU u ^ 2 + decodedU u ≠ 0) :
    let Q := bytesValue (clampScalar secret).1 • basePoint (decodedU u) hw
    (∃ x v h, Q = .affine x v h ∧ x ≠ 0 ∧ x301 secret.1 u.1 = .ok (Fe301.oracleBytes x)) ∨
      ((Q = .infinity ∨ Q = .affine 0 0 (onCurve_zero _)) ∧
        x301 secret.1 u.1 = .error .allZeroSharedSecret) := by
  have hu : decodedU u ≠ 0 := by
    intro hZero
    rw [hZero] at hw
    exact hw (by ring)
  have hOutcome := x301_eq_outcome secret u (E.montgomery.through_A _ hw)
    (E.montgomery.through_onCurve _ hw) hu
  intro Q
  have hQ : x301 secret.1 u.1 = outcome Q.uOrZero := hOutcome
  cases hCases : Q with
  | infinity =>
    rw [hCases] at hQ
    exact Or.inr ⟨Or.inl rfl, hQ.trans (if_pos rfl)⟩
  | affine x v h =>
    rw [hCases] at hQ
    by_cases hx : x = 0
    · subst hx
      obtain rfl := eq_zero_of_onCurve h
      exact Or.inr ⟨Or.inr rfl, hQ.trans (if_pos rfl)⟩
    · exact Or.inl ⟨x, v, h, rfl, hx, hQ.trans (if_neg hx)⟩

theorem w_base_ne_zero :
    decodedU baseUBytes ^ 3 + E.montgomery.A * decodedU baseUBytes ^ 2 + decodedU baseUBytes ≠ 0 :=
  w_ne_zero (by
    rw [decodedU_baseUBytes]
    exact baseU_ne_zero)

theorem x301_eq_scalar_multiple_base :
    let Q := bytesValue (clampScalar baseUBytes).1 • basePoint (decodedU baseUBytes) w_base_ne_zero
    (∃ x v h, Q = .affine x v h ∧ x ≠ 0 ∧
      @x301 .zeroAtZero baseUBytes.1 baseUBytes.1 = .ok (Fe301.oracleBytes x)) ∨
      ((Q = .infinity ∨ Q = .affine 0 0 (onCurve_zero _)) ∧
        @x301 .zeroAtZero baseUBytes.1 baseUBytes.1 = .error .allZeroSharedSecret) :=
  @x301_eq_scalar_multiple .zeroAtZero baseUBytes baseUBytes w_base_ne_zero

theorem x301_of_decodedU_sq_eq_one [ModularInverse] (secret : Bytes 38) {u : Bytes 38}
    (hu : decodedU u ^ 2 = 1) : x301 secret.1 u.1 = .error .allZeroSharedSecret := by
  have hNonzero : decodedU u ≠ 0 := by
    intro hZero
    rw [hZero] at hu
    exact zero_ne_one (by rw [← hu]; ring)
  obtain ⟨m, hm⟩ := (clamped_bounds secret).2.2
  have hw := w_ne_zero hNonzero
  have hCurve := E.montgomery.through_onCurve (decodedU u) hw
  rw [x301_eq_outcome secret u (E.montgomery.through_A _ hw) hCurve hNonzero, hm,
    mul_nsmul, four_nsmul_of_sq_eq_one hCurve hu, nsmul_zero]
  exact if_pos rfl

theorem outcome_ne_zero {x : Fp} {output : Bytes 38} (h : outcome x = .ok output) :
    output.1 ≠ List.replicate 38 0 := by
  rw [outcome] at h
  split_ifs at h with hx
  obtain rfl := Except.ok.inj h
  intro hZero
  apply hx
  rw [← ZMod.val_eq_zero, ← Fe301.oracleBytes_value, hZero]
  rfl

/-- The coordinates of order one, two and four are rejected, and no result is all zero. -/
theorem x301_rejects_small_order [ModularInverse] :
    (∀ secret u : Bytes 38, decodedU u = 0 ∨ decodedU u = 1 ∨ decodedU u = -1 →
      x301 secret.1 u.1 = .error .allZeroSharedSecret ∧
        sharedSecret secret.1 u.1 = .error .allZeroSharedSecret) ∧
      ∀ secret u output, x301 secret u = .ok output → output.1 ≠ List.replicate 38 0 := by
  constructor
  · intro secret u hu
    have hRejected : x301 secret.1 u.1 = .error .allZeroSharedSecret := by
      rcases hu with hZero | hOne | hMinus
      · exact x301_of_decodedU_zero secret hZero
      · exact x301_of_decodedU_sq_eq_one secret (by rw [hOne, one_pow])
      · exact x301_of_decodedU_sq_eq_one secret (by rw [hMinus, neg_one_sq])
    exact ⟨hRejected, hRejected⟩
  · intro secret u output h
    cases hSecret : toArray 38 secret with
    | none =>
      rw [x301_of_secret_length (toArray_eq_none_iff.mp hSecret)] at h
      cases h
    | some secretBytes =>
      obtain rfl := toArray_eq_some_iff.mp hSecret
      cases hPublic : toArray 38 u with
      | none =>
        rw [x301_of_public_length secretBytes (toArray_eq_none_iff.mp hPublic)] at h
        cases h
      | some publicBytes =>
        obtain rfl := toArray_eq_some_iff.mp hPublic
        rw [x301_of_bytes] at h
        exact outcome_ne_zero h

theorem decodedU_zeros : decodedU ⟨List.replicate 38 0, rfl⟩ = 0 := by
  have hValue : bytesValue (List.replicate 38 0) % 2 ^ 301 = 0 := by decide +kernel
  exact (congrArg Nat.cast hValue).trans Nat.cast_zero

theorem x301_rejects_zero :
    @x301 .zeroAtZero baseUBytes.1 (List.replicate 38 0) = .error .allZeroSharedSecret :=
  ((@x301_rejects_small_order .zeroAtZero).1 baseUBytes ⟨List.replicate 38 0, rfl⟩
    (Or.inl decodedU_zeros)).1

end X301Provider.X301
