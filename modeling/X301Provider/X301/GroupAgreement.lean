import X301Provider.X301.PublicEncoding

/-!
# Agreement between any number of parties

Secrets applied one after the other. The chain computes the product of the clamped
scalars on the curve or the twist of its first input, failures included, so the order
of the parties does not matter. From a derived public key it never fails.
-/

namespace X301Provider.X301

open Limbs MontgomeryCurve
open EdwardsCurve (toMontgomery toMontgomery_nsmul)

variable [ModularInverse]

/-- One party after the other raises the public value it was sent. -/
def chain (secrets : List (Bytes 38)) (u : List UInt8) : Except X301Error (List UInt8) :=
  secrets.foldlM (fun u secret => (x301 secret.1 u).map Subtype.val) u

def productOf (secrets : List (Bytes 38)) : ℕ := (secrets.map scalarOf).prod

omit [ModularInverse] in
theorem productOf_cons (secret : Bytes 38) (rest : List (Bytes 38)) :
    productOf (secret :: rest) = scalarOf secret * productOf rest := by
  rw [productOf, List.map_cons, List.prod_cons]
  rfl

/-- What a chain returns when it stands at a point. -/
def reached {M : MontgomeryCurve Fp} (Q : M.Point) : Except X301Error (List UInt8) :=
  (outcome Q.uOrZero).map Subtype.val

section Points

variable {M : MontgomeryCurve Fp} {Q : M.Point}

omit [ModularInverse] in
/-- Clamped scalars are even, so a point without a usable coordinate stays one. -/
theorem uOrZero_nsmul_eq_zero (h : Q.uOrZero = 0) (secret : Bytes 38) :
    (scalarOf secret • Q).uOrZero = 0 := by
  obtain ⟨-, -, m, hm⟩ := clamped_bounds secret
  have hTwice : 2 • Q = 0 := two_nsmul_of_uOrZero_eq_zero h
  have hScalar : scalarOf secret = 2 * (2 * m) := by
    rw [scalarOf, hm]
    ring
  rw [hScalar, mul_nsmul, hTwice, nsmul_zero]
  rfl

/-- The ladder on any string for the coordinate of a point, the two points without one included. -/
theorem x301_of_uOrZero (hA : M.A = E.montgomery.A) {u : Bytes 38} (hu : decodedU u = Q.uOrZero)
    (secret : Bytes 38) : x301 secret.1 u.1 = outcome (scalarOf secret • Q).uOrZero := by
  by_cases hZero : decodedU u = 0
  · rw [x301_of_decodedU_zero secret hZero, outcome,
      if_pos (uOrZero_nsmul_eq_zero (hu.symm.trans hZero) secret)]
  · cases Q with
    | infinity =>
      exact absurd hu hZero
    | affine x v hCurve =>
      obtain rfl : decodedU u = x := hu
      exact x301_eq_outcome secret u hA hCurve hZero

theorem chain_of_reached (hA : M.A = E.montgomery.A) (secret : Bytes 38) :
    (reached Q >>= fun u => (x301 secret.1 u).map Subtype.val) = reached (scalarOf secret • Q) := by
  by_cases hZero : Q.uOrZero = 0
  · have hNext := uOrZero_nsmul_eq_zero hZero secret
    rw [reached, reached, hZero, hNext, outcome, if_pos rfl]
    rfl
  · have hStep := x301_of_uOrZero hA (decodedU_oracleBytes Q.uOrZero) secret
    rw [reached, outcome_of_ne_zero hZero]
    exact congrArg (Except.map Subtype.val) hStep

theorem foldlM_of_reached (hA : M.A = E.montgomery.A) (secrets : List (Bytes 38)) :
    (reached Q >>= chain secrets) = reached (productOf secrets • Q) := by
  induction secrets generalizing Q with
  | nil =>
    rw [productOf, List.map_nil, List.prod_nil, one_nsmul]
    exact bind_pure (reached Q)
  | cons secret rest ih =>
    have hProduct : productOf (secret :: rest) • Q = productOf rest • scalarOf secret • Q := by
      rw [productOf_cons, mul_nsmul]
    rw [hProduct, ← ih, ← chain_of_reached hA, bind_assoc]
    rfl

theorem chain_cons (hA : M.A = E.montgomery.A) {u : Bytes 38}
    (hu : decodedU u = Q.uOrZero) (secret : Bytes 38) (rest : List (Bytes 38)) :
    chain (secret :: rest) u.1 = reached (productOf (secret :: rest) • Q) := by
  have hFirst := x301_of_uOrZero hA hu secret
  have hProduct : productOf (secret :: rest) • Q = productOf rest • scalarOf secret • Q := by
    rw [productOf_cons, mul_nsmul]
  rw [hProduct, ← foldlM_of_reached hA, chain, List.foldlM_cons, hFirst]
  rfl

end Points

omit [ModularInverse] in
/-- Every string decodes to the coordinate of a point of the curve or of its twist. -/
theorem exists_point (u : Bytes 38) :
    ∃ (M : MontgomeryCurve Fp) (Q : M.Point), M.A = E.montgomery.A ∧ decodedU u = Q.uOrZero := by
  by_cases hu : decodedU u = 0
  · exact ⟨E.montgomery, .infinity, rfl, hu⟩
  · have hw := w_ne_zero hu
    exact ⟨E.montgomery.through _ hw, basePoint _ hw, E.montgomery.through_A _ hw, rfl⟩

/-- The order of the secrets does not matter, on any input and for every outcome. -/
theorem chain_perm {secrets others : List (Bytes 38)} (h : secrets.Perm others) (u : List UInt8) :
    chain secrets u = chain others u := by
  cases secrets with
  | nil =>
    rw [h.nil_eq]
  | cons first rest =>
    cases others with
    | nil =>
      exact absurd h.symm.nil_eq (List.cons_ne_nil first rest).symm
    | cons other remaining =>
      cases hArray : toArray 38 u with
      | none =>
        have hLength := toArray_eq_none_iff.mp hArray
        simp only [chain, List.foldlM_cons, x301_of_public_length _ hLength]
        rfl
      | some bytes =>
        obtain rfl := toArray_eq_some_iff.mp hArray
        obtain ⟨M, Q, hA, hQ⟩ := exists_point bytes
        have hProduct : productOf (first :: rest) = productOf (other :: remaining) :=
          (h.map scalarOf).prod_eq
        rw [chain_cons hA hQ, chain_cons hA hQ, hProduct]

omit [ModularInverse] in
/-- Two parties and the base coordinate. -/
theorem chain_perm_swap :
    @chain .zeroAtZero [baseUBytes, .replicate 38 0] baseUBytes.1 =
      @chain .zeroAtZero [.replicate 38 0, baseUBytes] baseUBytes.1 :=
  @chain_perm .zeroAtZero _ _ (List.Perm.swap _ _ []) baseUBytes.1

omit [ModularInverse] in
theorem not_dvd_productOf (secrets : List (Bytes 38)) : ¬L ∣ productOf secrets := by
  induction secrets with
  | nil => exact fun h => prime_L.one_lt.ne' (Nat.dvd_one.mp h)
  | cons secret rest ih =>
    rw [productOf_cons, prime_L.dvd_mul]
    exact not_or.mpr ⟨not_dvd_scalarOf secret, ih⟩

omit [ModularInverse] in
theorem reached_multiple {n : ℕ} (h : ¬L ∣ n) :
    reached (toMontgomery (n • B)) =
      .ok (Fe301.oracleBytes (toMontgomery (n • B)).uOrZero).1 := by
  rw [reached, outcome_of_ne_zero (uOrZero_nsmul_basepoint_ne_zero h)]
  rfl

/-- Starting from a derived public key the chain never fails, and every order of all the parties,
the one who derived the key included, ends in the same bytes. -/
theorem chain_public (first : Bytes 38) (rest : List (Bytes 38)) :
    ∃ shared : Bytes 38,
      ∀ other remaining, (other :: remaining).Perm (first :: rest) →
        ∃ encoded, publicFromSecret other.1 = .ok encoded ∧
          chain remaining encoded.1 = .ok shared.1 := by
  refine ⟨Fe301.oracleBytes (toMontgomery (productOf (first :: rest) • B)).uOrZero, ?_⟩
  intro other remaining hPerm
  have hProduct : productOf (other :: remaining) = productOf (first :: rest) :=
    (hPerm.map scalarOf).prod_eq
  have hStart := reached_multiple (not_dvd_scalarOf other)
  have hEnd := reached_multiple (not_dvd_productOf (other :: remaining))
  have hRun := foldlM_of_reached rfl remaining (Q := toMontgomery (scalarOf other • B))
  have hMultiple : productOf remaining • toMontgomery (scalarOf other • B) =
      toMontgomery (productOf (other :: remaining) • B) := by
    rw [productOf_cons, ← toMontgomery_nsmul, mul_nsmul]
  rw [hStart, hMultiple, hEnd, hProduct] at hRun
  exact ⟨_, publicFromSecret_eq other, hRun⟩

end X301Provider.X301
