import X301Provider.Edwards.CodecBijection
import X301Provider.Signature.Verification

/-!
# The two subgroup checks

The signed-window schedule with a table and the sparse schedule of set bits both
multiply by `L`, on every decodable point: the addition formulas are complete, so no
intermediate multiple, not even the identity or a point of small order, leaves the
table or the accumulator without a denoted point.
-/

namespace X301Provider

namespace EdwardsPoint

/-- Decode and require a nonidentity point of prime order. -/
def decodeStrictSubgroup (encoded : Bytes 38) : Except EdwardsPointError EdwardsPoint :=
  match decode encoded with
  | .error error => .error error
  | .ok point => if !point.isPrimeSubgroupNonidentity then .error ⟨⟩ else .ok point

/-- The projective points that are normalized into the table of a point. -/
def tableProjective (p : EdwardsPoint) : List EdwardsPoint := progression add p.double 64 p

variable {p : EdwardsPoint} {A : E.Point}

theorem Denotes.z_isZero (h : p.Denotes A) : p.z.isZero = false := by
  obtain ⟨e, hp, he⟩ := h
  rw [hp.z.isZero, decide_eq_false he.Z_ne_zero]

theorem Denotes.tableProjective_z (h : p.Denotes A) :
    p.double.z.isZero = false ∧ ∀ q ∈ p.tableProjective, q.z.isZero = false := by
  refine ⟨h.double.z_isZero, ?_⟩
  intro q hq
  obtain ⟨C, hC⟩ := progression_all Denotes.add h.double 64 h q hq
  exact hC.z_isZero

variable {encoded : Bytes 38}

theorem decodeStrictSubgroup_isOk_iff :
    (∃ q, decodeStrictSubgroup encoded = .ok q) ↔ ∃ A, Encodes encoded A ∧ A ≠ 0 ∧ L • A = 0 := by
  rw [decodeStrictSubgroup]
  rcases decode_spec encoded with ⟨A, p, hEncodes, hDecode, hp⟩ | ⟨hNone, hDecode⟩
  · have hUnique : (∃ C, Encodes encoded C ∧ C ≠ 0 ∧ L • C = 0) ↔ A ≠ 0 ∧ L • A = 0 := by
      constructor
      · rintro ⟨C, hC, hOrder⟩
        rwa [← hC.unique hEncodes]
      · intro hOrder
        exact ⟨A, hEncodes, hOrder⟩
    rw [hUnique, hDecode]
    simp only [isPrimeSubgroupNonidentity_eq hp]
    by_cases hOrder : A ≠ 0 ∧ L • A = 0
    · rw [decide_eq_true hOrder]
      exact iff_of_true ⟨p, rfl⟩ hOrder
    · rw [decide_eq_false hOrder]
      refine iff_of_false ?_ hOrder
      rintro ⟨q, hq⟩
      cases hq
  · rw [hDecode]
    refine iff_of_false ?_ ?_
    · rintro ⟨q, hq⟩
      cases hq
    · rintro ⟨A, hA, -⟩
      exact hNone A hA

end EdwardsPoint

open EdwardsPoint

theorem VerifyingKey.fromBytes_isOk_iff [ModularInverse] (encoded : Bytes 38) :
    (∃ key, VerifyingKey.fromBytes encoded.1 = .ok key) ↔
      ∃ A, Encodes encoded A ∧ A ≠ 0 ∧ L • A = 0 := by
  rcases VerifyingKey.fromBytes_spec encoded with ⟨A, key, hKey, hEncoded, hDenotes⟩ | ⟨hNone, hError⟩
  · refine iff_of_true ⟨key, hKey⟩ ⟨A, ?_, hDenotes.nonzero, hDenotes.order⟩
    rw [← hEncoded]
    exact hDenotes.encodes
  · refine iff_of_false ?_ ?_
    · rintro ⟨key, hKey⟩
      rw [hError] at hKey
      cases hKey
    · rintro ⟨A, hA, hNonzero, hOrder⟩
      exact (hNone A hA).elim hNonzero (fun h => h hOrder)

/-- Both checks on every decodable point, and the two parsers built on them. -/
theorem subgroupChecks_agree [ModularInverse] :
    (∀ (encoded : Bytes 38) (p : EdwardsPoint), decode encoded = .ok p →
      ∃ A, Encodes encoded A ∧ p.Denotes A ∧ p.double.z.isZero = false ∧
        (∀ q ∈ p.tableProjective, q.z.isZero = false) ∧
        p.prepareVartimeTable.length = 64 ∧
        (∀ i < 64, (p.prepareVartimeTable.getD i .identity).Denotes ((2 * i + 1) • A)) ∧
        p.isPrimeSubgroupWithTable p.prepareVartimeTable = p.isPrimeSubgroup ∧
        (p.isPrimeSubgroup = true ↔ L • A = 0)) ∧
    ∀ bytes : List UInt8, (∃ key, VerifyingKey.fromBytes bytes = .ok key) ↔
      ∃ encoded : Bytes 38, encoded.1 = bytes ∧ ∃ p, decodeStrictSubgroup encoded = .ok p := by
  constructor
  · intro encoded p hDecode
    obtain ⟨A, hEncodes, hp⟩ := denotes_of_decode hDecode
    obtain ⟨hStep, hZ⟩ := hp.tableProjective_z
    have hTable : OddMultiples p.prepareVartimeTable A := oddMultiples_build hp
    refine ⟨A, hEncodes, hp, hStep, hZ, buildVartimeOddPointTable_length p, hTable, ?_, ?_⟩
    · rw [isPrimeSubgroupWithTable_eq hp hTable, isPrimeSubgroup_eq hp]
    · rw [isPrimeSubgroup_eq hp, decide_eq_true_eq]
  · intro bytes
    constructor
    · rintro ⟨key, hKey⟩
      by_cases hLength : bytes.length = 38
      · obtain ⟨encoded, rfl⟩ : ∃ encoded : Bytes 38, encoded.1 = bytes := ⟨⟨bytes, hLength⟩, rfl⟩
        exact ⟨encoded, rfl, decodeStrictSubgroup_isOk_iff.mpr
          ((VerifyingKey.fromBytes_isOk_iff encoded).mp ⟨key, hKey⟩)⟩
      · rw [VerifyingKey.fromBytes_of_length hLength] at hKey
        cases hKey
    · rintro ⟨encoded, rfl, hStrict⟩
      exact (VerifyingKey.fromBytes_isOk_iff encoded).mpr (decodeStrictSubgroup_isOk_iff.mp hStrict)

/-- The base point passes both checks and both parsers. -/
theorem subgroupChecks_agree_basepoint :
    (∃ p, decode basepointBytes = .ok p ∧
      p.isPrimeSubgroupWithTable (@prepareVartimeTable .zeroAtZero p) = true ∧
      p.isPrimeSubgroup = true) ∧
    (∃ key, @VerifyingKey.fromBytes .zeroAtZero basepointBytes.1 = .ok key) ∧
    ∃ p, decodeStrictSubgroup basepointBytes = .ok p := by
  obtain ⟨hChecks, hParsers⟩ := @subgroupChecks_agree .zeroAtZero
  have hStrict : ∃ p, decodeStrictSubgroup basepointBytes = .ok p :=
    decodeStrictSubgroup_isOk_iff.mpr
      ⟨B, encodes_basepoint, basepoint_ne_zero, L_nsmul_basepoint⟩
  refine ⟨?_, (hParsers basepointBytes.1).mpr ⟨basepointBytes, rfl, hStrict⟩, hStrict⟩
  obtain ⟨p, hDecode, -⟩ := decode_of_encodes encodes_basepoint
  obtain ⟨A, hEncodes, -, -, -, -, -, hAgree, hOrder⟩ := hChecks basepointBytes p hDecode
  have hPlain : p.isPrimeSubgroup = true := by
    rw [hOrder, hEncodes.unique encodes_basepoint]
    exact L_nsmul_basepoint
  exact ⟨p, hDecode, hAgree.trans hPlain, hPlain⟩

end X301Provider
