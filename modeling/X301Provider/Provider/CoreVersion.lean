import X301Provider.Library.DigitRun

/-!
# The core version gate

The provider parses the version string of the core before it registers anything. A
pointer into a string is the part of its buffer that is still ahead, up to and
including the terminator, and reading from an empty rest is a read beyond the buffer.
-/

namespace X301Provider

/-- A NUL-terminated string, without its terminator. -/
structure CText where
  chars : List UInt8
  nul_not_mem : (0 : UInt8) ∉ chars

/-- A position in a string: the rest of the buffer. -/
abbrev Cursor := List UInt8

def CText.cursor (text : CText) : Cursor := text.chars ++ [0]

/-- The build options that the gate reads: the major version of the headers and the hybrid
algorithms. -/
structure CoreBuild where
  supportedCoreMajor : UInt32
  enableHybrid : Bool
  headers : supportedCoreMajor = 3 ∨ supportedCoreMajor = 4

def uintMax : UInt32 := 0xffffffff

def isDecimalDigit (c : UInt8) : Bool := 0x30 ≤ c && c ≤ 0x39

def decimalDigit (c : UInt8) : UInt32 := c.toUInt32 - 0x30

/-- The test before the accumulator is multiplied. -/
def accumulatorOverflows (accumulator digit : UInt32) : Bool :=
  accumulator > (uintMax - digit) / 10

/-- The `do` loop: no result for a read beyond the buffer, and no component when the accumulator
would overflow. -/
def parseDecimalLoop (accumulator : UInt32) : Cursor → Option (Option (Cursor × UInt32))
  | [] => none
  | c :: position =>
    let digit := decimalDigit c
    if accumulatorOverflows accumulator digit then some none
    else
      let accumulator := accumulator * 10 + digit
      match position with
      | [] => none
      | next :: rest =>
        if isDecimalDigit next then parseDecimalLoop accumulator (next :: rest)
        else some (some (next :: rest, accumulator))

/-- What a component leaves behind: its return value and the two variables of the caller. -/
structure DecimalComponent where
  accepted : Bool
  cursor : Option Cursor
  value : Option UInt32
  deriving DecidableEq

/-- One component, on the addresses of the caller's cursor and value; the cursor may be null and
the value unset. -/
def parseDecimalComponent (cursor : Option Cursor) (value : Option UInt32) :
    Option DecimalComponent :=
  match cursor with
  | none => some ⟨false, cursor, value⟩
  | some [] => none
  | some (c :: position) =>
    if !isDecimalDigit c then some ⟨false, cursor, value⟩
    else
      match parseDecimalLoop 0 (c :: position) with
      | none => none
      | some none => some ⟨false, cursor, value⟩
      | some (some (position, accumulator)) => some ⟨true, some position, some accumulator⟩

def coreVersionName : String := "openssl-version"

/-- The parameter callback of the core: its status and the pointer it stores for a name. -/
abbrev CoreGetParams := String → ℤ × Option Cursor

/-- The comparison once both components are known. -/
def coreVersionAccepts (build : CoreBuild) (major minor : UInt32) : Bool :=
  if build.enableHybrid && (major == 3 && decide (minor < 5)) then false
  else major == build.supportedCoreMajor

/-- The gate from the second component on. -/
def minorIsSupported (build : CoreBuild) (major : UInt32) (cursor : Cursor) : Option Bool := do
  let minor ← parseDecimalComponent (some cursor) none
  if !minor.accepted then some false
  else
    let c ← (← minor.cursor).head?
    if c ≠ 0x2e && c ≠ 0 then some false
    else some (coreVersionAccepts build major (← minor.value))

def versionIsSupported (build : CoreBuild) (coreVersion : Cursor) : Option Bool := do
  let major ← parseDecimalComponent (some coreVersion) none
  if !major.accepted then some false
  else
    let cursor ← major.cursor
    let c ← cursor.head?
    if c ≠ 0x2e then some false else minorIsSupported build (← major.value) cursor.tail

/-- The gate; no result for a read beyond the version string or of a variable left unset. -/
def coreVersionIsSupported (build : CoreBuild) (handleIsNull : Bool)
    (getParams : Option CoreGetParams) : Option Bool :=
  match getParams with
  | none => some false
  | some getParams =>
    if handleIsNull then some false
    else
      match getParams coreVersionName with
      | (_, none) => some false
      | (status, some coreVersion) =>
        if status ≠ 1 then some false else versionIsSupported build coreVersion

theorem uintMax_toNat : uintMax.toNat = 2 ^ 32 - 1 := rfl

theorem accumulatorOverflows_eq (accumulator digit : UInt32) :
    accumulatorOverflows accumulator digit =
      decide (accumulator.toNat > (2 ^ 32 - 1 - digit.toNat) / 10) := by
  have hTen : (10 : UInt32).toNat = 10 := rfl
  have hLe : digit ≤ uintMax := by
    have hLt := digit.toNat_lt
    rw [UInt32.le_iff_toNat_le, uintMax_toNat]
    omega
  rw [accumulatorOverflows, decide_eq_decide, gt_iff_lt, UInt32.lt_iff_toNat_lt, UInt32.toNat_div,
    UInt32.toNat_sub_of_le _ _ hLe, hTen, uintMax_toNat]

theorem accumulator_exact {accumulator digit : UInt32}
    (h : accumulatorOverflows accumulator digit = false) :
    (accumulator * 10 + digit).toNat = accumulator.toNat * 10 + digit.toNat := by
  have hTen : (10 : UInt32).toNat = 10 := rfl
  have hDigit := digit.toNat_lt
  rw [accumulatorOverflows_eq, decide_eq_false_iff_not, not_lt,
    DigitRun.guard_iff (by decide) (by omega)] at h
  rw [UInt32.toNat_add, UInt32.toNat_mul, hTen]
  omega

def decimal (run : List UInt8) : ℕ := DigitRun.value 10 0 (run.map fun c => (decimalDigit c).toNat)

theorem digits_le (run : List UInt8) :
    ∀ d ∈ run.map fun c => (decimalDigit c).toNat, d ≤ 2 ^ 32 - 1 := by
  intro d hd
  obtain ⟨c, -, rfl⟩ := List.mem_map.mp hd
  have hLt := (decimalDigit c).toNat_lt
  omega

theorem accumulate_of_overflow {accumulator digit : UInt32}
    (h : accumulatorOverflows accumulator digit = true) (digits : List ℕ) :
    DigitRun.accumulate 10 (2 ^ 32 - 1) accumulator.toNat (digit.toNat :: digits) = none := by
  rw [accumulatorOverflows_eq, decide_eq_true_eq] at h
  rw [DigitRun.accumulate, if_pos h]

theorem accumulate_of_fits {accumulator digit : UInt32}
    (h : accumulatorOverflows accumulator digit = false) (digits : List ℕ) :
    DigitRun.accumulate 10 (2 ^ 32 - 1) accumulator.toNat (digit.toNat :: digits) =
      DigitRun.accumulate 10 (2 ^ 32 - 1) (accumulator * 10 + digit).toNat digits := by
  rw [accumulator_exact h]
  rw [accumulatorOverflows_eq, decide_eq_false_iff_not] at h
  rw [DigitRun.accumulate, if_neg h]

/-- The loop consumes the whole run and stops at the character after it. -/
theorem parseDecimalLoop_eq (accumulator : UInt32) (c : UInt8) (text : List UInt8) :
    parseDecimalLoop accumulator (c :: (text ++ [0])) =
      some ((DigitRun.accumulate 10 (2 ^ 32 - 1) accumulator.toNat
        ((c :: text.takeWhile isDecimalDigit).map fun c => (decimalDigit c).toNat)).map
          fun n => (text.dropWhile isDecimalDigit ++ [0], UInt32.ofNat n)) := by
  induction text generalizing accumulator c with
  | nil =>
    rw [List.nil_append, parseDecimalLoop, List.takeWhile_nil, List.map_cons]
    cases hGuard : accumulatorOverflows accumulator (decimalDigit c) with
    | true =>
      rw [accumulate_of_overflow hGuard]
      rfl
    | false =>
      rw [accumulate_of_fits hGuard, List.map_nil, DigitRun.accumulate, Option.map_some,
        UInt32.ofNat_toNat]
      rfl
  | cons next text ih =>
    rw [List.cons_append, parseDecimalLoop, List.map_cons]
    cases hGuard : accumulatorOverflows accumulator (decimalDigit c) with
    | true =>
      rw [accumulate_of_overflow hGuard]
      rfl
    | false =>
      rw [accumulate_of_fits hGuard]
      simp only [Bool.false_eq_true, if_false]
      cases hNext : isDecimalDigit next with
      | true =>
        rw [if_pos rfl, ih, List.takeWhile_cons_of_pos hNext, List.dropWhile_cons_of_pos hNext]
      | false =>
        have hStop : ¬isDecimalDigit next = true := Bool.eq_false_iff.mp hNext
        rw [if_neg Bool.false_ne_true, List.takeWhile_cons_of_neg hStop,
          List.dropWhile_cons_of_neg hStop, List.map_nil, DigitRun.accumulate, Option.map_some,
          UInt32.ofNat_toNat]
        rfl

/-- The text starts with a nonempty run whose integer fits. -/
def StartsComponent (text : List UInt8) : Prop :=
  text.takeWhile isDecimalDigit ≠ [] ∧ decimal (text.takeWhile isDecimalDigit) ≤ 2 ^ 32 - 1

theorem parseDecimalComponent_of_starts {text : List UInt8} (h : StartsComponent text)
    (value : Option UInt32) :
    parseDecimalComponent (some (text ++ [0])) value =
      some ⟨true, some (text.dropWhile isDecimalDigit ++ [0]),
        some (UInt32.ofNat (decimal (text.takeWhile isDecimalDigit)))⟩ := by
  obtain ⟨hRun, hFits⟩ := h
  cases text with
  | nil => exact absurd rfl hRun
  | cons c text =>
    cases hDigit : isDecimalDigit c with
    | false => exact absurd (List.takeWhile_cons_of_neg (by rw [hDigit]; decide)) hRun
    | true =>
      have hZero : (0 : UInt32).toNat = 0 := rfl
      rw [List.takeWhile_cons_of_pos hDigit] at hFits ⊢
      rw [List.cons_append, parseDecimalComponent, hDigit, if_neg (by decide),
        List.dropWhile_cons_of_pos hDigit, parseDecimalLoop_eq, hZero,
        DigitRun.accumulate_eq (by decide) (digits_le _) (Nat.zero_le _), ← decimal, if_pos hFits]
      rfl

theorem parseDecimalComponent_of_not {text : List UInt8} (h : ¬StartsComponent text)
    (value : Option UInt32) :
    parseDecimalComponent (some (text ++ [0])) value =
      some ⟨false, some (text ++ [0]), value⟩ := by
  cases text with
  | nil => rfl
  | cons c text =>
    rw [List.cons_append, parseDecimalComponent]
    cases hDigit : isDecimalDigit c with
    | false => rfl
    | true =>
      have hZero : (0 : UInt32).toNat = 0 := rfl
      have hExceeds : ¬decimal (c :: text.takeWhile isDecimalDigit) ≤ 2 ^ 32 - 1 := by
        intro hFits
        rw [StartsComponent, List.takeWhile_cons_of_pos hDigit] at h
        exact h ⟨List.cons_ne_nil _ _, hFits⟩
      rw [if_neg (by decide), parseDecimalLoop_eq, hZero,
        DigitRun.accumulate_eq (by decide) (digits_le _) (Nat.zero_le _), ← decimal,
        if_neg hExceeds]
      rfl

/-- The grammar of the gate: two decimal components with a dot between them, then the end or a
dot and anything. -/
structure VersionGrammar (build : CoreBuild) (chars major minor rest : List UInt8) : Prop where
  split : chars = major ++ 0x2e :: (minor ++ rest)
  major_ne_nil : major ≠ []
  major_digits : ∀ c ∈ major, isDecimalDigit c = true
  minor_ne_nil : minor ≠ []
  minor_digits : ∀ c ∈ minor, isDecimalDigit c = true
  rest_eq : rest = [] ∨ ∃ tail, rest = 0x2e :: tail
  major_le : decimal major ≤ 2 ^ 32 - 1
  minor_le : decimal minor ≤ 2 ^ 32 - 1
  major_eq : decimal major = build.supportedCoreMajor.toNat
  hybrid : ¬(build.enableHybrid = true ∧ decimal major = 3 ∧ decimal minor < 5)

def VersionSupported (build : CoreBuild) (chars : List UInt8) : Prop :=
  ∃ major minor rest, VersionGrammar build chars major minor rest

theorem isDecimalDigit_dot : isDecimalDigit 0x2e = false := by decide

section Runs

variable {build : CoreBuild} {chars major minor rest : List UInt8}

theorem VersionGrammar.runs (h : VersionGrammar build chars major minor rest) :
    (chars.takeWhile isDecimalDigit = major ∧
        chars.dropWhile isDecimalDigit = 0x2e :: (minor ++ rest)) ∧
      (minor ++ rest).takeWhile isDecimalDigit = minor ∧
        (minor ++ rest).dropWhile isDecimalDigit = rest := by
  constructor
  · rw [h.split]
    apply DigitRun.split_append h.major_digits
    rintro c ⟨⟩
    exact isDecimalDigit_dot
  · apply DigitRun.split_append h.minor_digits
    intro c hc
    rcases h.rest_eq with rfl | ⟨tail, rfl⟩
    · cases hc
    · obtain rfl := Option.some.inj hc
      exact isDecimalDigit_dot

end Runs

theorem coreVersionAccepts_iff (build : CoreBuild) {major minor : ℕ} (hMajor : major ≤ 2 ^ 32 - 1)
    (hMinor : minor ≤ 2 ^ 32 - 1) :
    coreVersionAccepts build (UInt32.ofNat major) (UInt32.ofNat minor) = true ↔
      major = build.supportedCoreMajor.toNat ∧
        ¬(build.enableHybrid = true ∧ major = 3 ∧ minor < 5) := by
  have hFive : (5 : UInt32).toNat = 5 := rfl
  have hValue : ∀ n ≤ 2 ^ 32 - 1, (UInt32.ofNat n).toNat = n := by
    intro n hn
    rw [UInt32.toNat_ofNat']
    omega
  have hThree : UInt32.ofNat major = 3 ↔ major = 3 := by
    rw [← UInt32.toNat_inj, hValue major hMajor]
    rfl
  have hLess : UInt32.ofNat minor < 5 ↔ minor < 5 := by
    rw [UInt32.lt_iff_toNat_lt, hValue minor hMinor, hFive]
  have hSame : UInt32.ofNat major = build.supportedCoreMajor ↔
      major = build.supportedCoreMajor.toNat := by
    rw [← UInt32.toNat_inj, hValue major hMajor]
  have hCheck : (build.enableHybrid && (UInt32.ofNat major == 3 && decide (UInt32.ofNat minor < 5)))
      = true ↔ build.enableHybrid = true ∧ major = 3 ∧ minor < 5 := by
    rw [Bool.and_eq_true, Bool.and_eq_true, beq_iff_eq, decide_eq_true_eq, hThree, hLess]
  rw [coreVersionAccepts]
  split_ifs with hHybrid
  · rw [hCheck] at hHybrid
    constructor
    · intro h
      cases h
    · rintro ⟨-, h⟩
      exact absurd hHybrid h
  · rw [hCheck] at hHybrid
    rw [beq_iff_eq, hSame]
    constructor
    · intro h
      exact ⟨h, hHybrid⟩
    · rintro ⟨h, -⟩
      exact h

/-- The grammar in terms of the maximal runs of the text. -/
theorem versionSupported_iff {build : CoreBuild} {text tail : List UInt8}
    (hRun : StartsComponent text) (hRest : text.dropWhile isDecimalDigit = 0x2e :: tail) :
    VersionSupported build text ↔ StartsComponent tail ∧
      (tail.dropWhile isDecimalDigit = [] ∨
        ∃ rest, tail.dropWhile isDecimalDigit = 0x2e :: rest) ∧
      coreVersionAccepts build (UInt32.ofNat (decimal (text.takeWhile isDecimalDigit)))
        (UInt32.ofNat (decimal (tail.takeWhile isDecimalDigit))) = true := by
  constructor
  · rintro ⟨major, minor, rest, h⟩
    obtain ⟨⟨hMajor, hAfter⟩, hMinor, hEnd⟩ := h.runs
    rw [hAfter, List.cons.injEq] at hRest
    obtain ⟨-, rfl⟩ := hRest
    rw [StartsComponent, hMinor, hEnd, hMajor, coreVersionAccepts_iff build h.major_le h.minor_le]
    exact ⟨⟨h.minor_ne_nil, h.minor_le⟩, h.rest_eq, h.major_eq, h.hybrid⟩
  · rintro ⟨hMinor, hEnd, hAccepts⟩
    rw [coreVersionAccepts_iff build hRun.2 hMinor.2] at hAccepts
    have hSplit := List.takeWhile_append_dropWhile (p := isDecimalDigit) (l := text)
    have hSplitTail := List.takeWhile_append_dropWhile (p := isDecimalDigit) (l := tail)
    refine ⟨text.takeWhile isDecimalDigit, tail.takeWhile isDecimalDigit,
      tail.dropWhile isDecimalDigit, ?_, hRun.1, DigitRun.run_isDigit _, hMinor.1,
      DigitRun.run_isDigit _, hEnd, hRun.2, hMinor.2, hAccepts.1, hAccepts.2⟩
    rw [hSplitTail, ← hRest, hSplit]

theorem minorIsSupported_spec (build : CoreBuild) (major : UInt32) {text : List UInt8}
    (hText : (0 : UInt8) ∉ text) :
    ∃ supported, minorIsSupported build major (text ++ [0]) = some supported ∧
      (supported = true ↔ StartsComponent text ∧
        (text.dropWhile isDecimalDigit = [] ∨
          ∃ tail, text.dropWhile isDecimalDigit = 0x2e :: tail) ∧
        coreVersionAccepts build major
          (UInt32.ofNat (decimal (text.takeWhile isDecimalDigit))) = true) := by
  by_cases hRun : StartsComponent text
  · have hRead : minorIsSupported build major (text ++ [0]) =
        (text.dropWhile isDecimalDigit ++ [0]).head?.bind fun c =>
          if c ≠ 0x2e && c ≠ 0 then some false
          else some (coreVersionAccepts build major
            (UInt32.ofNat (decimal (text.takeWhile isDecimalDigit)))) := by
      rw [minorIsSupported, parseDecimalComponent_of_starts hRun]
      rfl
    rw [hRead]
    cases hRest : text.dropWhile isDecimalDigit with
    | nil => exact ⟨_, rfl, by simp [hRun]⟩
    | cons c tail =>
      have hNonzero : c ≠ 0 := by
        rintro rfl
        apply hText
        apply (List.dropWhile_sublist isDecimalDigit).mem
        rw [hRest]
        exact List.mem_cons_self
      by_cases hDot : c = 0x2e
      · subst hDot
        exact ⟨_, rfl, by simp [hRun]⟩
      · exact ⟨false, by simp [hDot, hNonzero], by simp [hDot]⟩
  · refine ⟨false, ?_, iff_of_false Bool.false_ne_true ?_⟩
    · rw [minorIsSupported, parseDecimalComponent_of_not hRun]
      rfl
    · rintro ⟨h, -⟩
      exact hRun h

theorem versionIsSupported_spec (build : CoreBuild) {text : List UInt8}
    (hText : (0 : UInt8) ∉ text) :
    ∃ supported, versionIsSupported build (text ++ [0]) = some supported ∧
      (supported = true ↔ VersionSupported build text) := by
  by_cases hRun : StartsComponent text
  · have hRead : versionIsSupported build (text ++ [0]) =
        (text.dropWhile isDecimalDigit ++ [0]).head?.bind fun c =>
          if c ≠ 0x2e then some false
          else minorIsSupported build
            (UInt32.ofNat (decimal (text.takeWhile isDecimalDigit)))
            (text.dropWhile isDecimalDigit ++ [0]).tail := by
      rw [versionIsSupported, parseDecimalComponent_of_starts hRun]
      rfl
    rw [hRead]
    cases hRest : text.dropWhile isDecimalDigit with
    | nil =>
      refine ⟨false, rfl, iff_of_false Bool.false_ne_true ?_⟩
      rintro ⟨major, minor, rest, h⟩
      rw [h.runs.1.2] at hRest
      cases hRest
    | cons c tail =>
      by_cases hDot : c = 0x2e
      · subst hDot
        have hTail : (0 : UInt8) ∉ tail := by
          intro hMem
          apply hText
          apply (List.dropWhile_sublist isDecimalDigit).mem
          rw [hRest]
          exact List.mem_cons_of_mem _ hMem
        obtain ⟨supported, hMinor, hIff⟩ := minorIsSupported_spec build
          (UInt32.ofNat (decimal (text.takeWhile isDecimalDigit))) hTail
        refine ⟨supported, hMinor, hIff.trans ?_⟩
        exact (versionSupported_iff hRun hRest).symm
      · refine ⟨false, by simp [hDot], iff_of_false Bool.false_ne_true ?_⟩
        rintro ⟨major, minor, rest, h⟩
        rw [h.runs.1.2, List.cons.injEq] at hRest
        exact hDot hRest.1.symm
  · refine ⟨false, ?_, iff_of_false Bool.false_ne_true ?_⟩
    · rw [versionIsSupported, parseDecimalComponent_of_not hRun]
      rfl
    · rintro ⟨major, minor, rest, h⟩
      refine hRun ⟨?_, ?_⟩
      · rw [h.runs.1.1]
        exact h.major_ne_nil
      · rw [h.runs.1.1]
        exact h.major_le

/-- The gate on every delivered version string, the component parser on every text, and the
accumulator at every step. -/
theorem coreVersionGate (build : CoreBuild) :
    (∀ (text : CText) (getParams : CoreGetParams),
      getParams coreVersionName = (1, some text.cursor) →
      ∃ supported, coreVersionIsSupported build false (some getParams) = some supported ∧
        (supported = true ↔ VersionSupported build text.chars)) ∧
    (∀ (text : List UInt8) (value : Option UInt32),
      (StartsComponent text → parseDecimalComponent (some (text ++ [0])) value =
        some ⟨true, some (text.dropWhile isDecimalDigit ++ [0]),
          some (UInt32.ofNat (decimal (text.takeWhile isDecimalDigit)))⟩) ∧
      (¬StartsComponent text → parseDecimalComponent (some (text ++ [0])) value =
        some ⟨false, some (text ++ [0]), value⟩)) ∧
    ∀ accumulator digit : UInt32, accumulatorOverflows accumulator digit = false →
      (accumulator * 10 + digit).toNat = accumulator.toNat * 10 + digit.toNat := by
  refine ⟨?_, ?_, ?_⟩
  · intro text getParams h
    obtain ⟨supported, hRead, hIff⟩ := versionIsSupported_spec build text.nul_not_mem
    refine ⟨supported, ?_, hIff⟩
    simp only [coreVersionIsSupported, h]
    exact hRead
  · intro text value
    constructor
    · intro h
      exact parseDecimalComponent_of_starts h value
    · intro h
      exact parseDecimalComponent_of_not h value
  · intro accumulator digit h
    exact accumulator_exact h

def version35 : CText := ⟨[0x33, 0x2e, 0x35], by decide⟩

theorem coreVersionGate_version35 : ∃ supported,
    coreVersionIsSupported ⟨3, true, Or.inl rfl⟩ false (some fun _ => (1, some version35.cursor)) =
      some supported ∧ (supported = true ↔ VersionSupported ⟨3, true, Or.inl rfl⟩ version35.chars) :=
  (coreVersionGate ⟨3, true, Or.inl rfl⟩).1 version35 _ rfl

end X301Provider
