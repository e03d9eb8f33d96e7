import HyveMind.StrtoulBuffer
import HyveMind.VmConfigConvert

/-! # Numbers in the configuration file

`strtoul` reads blanks, an optional plus sign and digits; `Numeral text n` says that `text` is
written in this way and denotes `n`.  The checks around `strtoul` let exactly the numerals through
whose number is below `2 ^ 64` (`accepted_iff`), but then the number is cut down to 32 bits.

`faceValue_iff` says when a number is taken at face value: unless it is between `2 ^ 32` and
`2 ^ 64` and its lower 32 bits are not zero. -/

namespace HyveMind.VmConfig

/-! ### Numerals -/

/-- The number that some digits denote when they follow digits that denote `n`. -/
def decimal (n : ℕ) (digits : List UInt8) : ℕ :=
  digits.foldl (fun n c => n * 10 + (c.toNat - '0'.toUInt8.toNat)) n

/-- Blanks, an optional plus sign and digits. -/
inductive Numeral : List UInt8 → ℕ → Prop
  | digits {ds : List UInt8} (hne : ds ≠ []) (hds : ∀ c ∈ ds, isDigit c = true) :
      Numeral ds (decimal 0 ds)
  | plus {ds : List UInt8} (hne : ds ≠ []) (hds : ∀ c ∈ ds, isDigit c = true) :
      Numeral ('+'.toUInt8 :: ds) (decimal 0 ds)
  | blank {s : List UInt8} {n : ℕ} (h : Numeral s n) : Numeral (' '.toUInt8 :: s) n

variable {text s ds : List UInt8} {n index res endptr : ℕ} {overflow : Bool}

theorem decimal_cons (c : UInt8) : decimal n (c :: ds) =
    decimal (n * 10 + (c.toNat - '0'.toUInt8.toNat)) ds := by
  simp only [decimal, List.foldl_cons]

theorem le_decimal (n : ℕ) (ds : List UInt8) : n ≤ decimal n ds := by
  induction ds generalizing n with
  | nil => exact le_refl n
  | cons c ds ih =>
      rw [decimal_cons]
      have := ih (n * 10 + (c.toNat - '0'.toUInt8.toNat))
      omega

theorem overflows_iff {digit : ℕ} (hdigit : digit ≤ 9) :
    (2 ^ 64 - 1 - digit) / 10 < res ↔ 2 ^ 64 ≤ res * 10 + digit := by
  omega

theorem digit_le {c : UInt8} (h : isDigit c = true) : c.toNat - '0'.toUInt8.toNat ≤ 9 := by
  rw [isDigit, Bool.and_eq_true, decide_eq_true_iff, decide_eq_true_iff] at h
  have h9 : c.toNat ≤ 57 := h.2
  have h0 : '0'.toUInt8.toNat = 48 := rfl
  omega

/-- The digits that `strtoul` reads.  On an overflow it stops at the first digit that does not fit. -/
theorem strtoulDigits_eq (s : List UInt8) (index : ℕ) (hres : res < 2 ^ 64) :
    (decimal res (s.takeWhile isDigit) < 2 ^ 64 ∧ strtoulDigits s index res =
      (decimal res (s.takeWhile isDigit), index + (s.takeWhile isDigit).length, false)) ∨
    (2 ^ 64 ≤ decimal res (s.takeWhile isDigit) ∧ ∃ j < (s.takeWhile isDigit).length,
      decimal res ((s.takeWhile isDigit).take j) < 2 ^ 64 ∧
      2 ^ 64 ≤ decimal res ((s.takeWhile isDigit).take (j + 1)) ∧
      strtoulDigits s index res = (2 ^ 64 - 1, index + j, true)) := by
  induction s generalizing index res with
  | nil => exact Or.inl ⟨hres, rfl⟩
  | cons c s ih =>
      by_cases hc : isDigit c = true
      · rw [List.takeWhile_cons_of_pos hc, decimal_cons, strtoulDigits, if_pos hc]
        have hdigit := digit_le hc
        simp only [overflows_iff hdigit]
        by_cases hover : 2 ^ 64 ≤ res * 10 + (c.toNat - '0'.toUInt8.toNat)
        · rw [if_pos hover]
          refine Or.inr ⟨hover.trans (le_decimal _ _), 0, by simp, hres, ?_, rfl⟩
          rw [List.take_succ_cons, decimal_cons]
          exact hover
        · rw [if_neg hover, u64_of_lt (by omega), List.length_cons,
            show index + ((s.takeWhile isDigit).length + 1) =
              index + 1 + (s.takeWhile isDigit).length by omega]
          rcases ih (index + 1) (not_le.mp hover) with hfits | ⟨hbig, j, hj, hlt, hle, heq⟩
          · exact Or.inl hfits
          · refine Or.inr ⟨hbig, j + 1, by omega, ?_, ?_, ?_⟩
            · rwa [List.take_succ_cons, decimal_cons]
            · rwa [List.take_succ_cons, decimal_cons]
            · rw [heq, Nat.add_right_comm, Nat.add_assoc]
      · rw [List.takeWhile_cons_of_neg hc, strtoulDigits, if_neg hc]
        exact Or.inl ⟨hres, rfl⟩

theorem strtoulDigits_of_digits (hds : ∀ c ∈ ds, isDigit c = true) (index : ℕ) :
    (decimal 0 ds < 2 ^ 64 ∧ strtoulDigits ds index 0 = (decimal 0 ds, index + ds.length, false)) ∨
      (2 ^ 64 ≤ decimal 0 ds ∧ ∃ endptr, strtoulDigits ds index 0 = (2 ^ 64 - 1, endptr, true)) := by
  have h := strtoulDigits_eq ds index (show 0 < 2 ^ 64 by norm_num)
  rw [List.takeWhile_eq_self_iff.mpr hds] at h
  rcases h with hfits | ⟨hbig, j, -, -, -, heq⟩
  · exact Or.inl hfits
  · exact Or.inr ⟨hbig, index + j, heq⟩

/-- A call of `strtoul` that gets to the end has read digits only. -/
theorem digits_of_strtoulDigits (h : strtoulDigits s index 0 = (n, endptr, false))
    (hend : index + s.length ≤ endptr) :
    (∀ c ∈ s, isDigit c = true) ∧ n = decimal 0 s ∧ n < 2 ^ 64 := by
  rcases strtoulDigits_eq s index (show 0 < 2 ^ 64 by norm_num) with
    ⟨hlt, heq⟩ | ⟨-, j, -, -, -, heq⟩
  · rw [h, Prod.mk.injEq, Prod.mk.injEq] at heq
    obtain ⟨rfl, rfl, -⟩ := heq
    have hall : s.takeWhile isDigit = s :=
      (List.takeWhile_prefix isDigit).eq_of_length_le (by omega)
    rw [hall] at hlt ⊢
    exact ⟨List.takeWhile_eq_self_iff.mp hall, rfl, hlt⟩
  · rw [h, Prod.mk.injEq, Prod.mk.injEq] at heq
    cases heq.2.2

theorem isDigit_plus : isDigit '+'.toUInt8 = false := by decide

theorem isDigit_minus : isDigit '-'.toUInt8 = false := by decide

theorem isDigit_blank : isDigit ' '.toUInt8 = false := by decide

/-! The loop over the prefix, by the byte in front. -/

theorem strtoulPrefix_blank (s : List UInt8) (index : ℕ) :
    strtoulPrefix (' '.toUInt8 :: s) index = strtoulPrefix s (index + 1) := by
  rw [strtoulPrefix, if_neg (by decide), if_neg (by decide), isDigit_blank,
    if_neg Bool.false_ne_true, if_pos rfl]

theorem strtoulPrefix_plus (hhead : isDigit (s.headD 0) = true) (index : ℕ) :
    strtoulPrefix ('+'.toUInt8 :: s) index = strtoulDigits s (index + 1) 0 := by
  rw [strtoulPrefix, if_neg (by decide), if_pos rfl, if_pos hhead]

theorem strtoulPrefix_digit {c : UInt8} (hc : isDigit c = true) (s : List UInt8) (index : ℕ) :
    strtoulPrefix (c :: s) index = strtoulDigits (c :: s) index 0 := by
  have hminus : c ≠ '-'.toUInt8 := fun heq => by rw [heq, isDigit_minus] at hc; cases hc
  have hplus : c ≠ '+'.toUInt8 := fun heq => by rw [heq, isDigit_plus] at hc; cases hc
  rw [strtoulPrefix, if_neg hminus, if_neg hplus, if_pos hc]

theorem isDigit_headD (hne : ds ≠ []) (hds : ∀ c ∈ ds, isDigit c = true) :
    isDigit (ds.headD 0) = true := by
  cases ds with
  | nil => exact absurd rfl hne
  | cons c ds => exact hds c (List.mem_cons_self ..)

theorem Numeral.strtoulPrefix (h : Numeral s n) (index : ℕ) :
    (n < 2 ^ 64 ∧ HyveMind.strtoulPrefix s index = (n, index + s.length, false)) ∨
      (2 ^ 64 ≤ n ∧ ∃ endptr, HyveMind.strtoulPrefix s index = (2 ^ 64 - 1, endptr, true)) := by
  induction h generalizing index with
  | @digits ds hne hds =>
      cases ds with
      | nil => exact absurd rfl hne
      | cons c ds =>
          rw [strtoulPrefix_digit (hds c (List.mem_cons_self ..))]
          exact strtoulDigits_of_digits hds index
  | @plus ds hne hds =>
      rw [strtoulPrefix_plus (isDigit_headD hne hds), List.length_cons,
        show index + (ds.length + 1) = index + 1 + ds.length by omega]
      exact strtoulDigits_of_digits hds (index + 1)
  | @blank s n h ih =>
      rw [strtoulPrefix_blank, List.length_cons,
        show index + (s.length + 1) = index + 1 + s.length by omega]
      exact ih (index + 1)

theorem numeral_of_strtoulPrefix (h : strtoulPrefix s index = (n, endptr, false))
    (hend : index + s.length ≤ endptr) (hn : n ≠ 0) : Numeral s n ∧ n < 2 ^ 64 := by
  induction s generalizing index with
  | nil =>
      cases h
      exact absurd rfl hn
  | cons c s ih =>
      rw [List.length_cons] at hend
      rw [strtoulPrefix] at h
      split_ifs at h with hminus hplus hhead hc hblank
      · cases h
        exact absurd rfl hn
      · obtain ⟨hds, rfl, hlt⟩ := digits_of_strtoulDigits h (by omega)
        have hne : s ≠ [] := by
          rintro rfl
          exact absurd hhead (by decide)
        exact ⟨hplus ▸ .plus hne hds, hlt⟩
      · cases h
        exact absurd rfl hn
      · obtain ⟨hds, rfl, hlt⟩ := digits_of_strtoulDigits h (by rw [List.length_cons]; omega)
        exact ⟨.digits (List.cons_ne_nil c s) hds, hlt⟩
      · obtain ⟨hs, hlt⟩ := ih h (by omega)
        exact ⟨hblank ▸ .blank hs, hlt⟩
      · cases h
        exact absurd rfl hn

/-! ### The checks -/

theorem getD_eq_zero_iff (h : 0 ∉ text) : text.getD endptr 0 = 0 ↔ text.length ≤ endptr := by
  rw [List.getD_eq_getElem?_getD]
  constructor
  · intro hzero
    by_contra hlt
    rw [List.getElem?_eq_getElem (by omega), Option.getD_some] at hzero
    exact h (hzero ▸ List.getElem_mem _)
  · intro hle
    rw [List.getElem?_eq_none hle]
    rfl

theorem checks_iff (h : 0 ∉ text) (number : ℤ) :
    (isOnlyDigits text endptr overflow && isPositiveInteger number text endptr overflow) = true ↔
      endptr ≠ 0 ∧ text.length ≤ endptr ∧ overflow = false ∧ number ≠ 0 := by
  have hminus : (0 : UInt8) ≠ '-'.toUInt8 := by decide
  simp only [isOnlyDigits, isPositiveInteger]
  rw [← getD_eq_zero_iff h]
  generalize text.getD endptr 0 = c
  by_cases hc : c = 0
  · subst hc
    cases overflow <;> simp [hminus]
  · cases overflow <;> by_cases hm : c = '-'.toUInt8 <;> simp [hc, hm, hminus.symm]

/-- **What the checks let through**: numerals of numbers below `2 ^ 64` that are not converted to
zero. -/
theorem accepted_iff (h : 0 ∉ text) (convert : ℕ → ℤ) (hconvert : convert 0 = 0) :
    (isOnlyDigits text (strtoul text).2.1 (strtoul text).2.2 &&
      isPositiveInteger (convert (strtoul text).1) text (strtoul text).2.1 (strtoul text).2.2) = true ↔
      Numeral text (strtoul text).1 ∧ (strtoul text).1 < 2 ^ 64 ∧ convert (strtoul text).1 ≠ 0 := by
  rw [checks_iff h]
  generalize hcall : strtoul text = r
  obtain ⟨n, endptr, overflow⟩ := r
  dsimp only
  constructor
  · rintro ⟨-, hend, rfl, hne⟩
    have hn : n ≠ 0 := by
      rintro rfl
      exact hne hconvert
    obtain ⟨hnum, hlt⟩ := numeral_of_strtoulPrefix hcall (by omega) hn
    exact ⟨hnum, hlt, hne⟩
  · rintro ⟨hnum, hlt, hne⟩
    rcases hnum.strtoulPrefix 0 with ⟨-, heq⟩ | ⟨hge, -⟩
    · rw [strtoul, heq, Prod.mk.injEq, Prod.mk.injEq] at hcall
      obtain ⟨-, rfl, rfl⟩ := hcall
      have hpos : text.length ≠ 0 := by
        intro hnil
        rw [List.length_eq_zero_iff] at hnil
        subst hnil
        exact hne (by cases heq; exact hconvert)
      exact ⟨by omega, by omega, rfl, hne⟩
    · omega

theorem Numeral.unique {m : ℕ} (hn : Numeral text n) (hm : Numeral text m) (h : n < 2 ^ 64) :
    m = n := by
  rcases hn.strtoulPrefix 0 with ⟨-, heq⟩ | ⟨hge, -⟩
  · rcases hm.strtoulPrefix 0 with ⟨-, heq'⟩ | ⟨-, e, heq'⟩
    · rw [heq, Prod.mk.injEq] at heq'
      exact heq'.1.symm
    · rw [heq, Prod.mk.injEq, Prod.mk.injEq] at heq'
      cases heq'.2.2
  · omega

/-! ### Taken at face value -/

/-- How many bytes a unit of the granularity has. -/
def unit : MemGranularity → ℕ
  | .bytes => 1
  | .kb => 2 ^ 10
  | .mb => 2 ^ 20
  | .gb => 2 ^ 30

theorem getVmConfigReqBytes_eq {memSize : ℕ} (h : memSize < 2 ^ 32) (granularity : MemGranularity) :
    getVmConfigReqBytes memSize granularity = memSize * unit granularity := by
  cases granularity <;> simp only [getVmConfigReqBytes, unit, Nat.shiftLeft_eq]
  · rw [Nat.mul_one]
  all_goals exact u64_of_lt (by omega)

/-- The text is accepted for the key and changes the request. -/
def Accepted (text : List UInt8) (key : ConfigKey) (request' : VmRequest) : Prop :=
  ∃ alloc env request env', setVmRequestVal alloc env request key text = (true, request', env')

/-- A text that is accepted is the numeral of a positive number, and that number is used. -/
structure FaceValue (text : List UInt8) : Prop where
  memSize : ∀ request', Accepted text .vmMemSize request' → ∃ n, Numeral text n ∧ 0 < n ∧
    ∀ alloc mods granularity config,
      Becomes alloc mods { request' with granularity := granularity } config →
      config.reqBytes = n * unit granularity
  vcpus : ∀ request', Accepted text .vmVcpus request' → ∃ n, Numeral text n ∧ 0 < n ∧
    ∀ alloc mods config, Becomes alloc mods request' config → config.nrVcpus = n
  serial : ∀ request', Accepted text .vmDevSerial request' →
    ∃ n, Numeral text n ∧ 0 < n ∧ request'.serialId = n

/-- The text is the numeral of a number that 64 bits hold and 32 do not, and its lower 32 bits are not
zero. -/
def TooWide (text : List UInt8) : Prop :=
  ∃ n, Numeral text n ∧ 2 ^ 32 ≤ n ∧ n < 2 ^ 64 ∧ n % 2 ^ 32 ≠ 0

theorem int32_eq_zero {n : ℕ} : int32 n = 0 ↔ n % 2 ^ 32 = 0 := by
  unfold int32
  rw [Int.bmod_def]
  split_ifs <;> omega

theorem int32_mod_eq_zero {n : ℕ} : int32 (n % 2 ^ 32) = 0 ↔ n % 2 ^ 32 = 0 := by
  rw [int32_eq_zero, Nat.mod_mod]

theorem numeral_of_accepted (h : 0 ∉ text) (hwide : ¬ TooWide text)
    (hok : (isOnlyDigits text (strtoul text).2.1 (strtoul text).2.2 &&
      isPositiveInteger (int32 ((strtoul text).1 % 2 ^ 32)) text (strtoul text).2.1
        (strtoul text).2.2) = true) :
    ∃ n, Numeral text n ∧ 0 < n ∧ n < 2 ^ 32 ∧ (strtoul text).1 = n := by
  rw [accepted_iff h (fun n => int32 (n % 2 ^ 32)) rfl] at hok
  obtain ⟨hnum, hlt, hne⟩ := hok
  rw [ne_eq, int32_mod_eq_zero] at hne
  refine ⟨_, hnum, ?_, ?_, rfl⟩
  · by_contra hzero
    exact hne (by rw [Nat.eq_zero_of_not_pos hzero]; rfl)
  · by_contra hge
    exact hwide ⟨_, hnum, Nat.le_of_not_lt hge, hlt, hne⟩

theorem memSize_faceValue (h : 0 ∉ text) (hwide : ¬ TooWide text) {request' : VmRequest}
    (hacc : Accepted text .vmMemSize request') : ∃ n, Numeral text n ∧ 0 < n ∧
      ∀ alloc mods granularity config,
        Becomes alloc mods { request' with granularity := granularity } config →
        config.reqBytes = n * unit granularity := by
  obtain ⟨alloc, env, request, env', hcall⟩ := hacc
  simp only [setVmRequestVal, Prod.mk.injEq] at hcall
  obtain ⟨hok, rfl, -⟩ := hcall
  obtain ⟨n, hnum, hpos, hlt, heq⟩ := numeral_of_accepted h hwide hok
  refine ⟨n, hnum, hpos, ?_⟩
  rintro alloc' mods granularity config ⟨env₁, env₂, hconv⟩
  have hdata := sameData_of_converted hconv
  rw [Config.reqBytes, hdata.memSize, hdata.granularity]
  dsimp only
  rw [heq, Nat.mod_eq_of_lt hlt, getVmConfigReqBytes_eq hlt]

theorem vcpus_faceValue (h : 0 ∉ text) (hwide : ¬ TooWide text) {request' : VmRequest}
    (hacc : Accepted text .vmVcpus request') :
    ∃ n, Numeral text n ∧ 0 < n ∧
      ∀ alloc mods config, Becomes alloc mods request' config → config.nrVcpus = n := by
  obtain ⟨alloc, env, request, env', hcall⟩ := hacc
  simp only [setVmRequestVal, Prod.mk.injEq] at hcall
  obtain ⟨hok, rfl, -⟩ := hcall
  obtain ⟨n, hnum, hpos, hlt, heq⟩ := numeral_of_accepted h hwide hok
  refine ⟨n, hnum, hpos, ?_⟩
  rintro alloc' mods config ⟨env₁, env₂, hconv⟩
  rw [(sameData_of_converted hconv).nrVcpus]
  dsimp only
  rw [heq, Nat.mod_eq_of_lt hlt]

theorem int32_of_valid {n : ℕ} (hn : n < 2 ^ 32) (h : isValidSerialDevId (int32 n) = true) :
    (int32 n).toNat = n := by
  rw [isValidSerialDevId, Bool.and_eq_true, decide_eq_true_iff, decide_eq_true_iff] at h
  unfold int32 at h ⊢
  rw [Int.bmod_def] at h ⊢
  split_ifs at h ⊢ <;> omega

theorem serial_faceValue (h : 0 ∉ text) (hwide : ¬ TooWide text) {request' : VmRequest}
    (hacc : Accepted text .vmDevSerial request') :
    ∃ n, Numeral text n ∧ 0 < n ∧ request'.serialId = n := by
  obtain ⟨alloc, env, request, env', hcall⟩ := hacc
  simp only [setVmRequestVal] at hcall
  split_ifs at hcall with hok hdev
  · cases hcall
  · cases hcall
    rw [Bool.and_eq_true, accepted_iff h int32 rfl] at hok
    obtain ⟨⟨hnum, hlt, hne⟩, hvalid⟩ := hok
    have hmod : (strtoul text).1 % 2 ^ 32 ≠ 0 := mt int32_eq_zero.mpr hne
    have hsmall : (strtoul text).1 < 2 ^ 32 := by
      by_contra hge
      exact hwide ⟨_, hnum, Nat.le_of_not_lt hge, hlt, hmod⟩
    refine ⟨_, hnum, ?_, int32_of_valid hsmall hvalid⟩
    by_contra hzero
    exact hmod (by rw [Nat.eq_zero_of_not_pos hzero]; rfl)
  · cases hcall

theorem not_faceValue_of_tooWide (h : 0 ∉ text) (hwide : TooWide text) : ¬ FaceValue text := by
  obtain ⟨n, hnum, hge, hlt, hmod⟩ := hwide
  intro hface
  have hcall : strtoul text = (n, 0 + text.length, false) := by
    rcases hnum.strtoulPrefix 0 with ⟨-, heq⟩ | ⟨hge64, -⟩
    · exact heq
    · omega
  have hone : (strtoul text).1 = n := by rw [hcall]
  have hok := (accepted_iff h (fun n => int32 (n % 2 ^ 32)) rfl).mpr
    (by rw [hone]; exact ⟨hnum, hlt, mt int32_mod_eq_zero.mp hmod⟩)
  let request : VmRequest := { VmRequest.zero 0 with name := some [], type := .mirrorVmm }
  have hacc : Accepted text .vmMemSize { request with memSize := n % 2 ^ 32 } := by
    refine ⟨enoughMemory, Env.init, request, Env.init, ?_⟩
    simp only [setVmRequestVal, hone] at hok ⊢
    rw [hok]
  obtain ⟨m, hm, -, hbytes⟩ := hface.memSize _ hacc
  obtain rfl := hnum.unique hm hlt
  have hconv : Becomes enoughMemory [] { request with memSize := m % 2 ^ 32, granularity := .bytes }
      (copiedConfig { request with memSize := m % 2 ^ 32 } (some [])) :=
    ⟨Env.init, _, vmReqToVmConfig_eq rfl⟩
  have heq : m % 2 ^ 32 = m * 1 := hbytes enoughMemory [] .bytes _ hconv
  have := Nat.mod_lt m (show 0 < 2 ^ 32 by norm_num)
  omega

/-- **Numbers at face value.**  A text that is a C string is either rejected or taken as the number
that it denotes, for all three keys, exactly if that number is not too wide.  The index of `strtoul` counts
its bytes. -/
theorem faceValue_iff (h : 0 ∉ text) (hlen : FitsInt text) :
    (∀ behind, Buffer.strtoul (text ++ 0 :: behind) = some (strtoul text)) ∧
      (FaceValue text ↔ ¬ TooWide text) := by
  refine ⟨Buffer.strtoul_eq h hlen, ?_⟩
  constructor
  · exact fun hface hwide => not_faceValue_of_tooWide h hwide hface
  · exact fun hwide => ⟨fun _ => memSize_faceValue h hwide, fun _ => vcpus_faceValue h hwide,
      fun _ => serial_faceValue h hwide⟩

/-- The size `64` is taken at face value. -/
theorem faceValue_iff_64 : 0 ∉ bytesOf "64" ∧ FaceValue (bytesOf "64") := by
  have hlen : FitsInt (bytesOf "64") := show 2 < 2 ^ 31 by norm_num
  refine ⟨by decide, (faceValue_iff (by decide) hlen).2.mpr ?_⟩
  rintro ⟨n, hnum, hge, hlt, -⟩
  have h64 : Numeral (bytesOf "64") (decimal 0 (bytesOf "64")) :=
    .digits (by decide) (List.all_eq_true.mp (by decide))
  have heq := hnum.unique h64 hlt
  have hsmall : decimal 0 (bytesOf "64") = 64 := by decide
  omega

/-- `4294967297` is accepted and taken as `1`. -/
theorem wide_number_is_cut : ¬ FaceValue (bytesOf "4294967297") := by
  refine not_faceValue_of_tooWide (by decide) ⟨2 ^ 32 + 1, ?_, by norm_num, by norm_num, by norm_num⟩
  have hvalue : decimal 0 (bytesOf "4294967297") = 2 ^ 32 + 1 := by decide
  rw [← hvalue]
  exact .digits (by decide) (List.all_eq_true.mp (by decide))

end HyveMind.VmConfig
