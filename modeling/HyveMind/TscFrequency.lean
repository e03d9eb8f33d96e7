import HyveMind.TimerInit
import Mathlib.Algebra.Order.Floor.Div

/-! # The frequency of the TSC

`arch/x64/timer.c`.  `compute_tsc_frequency` has three ways to find the number of ticks per second:
from the core crystal clock that CPUID leaf `0x15` describes, from the maximum non-turbo ratio in
`MSR_PLATFORM_INFO`, and from a measurement against the HPET.  What it reads of the machine is a
`Platform`.

`computeTscFrequency_iff` says when the result is right.  The product of the first way is taken in
32 bits and its divisor is not checked.  The second way would give a number of MHz; it is never taken,
since the mask of the model id leaves only four bits and all known models are above `0x0F`. -/

namespace HyveMind

/-! ### What is read of the machine -/

/-- `cpuid_result_t`. -/
structure CpuidResult where
  eax : UInt32
  ebx : UInt32
  ecx : UInt32
  edx : UInt32
deriving DecidableEq, Repr

/-- The answers of the machine: `cpuid_raw` without a subleaf, `MSR_PLATFORM_INFO`, whether the
registers of the HPET can be mapped, its capabilities, and the two readings of the TSC before and after
a sleep of 100 ms. -/
structure Platform where
  cpuid : UInt32 → CpuidResult
  platformInfo : UInt64
  hpetMapped : Bool
  hpetCaps : UInt64
  tscStart : UInt64
  tscEnd : UInt64

/-- `CPUID_TSC_CRYSTAL_CLOCK_LEAF`. -/
abbrev cpuidTscCrystalClockLeaf : UInt32 := 0x15

/-- `CPUID_CPU_VERSION_LEAF`. -/
abbrev cpuidCpuVersionLeaf : UInt32 := 0x01

/-- `cpuid_leaf_in_range`. -/
def cpuidLeafInRange (p : Platform) (leaf : UInt32) : Bool :=
  (0x00 ≤ leaf && leaf ≤ (p.cpuid 0x00).eax) ||
    (0x80000000 ≤ leaf && leaf ≤ (p.cpuid 0x80000000).eax)

/-- `enum hpet_status`. -/
inductive HpetStatus
  | success | notSupported | error
deriving DecidableEq, Repr

/-- `init_hpet`, without the writes to the registers.  The test for 64-bit mode has `&&` for `&`: it is
passed by every value that is not `0` after the shift. -/
def initHpet (p : Platform) : HpetStatus :=
  let clockPeriod := p.hpetCaps >>> 32
  if p.hpetMapped = false then .error
  else if p.hpetCaps &&& 0xFF = 0 then .notSupported
  else if p.hpetCaps >>> 13 = 0 then .notSupported
  else if clockPeriod < 1 ∨ 0x05F5E100 < clockPeriod then .notSupported
  else .success

/-! ### The three ways -/

/-- The models with a bus of 100 MHz: Sandy Bridge, Ivy Bridge, Haswell and Broadwell. -/
def models100MHz : List UInt32 :=
  [0x2A, 0x2D, 0x3A, 0x3E, 0x3C, 0x3F, 0x45, 0x46, 0x3D, 0x47, 0x4F, 0x56]

/-- The models with a bus of 133 MHz: Nehalem. -/
def models133MHz : List UInt32 := [0x1E, 0x1F, 0x1A, 0x2E]

/-- `get_scalable_bus_frequency`, in MHz. -/
def getScalableBusFrequency (p : Platform) : UInt64 :=
  let res := p.cpuid cpuidCpuVersionLeaf
  let modelId := (res.eax >>> 0x04) &&& 0x0F
  let familyId := (res.eax >>> 0x08) &&& 0x0F
  if familyId = 6 then
    if modelId ∈ models100MHz then 100
    else if modelId ∈ models133MHz then 133
    else 0
  else 0

/-- `max_non_turbo_ratio`. -/
def maxNonTurboRatio (p : Platform) : UInt64 := (p.platformInfo >>> 8) &&& 0xFF

/-- The code from the label `no_msr_info` on; `tscHz` is the value of `tsc_hz` so far. -/
def noMsrInfo (p : Platform) (tscHz : UInt64) : TimerOpStatus × UInt64 :=
  if initHpet p ≠ .success then (.error, tscHz)
  else (.success, (p.tscEnd - p.tscStart) * 10)

/-- The code from the label `no_art` on. -/
def noArt (p : Platform) (tscHz : UInt64) : TimerOpStatus × UInt64 :=
  if maxNonTurboRatio p = 0 then noMsrInfo p tscHz
  else
    let scalableBusFrequency := getScalableBusFrequency p
    if scalableBusFrequency = 0 then noMsrInfo p tscHz
    else (.success, maxNonTurboRatio p * scalableBusFrequency)

/-- `compute_tsc_frequency`: the status and the new value of `tsc_hz`; `none` is a division by zero.
The product is one of two `uint32_t`. -/
def computeTscFrequency (p : Platform) (tscHz : UInt64) : Option (TimerOpStatus × UInt64) :=
  if cpuidLeafInRange p cpuidTscCrystalClockLeaf = true then
    let res := p.cpuid cpuidTscCrystalClockLeaf
    if res.ebx = 0 ∨ res.ecx = 0 then some (noArt p tscHz)
    else if res.eax = 0 then none
    else some (.success, ((res.ecx * res.ebx) / res.eax).toUInt64)
  else some (noArt p tscHz)

/-- `arch_do_busy_sleep`: the loop ends with the first reading of the TSC that is late enough, if there
is one among the given readings. -/
def archDoBusySleep (tscHz : UInt64) (timeNs : ℕ) (startTsc : UInt64) (readings : List UInt64) :
    Option UInt64 :=
  let reqTicks := u64 (u128 (u128 (tscHz.toNat * timeNs) + (secToNs 1 - 1)) / secToNs 1)
  readings.find? fun now => ¬ (now - startTsc).toNat < reqTicks

/-! ### What the result should be -/

namespace Platform

variable (p : Platform)

/-- CPUID leaf `0x15`. -/
def crystal : CpuidResult := p.cpuid cpuidTscCrystalClockLeaf

/-- The first way is taken. -/
def UsesArt : Prop :=
  cpuidLeafInRange p cpuidTscCrystalClockLeaf = true ∧ p.crystal.ebx ≠ 0 ∧ p.crystal.ecx ≠ 0

/-- The second way is taken. -/
def UsesMsr : Prop := ¬ p.UsesArt ∧ maxNonTurboRatio p ≠ 0 ∧ getScalableBusFrequency p ≠ 0

instance : Decidable p.UsesArt := inferInstanceAs (Decidable (_ ∧ _ ∧ _))

/-- The ticks per second from the ratio `ebx / eax` to a crystal clock of `ecx` Hz. -/
def artHz : ℕ := p.crystal.ecx.toNat * p.crystal.ebx.toNat / p.crystal.eax.toNat

/-- The ticks per second from the ratio to the bus clock. -/
def msrHz : ℕ := (maxNonTurboRatio p).toNat * ((getScalableBusFrequency p).toNat * 10 ^ 6)

end Platform

/-- The users of `tsc_hz` convert every duration to the ticks of a clock with `hz` ticks per second,
rounded up, as long as these fit in 64 bits. -/
structure Converts (tscHz : UInt64) (hz : ℕ) : Prop where
  timer : ∀ timeNs < 2 ^ 64, hz * timeNs ⌈/⌉ 10 ^ 9 < 2 ^ 64 →
    getTicksFromNs tscHz.toNat timeNs = hz * timeNs ⌈/⌉ 10 ^ 9
  sleep : ∀ timeNs < 2 ^ 64, hz * timeNs ⌈/⌉ 10 ^ 9 < 2 ^ 64 → ∀ startTsc readings,
    archDoBusySleep tscHz timeNs startTsc readings =
      readings.find? fun now => hz * timeNs ⌈/⌉ 10 ^ 9 ≤ (now - startTsc).toNat

/-- The frequency is found, it is `hz`, and it is used as such. -/
def Finds (out : Option (TimerOpStatus × UInt64)) (hz : ℕ) : Prop :=
  ∃ tscHz, out = some (.success, tscHz) ∧ tscHz.toNat = hz ∧ Converts tscHz hz

/-- Each of the ways finds the frequency in Hz.  A measurement that succeeds gives ten times the ticks
of 100 ms. -/
structure TscCorrect (p : Platform) (out : Option (TimerOpStatus × UInt64)) : Prop where
  art : p.UsesArt → Finds out p.artHz
  msr : p.UsesMsr → Finds out p.msrHz
  hpet : ¬ p.UsesArt → ¬ p.UsesMsr → initHpet p = .success →
    Finds out ((p.tscEnd - p.tscStart) * 10).toNat

/-! ### When it is -/

section Frequency

variable {p : Platform} {tscHz : UInt64}

theorem ceilDiv_eq (hz timeNs : ℕ) :
    hz * timeNs ⌈/⌉ 10 ^ 9 = (hz * timeNs + (10 ^ 9 - 1)) / 10 ^ 9 := by
  rw [Nat.ceilDiv_eq_add_pred_div, Nat.add_sub_assoc (by norm_num)]

theorem converts_toNat (tscHz : UInt64) : Converts tscHz tscHz.toNat := by
  have hticks : ∀ timeNs < 2 ^ 64, tscHz.toNat * timeNs ⌈/⌉ 10 ^ 9 < 2 ^ 64 →
      getTicksFromNs tscHz.toNat timeNs = tscHz.toNat * timeNs ⌈/⌉ 10 ^ 9 := by
    intro timeNs htime hfits
    rw [TimerRequest.getTicksFromNs_eq tscHz.toNat_lt htime, ← ceilDiv_eq, u64_of_lt hfits]
  refine ⟨hticks, fun timeNs htime hfits startTsc readings => ?_⟩
  have hreq : u64 (u128 (u128 (tscHz.toNat * timeNs) + (secToNs 1 - 1)) / secToNs 1) =
      tscHz.toNat * timeNs ⌈/⌉ 10 ^ 9 := hticks timeNs htime hfits
  simp only [archDoBusySleep, hreq, not_lt]

theorem finds_iff {hz : ℕ} : Finds (some (.success, tscHz)) hz ↔ tscHz.toNat = hz := by
  constructor
  · rintro ⟨t, heq, ht, -⟩
    obtain rfl : tscHz = t := congrArg Prod.snd (Option.some.inj heq)
    exact ht
  · rintro rfl
    exact ⟨tscHz, rfl, rfl, converts_toNat tscHz⟩

theorem not_finds_none {hz : ℕ} : ¬ Finds none hz := by
  rintro ⟨t, heq, -⟩
  cases heq

/-- No processor is known: the mask leaves four bits of the model id, and all known models have a bit
above these. -/
theorem getScalableBusFrequency_eq_zero (p : Platform) : getScalableBusFrequency p = 0 := by
  have hmodel : ∀ m ∈ models100MHz ++ models133MHz, ∀ eax : UInt32, eax &&& 0x0F ≠ m := by
    intro m hm eax heq
    have hbits : m &&& 0x0F = m := by
      rw [← heq, UInt32.and_assoc, UInt32.and_self]
    have hall : (models100MHz ++ models133MHz).all (fun m => m &&& 0x0F != m) = true := by decide
    have hne := List.all_eq_true.mp hall m hm
    rw [hbits, bne_self_eq_false] at hne
    cases hne
  unfold getScalableBusFrequency
  dsimp only
  split_ifs with _ h100 h133
  · exact absurd rfl (hmodel _ (List.mem_append_left _ h100) _)
  · exact absurd rfl (hmodel _ (List.mem_append_right _ h133) _)
  · rfl
  · rfl

theorem not_usesMsr (p : Platform) : ¬ p.UsesMsr :=
  fun h => h.2.2 (getScalableBusFrequency_eq_zero p)

theorem noArt_eq (p : Platform) (tscHz : UInt64) : noArt p tscHz = noMsrInfo p tscHz := by
  simp only [noArt, getScalableBusFrequency_eq_zero, if_true, ite_self]

theorem computeTscFrequency_of_usesArt (h : p.UsesArt) :
    computeTscFrequency p tscHz = if p.crystal.eax = 0 then none
      else some (.success, ((p.crystal.ecx * p.crystal.ebx) / p.crystal.eax).toUInt64) := by
  obtain ⟨hleaf, hebx, hecx⟩ := h
  rw [computeTscFrequency, if_pos hleaf]
  exact if_neg (not_or.mpr ⟨hebx, hecx⟩)

theorem computeTscFrequency_of_not_usesArt (h : ¬ p.UsesArt) :
    computeTscFrequency p tscHz = some (noMsrInfo p tscHz) := by
  rw [← noArt_eq, computeTscFrequency]
  by_cases hleaf : cpuidLeafInRange p cpuidTscCrystalClockLeaf = true
  · have hzero : p.crystal.ebx = 0 ∨ p.crystal.ecx = 0 := by
      by_contra hzero
      exact h ⟨hleaf, not_or.mp hzero⟩
    rw [if_pos hleaf]
    exact if_pos hzero
  · rw [if_neg hleaf]

/-- The quotient of a truncated product is right iff nothing is cut off, for every divisor of 32
bits. -/
theorem mod_div_eq_iff {n d : ℕ} (hpos : 0 < d) (hd : d < 2 ^ 32) :
    n % 2 ^ 32 / d = n / d ↔ n < 2 ^ 32 := by
  constructor
  · intro heq
    by_contra hge
    have hle : n % 2 ^ 32 + d ≤ n := by omega
    have hlt : n % 2 ^ 32 / d + 1 ≤ n / d := by
      rw [← Nat.add_div_right _ hpos]
      exact Nat.div_le_div_right hle
    omega
  · intro hlt
    rw [Nat.mod_eq_of_lt hlt]

theorem toNat_art (r : CpuidResult) :
    ((r.ecx * r.ebx) / r.eax).toUInt64.toNat = r.ecx.toNat * r.ebx.toNat % 2 ^ 32 / r.eax.toNat := by
  rw [UInt32.toNat_toUInt64, UInt32.toNat_div, UInt32.toNat_mul]

end Frequency

/-- **When the frequency of the TSC is right.**  For every machine: the frequency is found in Hz on each
way iff, where the crystal clock is described, the denominator `eax` is not `0` and the product of
`ecx` and `ebx` fits in 32 bits. -/
theorem computeTscFrequency_iff (p : Platform) (tscHz : UInt64) :
    TscCorrect p (computeTscFrequency p tscHz) ↔
      (p.UsesArt → p.crystal.eax ≠ 0 ∧ p.crystal.ecx.toNat * p.crystal.ebx.toNat < 2 ^ 32) := by
  have hart : ∀ h : p.UsesArt, Finds (computeTscFrequency p tscHz) p.artHz ↔
      p.crystal.eax ≠ 0 ∧ p.crystal.ecx.toNat * p.crystal.ebx.toNat < 2 ^ 32 := by
    intro h
    rw [computeTscFrequency_of_usesArt h]
    by_cases heax : p.crystal.eax = 0
    · simp only [heax, if_true, not_finds_none, ne_eq, not_true_eq_false, false_and]
    · have hpos : 0 < p.crystal.eax.toNat :=
        Nat.pos_of_ne_zero fun h0 => heax (UInt32.toNat.inj h0)
      rw [if_neg heax, finds_iff, toNat_art, Platform.artHz,
        mod_div_eq_iff hpos p.crystal.eax.toNat_lt]
      exact (and_iff_right heax).symm
  constructor
  · intro hcorrect h
    exact (hart h).mp (hcorrect.art h)
  · intro hok
    refine ⟨fun h => (hart h).mpr (hok h), fun h => absurd h (not_usesMsr p), fun hno _ hhpet => ?_⟩
    rw [computeTscFrequency_of_not_usesArt hno, noMsrInfo, if_neg (not_not.mpr hhpet)]
    exact finds_iff.mpr rfl

/-- A processor with a crystal clock of 24 MHz whose TSC runs at `216 / 2` times its frequency. -/
def crystal24MHz : Platform where
  cpuid leaf := if leaf = 0x15 then ⟨2, 216, 24000000, 0⟩ else ⟨0x16, 0, 0, 0⟩
  platformInfo := 0
  hpetMapped := false
  hpetCaps := 0
  tscStart := 0
  tscEnd := 0

/-- Its TSC runs at 2592 MHz, and the hypervisor computes about 445 MHz. -/
theorem crystal24MHz_is_slow :
    computeTscFrequency crystal24MHz 0 = some (.success, 444516352) ∧
    crystal24MHz.artHz = 2592000000 ∧
    ¬ TscCorrect crystal24MHz (computeTscFrequency crystal24MHz 0) := by
  have hout : computeTscFrequency crystal24MHz 0 = some (.success, 444516352) := by decide
  have hhz : crystal24MHz.artHz = 2592000000 := by decide
  refine ⟨hout, hhz, fun hcorrect => ?_⟩
  have hfinds := hcorrect.art (by decide)
  rw [hout, hhz, finds_iff] at hfinds
  exact absurd hfinds (by decide)

end HyveMind
