import HyveMind.VmxPolicy

/-! # The default policy

Some VM-execution controls are reserved and must be set on older processors: the default1 class of a
vector.  `vmx_init_default_policy` starts every policy with them, as far as the processor allows.

`defaultPolicy_iff` says when it does.  Of the mask for the primary processor-based controls only the
last operand is left, bit 26.  The policy is valid nevertheless, and on a processor that forces the
other controls of the class nobody notices. -/

namespace HyveMind.VmxPolicy

open Lib

variable {rd : Msrs} {caps : VmxVirtPolicy} {msr : BitVec 64}

/-! ### The default1 classes -/

/-- The default1 class of the pin-based controls. -/
def pinDefault1Class : BitVec 32 := fields [1, 2, 4]

/-- The default1 class of the primary processor-based controls, without bit 26. -/
def procLostClass : BitVec 32 := fields [1, 4, 5, 6, 8, 13, 14, 15, 16]

/-- The default1 class of the primary processor-based controls. -/
def procDefault1Class : BitVec 32 := fields [1, 4, 5, 6, 8, 13, 14, 15, 16, 26]

/-- The default1 class of the primary exit controls. -/
def exitDefault1Class : BitVec 32 := fields [0, 1, 2, 3, 4, 5, 6, 7, 8, 10, 11, 13, 14, 16, 17]

/-- The default1 class of the entry controls. -/
def entryDefault1Class : BitVec 32 := fields [0, 1, 2, 3, 4, 5, 6, 7, 8, 12]

/-- The vector has the controls of its class that may be set and those that must be set, and no
control that may not be set. -/
def HasDefault1 (msr : BitVec 64) (default1 ctls : BitVec 32) : Prop :=
  BitsIn (default1 &&& upper32 msr) ctls ∧ BitsIn (lower32 msr) ctls ∧ BitsIn ctls (upper32 msr)

/-- What the default policy is for.  The last two fields say that it passes the checks: that of the
reserved controls with any capabilities, and the whole check with those of the processor. -/
structure DefaultPolicyOk (rd : Msrs) : Prop where
  pin : HasDefault1 (getPinbasedCtlsMsr rd) pinDefault1Class (vmxInitDefaultPolicy rd).pinCtls
  proc1 : HasDefault1 (getProcbasedCtls1Msr rd) procDefault1Class (vmxInitDefaultPolicy rd).procCtls1
  exit1 : HasDefault1 (getVmexitCtls1Msr rd) exitDefault1Class (vmxInitDefaultPolicy rd).exitCtls1
  entry : HasDefault1 (getVmentryCtlsMsr rd) entryDefault1Class (vmxInitDefaultPolicy rd).entryCtls
  reserved : ∀ caps, policyValidatesAgainstDefaultValues rd caps (vmxInitDefaultPolicy rd) = .valid
  valid : ∀ caps₀ caps, initVmxCapabilities rd caps₀ = .ok caps →
    validateVmxVirtPolicy rd caps (vmxInitDefaultPolicy rd) = .valid

/-! ### One vector -/

/-- Forcing `mask` gives the class iff the processor forces what is missing in the mask. -/
theorem hasDefault1_iff (hmsr : MsrOk msr) {default1 mask : BitVec 32} :
    HasDefault1 msr default1 (setReserved msr (0 ||| mask)) ↔
      BitsIn (default1 &&& upper32 msr) (mask ||| lower32 msr) := by
  have hzero : 0 ||| mask = mask := BitVec.zero_or
  have hset : setReserved msr (0 ||| mask) = (mask ||| lower32 msr) &&& upper32 msr := by
    rw [setReserved, hzero]
  constructor
  · rintro ⟨hclass, -, -⟩
    rw [hset] at hclass
    exact (bitsIn_and_iff.mp hclass).1
  · intro h
    have hupper : BitsIn (default1 &&& upper32 msr) (upper32 msr) :=
      (bitsIn_and_iff.mp (BitsIn.refl _)).2
    refine ⟨?_, lower_bitsIn_setReserved hmsr _, setReserved_bitsIn_upper msr _⟩
    rw [hset]
    exact bitsIn_and_iff.mpr ⟨h, hupper⟩

theorem hasDefault1_of_mask (hmsr : MsrOk msr) {default1 mask : BitVec 32}
    (hmask : BitsIn default1 mask) : HasDefault1 msr default1 (setReserved msr (0 ||| mask)) := by
  have hclass : BitsIn (default1 &&& upper32 msr) default1 :=
    (bitsIn_and_iff.mp (BitsIn.refl _)).1
  exact (hasDefault1_iff hmsr).mpr ((hclass.trans hmask).trans (bitsIn_or_left _ _))

/-- The mask of the primary processor-based controls gives bit 26; the rest of the class has to come
from the processor. -/
theorem procDefault1_iff (high low : BitVec 32) :
    BitsIn (procDefault1Class &&& high) (procbasedCtls1Default1 ||| low) ↔
      BitsIn (procLostClass &&& high) low := by
  have hsplit : procDefault1Class = procLostClass ||| procbasedCtls1Default1 := by decide
  have hapart : procLostClass &&& procbasedCtls1Default1 = 0 := by decide
  constructor
  · intro h i hi
    rw [BitVec.getLsbD_and, Bool.and_eq_true] at hi
    have hin : (procDefault1Class &&& high).getLsbD i = true := by
      rw [hsplit, BitVec.getLsbD_and, BitVec.getLsbD_or, hi.1, hi.2]
      rfl
    have hmask : procbasedCtls1Default1.getLsbD i = false := by
      have hbit := congrArg (·.getLsbD i) hapart
      simpa [BitVec.getLsbD_and, hi.1] using hbit
    have hor := h i hin
    rwa [BitVec.getLsbD_or, hmask, Bool.false_or] at hor
  · intro h i hi
    rw [hsplit, BitVec.getLsbD_and, BitVec.getLsbD_or, Bool.and_eq_true, Bool.or_eq_true] at hi
    obtain ⟨hclass | hmask, hhigh⟩ := hi
    · exact bitsIn_or_right _ _ i (h i (by rw [BitVec.getLsbD_and, hclass, hhigh]; rfl))
    · exact bitsIn_or_left _ _ i hmask

/-! ### The checks -/

theorem eq_setReserved_default (hmsr : MsrOk msr) (mask : BitVec 32) :
    setReserved msr (0 ||| mask) = setReserved msr (setReserved msr (0 ||| mask)) :=
  (eq_setReserved_iff hmsr _).mpr ⟨lower_bitsIn_setReserved hmsr _, setReserved_bitsIn_upper msr _⟩

/-- The check of the reserved controls does not depend on the capabilities: the optional vectors are
empty. -/
theorem defaultPolicy_reserved (hmsr : MsrsOk rd) (caps : VmxVirtPolicy) :
    policyValidatesAgainstDefaultValues rd caps (vmxInitDefaultPolicy rd) = .valid := by
  rw [policyValidatesAgainstDefaultValues_iff]
  refine ⟨eq_setReserved_default hmsr.pin _, eq_setReserved_default hmsr.proc1 _, ?_, ?_,
    eq_setReserved_default hmsr.exit1 _, ?_, eq_setReserved_default hmsr.entry _⟩
  · simp [vmxInitDefaultPolicy, setReservedProcbasedCtls2]
  · simp [vmxInitDefaultPolicy, setReservedProcbasedCtls3]
  · simp [vmxInitDefaultPolicy, setReservedVmExitCtls2]

/-- The default controls of a vector are among its capabilities. -/
theorem ctlsOk_default (hmsr : MsrOk msr) (min mask : BitVec 32) :
    CtlsOk msr (setReserved msr (min ||| mask)) (setReserved msr (0 ||| mask)) := by
  have hzero : setReserved msr (0 ||| mask) ||| 0 = setReserved msr (0 ||| mask) := BitVec.or_zero
  rw [← hzero]
  exact (baseCtlsOk_iff hmsr (bitsIn_zero _)).mpr (bitsIn_zero _)

theorem defaultPolicy_valid {caps₀ : VmxVirtPolicy} (hmsr : MsrsOk rd)
    (hinit : initVmxCapabilities rd caps₀ = .ok caps) :
    validateVmxVirtPolicy rd caps (vmxInitDefaultPolicy rd) = .valid := by
  have hcaps := initVmxCapabilities_initialised hinit
  rw [validateVmxVirtPolicy_iff hmsr]
  refine ⟨?_, ?_, optionalCtlsOk_zero _ _ _, optionalCtlsOk_zero _ _ _, ?_,
    optionalCtlsOk_zero _ _ _, ?_⟩
  · rw [hcaps.pin]
    exact ctlsOk_default hmsr.pin _ _
  · rw [hcaps.proc1]
    exact ctlsOk_default hmsr.proc1 _ _
  · rw [hcaps.exit1]
    exact ctlsOk_default hmsr.exit1 _ _
  · rw [hcaps.entry]
    exact ctlsOk_default hmsr.entry _ _

/-- **When the default policy sets the default1 class.**  For all consistent MSRs, the TRUE ones or the
others: it has the default1 controls of all vectors, respects the MSRs and passes the checks iff the
processor forces each of the primary processor-based controls 1, 4 to 6, 8 and 13 to 16 that it
permits. -/
theorem defaultPolicy_iff (hmsr : MsrsOk rd) : DefaultPolicyOk rd ↔
    BitsIn (procLostClass &&& upper32 (getProcbasedCtls1Msr rd))
      (lower32 (getProcbasedCtls1Msr rd)) := by
  have hproc1 : HasDefault1 (getProcbasedCtls1Msr rd) procDefault1Class
      (vmxInitDefaultPolicy rd).procCtls1 ↔
        BitsIn (procLostClass &&& upper32 (getProcbasedCtls1Msr rd))
          (lower32 (getProcbasedCtls1Msr rd)) := by
    rw [← procDefault1_iff]
    exact hasDefault1_iff hmsr.proc1
  constructor
  · intro h
    exact hproc1.mp h.proc1
  · intro h
    exact ⟨hasDefault1_of_mask hmsr.pin (by decide), hproc1.mpr h,
      hasDefault1_of_mask hmsr.exit1 (by decide), hasDefault1_of_mask hmsr.entry (by decide),
      defaultPolicy_reserved hmsr, fun _ _ hinit => defaultPolicy_valid hmsr hinit⟩

/-- A processor whose capability MSR forces the whole class. -/
theorem defaultPolicy_iff_forced :
    MsrsOk (processor 0xFFF9FFFE0401E172) ∧ DefaultPolicyOk (processor 0xFFF9FFFE0401E172) := by
  have hmsr : MsrsOk (processor 0xFFF9FFFE0401E172) :=
    ⟨by decide, by decide, by decide, by decide⟩
  exact ⟨hmsr, (defaultPolicy_iff hmsr).mpr (by decide)⟩

/-- A processor whose TRUE MSR leaves the exits on accesses to CR3, bits 15 and 16, to the hypervisor:
the default policy does not have them. -/
theorem default_policy_without_cr3_exiting :
    MsrsOk (processor 0xFFF9FFFE04006172) ∧
      (vmxInitDefaultPolicy (processor 0xFFF9FFFE04006172)).procCtls1 = 0x04006172 ∧
      ¬ DefaultPolicyOk (processor 0xFFF9FFFE04006172) := by
  have hctls : (vmxInitDefaultPolicy (processor 0xFFF9FFFE04006172)).procCtls1 = 0x04006172 := by
    decide
  refine ⟨⟨by decide, by decide, by decide, by decide⟩, hctls, fun h => ?_⟩
  have hclass := h.proc1.1
  rw [hctls] at hclass
  exact absurd hclass (by decide)

end HyveMind.VmxPolicy
