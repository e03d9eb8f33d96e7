import HyveMind.Lib.BitSet
import HyveMind.Lib.Prog

/-! # The VMX capabilities and the policies of virtual machines

`arch/x64/vmx/policy.c` and `configure_base_virt_policy` of `arch/x64/vm/vm.c`: which VM-execution
controls the hypervisor uses.  A policy is seven vectors of controls.  The processor says in its
capability MSRs which controls must be set (allowed-0) and which may be set (allowed-1);
`init_vmx_capabilities` computes from them the controls that the hypervisor supports, and
`validate_vmx_virt_policy` checks a policy against both.

* `validateVmxVirtPolicy_iff`: the check is sound and complete for the rule `Conforms`.
* `basePolicy_valid_iff`: the policy that every VM gets passes the check iff the processor forces the
  use of I/O bitmaps: `configure_base_virt_policy` asks for them and `init_vmx_capabilities` does not.

Printing is left out.  Bit fields are given by the positions of their bits. -/

namespace HyveMind.VmxPolicy

open Lib

/-! ### The capability MSRs -/

/-- The MSRs that the code reads. -/
inductive CapMsr
  | vmxBasic
  | pinbasedCtls | truePinbasedCtls
  | procbasedCtls | trueProcbasedCtls | procbasedCtls2 | procbasedCtls3
  | exitCtls | trueExitCtls | exitCtls2
  | entryCtls | trueEntryCtls
deriving DecidableEq, Repr

/-- What `read_msr` returns. -/
abbrev Msrs := CapMsr → BitVec 64

/-- `VMX_DEFAULT1_CTLS_MAY_BE_0`. -/
def default1CtlsMayBe0 (rd : Msrs) : Bool := rd .vmxBasic &&& 1#64 <<< 55 != 0

/-- `__get_x_ctls_msr`. -/
def getXCtlsMsr (rd : Msrs) (trueMsr msr : CapMsr) : BitVec 64 :=
  if default1CtlsMayBe0 rd then rd trueMsr else rd msr

/-- `get_pinbased_ctls_msr`. -/
def getPinbasedCtlsMsr (rd : Msrs) : BitVec 64 := getXCtlsMsr rd .truePinbasedCtls .pinbasedCtls

/-- `get_procbased_ctls1_msr`. -/
def getProcbasedCtls1Msr (rd : Msrs) : BitVec 64 := getXCtlsMsr rd .trueProcbasedCtls .procbasedCtls

/-- `get_procbased_ctls2_msr`. -/
def getProcbasedCtls2Msr (rd : Msrs) : BitVec 64 := rd .procbasedCtls2

/-- `get_procbased_ctls3_msr`. -/
def getProcbasedCtls3Msr (rd : Msrs) : BitVec 64 := rd .procbasedCtls3

/-- `get_vmexit_ctls1_msr`. -/
def getVmexitCtls1Msr (rd : Msrs) : BitVec 64 := getXCtlsMsr rd .trueExitCtls .exitCtls

/-- `get_vmexit_ctls2_msr`. -/
def getVmexitCtls2Msr (rd : Msrs) : BitVec 64 := rd .exitCtls2

/-- `get_vmentry_ctls_msr`. -/
def getVmentryCtlsMsr (rd : Msrs) : BitVec 64 := getXCtlsMsr rd .trueEntryCtls .entryCtls

/-- `U64_LOWER32`, the controls that must be set. -/
def lower32 (v : BitVec 64) : BitVec 32 := ((v <<< 32) >>> 32).setWidth 32

/-- `U64_UPPER32`, the controls that may be set. -/
def upper32 (v : BitVec 64) : BitVec 32 := (v >>> 32).setWidth 32

/-! ### The vectors of controls -/

/-- `struct vmx_virt_policy`, with the `raw` members of the unions. -/
structure VmxVirtPolicy where
  pinCtls : BitVec 32
  procCtls1 : BitVec 32
  procCtls2 : BitVec 32
  procCtls3 : BitVec 64
  exitCtls1 : BitVec 32
  exitCtls2 : BitVec 64
  entryCtls : BitVec 32
deriving DecidableEq, Repr

/-- The vector with the bit fields at `bits` set to `1`. -/
def fields (bits : List ℕ) : BitVec 32 := bits.foldr (fun n v => v ||| 1#32 <<< n) 0

/-- `external_interrupt_exiting` of the pin-based controls. -/
def externalInterruptExiting : ℕ := 0

/-- `process_posted_interrupts`. -/
def processPostedInterrupts : ℕ := 7

/-- `activate_tertiary_controls` of the primary processor-based controls. -/
def activateTertiaryControls : ℕ := 17

/-- `tpr_shadow`. -/
def tprShadow : ℕ := 21

/-- `io_bitmaps`. -/
def ioBitmaps : ℕ := 25

/-- `msr_bitmaps`. -/
def msrBitmaps : ℕ := 28

/-- `activate_secondary_controls`, of the primary processor-based and of the primary exit controls. -/
def activateSecondaryControls : ℕ := 31

/-- `virtualize_apic_accesses` of the secondary processor-based controls. -/
def virtualizeApicAccesses : ℕ := 0

/-- `enable_ept`. -/
def enableEpt : ℕ := 1

/-- `enable_rdtscp`. -/
def enableRdtscp : ℕ := 3

/-- `virtualize_x2apic_mode`. -/
def virtualizeX2apicMode : ℕ := 4

/-- `unrestricted_guest`. -/
def unrestrictedGuest : ℕ := 7

/-- `apic_register_virtualization`. -/
def apicRegisterVirtualization : ℕ := 8

/-- `virtual_interrupt_delivery`. -/
def virtualInterruptDelivery : ℕ := 9

/-- `enable_invpcid`. -/
def enableInvpcid : ℕ := 12

/-- `host_addr_space_size` of the primary exit controls. -/
def hostAddrSpaceSize : ℕ := 9

/-- `ack_interrupt_on_exit`. -/
def ackInterruptOnExit : ℕ := 15

/-- `save_ia32_efer`. -/
def saveIa32Efer : ℕ := 20

/-- `load_ia32_efer` of the primary exit controls. -/
def exitLoadIa32Efer : ℕ := 21

/-- `ia32e_mode_guest` of the entry controls. -/
def ia32eModeGuest : ℕ := 9

/-- `load_ia32_efer` of the entry controls. -/
def entryLoadIa32Efer : ℕ := 15

/-- `VMCS_PIN_BASED_CTLS_DEFAULT1`. -/
def pinBasedCtlsDefault1 : BitVec 32 := 1#32 <<< 1 ||| 1#32 <<< 2 ||| 1#32 <<< 4

/-- `VMCS_PROCBASED_CTLS1_DEFAULT1`.  A comma stands in place of the last `|` of the source, so that
the value is that of the last operand. -/
def procbasedCtls1Default1 : BitVec 32 := 1#32 <<< 26

/-- `VMCS_EXIT_CTLS1_DEFAULT1`. -/
def exitCtls1Default1 : BitVec 32 := 511#32 ||| 3#32 <<< 10 ||| 3#32 <<< 13 ||| 3#32 <<< 16

/-- `VMCS_ENTRY_CTLS_DEFAULT1`. -/
def entryCtlsDefault1 : BitVec 32 := 511#32 ||| 1#32 <<< 12

/-! ### Reserved controls -/

/-- `enum vmx_policy_option`. -/
inductive VmxPolicyOption
  | procbasedCtls2 | procbasedCtls3 | vmExitCtls2 | ept | msrBitmap | unrestrictedGuest
deriving DecidableEq, Repr

/-- `vmx_caps_is_option_supported`. -/
def vmxCapsIsOptionSupported (caps : VmxVirtPolicy) : VmxPolicyOption → Bool
  | .procbasedCtls2 => caps.procCtls1.getLsbD activateSecondaryControls
  | .procbasedCtls3 => caps.procCtls1.getLsbD activateTertiaryControls
  | .vmExitCtls2 => caps.exitCtls1.getLsbD activateSecondaryControls
  | .ept => caps.procCtls1.getLsbD activateSecondaryControls && caps.procCtls2.getLsbD enableEpt
  | .msrBitmap => caps.procCtls1.getLsbD msrBitmaps
  | .unrestrictedGuest =>
      caps.procCtls1.getLsbD activateSecondaryControls && caps.procCtls2.getLsbD unrestrictedGuest

/-- The common body of the `set_reserved_*` functions for vectors with an allowed-0 half. -/
def setReserved (msr : BitVec 64) (ctls : BitVec 32) : BitVec 32 :=
  (ctls ||| lower32 msr) &&& upper32 msr

/-- `set_reserved_pinbased_ctls`. -/
def setReservedPinbasedCtls (rd : Msrs) (ctls : BitVec 32) : BitVec 32 :=
  setReserved (getPinbasedCtlsMsr rd) ctls

/-- `set_reserved_pinbased_ctls_default1`. -/
def setReservedPinbasedCtlsDefault1 (rd : Msrs) (ctls : BitVec 32) : BitVec 32 :=
  setReservedPinbasedCtls rd (ctls ||| pinBasedCtlsDefault1)

/-- `set_reserved_procbased_ctls1`. -/
def setReservedProcbasedCtls1 (rd : Msrs) (ctls : BitVec 32) : BitVec 32 :=
  setReserved (getProcbasedCtls1Msr rd) ctls

/-- `set_reserved_procbased_ctls1_default1`. -/
def setReservedProcbasedCtls1Default1 (rd : Msrs) (ctls : BitVec 32) : BitVec 32 :=
  setReservedProcbasedCtls1 rd (ctls ||| procbasedCtls1Default1)

/-- `set_reserved_procbased_ctls2`. -/
def setReservedProcbasedCtls2 (rd : Msrs) (caps : VmxVirtPolicy) (ctls : BitVec 32) : BitVec 32 :=
  if !vmxCapsIsOptionSupported caps .procbasedCtls2 then 0
  else ctls &&& upper32 (getProcbasedCtls2Msr rd)

/-- `set_reserved_procbased_ctls3`. -/
def setReservedProcbasedCtls3 (rd : Msrs) (caps : VmxVirtPolicy) (ctls : BitVec 64) : BitVec 64 :=
  if !vmxCapsIsOptionSupported caps .procbasedCtls3 then 0
  else ctls &&& getProcbasedCtls3Msr rd

/-- `set_reserved_vm_exit_ctls1`. -/
def setReservedVmExitCtls1 (rd : Msrs) (ctls : BitVec 32) : BitVec 32 :=
  setReserved (getVmexitCtls1Msr rd) ctls

/-- `set_reserved_vm_exit_ctls1_default1`. -/
def setReservedVmExitCtls1Default1 (rd : Msrs) (ctls : BitVec 32) : BitVec 32 :=
  setReservedVmExitCtls1 rd (ctls ||| exitCtls1Default1)

/-- `set_reserved_vm_exit_ctls2`. -/
def setReservedVmExitCtls2 (rd : Msrs) (caps : VmxVirtPolicy) (ctls : BitVec 64) : BitVec 64 :=
  if !vmxCapsIsOptionSupported caps .vmExitCtls2 then 0
  else ctls &&& getVmexitCtls2Msr rd

/-- `set_reserved_vm_entry_ctls`. -/
def setReservedVmEntryCtls (rd : Msrs) (ctls : BitVec 32) : BitVec 32 :=
  setReserved (getVmentryCtlsMsr rd) ctls

/-- `set_reserved_vm_entry_ctls_default1`. -/
def setReservedVmEntryCtlsDefault1 (rd : Msrs) (ctls : BitVec 32) : BitVec 32 :=
  setReservedVmEntryCtls rd (ctls ||| entryCtlsDefault1)

/-! ### `init_vmx_capabilities` -/

/-- `min_pin_ctls`, with `external_interrupt_handling` read as `external_interrupt_exiting`. -/
def minPinCtls : BitVec 32 := fields [externalInterruptExiting, processPostedInterrupts]

/-- `min_proc_ctls1`. -/
def minProcCtls1 : BitVec 32 := fields [activateSecondaryControls, msrBitmaps, tprShadow]

/-- `min_proc_ctls2`. -/
def minProcCtls2 : BitVec 32 :=
  fields [enableEpt, unrestrictedGuest, enableInvpcid, enableRdtscp, virtualizeApicAccesses,
    virtualizeX2apicMode, apicRegisterVirtualization, virtualInterruptDelivery]

/-- `min_exit_ctls1`. -/
def minExitCtls1 : BitVec 32 :=
  fields [ackInterruptOnExit, hostAddrSpaceSize, exitLoadIa32Efer, saveIa32Efer]

/-- `min_entry_ctls`. -/
def minEntryCtls : BitVec 32 := fields [ia32eModeGuest, entryLoadIa32Efer]

/-- The check after each vector: all controls of `min` are supported. -/
def requireCtls {w : ℕ} (ctls min : BitVec w) (caps : VmxVirtPolicy) :
    Except VmxVirtPolicy VmxVirtPolicy :=
  if ctls &&& min ≠ min then .error caps else .ok caps

/-- The part of `init_vmx_capabilities` for the pin-based controls. -/
def initPinCtls (rd : Msrs) (caps : VmxVirtPolicy) : Except VmxVirtPolicy VmxVirtPolicy :=
  let caps := { caps with pinCtls := setReservedPinbasedCtlsDefault1 rd minPinCtls }
  requireCtls caps.pinCtls minPinCtls caps

/-- The part for the primary processor-based controls. -/
def initProcCtls1 (rd : Msrs) (caps : VmxVirtPolicy) : Except VmxVirtPolicy VmxVirtPolicy :=
  let caps := { caps with procCtls1 := setReservedProcbasedCtls1Default1 rd minProcCtls1 }
  requireCtls caps.procCtls1 minProcCtls1 caps

/-- The part for the secondary processor-based controls. -/
def initProcCtls2 (rd : Msrs) (caps : VmxVirtPolicy) : Except VmxVirtPolicy VmxVirtPolicy :=
  if caps.procCtls1.getLsbD activateSecondaryControls then
    let caps := { caps with procCtls2 := setReservedProcbasedCtls2 rd caps minProcCtls2 }
    requireCtls caps.procCtls2 minProcCtls2 caps
  else .ok { caps with procCtls2 := 0 }

/-- The part for the tertiary processor-based controls. -/
def initProcCtls3 (rd : Msrs) (caps : VmxVirtPolicy) : Except VmxVirtPolicy VmxVirtPolicy :=
  if caps.procCtls1.getLsbD activateTertiaryControls then
    let caps := { caps with procCtls3 := setReservedProcbasedCtls3 rd caps 0 }
    requireCtls caps.procCtls3 0 caps
  else .ok { caps with procCtls3 := 0 }

/-- The part for the primary exit controls. -/
def initExitCtls1 (rd : Msrs) (caps : VmxVirtPolicy) : Except VmxVirtPolicy VmxVirtPolicy :=
  let caps := { caps with exitCtls1 := setReservedVmExitCtls1Default1 rd minExitCtls1 }
  requireCtls caps.exitCtls1 minExitCtls1 caps

/-- The part for the secondary exit controls. -/
def initExitCtls2 (rd : Msrs) (caps : VmxVirtPolicy) : Except VmxVirtPolicy VmxVirtPolicy :=
  if caps.exitCtls1.getLsbD activateSecondaryControls then
    let caps := { caps with exitCtls2 := setReservedVmExitCtls2 rd caps 0 }
    requireCtls caps.exitCtls2 0 caps
  else .ok { caps with exitCtls2 := 0 }

/-- The part for the entry controls. -/
def initEntryCtls (rd : Msrs) (caps : VmxVirtPolicy) : Except VmxVirtPolicy VmxVirtPolicy :=
  let caps := { caps with entryCtls := setReservedVmEntryCtlsDefault1 rd minEntryCtls }
  requireCtls caps.entryCtls minEntryCtls caps

/-- `init_vmx_capabilities`: `.ok` for the result `0` and `.error` for the result `-1`, both with the
new content of `vmx_caps`. -/
def initVmxCapabilities (rd : Msrs) (caps : VmxVirtPolicy) : Except VmxVirtPolicy VmxVirtPolicy := do
  let caps ← initPinCtls rd caps
  let caps ← initProcCtls1 rd caps
  let caps ← initProcCtls2 rd caps
  let caps ← initProcCtls3 rd caps
  let caps ← initExitCtls1 rd caps
  let caps ← initExitCtls2 rd caps
  initEntryCtls rd caps

/-! ### Policies -/

/-- `vmx_init_default_policy`. -/
def vmxInitDefaultPolicy (rd : Msrs) : VmxVirtPolicy where
  pinCtls := setReservedPinbasedCtlsDefault1 rd 0
  procCtls1 := setReservedProcbasedCtls1Default1 rd 0
  procCtls2 := 0
  procCtls3 := 0
  exitCtls1 := setReservedVmExitCtls1Default1 rd 0
  exitCtls2 := 0
  entryCtls := setReservedVmEntryCtlsDefault1 rd 0

/-- The controls that `configure_base_virt_policy` sets. -/
def baseControls : VmxVirtPolicy where
  pinCtls := fields [externalInterruptExiting]
  procCtls1 := fields [activateSecondaryControls, msrBitmaps, ioBitmaps, tprShadow]
  procCtls2 := fields [enableInvpcid, enableEpt, unrestrictedGuest, enableRdtscp,
    virtualizeApicAccesses, apicRegisterVirtualization]
  procCtls3 := 0
  exitCtls1 := fields [hostAddrSpaceSize, exitLoadIa32Efer, saveIa32Efer]
  exitCtls2 := 0
  entryCtls := fields [entryLoadIa32Efer]

/-- `configure_base_virt_policy`. -/
def configureBaseVirtPolicy (rd : Msrs) : VmxVirtPolicy :=
  let policy := vmxInitDefaultPolicy rd
  { policy with
    pinCtls := policy.pinCtls ||| baseControls.pinCtls
    procCtls1 := policy.procCtls1 ||| baseControls.procCtls1
    procCtls2 := policy.procCtls2 ||| baseControls.procCtls2
    exitCtls1 := policy.exitCtls1 ||| baseControls.exitCtls1
    entryCtls := policy.entryCtls ||| baseControls.entryCtls }

/-- `enum vmx_policy_vrfy_status`. -/
inductive VmxPolicyVrfyStatus
  | valid | invalid | reservedFieldConfigured | invalidOptionSet | unsupportedCtlActivated
deriving DecidableEq, Repr

/-- `VALIDATE_CONTROL`. -/
def validateControl {w : ℕ} (caps policy : BitVec w) : Bool := caps &&& policy == policy

/-- `policy_validates_against_capabilities`. -/
def policyValidatesAgainstCapabilities (caps policy : VmxVirtPolicy) : VmxPolicyVrfyStatus :=
  if !validateControl caps.pinCtls policy.pinCtls then .invalidOptionSet
  else if !validateControl caps.procCtls1 policy.procCtls1 then .invalidOptionSet
  else if policy.procCtls1.getLsbD activateSecondaryControls &&
      !validateControl caps.procCtls2 policy.procCtls2 then .invalidOptionSet
  else if policy.procCtls1.getLsbD activateTertiaryControls &&
      !validateControl caps.procCtls3 policy.procCtls3 then .invalidOptionSet
  else if !validateControl caps.exitCtls1 policy.exitCtls1 then .invalidOptionSet
  else if policy.exitCtls1.getLsbD activateSecondaryControls &&
      !validateControl caps.exitCtls2 policy.exitCtls2 then .invalidOptionSet
  else if !validateControl caps.entryCtls policy.entryCtls then .invalidOptionSet
  else .valid

/-- `policy_validates_against_default_values`. -/
def policyValidatesAgainstDefaultValues (rd : Msrs) (caps policy : VmxVirtPolicy) :
    VmxPolicyVrfyStatus :=
  if policy.pinCtls != setReservedPinbasedCtls rd policy.pinCtls then .reservedFieldConfigured
  else if policy.procCtls1 != setReservedProcbasedCtls1 rd policy.procCtls1 then
    .reservedFieldConfigured
  else if policy.procCtls2 != setReservedProcbasedCtls2 rd caps policy.procCtls2 then
    .reservedFieldConfigured
  else if policy.procCtls3 != setReservedProcbasedCtls3 rd caps policy.procCtls3 then
    .reservedFieldConfigured
  else if policy.exitCtls1 != setReservedVmExitCtls1 rd policy.exitCtls1 then
    .reservedFieldConfigured
  else if policy.exitCtls2 != setReservedVmExitCtls2 rd caps policy.exitCtls2 then
    .reservedFieldConfigured
  else if policy.entryCtls != setReservedVmEntryCtls rd policy.entryCtls then
    .reservedFieldConfigured
  else .valid

/-- `validate_control_dependencies`. -/
def validateControlDependencies (_policy : VmxVirtPolicy) : VmxPolicyVrfyStatus := .valid

/-- `validate_vmx_virt_policy`. -/
def validateVmxVirtPolicy (rd : Msrs) (caps policy : VmxVirtPolicy) : VmxPolicyVrfyStatus :=
  if policyValidatesAgainstDefaultValues rd caps policy ≠ .valid then .invalid
  else if policyValidatesAgainstCapabilities caps policy ≠ .valid then .invalid
  else if !policy.procCtls1.getLsbD activateSecondaryControls && policy.procCtls2 != 0 then .invalid
  else if !policy.procCtls1.getLsbD activateTertiaryControls && policy.procCtls3 != 0 then .invalid
  else if !policy.exitCtls1.getLsbD activateSecondaryControls && policy.exitCtls2 != 0 then .invalid
  else if validateControlDependencies policy ≠ .valid then .invalid
  else .valid

/-! ### Soundness and completeness of the check -/

variable {rd : Msrs} {caps caps' policy : VmxVirtPolicy}

/-- In the MSR every control that must be set may be set. -/
def MsrOk (msr : BitVec 64) : Prop := BitsIn (lower32 msr) (upper32 msr)

/-- The MSRs for the vectors with an allowed-0 half are consistent. -/
structure MsrsOk (rd : Msrs) : Prop where
  pin : MsrOk (getPinbasedCtlsMsr rd)
  proc1 : MsrOk (getProcbasedCtls1Msr rd)
  exit1 : MsrOk (getVmexitCtls1Msr rd)
  entry : MsrOk (getVmentryCtlsMsr rd)

/-- The processor accepts the vector, and its controls are among the capabilities. -/
def CtlsOk (msr : BitVec 64) (caps ctls : BitVec 32) : Prop :=
  BitsIn (lower32 msr) ctls ∧ BitsIn ctls (upper32 msr) ∧ BitsIn ctls caps

/-- A vector that is used if `active`: it is empty otherwise. -/
def OptionalCtlsOk {w : ℕ} (active : Bool) (allowed1 caps ctls : BitVec w) : Prop :=
  if active then BitsIn ctls allowed1 ∧ BitsIn ctls caps else ctls = 0

/-- The rule for policies. -/
structure Conforms (rd : Msrs) (caps policy : VmxVirtPolicy) : Prop where
  pin : CtlsOk (getPinbasedCtlsMsr rd) caps.pinCtls policy.pinCtls
  proc1 : CtlsOk (getProcbasedCtls1Msr rd) caps.procCtls1 policy.procCtls1
  proc2 : OptionalCtlsOk (policy.procCtls1.getLsbD activateSecondaryControls)
    (upper32 (getProcbasedCtls2Msr rd)) caps.procCtls2 policy.procCtls2
  proc3 : OptionalCtlsOk (policy.procCtls1.getLsbD activateTertiaryControls)
    (getProcbasedCtls3Msr rd) caps.procCtls3 policy.procCtls3
  exit1 : CtlsOk (getVmexitCtls1Msr rd) caps.exitCtls1 policy.exitCtls1
  exit2 : OptionalCtlsOk (policy.exitCtls1.getLsbD activateSecondaryControls)
    (getVmexitCtls2Msr rd) caps.exitCtls2 policy.exitCtls2
  entry : CtlsOk (getVmentryCtlsMsr rd) caps.entryCtls policy.entryCtls

theorem validateControl_iff {w : ℕ} (c p : BitVec w) : validateControl c p = true ↔ BitsIn p c := by
  rw [validateControl, beq_iff_eq, and_eq_iff_bitsIn]

theorem eq_setReserved_iff {msr : BitVec 64} (h : MsrOk msr) (ctls : BitVec 32) :
    ctls = setReserved msr ctls ↔ BitsIn (lower32 msr) ctls ∧ BitsIn ctls (upper32 msr) :=
  eq_or_and_iff h

/-- The checks of one optional vector: against the MSR, against the capabilities, and for being empty
when it is not active.  It is supported when it is active. -/
theorem optionalCtlsOk_iff {w : ℕ} {active supported : Bool} {allowed1 c ctls : BitVec w}
    (hsupp : active = true → supported = true) :
    (ctls = if !supported then 0 else ctls &&& allowed1) ∧
        (active = true → validateControl c ctls = true) ∧ (active = false → ctls = 0) ↔
      OptionalCtlsOk active allowed1 c ctls := by
  unfold OptionalCtlsOk
  cases active with
  | false =>
      simp only [Bool.false_eq_true, false_implies, true_implies, if_false, true_and]
      refine ⟨fun h => h.2, ?_⟩
      rintro rfl
      cases supported <;> simp
  | true =>
      simp only [hsupp rfl, Bool.not_true, Bool.false_eq_true, if_false, if_true, true_implies,
        Bool.true_eq_false, false_implies, and_true, validateControl_iff, eq_and_iff_bitsIn]

theorem ite_eq_valid_iff {c : Prop} [Decidable c] {fail rest : VmxPolicyVrfyStatus}
    (hfail : fail ≠ .valid) : (if c then fail else rest) = .valid ↔ ¬ c ∧ rest = .valid := by
  by_cases hc : c <;> simp [hc, hfail]

theorem policyValidatesAgainstCapabilities_iff :
    policyValidatesAgainstCapabilities caps policy = .valid ↔
      validateControl caps.pinCtls policy.pinCtls = true ∧
      validateControl caps.procCtls1 policy.procCtls1 = true ∧
      (policy.procCtls1.getLsbD activateSecondaryControls = true →
        validateControl caps.procCtls2 policy.procCtls2 = true) ∧
      (policy.procCtls1.getLsbD activateTertiaryControls = true →
        validateControl caps.procCtls3 policy.procCtls3 = true) ∧
      validateControl caps.exitCtls1 policy.exitCtls1 = true ∧
      (policy.exitCtls1.getLsbD activateSecondaryControls = true →
        validateControl caps.exitCtls2 policy.exitCtls2 = true) ∧
      validateControl caps.entryCtls policy.entryCtls = true := by
  unfold policyValidatesAgainstCapabilities
  simp (disch := decide) only [ite_eq_valid_iff]
  simp

theorem policyValidatesAgainstDefaultValues_iff :
    policyValidatesAgainstDefaultValues rd caps policy = .valid ↔
      policy.pinCtls = setReservedPinbasedCtls rd policy.pinCtls ∧
      policy.procCtls1 = setReservedProcbasedCtls1 rd policy.procCtls1 ∧
      policy.procCtls2 = setReservedProcbasedCtls2 rd caps policy.procCtls2 ∧
      policy.procCtls3 = setReservedProcbasedCtls3 rd caps policy.procCtls3 ∧
      policy.exitCtls1 = setReservedVmExitCtls1 rd policy.exitCtls1 ∧
      policy.exitCtls2 = setReservedVmExitCtls2 rd caps policy.exitCtls2 ∧
      policy.entryCtls = setReservedVmEntryCtls rd policy.entryCtls := by
  unfold policyValidatesAgainstDefaultValues
  simp (disch := decide) only [ite_eq_valid_iff]
  simp only [bne_iff_ne, ne_eq, not_not, and_true]

theorem validateVmxVirtPolicy_eq_valid :
    validateVmxVirtPolicy rd caps policy = .valid ↔
      policyValidatesAgainstDefaultValues rd caps policy = .valid ∧
      policyValidatesAgainstCapabilities caps policy = .valid ∧
      (policy.procCtls1.getLsbD activateSecondaryControls = false → policy.procCtls2 = 0) ∧
      (policy.procCtls1.getLsbD activateTertiaryControls = false → policy.procCtls3 = 0) ∧
      (policy.exitCtls1.getLsbD activateSecondaryControls = false → policy.exitCtls2 = 0) := by
  unfold validateVmxVirtPolicy validateControlDependencies
  simp (disch := decide) only [ite_eq_valid_iff]
  simp

/-- **The check of policies is sound and complete**: a policy passes it iff it conforms to the
capability MSRs and to the capabilities of the hypervisor. -/
theorem validateVmxVirtPolicy_iff (hmsr : MsrsOk rd) (caps policy : VmxVirtPolicy) :
    validateVmxVirtPolicy rd caps policy = .valid ↔ Conforms rd caps policy := by
  rw [validateVmxVirtPolicy_eq_valid, policyValidatesAgainstDefaultValues_iff,
    policyValidatesAgainstCapabilities_iff]
  simp only [setReservedPinbasedCtls, setReservedProcbasedCtls1, setReservedVmExitCtls1,
    setReservedVmEntryCtls, eq_setReserved_iff hmsr.pin, eq_setReserved_iff hmsr.proc1,
    eq_setReserved_iff hmsr.exit1, eq_setReserved_iff hmsr.entry]
  constructor
  · rintro ⟨⟨hpin, hproc1, hproc2, hproc3, hexit1, hexit2, hentry⟩,
      ⟨cpin, cproc1, cproc2, cproc3, cexit1, cexit2, centry⟩, zproc2, zproc3, zexit2⟩
    rw [validateControl_iff] at cpin cproc1 cexit1 centry
    exact
      { pin := ⟨hpin.1, hpin.2, cpin⟩
        proc1 := ⟨hproc1.1, hproc1.2, cproc1⟩
        proc2 := (optionalCtlsOk_iff (cproc1 _)).mp ⟨hproc2, cproc2, zproc2⟩
        proc3 := (optionalCtlsOk_iff (cproc1 _)).mp ⟨hproc3, cproc3, zproc3⟩
        exit1 := ⟨hexit1.1, hexit1.2, cexit1⟩
        exit2 := (optionalCtlsOk_iff (cexit1 _)).mp ⟨hexit2, cexit2, zexit2⟩
        entry := ⟨hentry.1, hentry.2, centry⟩ }
  · intro h
    obtain ⟨hproc2, cproc2, zproc2⟩ := (optionalCtlsOk_iff (h.proc1.2.2 _)).mpr h.proc2
    obtain ⟨hproc3, cproc3, zproc3⟩ := (optionalCtlsOk_iff (h.proc1.2.2 _)).mpr h.proc3
    obtain ⟨hexit2, cexit2, zexit2⟩ := (optionalCtlsOk_iff (h.exit1.2.2 _)).mpr h.exit2
    simp only [validateControl_iff]
    refine ⟨⟨⟨h.pin.1, h.pin.2.1⟩, ⟨h.proc1.1, h.proc1.2.1⟩, hproc2, hproc3,
      ⟨h.exit1.1, h.exit1.2.1⟩, hexit2, h.entry.1, h.entry.2.1⟩, ⟨h.pin.2.2, h.proc1.2.2, ?_, ?_,
      h.exit1.2.2, ?_, h.entry.2.2⟩, zproc2, zproc3, zexit2⟩
    · exact fun hact => (validateControl_iff _ _).mp (cproc2 hact)
    · exact fun hact => (validateControl_iff _ _).mp (cproc3 hact)
    · exact fun hact => (validateControl_iff _ _).mp (cexit2 hact)

/-! ### The policy of every VM -/

theorem requireCtls_eq_ok {w : ℕ} {ctls min : BitVec w} (h : requireCtls ctls min caps = .ok caps') :
    BitsIn min ctls ∧ caps' = caps := by
  unfold requireCtls at h
  split_ifs at h with hmin
  exact ⟨and_eq_iff_bitsIn.mp (not_not.mp hmin), (Except.ok.inj h).symm⟩

/-- The capabilities after `init_vmx_capabilities` has succeeded. -/
structure Initialised (rd : Msrs) (caps : VmxVirtPolicy) : Prop where
  pin : caps.pinCtls = setReservedPinbasedCtlsDefault1 rd minPinCtls
  proc1 : caps.procCtls1 = setReservedProcbasedCtls1Default1 rd minProcCtls1
  proc2 : BitsIn minProcCtls2 caps.procCtls2
  exit1 : caps.exitCtls1 = setReservedVmExitCtls1Default1 rd minExitCtls1
  entry : caps.entryCtls = setReservedVmEntryCtlsDefault1 rd minEntryCtls

theorem initProcCtls2_eq_ok (h : initProcCtls2 rd caps = .ok caps')
    (hactive : caps.procCtls1.getLsbD activateSecondaryControls = true) :
    BitsIn minProcCtls2 caps'.procCtls2 ∧ ∃ ctls, caps' = { caps with procCtls2 := ctls } := by
  rw [initProcCtls2, if_pos hactive] at h
  obtain ⟨hmin, rfl⟩ := requireCtls_eq_ok h
  exact ⟨hmin, _, rfl⟩

theorem initProcCtls3_eq_ok (h : initProcCtls3 rd caps = .ok caps') :
    ∃ ctls, caps' = { caps with procCtls3 := ctls } := by
  unfold initProcCtls3 at h
  split_ifs at h
  · exact ⟨_, (requireCtls_eq_ok h).2⟩
  · exact ⟨_, (Except.ok.inj h).symm⟩

theorem initExitCtls2_eq_ok (h : initExitCtls2 rd caps = .ok caps') :
    ∃ ctls, caps' = { caps with exitCtls2 := ctls } := by
  unfold initExitCtls2 at h
  split_ifs at h
  · exact ⟨_, (requireCtls_eq_ok h).2⟩
  · exact ⟨_, (Except.ok.inj h).symm⟩

theorem initVmxCapabilities_initialised {caps₀ : VmxVirtPolicy}
    (h : initVmxCapabilities rd caps₀ = .ok caps) : Initialised rd caps := by
  obtain ⟨c₁, h₁, h⟩ := exists_of_bind_eq_ok h
  obtain ⟨-, hpin⟩ := requireCtls_eq_ok h₁
  obtain ⟨c₂, h₂, h⟩ := exists_of_bind_eq_ok h
  obtain ⟨hmin1, hproc1⟩ := requireCtls_eq_ok h₂
  obtain ⟨c₃, h₃, h⟩ := exists_of_bind_eq_ok h
  have hactive : c₂.procCtls1.getLsbD activateSecondaryControls = true := by
    rw [hproc1]
    exact hmin1 _ (by decide)
  obtain ⟨hproc2, _, hc₃⟩ := initProcCtls2_eq_ok h₃ hactive
  obtain ⟨c₄, h₄, h⟩ := exists_of_bind_eq_ok h
  obtain ⟨_, hc₄⟩ := initProcCtls3_eq_ok h₄
  obtain ⟨c₅, h₅, h⟩ := exists_of_bind_eq_ok h
  obtain ⟨-, hexit1⟩ := requireCtls_eq_ok h₅
  obtain ⟨c₆, h₆, h⟩ := exists_of_bind_eq_ok h
  obtain ⟨_, hc₆⟩ := initExitCtls2_eq_ok h₆
  obtain ⟨-, hentry⟩ := requireCtls_eq_ok h
  refine ⟨?_, ?_, ?_, ?_, by rw [hentry]⟩ <;> rw [hentry, hc₆, hexit1]
  · rw [hc₄, hc₃, hproc1, hpin]
  · rw [hc₄, hc₃, hproc1]
  · rw [hc₄]
    exact hproc2

/-- The processor permits the controls that `configure_base_virt_policy` sets. -/
structure BaseControlsPermitted (rd : Msrs) : Prop where
  pin : BitsIn baseControls.pinCtls (upper32 (getPinbasedCtlsMsr rd))
  proc1 : BitsIn baseControls.procCtls1 (upper32 (getProcbasedCtls1Msr rd))
  proc2 : BitsIn baseControls.procCtls2 (upper32 (getProcbasedCtls2Msr rd))
  exit1 : BitsIn baseControls.exitCtls1 (upper32 (getVmexitCtls1Msr rd))
  entry : BitsIn baseControls.entryCtls (upper32 (getVmentryCtlsMsr rd))

theorem setReserved_bitsIn_upper (msr : BitVec 64) (ctls : BitVec 32) :
    BitsIn (setReserved msr ctls) (upper32 msr) :=
  (bitsIn_and_iff.mp (BitsIn.refl (setReserved msr ctls))).2

theorem lower_bitsIn_setReserved {msr : BitVec 64} (hmsr : MsrOk msr) (ctls : BitVec 32) :
    BitsIn (lower32 msr) (setReserved msr ctls) :=
  bitsIn_and_iff.mpr ⟨bitsIn_or_right _ _, hmsr⟩

/-- One vector of the base policy: the default controls `default1` and then `base`.  The capabilities
have the default controls and then `min`. -/
theorem baseCtlsOk_iff {msr : BitVec 64} (hmsr : MsrOk msr) {base min default1 : BitVec 32}
    (hbase : BitsIn base (upper32 msr)) :
    CtlsOk msr (setReserved msr (min ||| default1)) (setReserved msr (0 ||| default1) ||| base) ↔
      BitsIn base (min ||| default1 ||| lower32 msr) := by
  have hdefault : BitsIn (setReserved msr (0 ||| default1)) (min ||| default1 ||| lower32 msr) := by
    refine (bitsIn_and_iff.mp (BitsIn.refl (setReserved msr (0 ||| default1)))).1.trans ?_
    refine bitsIn_or_iff.mpr ⟨bitsIn_or_iff.mpr ⟨bitsIn_zero _, ?_⟩, bitsIn_or_right _ _⟩
    exact (bitsIn_or_right min default1).trans (bitsIn_or_left _ _)
  constructor
  · rintro ⟨-, -, hcaps⟩
    exact (bitsIn_and_iff.mp (bitsIn_or_iff.mp hcaps).2).1
  · intro h
    have hupper := setReserved_bitsIn_upper msr (0 ||| default1)
    exact ⟨(lower_bitsIn_setReserved hmsr _).trans (bitsIn_or_left _ _),
      bitsIn_or_iff.mpr ⟨hupper, hbase⟩,
      bitsIn_or_iff.mpr ⟨bitsIn_and_iff.mpr ⟨hdefault, hupper⟩, bitsIn_and_iff.mpr ⟨h, hbase⟩⟩⟩

theorem optionalCtlsOk_zero {w : ℕ} (active : Bool) (allowed1 c : BitVec w) :
    OptionalCtlsOk active allowed1 c 0 := by
  unfold OptionalCtlsOk
  cases active
  · rfl
  · exact ⟨bitsIn_zero _, bitsIn_zero _⟩

/-- Of the primary controls that the base policy sets, `init_vmx_capabilities` leaves out the I/O
bitmaps. -/
theorem baseProcCtls1_iff (low : BitVec 32) :
    BitsIn baseControls.procCtls1 (minProcCtls1 ||| procbasedCtls1Default1 ||| low) ↔
      low.getLsbD ioBitmaps = true := by
  have hsplit : baseControls.procCtls1 = minProcCtls1 ||| 1#32 <<< ioBitmaps := by decide
  have hmissing : (minProcCtls1 ||| procbasedCtls1Default1).getLsbD ioBitmaps = false := by decide
  rw [hsplit, bitsIn_or_iff, bitsIn_one_shiftLeft_iff (by decide), BitVec.getLsbD_or, hmissing,
    Bool.false_or]
  exact and_iff_right ((bitsIn_or_left _ _).trans (bitsIn_or_left _ _))

/-- **When the policy of every VM is valid.**  After a successful `init_vmx_capabilities`, on a
processor that permits the controls, it is iff I/O bitmaps cannot be switched off. -/
theorem basePolicy_valid_iff {caps₀ : VmxVirtPolicy} (hmsr : MsrsOk rd)
    (hperm : BaseControlsPermitted rd) (hinit : initVmxCapabilities rd caps₀ = .ok caps) :
    validateVmxVirtPolicy rd caps (configureBaseVirtPolicy rd) = .valid ↔
      (lower32 (getProcbasedCtls1Msr rd)).getLsbD ioBitmaps = true := by
  have hcaps := initVmxCapabilities_initialised hinit
  have hproc1 : CtlsOk (getProcbasedCtls1Msr rd) caps.procCtls1
      (configureBaseVirtPolicy rd).procCtls1 ↔
        (lower32 (getProcbasedCtls1Msr rd)).getLsbD ioBitmaps = true := by
    rw [hcaps.proc1, ← baseProcCtls1_iff]
    exact baseCtlsOk_iff hmsr.proc1 hperm.proc1
  rw [validateVmxVirtPolicy_iff hmsr, ← hproc1]
  refine ⟨Conforms.proc1, fun h => ?_⟩
  have hin : ∀ {base min default1 low : BitVec 32}, BitsIn base min →
      BitsIn base (min ||| default1 ||| low) :=
    fun hb => (hb.trans (bitsIn_or_left _ _)).trans (bitsIn_or_left _ _)
  refine ⟨?_, h, ?_, optionalCtlsOk_zero _ _ _, ?_, optionalCtlsOk_zero _ _ _, ?_⟩
  · rw [hcaps.pin]
    exact (baseCtlsOk_iff hmsr.pin hperm.pin).mpr (hin (by decide))
  · have hactive : (configureBaseVirtPolicy rd).procCtls1.getLsbD activateSecondaryControls = true :=
      bitsIn_or_right _ _ _ (by decide)
    have hzero : (configureBaseVirtPolicy rd).procCtls2 = baseControls.procCtls2 := BitVec.zero_or
    rw [OptionalCtlsOk, if_pos hactive, hzero]
    exact ⟨hperm.proc2, BitsIn.trans (by decide) hcaps.proc2⟩
  · rw [hcaps.exit1]
    exact (baseCtlsOk_iff hmsr.exit1 hperm.exit1).mpr (hin (by decide))
  · rw [hcaps.entry]
    exact (baseCtlsOk_iff hmsr.entry hperm.entry).mpr (hin (by decide))

/-! ### A processor -/

/-- The MSRs of a processor, with `procbased` as `IA32_VMX_TRUE_PROCBASED_CTLS`. -/
def processor (procbased : BitVec 64) : Msrs
  | .vmxBasic => 0x0080000000000000
  | .truePinbasedCtls | .pinbasedCtls => 0x000000FF00000016
  | .trueProcbasedCtls | .procbasedCtls => procbased
  | .procbasedCtls2 => 0x00153FFF00000000
  | .procbasedCtls3 => 0
  | .trueExitCtls | .exitCtls => 0x01FFFFFF00036DFB
  | .exitCtls2 => 0
  | .trueEntryCtls | .entryCtls => 0x0003FFFF000011FB

instance (msr : BitVec 64) : Decidable (MsrOk msr) :=
  inferInstanceAs (Decidable (BitsIn (lower32 msr) (upper32 msr)))

/-- No control is set. -/
def VmxVirtPolicy.zero : VmxVirtPolicy := ⟨0, 0, 0, 0, 0, 0, 0⟩

/-- The policy of every VM, with secondary controls, is accepted where the I/O bitmaps are forced. -/
theorem validateVmxVirtPolicy_iff_base :
    (configureBaseVirtPolicy (processor 0xFFF9FFFE06006172)).procCtls1.getLsbD activateSecondaryControls = true ∧
      (configureBaseVirtPolicy (processor 0xFFF9FFFE06006172)).procCtls2 ≠ 0 ∧
      ∃ caps, initVmxCapabilities (processor 0xFFF9FFFE06006172) .zero = .ok caps ∧
        Conforms (processor 0xFFF9FFFE06006172) caps
          (configureBaseVirtPolicy (processor 0xFFF9FFFE06006172)) := by
  have hmsr : MsrsOk (processor 0xFFF9FFFE06006172) :=
    ⟨by decide, by decide, by decide, by decide⟩
  have hrun : ((initVmxCapabilities (processor 0xFFF9FFFE06006172) .zero).map fun caps =>
      validateVmxVirtPolicy (processor 0xFFF9FFFE06006172) caps
        (configureBaseVirtPolicy (processor 0xFFF9FFFE06006172))) = .ok .valid := by decide
  refine ⟨by decide, by decide, ?_⟩
  cases hinit : initVmxCapabilities (processor 0xFFF9FFFE06006172) .zero with
  | error e =>
      rw [hinit] at hrun
      cases hrun
  | ok caps =>
      rw [hinit] at hrun
      exact ⟨caps, rfl, (validateVmxVirtPolicy_iff hmsr _ _).mp (Except.ok.inj hrun)⟩

/-- With forced I/O bitmaps the policy of every VM is valid. -/
theorem basePolicy_valid_iff_forced :
    ∃ caps, initVmxCapabilities (processor 0xFFF9FFFE06006172) .zero = .ok caps ∧
      validateVmxVirtPolicy (processor 0xFFF9FFFE06006172) caps
        (configureBaseVirtPolicy (processor 0xFFF9FFFE06006172)) = .valid := by
  have hmsr : MsrsOk (processor 0xFFF9FFFE06006172) :=
    ⟨by decide, by decide, by decide, by decide⟩
  have hperm : BaseControlsPermitted (processor 0xFFF9FFFE06006172) :=
    ⟨by decide, by decide, by decide, by decide, by decide⟩
  have hrun : (initVmxCapabilities (processor 0xFFF9FFFE06006172) .zero).isOk = true := by decide
  cases hinit : initVmxCapabilities (processor 0xFFF9FFFE06006172) .zero with
  | error e =>
      rw [hinit] at hrun
      cases hrun
  | ok caps => exact ⟨caps, rfl, (basePolicy_valid_iff hmsr hperm hinit).mpr (by decide)⟩

/-- On a processor on which I/O bitmaps are a choice the policy of every VM is invalid. -/
theorem base_policy_rejected :
    MsrsOk (processor 0xFFF9FFFE04006172) ∧ BaseControlsPermitted (processor 0xFFF9FFFE04006172) ∧
      ∃ caps, initVmxCapabilities (processor 0xFFF9FFFE04006172) .zero = .ok caps ∧
        validateVmxVirtPolicy (processor 0xFFF9FFFE04006172) caps
          (configureBaseVirtPolicy (processor 0xFFF9FFFE04006172)) ≠ .valid := by
  refine ⟨⟨by decide, by decide, by decide, by decide⟩,
    ⟨by decide, by decide, by decide, by decide, by decide⟩, ?_⟩
  have hrun : ((initVmxCapabilities (processor 0xFFF9FFFE04006172) .zero).map fun caps =>
      validateVmxVirtPolicy (processor 0xFFF9FFFE04006172) caps
        (configureBaseVirtPolicy (processor 0xFFF9FFFE04006172))) = .ok .invalid := by decide
  cases hinit : initVmxCapabilities (processor 0xFFF9FFFE04006172) .zero with
  | error e =>
      rw [hinit] at hrun
      cases hrun
  | ok caps =>
      rw [hinit] at hrun
      refine ⟨caps, rfl, fun hvalid => ?_⟩
      cases hvalid.symm.trans (Except.ok.inj hrun)

end HyveMind.VmxPolicy
