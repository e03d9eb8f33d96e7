import HyveMind.CpuIds
import HyveMind.Lib.Run

/-! # Local APICs

`arch/x64/apic.c`: the registers of the local APIC behind two interfaces, the page of the xAPIC and the
MSRs of the x2APIC; the setup of a CPU, its timer, the interrupts of the PIC, and interprocessor interrupts.
`Lapic` is the hardware: reserved bits and registers that do not exist raise an exception in x2APIC mode, a
disabled APIC masks its local vector table, the deadline counts in TSC-deadline mode only, and the last store to
the ICR sends.

`Spec` is what the APICs are for: deadlines that are armed, interrupts that are pending and handlers that
run, without registers.  `lapics_refine`: in every interleaving of the CPUs' calls, with interrupts between any
two stores of a send, the hardware is where `Spec` is, and no access raises an exception.  `ipis_reach_target`: a
send reaches its target alone, unless in xAPIC mode a handler sends between its two stores. -/

namespace HyveMind

namespace Apic

open Lib CpuTopology

/-! ### Registers -/

def apicMemBase : ℕ := 0xFEE00000
def apicMsrBase : ℕ := 0x800

def apicVersionReg : ℕ := 0x030
def apicTprReg : ℕ := 0x080
def apicEoiReg : ℕ := 0x0B0
def apicSvrReg : ℕ := 0x0F0
def apicLvtCmciReg : ℕ := 0x2F0
def xapicIcrRegW1 : ℕ := 0x300
def xapicIcrRegW2 : ℕ := 0x310
def apicLvtTimerReg : ℕ := 0x320
def apicLvtThermalReg : ℕ := 0x330
def apicLvtPerfmonReg : ℕ := 0x340
def apicLvtLint0Reg : ℕ := 0x350
def apicLvtLint1Reg : ℕ := 0x360
def apicLvtErrorReg : ℕ := 0x370
def apicInitialCountReg : ℕ := 0x380
def apicCurrCountReg : ℕ := 0x390
def apicDivConfigReg : ℕ := 0x3E0

/-- What the setup asks CPUID and `MSR_IA32_MCG_CAP` for. -/
structure Features where
  edx : BitVec 32
  ecx : BitVec 32
  mcgCap : BitVec 64

/-- `is_lapic_present` -/
def isLapicPresent (f : Features) : Bool := f.edx.getLsbD 9

/-- `CPUID_X2APIC_MODE` -/
def x2apicMode (f : Features) : Bool := f.ecx.getLsbD 21

/-- `exists_cmci_lvt_entry` -/
def existsCmciLvtEntry (f : Features) : Bool :=
  if !f.edx.getLsbD 7 then false
  else if !f.edx.getLsbD 14 then false
  else if !f.mcgCap.getLsbD 10 then false
  else true

/-- The local vector table. -/
def isLvt (reg : ℕ) : Bool :=
  reg ∈ [apicLvtCmciReg, apicLvtTimerReg, apicLvtThermalReg, apicLvtPerfmonReg, apicLvtLint0Reg, apicLvtLint1Reg,
    apicLvtErrorReg]

/-- The registers that can be written, with the bits that are not reserved. -/
def writable (f : Features) (reg : ℕ) : Option (BitVec 32) :=
  if reg = apicEoiReg then some 0
  else if reg = apicSvrReg then some 0x11ff
  else if reg = apicLvtCmciReg then if existsCmciLvtEntry f then some 0x117ff else none
  else if reg = apicLvtTimerReg then some 0x710ff
  else if reg = apicLvtThermalReg then some 0x117ff
  else if reg = apicLvtPerfmonReg then some 0x117ff
  else if reg = apicLvtLint0Reg then some 0x1f7ff
  else if reg = apicLvtLint1Reg then some 0x1f7ff
  else if reg = apicLvtErrorReg then some 0x110ff
  else if reg = apicInitialCountReg then some 0xffffffff
  else if reg = apicDivConfigReg then some 0xb
  else none

/-- The registers that can be read. -/
def readable (f : Features) (reg : ℕ) : Bool :=
  reg ≠ apicEoiReg ∧ ((writable f reg).isSome ∨ reg = apicCurrCountReg ∨ reg = apicVersionReg)

/-! ### The hardware -/

structure Lapic where
  /-- `MSR_APIC_BASE_EXTD` -/
  extd : Bool
  reg : ℕ → BitVec 32
  /-- The time stamp that the timer waits for. -/
  deadline : Option (BitVec 64)
  irr : Finset ℕ
  isr : Finset ℕ

namespace Lapic

/-- The software enable bit. -/
def enabled (l : Lapic) : Bool := (l.reg apicSvrReg).getLsbD 8

/-- The timer is in TSC-deadline mode. -/
def deadlineMode (lvt : BitVec 32) : Bool := lvt.extractLsb' 17 2 = 2

/-- A value arrives in a register. -/
def store (l : Lapic) (reg : ℕ) (val : BitVec 32) : Lapic :=
  if reg = apicEoiReg then { l with isr := l.isr.erase (l.isr.sup id) }
  else if reg = apicSvrReg then
    { l with reg := fun r =>
        if r = reg then val
        else if isLvt r && !val.getLsbD 8 then l.reg r ||| 0x10000
        else l.reg r }
  else if isLvt reg then
    { l with
      reg := Function.update l.reg reg (if l.enabled then val else val ||| 0x10000)
      deadline := if reg = apicLvtTimerReg ∧ deadlineMode val = false then none else l.deadline }
  else if reg = apicInitialCountReg then
    { l with reg := Function.update (Function.update l.reg reg val) apicCurrCountReg val }
  else { l with reg := Function.update l.reg reg val }

/-- `WRMSR` to the MSRs of the x2APIC.  `none`: a general protection exception. -/
def wrmsr (f : Features) (l : Lapic) (msr : ℕ) (val : BitVec 64) : Option Lapic :=
  if l.extd = true ∧ apicMsrBase ≤ msr then
    match writable f ((msr - apicMsrBase) * 16) with
    | some bits =>
        if val &&& ~~~ (bits.setWidth 64) = 0 then some (l.store ((msr - apicMsrBase) * 16) (val.setWidth 32)) else none
    | none => none
  else none

/-- The reserved bits of the ICR in x2APIC mode; the delivery status is one of them. -/
def icrReserved (val : BitVec 64) : Bool :=
  val.extractLsb' 12 2 ≠ 0 || val.extractLsb' 16 2 ≠ 0 || val.extractLsb' 20 12 ≠ 0

/-- `WRMSR` to the ICR of the x2APIC, as the value in the ICR. -/
def wrmsrIcr (l : Lapic) (val : BitVec 64) : Option (BitVec 64) :=
  if l.extd = true ∧ icrReserved val = false then some val else none

/-- `RDMSR` from the MSRs of the x2APIC. -/
def rdmsr (f : Features) (l : Lapic) (msr : ℕ) : Option (BitVec 64) :=
  if l.extd = true ∧ apicMsrBase ≤ msr ∧ readable f ((msr - apicMsrBase) * 16) = true then
    some ((l.reg ((msr - apicMsrBase) * 16)).setWidth 64)
  else none

/-- A store to the page of the xAPIC, which is not there in x2APIC mode. -/
def mmioWrite (f : Features) (l : Lapic) (a : ℕ) (val : BitVec 32) : Lapic :=
  if l.extd = false ∧ apicMemBase ≤ a then
    match writable f (a - apicMemBase) with
    | some bits => l.store (a - apicMemBase) (val &&& bits)
    | none =>
        if a - apicMemBase = xapicIcrRegW2 then
          { l with reg := Function.update l.reg xapicIcrRegW2 (val &&& 0xff000000) }
        else l
  else l

/-- A load from the page of the xAPIC. -/
def mmioRead (l : Lapic) (a : ℕ) : BitVec 32 :=
  if l.extd = false ∧ apicMemBase ≤ a then l.reg (a - apicMemBase) else ~~~ 0

/-- `WRMSR` to `MSR_APIC_TSC_DEADLINE`, which only counts in TSC-deadline mode. -/
def wrmsrTscDeadline (l : Lapic) (val : BitVec 64) : Lapic :=
  if deadlineMode (l.reg apicLvtTimerReg) then { l with deadline := if val = 0 then none else some val } else l

/-- The timer counts down; its entry is masked meanwhile. -/
def count (l : Lapic) (ticks : ℕ) : Lapic :=
  { l with reg := Function.update l.reg apicCurrCountReg (BitVec.ofNat 32 ((l.reg apicCurrCountReg).toNat - ticks)) }

/-- The APIC gets an interrupt with fixed delivery. -/
def accept (l : Lapic) (v : ℕ) : Lapic := if l.enabled then { l with irr := insert v l.irr } else l

/-- The deadline is reached. -/
def expire (l : Lapic) : Lapic :=
  let lvt := l.reg apicLvtTimerReg
  let l := { l with deadline := none }
  if lvt.getLsbD 16 then l else l.accept (lvt.extractLsb' 0 8).toNat

/-- The CPU takes the interrupt. -/
def take (l : Lapic) (v : ℕ) : Lapic := { l with irr := l.irr.erase v, isr := insert v l.isr }

/-- The interrupt that goes to the CPU, above the priorities of the running handlers and the task. -/
def Next (l : Lapic) (v : ℕ) : Prop :=
  v ∈ l.irr ∧ (∀ w ∈ l.irr, w ≤ v) ∧ l.isr.sup id / 16 < v / 16 ∧ (l.reg apicTprReg).toNat / 16 < v / 16

/-- The APIC takes the level of `LINT0` for an interrupt of the PIC. -/
def extint (l : Lapic) : Bool :=
  let lvt := l.reg apicLvtLint0Reg
  lvt.extractLsb' 8 3 = 7 && !lvt.getLsbD 16

end Lapic

/-- An interprocessor interrupt with fixed delivery, a physical destination and no shorthand, at the APIC
with this id. -/
def Reaches (extd : Bool) (icr : BitVec 64) (id : Lapicid) : Bool :=
  icr.extractLsb' 8 4 = 0 && icr.extractLsb' 18 2 = 0 &&
    if extd then
      icr.extractLsb' 32 32 = id.toBitVec || icr.extractLsb' 32 32 = ~~~ 0
    else
      icr.extractLsb' 56 8 = id.toBitVec.extractLsb' 0 8 || icr.extractLsb' 56 8 = ~~~ 0

/-! ### The driver -/

section Driver

variable (f : Features) (l : Lapic)

/-- `apic_write` -/
def apicWrite (reg : ℕ) (val : BitVec 32) : Option Lapic :=
  if l.extd then l.wrmsr f (apicMsrBase + reg / 16) (val.setWidth 64)
  else some (l.mmioWrite f (apicMemBase + reg) val)

/-- `apic_read` -/
def apicRead (reg : ℕ) : Option (BitVec 64) :=
  if l.extd then l.rdmsr f (apicMsrBase + reg / 16)
  else some ((l.mmioRead (apicMemBase + reg)).setWidth 64)

def apicLvtResetVal : BitVec 32 := 0x00010000
def apicSvrResetVal : BitVec 32 := 0xFF
def irqApicTimerVector : BitVec 32 := 0x30

/-- `__mask_lvt_entry` -/
def maskEntry (entry : BitVec 32) : BitVec 32 := entry ||| 1#32 <<< 16

/-- `__unmask_lvt_entry` -/
def unmaskEntry (entry : BitVec 32) : BitVec 32 := entry &&& ~~~ (1#32 <<< 16)

/-- `__set_lvt_vector` -/
def setVector (entry vector : BitVec 32) : BitVec 32 := entry &&& ~~~ 0xFF ||| vector

/-- `SET_VAL_OFFSET` -/
def setValOffset (orig val : BitVec 64) (nrBits offset : ℕ) : BitVec 64 :=
  orig &&& ~~~ ((BitVec.allOnes 64 >>> (64 - nrBits)) <<< offset) ||| val <<< offset

/-- `mask_lvt_entry` -/
def maskLvtEntry (reg : ℕ) : Option Lapic := do
  let lvtEntry ← apicRead f l reg
  apicWrite f l reg (maskEntry (lvtEntry.setWidth 32))

/-- `unmask_lvt_entry` -/
def unmaskLvtEntry (reg : ℕ) : Option Lapic := do
  let lvtEntry ← apicRead f l reg
  apicWrite f l reg (unmaskEntry (lvtEntry.setWidth 32))

/-- `enum apic_timer_type` -/
inductive ApicTimerType
  | oneshot | periodic | tscDeadline
deriving DecidableEq

def ApicTimerType.val : ApicTimerType → BitVec 32
  | .oneshot => 0
  | .periodic => 1
  | .tscDeadline => 2

/-- `configure_timer_lvt` -/
def configureTimerLvt (timerType : ApicTimerType) : Option Lapic := do
  let lvtEntry ← apicRead f l apicLvtTimerReg
  let lvtEntry := setVector (lvtEntry.setWidth 32) irqApicTimerVector
  let lvtEntry := lvtEntry &&& ~~~ (3#32 <<< 17)
  let lvtEntry := lvtEntry ||| timerType.val <<< 17
  apicWrite f l apicLvtTimerReg (unmaskEntry lvtEntry)

/-- `APIC_FREQ_DIV_1` -/
def apicFreqDiv1 : ℕ := 7

/-- `set_divide_config_register` -/
def setDivideConfigRegister (freqDiv : ℕ) : Option Lapic :=
  apicWrite f l apicDivConfigReg (BitVec.ofNat 32 (if 4 ≤ freqDiv then freqDiv + 4 else freqDiv))

/-- `determine_apic_timer_frequency`, with the ticks during the sleep, and the frequency. -/
def determineApicTimerFrequency (elapsed : ℕ) : Option (Lapic × BitVec 64) := do
  let l ← configureTimerLvt f l .oneshot
  let l ← maskLvtEntry f l apicLvtTimerReg
  let l ← setDivideConfigRegister f l apicFreqDiv1
  let l ← apicWrite f l apicInitialCountReg (~~~ 0)
  let l := l.count elapsed
  let currCount ← apicRead f l apicCurrCountReg
  let l ← apicWrite f l apicInitialCountReg 0
  let delta := 0xFFFFFFFF - (currCount.setWidth 32).setWidth 64
  let l ← apicWrite f l apicLvtTimerReg apicLvtResetVal
  return (l, delta * 10)

/-- The entry that `reset_lvt_entries` resets when it exists. -/
def resetCmciEntry : Option Lapic :=
  if existsCmciLvtEntry f then apicWrite f l apicLvtCmciReg apicLvtResetVal else some l

/-- `reset_lvt_entries` -/
def resetLvtEntries : Option Lapic := do
  let l ← resetCmciEntry f l
  let l ← apicWrite f l apicLvtTimerReg apicLvtResetVal
  let l ← apicWrite f l apicLvtThermalReg apicLvtResetVal
  let l ← apicWrite f l apicLvtPerfmonReg apicLvtResetVal
  let l ← apicWrite f l apicLvtLint0Reg apicLvtResetVal
  let l ← apicWrite f l apicLvtLint1Reg apicLvtResetVal
  apicWrite f l apicLvtErrorReg apicLvtResetVal

/-- `reset_lapic_state` -/
def resetLapicState : Option Lapic := do
  let l ← apicWrite f l apicSvrReg apicSvrResetVal
  resetLvtEntries f l

/-- `set_task_priority_class`, through `CR8`. -/
def setTaskPriorityClass (prio : ℕ) : Lapic :=
  { l with reg := Function.update l.reg apicTprReg (BitVec.ofNat 32 (prio * 16)) }

/-- `sw_enable_lapic` -/
def swEnableLapic : Option Lapic := do
  let svr ← apicRead f l apicSvrReg
  if svr.getLsbD 8 then return l
  apicWrite f l apicSvrReg (svr.setWidth 32 ||| 1#32 <<< 8)

/-- `try_enable_x2apic_mode` -/
def tryEnableX2apicMode : Lapic × Bool :=
  if x2apicMode f then ({ l with extd := true }, true) else (l, false)

/-- `enum apic_error` -/
inductive ApicError
  | notPresent | error
deriving DecidableEq

/-- The part that `setup_bsp_apic` and `setup_ap_apic` share. -/
def setupLapic (elapsed : ℕ) : Option (Lapic × BitVec 64) := do
  let l ← resetLapicState f l
  let l := setTaskPriorityClass l 1
  let l ← swEnableLapic f l
  determineApicTimerFrequency f l elapsed

/-- `setup_bsp_apic`; `mapped`: `directly_map_apic_page` succeeds. -/
def setupBspApic (mapped : Bool) (elapsed : ℕ) : Option (Except ApicError (Lapic × BitVec 64)) :=
  if !isLapicPresent f then some (.error .notPresent)
  else
    let (l, x2apic) := tryEnableX2apicMode f l
    if !x2apic && !mapped then some (.error .error)
    else (setupLapic f l elapsed).map .ok

/-- `setup_ap_apic` -/
def setupApApic (elapsed : ℕ) : Option (Except ApicError (Lapic × BitVec 64)) :=
  if !isLapicPresent f then some (.error .notPresent)
  else (setupLapic f (tryEnableX2apicMode f l).1 elapsed).map .ok

/-- `apic_program_tsc_deadline_timer`, with `tsc_deadline_timer_configured`. -/
def apicProgramTscDeadlineTimer (configured : Bool) (tscDeadline : BitVec 64) : Option (Lapic × Bool) := do
  let l ← if configured then some l else configureTimerLvt f l .tscDeadline
  return (l.wrmsrTscDeadline tscDeadline, true)

/-- `bsp_apic_enable_legacy_irqs` -/
def bspApicEnableLegacyIrqs (bsp : Bool) : Option Lapic :=
  if !bsp then some l else unmaskLvtEntry f l apicLvtLint0Reg

/-- `bsp_apic_enable_legacy_irq_support` -/
def bspApicEnableLegacyIrqSupport (bsp : Bool) : Option Lapic :=
  if !bsp then some l
  else do
    let lvtLint0 ← apicRead f l apicLvtLint0Reg
    let lvtLint0 := setValOffset lvtLint0 7 3 8
    let lvtLint0 := setValOffset lvtLint0 1 1 15
    let lvtLint0 := lvtLint0 ||| 1#64 <<< 16
    apicWrite f l apicLvtLint0Reg (lvtLint0.setWidth 32)

/-- `apic_signal_eoi` -/
def apicSignalEoi : Option Lapic := apicWrite f l apicEoiReg 0

/-- `apic_icr_t` -/
structure ApicIcr where
  vector : BitVec 8
  deliveryMode : BitVec 3
  destinationMode : BitVec 1
  deliveryStatus : BitVec 1
  reserved0 : BitVec 1
  level : BitVec 1
  triggerMode : BitVec 1
  reserved1 : BitVec 2
  destinationShort : BitVec 2
  reserved2 : BitVec 12
  destination : BitVec 32

def ApicIcr.raw (icr : ApicIcr) : ℕ :=
  icr.vector.toNat + 2 ^ 8 * (icr.deliveryMode.toNat + 2 ^ 3 * (icr.destinationMode.toNat + 2 * (
    icr.deliveryStatus.toNat + 2 * (icr.reserved0.toNat + 2 * (icr.level.toNat + 2 * (icr.triggerMode.toNat +
      2 * (icr.reserved1.toNat + 2 ^ 2 * (icr.destinationShort.toNat + 2 ^ 2 * (icr.reserved2.toNat +
        2 ^ 12 * icr.destination.toNat)))))))))

/-- The value that `apic_send_targeted_ipi` writes to the ICR. -/
def ipiIcr (extd : Bool) (targetLapic : Lapicid) (vector : BitVec 8) : BitVec 64 :=
  BitVec.ofNat 64 (ApicIcr.raw ⟨vector, 0, 0, 0, 0, 1, 0, 0, 0, 0,
    if extd then targetLapic.toBitVec else targetLapic.toBitVec <<< 24⟩)

/-- `apic_write_icr` up to the store that sends: in xAPIC mode the upper half goes first. -/
def apicWriteIcrUpper (val : BitVec 64) : Lapic :=
  if l.extd then l else l.mmioWrite f (apicMemBase + xapicIcrRegW2) (val.extractLsb' 32 32)

/-- The last store of `apic_write_icr`, as the value in the ICR. -/
def apicWriteIcrLower (val : BitVec 64) : Option (BitVec 64) :=
  if l.extd then l.wrmsrIcr val else some (l.reg xapicIcrRegW2 ++ val.extractLsb' 0 32)

/-- `apic_send_targeted_ipi` up to the store that sends, with the value that is left to write.  Inside the
second `Option`, `none`: the CPU has no APIC. -/
def apicSendTargetedIpi (t : IdTables) (target : Cpuid) (vector : BitVec 8) : Option (Option (Lapic × BitVec 64)) :=
  (cpuidToLapicId t target).map fun targetLapic =>
    if targetLapic = invalidLapicId then none
    else
      let icr := ipiIcr l.extd targetLapic vector
      some (apicWriteIcrUpper f l icr, icr)

end Driver

/-! ### Either interface -/

section Interface

variable {f : Features} {l : Lapic} {reg : ℕ} {val bits : BitVec 32}

theorem and_of_and_not {w : ℕ} {x y : BitVec w} (h : x &&& ~~~ y = 0) : x &&& y = x := by
  ext i hi
  have hbit := congrArg (·.getLsbD i) h
  simp only [BitVec.getLsbD_and, BitVec.getLsbD_not, hi, decide_true, Bool.true_and, BitVec.ofNat_eq_ofNat,
    BitVec.getLsbD_zero] at hbit
  rw [BitVec.getElem_and, ← BitVec.getLsbD_eq_getElem, ← BitVec.getLsbD_eq_getElem]
  cases hx : x.getLsbD i <;> cases hy : y.getLsbD i <;> simp_all

/-- Bits that are not reserved are not reserved in the wide register. -/
theorem setWidth_and_not (h : val &&& ~~~ bits = 0) : val.setWidth 64 &&& ~~~ (bits.setWidth 64) = 0 := by
  rw [← and_of_and_not h, BitVec.setWidth_and, BitVec.and_assoc]
  simp

/-- A write arrives in the register, in both modes, unless it touches a reserved bit. -/
theorem apicWrite_eq (hreg : reg % 16 = 0) (hw : writable f reg = some bits) (hval : val &&& ~~~ bits = 0) :
    apicWrite f l reg val = some (l.store reg val) := by
  have hmsr : (apicMsrBase + reg / 16 - apicMsrBase) * 16 = reg := by omega
  have hmem : apicMemBase + reg - apicMemBase = reg := Nat.add_sub_cancel_left ..
  unfold apicWrite
  cases hx : l.extd with
  | false =>
      have hwrite : l.mmioWrite f (apicMemBase + reg) val = l.store reg val := by
        simp only [Lapic.mmioWrite, hx, hmem, hw, and_of_and_not hval, Nat.le_add_right, and_true, if_true]
      simp [hwrite]
  | true =>
      simp only [Lapic.wrmsr, hx, hmsr, hw, setWidth_and_not hval, Nat.le_add_right, and_true, if_true]
      simp

theorem apicRead_eq (hreg : reg % 16 = 0) (hr : readable f reg = true) :
    apicRead f l reg = some ((l.reg reg).setWidth 64) := by
  have hmsr : (apicMsrBase + reg / 16 - apicMsrBase) * 16 = reg := by omega
  have hmem : apicMemBase + reg - apicMemBase = reg := Nat.add_sub_cancel_left ..
  unfold apicRead
  cases hx : l.extd with
  | false => simp [Lapic.mmioRead, hx, hmem]
  | true => simp only [Lapic.rdmsr, hx, hmsr, hr, Nat.le_add_right, and_self, if_true]

end Interface

/-! ### Setup -/

section Setup

variable {f : Features} {l : Lapic} {reg r : ℕ} {val : BitVec 32}

@[simp] theorem store_extd : (l.store reg val).extd = l.extd := by
  unfold Lapic.store
  split_ifs <;> rfl

@[simp] theorem store_irr : (l.store reg val).irr = l.irr := by
  unfold Lapic.store
  split_ifs <;> rfl

theorem store_isr (h : reg ≠ apicEoiReg) : (l.store reg val).isr = l.isr := by
  unfold Lapic.store
  split_ifs <;> first | contradiction | rfl

theorem store_reg_of_ne (hr : r ≠ reg) (hsvr : reg ≠ apicSvrReg)
    (hcurr : reg = apicInitialCountReg → r ≠ apicCurrCountReg) :
    (l.store reg val).reg r = l.reg r := by
  unfold Lapic.store
  split
  · rfl
  split
  · exact Function.update_of_ne hr ..
  split
  · rename_i hinit
    exact (Function.update_of_ne (hcurr hinit) ..).trans (Function.update_of_ne hr ..)
  · exact Function.update_of_ne hr ..

theorem store_lvt (h : isLvt reg = true) (hval : l.enabled = true ∨ val ||| 0x10000 = val) :
    l.store reg val = { l with
      reg := Function.update l.reg reg val
      deadline := if reg = apicLvtTimerReg ∧ Lapic.deadlineMode val = false then none else l.deadline } := by
  have heoi : reg ≠ apicEoiReg := by rintro rfl; cases h
  have hsvr : reg ≠ apicSvrReg := by rintro rfl; cases h
  rw [Lapic.store, if_neg heoi, if_neg hsvr, if_pos h]
  rcases hval with hval | hval
  · rw [if_pos hval]
  · rw [hval, ite_self]

/-- The local vector table after a reset. -/
def Masked (f : Features) (l : Lapic) : Prop :=
  ∀ r, isLvt r = true → (r = apicLvtCmciReg → existsCmciLvtEntry f = true) → l.reg r = apicLvtResetVal

theorem reset_lvt {bits : BitVec 32} (hreg : reg % 16 = 0) (hw : writable f reg = some bits)
    (hval : apicLvtResetVal &&& ~~~ bits = 0) (h : isLvt reg = true) :
    apicWrite f l reg apicLvtResetVal = some { l with
      reg := Function.update l.reg reg apicLvtResetVal
      deadline := if reg = apicLvtTimerReg then none else l.deadline } := by
  have hmode : Lapic.deadlineMode apicLvtResetVal = false := by decide
  rw [apicWrite_eq hreg hw hval, store_lvt h (.inr (by decide))]
  simp only [hmode, and_true]

theorem isLvt_iff : isLvt r = true ↔ r = apicLvtCmciReg ∨ r = apicLvtTimerReg ∨ r = apicLvtThermalReg ∨
    r = apicLvtPerfmonReg ∨ r = apicLvtLint0Reg ∨ r = apicLvtLint1Reg ∨ r = apicLvtErrorReg := by
  simp [isLvt]

theorem resetCmciEntry_spec : ∃ l₁, resetCmciEntry f l = some l₁ ∧
    (existsCmciLvtEntry f = true → l₁.reg apicLvtCmciReg = apicLvtResetVal) ∧ l₁.extd = l.extd ∧
    l₁.irr = l.irr ∧ l₁.isr = l.isr ∧ ∀ r, isLvt r = false → l₁.reg r = l.reg r := by
  unfold resetCmciEntry
  cases he : existsCmciLvtEntry f with
  | false => exact ⟨l, rfl, nofun, rfl, rfl, rfl, fun _ _ => rfl⟩
  | true =>
      have hw : writable f apicLvtCmciReg = some 0x117ff := by
        simp [writable, he, apicLvtCmciReg, apicEoiReg, apicSvrReg]
      refine ⟨_, reset_lvt rfl hw (by decide) rfl, fun _ => rfl, rfl, rfl, rfl, fun r hr => ?_⟩
      exact Function.update_of_ne (by rintro rfl; cases hr) ..

theorem resetLvtEntries_spec : ∃ l', resetLvtEntries f l = some l' ∧ Masked f l' ∧ l'.extd = l.extd ∧
    l'.irr = l.irr ∧ l'.isr = l.isr ∧ l'.deadline = none ∧ ∀ r, isLvt r = false → l'.reg r = l.reg r := by
  obtain ⟨l₁, h1, hreg, hextd, hirr, hisr, hother⟩ := resetCmciEntry_spec (f := f) (l := l)
  rw [resetLvtEntries, h1]
  simp only [Option.bind_eq_bind, Option.bind_some]
  rw [reset_lvt rfl rfl (by decide) rfl, Option.bind_some, reset_lvt rfl rfl (by decide) rfl, Option.bind_some,
    reset_lvt rfl rfl (by decide) rfl, Option.bind_some, reset_lvt rfl rfl (by decide) rfl, Option.bind_some,
    reset_lvt rfl rfl (by decide) rfl, Option.bind_some, reset_lvt rfl rfl (by decide) rfl]
  refine ⟨_, rfl, fun r hr hc => ?_, hextd, hirr, hisr, rfl, fun r hr => ?_⟩
  · rcases isLvt_iff.mp hr with rfl | rfl | rfl | rfl | rfl | rfl | rfl
    · exact hreg (hc rfl)
    all_goals rfl
  · have hne : ∀ r', isLvt r' = true → r ≠ r' := by
      rintro _ h rfl
      rw [hr] at h
      cases h
    rw [← hother r hr]
    simp only [Function.update_of_ne (hne _ (show isLvt apicLvtTimerReg = true from rfl)),
      Function.update_of_ne (hne _ (show isLvt apicLvtThermalReg = true from rfl)),
      Function.update_of_ne (hne _ (show isLvt apicLvtPerfmonReg = true from rfl)),
      Function.update_of_ne (hne _ (show isLvt apicLvtLint0Reg = true from rfl)),
      Function.update_of_ne (hne _ (show isLvt apicLvtLint1Reg = true from rfl)),
      Function.update_of_ne (hne _ (show isLvt apicLvtErrorReg = true from rfl))]

/-- Registers that no step of the setup but the named ones touch. -/
def Kept (l l' : Lapic) : Prop := l'.extd = l.extd ∧ l'.irr = l.irr ∧ l'.isr = l.isr

theorem resetLapicState_spec : ∃ l', resetLapicState f l = some l' ∧ Masked f l' ∧
    l'.reg apicSvrReg = apicSvrResetVal ∧ l'.deadline = none ∧ Kept l l' := by
  have hw : apicWrite f l apicSvrReg apicSvrResetVal = some (l.store apicSvrReg apicSvrResetVal) :=
    apicWrite_eq rfl rfl (by decide)
  obtain ⟨l', h, hmasked, hextd, hirr, hisr, hdeadline, hother⟩ :=
    resetLvtEntries_spec (f := f) (l := l.store apicSvrReg apicSvrResetVal)
  rw [store_extd] at hextd
  rw [store_irr] at hirr
  rw [store_isr (by decide)] at hisr
  refine ⟨l', ?_, hmasked, ?_, hdeadline, hextd, hirr, hisr⟩
  · rw [resetLapicState, hw]
    exact h
  · rw [hother _ rfl]
    rfl

/-- Switching the APIC on leaves the other registers as they are. -/
theorem swEnableLapic_spec (hsvr : l.reg apicSvrReg = apicSvrResetVal) : ∃ l', swEnableLapic f l = some l' ∧
    l'.reg apicSvrReg = 0x1ff ∧ l'.deadline = l.deadline ∧ Kept l l' ∧
    ∀ r, r ≠ apicSvrReg → l'.reg r = l.reg r := by
  have hread : apicRead f l apicSvrReg = some (apicSvrResetVal.setWidth 64) := by
    rw [apicRead_eq rfl rfl, hsvr]
  have hw : apicWrite f l apicSvrReg 0x1ff = some (l.store apicSvrReg 0x1ff) := apicWrite_eq rfl rfl (by decide)
  have hrun : swEnableLapic f l = apicWrite f l apicSvrReg 0x1ff := by
    rw [swEnableLapic, hread]
    rfl
  refine ⟨_, hrun.trans hw, rfl, rfl, ⟨rfl, rfl, rfl⟩, fun r hr => ?_⟩
  simp [Lapic.store, hr, show apicSvrReg ≠ apicEoiReg by decide]

theorem configureTimerLvt_spec (t : ApicTimerType) {old : BitVec 32} (new : BitVec 32) (hen : l.enabled = true)
    (hold : l.reg apicLvtTimerReg = old)
    (hnew : unmaskEntry (setVector old irqApicTimerVector &&& ~~~ (3#32 <<< 17) ||| t.val <<< 17) = new)
    (hbits : new &&& ~~~ 0x710ff = 0) :
    configureTimerLvt f l t = some { l with
      reg := Function.update l.reg apicLvtTimerReg new
      deadline := if Lapic.deadlineMode new = false then none else l.deadline } := by
  have hread : apicRead f l apicLvtTimerReg = some (old.setWidth 64) := by rw [apicRead_eq rfl rfl, hold]
  have hw : apicWrite f l apicLvtTimerReg new = some (l.store apicLvtTimerReg new) := apicWrite_eq rfl rfl hbits
  have hold' : (old.setWidth 64).setWidth 32 = old := by simp
  simp only [configureTimerLvt, hread, Option.bind_eq_bind, Option.bind_some, hold', hnew]
  rw [hw, store_lvt rfl (.inl hen)]
  simp

theorem and_not_allOnes (v : BitVec 32) : v &&& ~~~ 0xffffffff = 0 := by
  have hzero : (~~~ 0xffffffff : BitVec 32) = 0 := by decide
  rw [hzero, BitVec.ofNat_eq_ofNat, BitVec.and_zero]

theorem enabled_of_svr (h : l.reg apicSvrReg = 0x1ff) : l.enabled = true := by
  rw [Lapic.enabled, h]
  decide

theorem delta_toNat {elapsed : ℕ} :
    (0xFFFFFFFF - ((((BitVec.ofNat 32 ((~~~ (0 : BitVec 32)).toNat - elapsed)).setWidth 64).setWidth 32).setWidth 64) :
      BitVec 64) = BitVec.ofNat 64 (min elapsed (2 ^ 32 - 1)) := by
  have hones : (~~~ (0 : BitVec 32)).toNat = 2 ^ 32 - 1 := by decide
  refine BitVec.eq_of_toNat_eq ?_
  rw [hones, BitVec.toNat_sub, BitVec.toNat_ofNat, BitVec.toNat_setWidth, BitVec.toNat_setWidth, BitVec.toNat_setWidth,
    BitVec.toNat_ofNat]
  have hbig : (0xFFFFFFFF : BitVec 64).toNat = 2 ^ 32 - 1 := by decide
  rw [hbig]
  omega

theorem determineApicTimerFrequency_spec (elapsed : ℕ) (hsvr : l.reg apicSvrReg = 0x1ff)
    (htimer : l.reg apicLvtTimerReg = apicLvtResetVal) :
    ∃ l', determineApicTimerFrequency f l elapsed = some (l', BitVec.ofNat 64 (min elapsed (2 ^ 32 - 1)) * 10) ∧
      l'.reg apicLvtTimerReg = apicLvtResetVal ∧ l'.deadline = none ∧ Kept l l' ∧
      ∀ r, r ≠ apicLvtTimerReg → r ≠ apicInitialCountReg → r ≠ apicCurrCountReg → r ≠ apicDivConfigReg →
        l'.reg r = l.reg r := by
  have h1 := configureTimerLvt_spec (f := f) .oneshot 0x30 (enabled_of_svr hsvr) htimer (by decide) (by decide)
  have hmode : Lapic.deadlineMode 0x30 = false := by decide
  rw [if_pos hmode] at h1
  generalize hl1 : ({ l with reg := Function.update l.reg apicLvtTimerReg 0x30, deadline := none } : Lapic) = l1 at h1
  have h2 : maskLvtEntry f l1 apicLvtTimerReg = some (l1.store apicLvtTimerReg 0x10030) := by
    have hread : apicRead f l1 apicLvtTimerReg = some ((0x30 : BitVec 32).setWidth 64) := by
      rw [apicRead_eq rfl rfl, ← hl1]
      rfl
    rw [maskLvtEntry, hread]
    exact apicWrite_eq rfl rfl (by decide)
  have h3 : ∀ l', setDivideConfigRegister f l' apicFreqDiv1 = some (l'.store apicDivConfigReg 0xb) :=
    fun l' => apicWrite_eq rfl rfl (by decide)
  have h4 : ∀ l' v, apicWrite f l' apicInitialCountReg v = some (l'.store apicInitialCountReg v) :=
    fun l' v => apicWrite_eq rfl rfl (and_not_allOnes v)
  have h5 : ∀ l', apicRead f l' apicCurrCountReg = some ((l'.reg apicCurrCountReg).setWidth 64) :=
    fun l' => apicRead_eq rfl rfl
  have h6 : ∀ l', apicWrite f l' apicLvtTimerReg apicLvtResetVal = _ := fun l' => reset_lvt rfl rfl (by decide) rfl
  have hcurr : ∀ l' : Lapic, ((l'.store apicInitialCountReg (~~~ 0)).count elapsed).reg apicCurrCountReg =
      BitVec.ofNat 32 ((~~~ (0 : BitVec 32)).toNat - elapsed) := fun _ => rfl
  simp only [determineApicTimerFrequency, h1, h2, h3, h4, h5, h6, Option.bind_eq_bind, Option.bind_some, pure, hcurr,
    delta_toNat]
  refine ⟨_, rfl, rfl, rfl, ⟨?_, ?_, ?_⟩, fun r ht hi hc hd => ?_⟩
  · rw [← hl1]
    rfl
  · rw [← hl1]
    rfl
  · rw [← hl1]
    rfl
  · refine (Function.update_of_ne ht ..).trans ?_
    rw [store_reg_of_ne hi (by decide) fun _ => hc]
    refine (Function.update_of_ne hc ..).trans ?_
    rw [store_reg_of_ne hi (by decide) fun _ => hc, store_reg_of_ne hd (by decide) fun h => absurd h (by decide),
      store_reg_of_ne ht (by decide) fun h => absurd h (by decide), ← hl1]
    exact Function.update_of_ne ht ..

/-- `LINT0` after `bsp_apic_enable_legacy_irq_support` (the first) and `bsp_apic_enable_legacy_irqs` (the second). -/
def lint0Val : Bool × Bool → BitVec 32
  | (false, false) => apicLvtResetVal
  | (true, false) => 0x18700
  | (false, true) => 0
  | (true, true) => 0x8700

/-- The registers of a CPU that is set up. -/
structure Up (f : Features) (l : Lapic) (configured : Bool) (lint0 : Bool × Bool) : Prop where
  svr : l.reg apicSvrReg = 0x1ff
  timer : l.reg apicLvtTimerReg = if configured then 0x40030 else apicLvtResetVal
  lint0 : l.reg apicLvtLint0Reg = lint0Val lint0
  others : ∀ r, isLvt r = true → r ≠ apicLvtTimerReg → r ≠ apicLvtLint0Reg →
    (r = apicLvtCmciReg → existsCmciLvtEntry f = true) → l.reg r = apicLvtResetVal
  tpr : l.reg apicTprReg = 0x10

theorem Up.of_reg {configured : Bool} {lint0 : Bool × Bool} {l' : Lapic} (h : Up f l configured lint0)
    (hreg : l'.reg = l.reg) : Up f l' configured lint0 := by
  obtain ⟨hsvr, htimer, hlint0, hothers, htpr⟩ := h
  rw [← hreg] at hsvr htimer hlint0 htpr
  refine ⟨hsvr, htimer, hlint0, ?_, htpr⟩
  rw [hreg]
  exact hothers

theorem setupLapic_spec (elapsed : ℕ) : ∃ l',
    setupLapic f l elapsed = some (l', BitVec.ofNat 64 (min elapsed (2 ^ 32 - 1)) * 10) ∧
      Up f l' false (false, false) ∧ l'.deadline = none ∧ Kept l l' := by
  obtain ⟨l1, h1, hmasked, hsvr1, -, hk1⟩ := resetLapicState_spec (f := f) (l := l)
  have htpr : ∀ r, r ≠ apicTprReg → (setTaskPriorityClass l1 1).reg r = l1.reg r := fun r hr =>
    Function.update_of_ne hr ..
  obtain ⟨l2, h2, hsvr2, -, hk2, hother2⟩ :=
    swEnableLapic_spec (f := f) (l := setTaskPriorityClass l1 1) ((htpr _ (by decide)).trans hsvr1)
  have hlvt : ∀ r, isLvt r = true → l2.reg r = l1.reg r := fun r hr => by
    rw [hother2 r (by rintro rfl; cases hr), htpr r (by rintro rfl; cases hr)]
  obtain ⟨l3, h3, htimer, hdeadline, hk3, hother3⟩ := determineApicTimerFrequency_spec (f := f) elapsed hsvr2
    ((hlvt _ rfl).trans (hmasked _ rfl fun h => absurd h (by decide)))
  have hkeep : ∀ r, isLvt r = true → r ≠ apicLvtTimerReg → l3.reg r = l1.reg r := fun r hr ht => by
    rw [hother3 r ht (by rintro rfl; cases hr) (by rintro rfl; cases hr) (by rintro rfl; cases hr), hlvt r hr]
  refine ⟨l3, ?_, ⟨?_, htimer, ?_, fun r hr ht _ hc => ?_, ?_⟩, hdeadline, ?_⟩
  · simp only [setupLapic, h1, h2, Option.bind_eq_bind, Option.bind_some]
    exact h3
  · rw [hother3 _ (by decide) (by decide) (by decide) (by decide), hsvr2]
  · rw [hkeep _ rfl (by decide), hmasked _ rfl fun h => absurd h (by decide)]
    rfl
  · rw [hkeep r hr ht, hmasked r hr hc]
  · rw [hother3 _ (by decide) (by decide) (by decide) (by decide), hother2 _ (by decide)]
    rfl
  · obtain ⟨a1, b1, c1⟩ := hk1
    obtain ⟨a2, b2, c2⟩ := hk2
    obtain ⟨a3, b3, c3⟩ := hk3
    exact ⟨a3.trans (a2.trans a1), b3.trans (b2.trans b1), c3.trans (c2.trans c1)⟩

/-- A call that leaves the interrupts and the upper half of the ICR alone. -/
def Undisturbed (l l' : Lapic) : Prop := Kept l l' ∧ l'.reg xapicIcrRegW2 = l.reg xapicIcrRegW2

theorem Up.deadline {lint0 : Bool × Bool} (h : Up f l true lint0) (d : BitVec 64) :
    Up f (l.wrmsrTscDeadline d) true lint0 ∧ (l.wrmsrTscDeadline d).deadline = (if d = 0 then none else some d) ∧
      Undisturbed l (l.wrmsrTscDeadline d) := by
  have ht : Lapic.deadlineMode (l.reg apicLvtTimerReg) = true := by
    rw [h.timer]
    decide
  rw [Lapic.wrmsrTscDeadline, if_pos ht]
  exact ⟨h.of_reg rfl, rfl, ⟨rfl, rfl, rfl⟩, rfl⟩

theorem Up.program {configured : Bool} {lint0 : Bool × Bool} (h : Up f l configured lint0) (d : BitVec 64) :
    ∃ l', apicProgramTscDeadlineTimer f l configured d = some (l', true) ∧ Up f l' true lint0 ∧
      l'.deadline = (if d = 0 then none else some d) ∧ Undisturbed l l' := by
  cases configured with
  | true => exact ⟨_, rfl, h.deadline d⟩
  | false =>
      have hconf := configureTimerLvt_spec (f := f) .tscDeadline 0x40030 (enabled_of_svr h.svr) h.timer
        (by decide) (by decide)
      generalize hl' : ({ l with
        reg := Function.update l.reg apicLvtTimerReg 0x40030
        deadline := if Lapic.deadlineMode 0x40030 = false then none else l.deadline } : Lapic) = l' at hconf
      have hrun : apicProgramTscDeadlineTimer f l false d = some (l'.wrmsrTscDeadline d, true) := by
        simp only [apicProgramTscDeadlineTimer, hconf, Bool.false_eq_true, if_false, Option.bind_eq_bind,
          Option.bind_some, pure]
      have hup : Up f l' true lint0 := by
        rw [← hl']
        exact {
          svr := h.svr
          timer := rfl
          lint0 := h.lint0
          others := fun r hr ht h0 hc => (Function.update_of_ne ht ..).trans (h.others r hr ht h0 hc)
          tpr := h.tpr }
      obtain ⟨h1, h2, ⟨hextd, hirr, hisr⟩, hw2⟩ := hup.deadline d
      rw [← hl'] at hextd hirr hisr hw2
      exact ⟨_, hrun, h1, h2, ⟨hl' ▸ hextd, hl' ▸ hirr, hl' ▸ hisr⟩, hl' ▸ hw2⟩

theorem Up.writeLint0 {configured : Bool} {lint0 : Bool × Bool} (new : Bool × Bool) (h : Up f l configured lint0)
    (hval : lint0Val new &&& ~~~ 0x1f7ff = 0) : ∃ l', apicWrite f l apicLvtLint0Reg (lint0Val new) = some l' ∧
      Up f l' configured new ∧ l'.deadline = l.deadline ∧ Undisturbed l l' := by
  refine ⟨_, (apicWrite_eq rfl rfl hval).trans (congrArg some (store_lvt rfl (.inl (enabled_of_svr h.svr)))), ?_⟩
  refine ⟨⟨h.svr, h.timer, rfl, fun r hr ht h0 hc => ?_, h.tpr⟩, rfl, ⟨rfl, rfl, rfl⟩, rfl⟩
  exact (Function.update_of_ne h0 ..).trans (h.others r hr ht h0 hc)

theorem readLint0 {configured : Bool} {lint0 : Bool × Bool} (h : Up f l configured lint0) :
    apicRead f l apicLvtLint0Reg = some ((lint0Val lint0).setWidth 64) := by
  rw [apicRead_eq rfl rfl, h.lint0]

theorem Up.legacySupport {configured : Bool} {lint0 : Bool × Bool} (h : Up f l configured lint0) :
    ∃ l', bspApicEnableLegacyIrqSupport f l true = some l' ∧ Up f l' configured (true, false) ∧
      l'.deadline = l.deadline ∧ Undisturbed l l' := by
  obtain ⟨l', hw, h'⟩ := h.writeLint0 (true, false) (by decide)
  refine ⟨l', ?_, h'⟩
  rw [← hw, bspApicEnableLegacyIrqSupport, readLint0 h]
  obtain ⟨a, b⟩ := lint0
  cases a <;> cases b <;> rfl

theorem Up.enableLegacy {configured : Bool} {lint0 : Bool × Bool} (h : Up f l configured lint0) :
    ∃ l', bspApicEnableLegacyIrqs f l true = some l' ∧ Up f l' configured (lint0.1, true) ∧
      l'.deadline = l.deadline ∧ Undisturbed l l' := by
  obtain ⟨a, b⟩ := lint0
  obtain ⟨l', hw, h'⟩ := h.writeLint0 (a, true) (by cases a <;> decide)
  refine ⟨l', ?_, h'⟩
  rw [← hw, bspApicEnableLegacyIrqs, unmaskLvtEntry, readLint0 h]
  cases a <;> cases b <;> rfl

theorem Up.extint {configured : Bool} {lint0 : Bool × Bool} (h : Up f l configured lint0) :
    l.extint = (lint0.1 && lint0.2) := by
  rw [Lapic.extint, h.lint0]
  obtain ⟨a, b⟩ := lint0
  cases a <;> cases b <;> decide

theorem apicSignalEoi_eq : apicSignalEoi f l = some { l with isr := l.isr.erase (l.isr.sup id) } :=
  apicWrite_eq rfl rfl (by decide)

end Setup

/-! ### Interprocessor interrupts -/

section Ipi

variable {f : Features} {l : Lapic} {x y id : Lapicid} {v : BitVec 8} {extd : Bool}

theorem icr_sum (vector dest : ℕ) : vector + 2 ^ 8 * (0 + 2 ^ 3 * (0 + 2 * (0 + 2 * (0 + 2 * (1 + 2 * (0 +
    2 * (0 + 2 ^ 2 * (0 + 2 ^ 2 * (0 + 2 ^ 12 * dest))))))))) = vector + 2 ^ 14 + 2 ^ 32 * dest := by
  ring

/-- The field `destination`. -/
def destination (extd : Bool) (x : Lapicid) : BitVec 32 := if extd then x.toBitVec else x.toBitVec <<< 24

theorem ipiIcr_toNat : (ipiIcr extd x v).toNat = v.toNat + 2 ^ 14 + 2 ^ 32 * (destination extd x).toNat := by
  have hv := v.isLt
  have hd := (destination extd x).isLt
  have hraw : ipiIcr extd x v = BitVec.ofNat 64 (v.toNat + 2 ^ 14 + 2 ^ 32 * (destination extd x).toNat) :=
    congrArg (BitVec.ofNat 64) (icr_sum ..)
  rw [hraw, BitVec.toNat_ofNat, Nat.mod_eq_of_lt (by omega)]

theorem ipiIcr_vector : ((ipiIcr extd x v).extractLsb' 0 8).toNat = v.toNat := by
  have hv := v.isLt
  rw [BitVec.extractLsb'_toNat, ipiIcr_toNat, Nat.shiftRight_zero]
  omega

theorem ipiIcr_destination : (ipiIcr extd x v).extractLsb' 32 32 = destination extd x := by
  have hv := v.isLt
  have hd := (destination extd x).isLt
  refine BitVec.eq_of_toNat_eq ?_
  rw [BitVec.extractLsb'_toNat, ipiIcr_toNat, Nat.shiftRight_eq_div_pow]
  omega

theorem ipiIcr_mode : (ipiIcr extd x v).extractLsb' 8 4 = 0 ∧ (ipiIcr extd x v).extractLsb' 18 2 = 0 := by
  have hv := v.isLt
  constructor <;> refine BitVec.eq_of_toNat_eq ?_ <;>
    rw [BitVec.extractLsb'_toNat, ipiIcr_toNat, Nat.shiftRight_eq_div_pow] <;>
    simp only [BitVec.ofNat_eq_ofNat, BitVec.toNat_ofNat, Nat.zero_mod] <;> omega

theorem ipiIcr_reserved : Lapic.icrReserved (ipiIcr extd x v) = false := by
  have hv := v.isLt
  have hbits : (ipiIcr extd x v).extractLsb' 12 2 = 0 ∧ (ipiIcr extd x v).extractLsb' 16 2 = 0 ∧
      (ipiIcr extd x v).extractLsb' 20 12 = 0 := by
    refine ⟨?_, ?_, ?_⟩ <;> refine BitVec.eq_of_toNat_eq ?_ <;>
      rw [BitVec.extractLsb'_toNat, ipiIcr_toNat, Nat.shiftRight_eq_div_pow] <;>
      simp only [BitVec.ofNat_eq_ofNat, BitVec.toNat_ofNat, Nat.zero_mod] <;> omega
  simp only [Lapic.icrReserved, hbits, ne_eq, not_true_eq_false, decide_false, Bool.or_self]

theorem reaches_x2apic (hx : x ≠ invalidLapicId) : Reaches true (ipiIcr true x v) id = true ↔ id = x := by
  have hne : x.toBitVec ≠ ~~~ 0 := fun h => hx (UInt32.eq_of_toBitVec_eq h)
  simp only [Reaches, ipiIcr_mode, ipiIcr_destination, destination, if_true, decide_true, Bool.true_and,
    Bool.or_eq_true, decide_eq_true_eq]
  rw [or_iff_left hne, UInt32.toBitVec_inj, eq_comm]

theorem reaches_xapic (hx : x.toNat < 255) (hid : id.toNat < 255) :
    Reaches false (ipiIcr false x v) id = true ↔ id = x := by
  have hdest : ((ipiIcr false x v).extractLsb' 56 8).toNat = x.toNat := by
    have hv := v.isLt
    have hshift : (destination false x).toNat = 2 ^ 24 * x.toNat := by
      simp only [destination, Bool.false_eq_true, if_false, BitVec.toNat_shiftLeft, UInt32.toNat_toBitVec,
        Nat.shiftLeft_eq]
      omega
    rw [BitVec.extractLsb'_toNat, ipiIcr_toNat, hshift, Nat.shiftRight_eq_div_pow]
    omega
  have hlow : (id.toBitVec.extractLsb' 0 8).toNat = id.toNat := by
    rw [BitVec.extractLsb'_toNat, Nat.shiftRight_zero, UInt32.toNat_toBitVec]
    omega
  have hall : (ipiIcr false x v).extractLsb' 56 8 ≠ ~~~ 0 := fun h => by
    rw [h] at hdest
    have : (~~~ (0 : BitVec 8)).toNat = 255 := by decide
    omega
  simp only [Reaches, ipiIcr_mode, Bool.false_eq_true, if_false, decide_true, Bool.true_and, Bool.or_eq_true,
    decide_eq_true_eq]
  rw [or_iff_left hall, ← BitVec.toNat_inj, hdest, hlow, UInt32.toNat_inj, eq_comm]

theorem apicWriteIcrUpper_xapic (hx : l.extd = false) : apicWriteIcrUpper f l (ipiIcr false x v) =
    { l with reg := Function.update l.reg xapicIcrRegW2 (destination false x) } := by
  have hmem : apicMemBase + xapicIcrRegW2 - apicMemBase = xapicIcrRegW2 := Nat.add_sub_cancel_left ..
  have hw : writable f xapicIcrRegW2 = none := rfl
  have hbits : destination false x &&& 0xff000000 = destination false x := by
    refine and_of_and_not (BitVec.eq_of_toNat_eq ?_)
    have hmask : (~~~ 0xff000000 : BitVec 32).toNat = 2 ^ 24 - 1 := by decide
    have hzero : (0 : BitVec 32).toNat = 0 := rfl
    simp only [destination, Bool.false_eq_true, if_false]
    rw [BitVec.toNat_and, hmask, Nat.and_two_pow_sub_one_eq_mod, BitVec.toNat_shiftLeft, Nat.shiftLeft_eq,
      hzero]
    omega
  simp only [apicWriteIcrUpper, hx, Bool.false_eq_true, if_false, Lapic.mmioWrite, hmem, hw, Nat.le_add_right, and_true,
    if_true, ipiIcr_destination, hbits]

theorem apicWriteIcrLower_x2apic (hx : l.extd = true) :
    apicWriteIcrLower l (ipiIcr true x v) = some (ipiIcr true x v) := by
  rw [apicWriteIcrLower, if_pos hx, Lapic.wrmsrIcr, if_pos ⟨hx, ipiIcr_reserved⟩]

/-- The second store sends to the destination that was written last. -/
theorem apicWriteIcrLower_xapic (hx : l.extd = false) (hreg : l.reg xapicIcrRegW2 = destination false y) :
    apicWriteIcrLower l (ipiIcr false x v) = some (ipiIcr false y v) := by
  have hv := v.isLt
  rw [apicWriteIcrLower, hx, if_neg (by decide), hreg]
  refine congrArg some (BitVec.eq_of_toNat_eq ?_)
  have hlow : ((ipiIcr false x v).extractLsb' 0 32).toNat = v.toNat + 2 ^ 14 := by
    rw [BitVec.extractLsb'_toNat, ipiIcr_toNat, Nat.shiftRight_zero]
    omega
  rw [ipiIcr_toNat, BitVec.toNat_append, hlow, Nat.shiftLeft_eq, mul_comm _ (2 ^ 32),
    ← Nat.two_pow_add_eq_or_of_lt (by omega)]
  omega

end Ipi

/-! ### The machine -/

/-- The CPUs, with the ids of their APICs and what the topology knows of them. -/
structure Topology (ι : Type*) where
  features : Features
  tables : IdTables
  cpuid : ι → Cpuid
  lapicId : ι → Lapicid
  bsp : ι → Bool

/-- The tables of ids hold the CPUs and nothing else; an xAPIC has an id of eight bits that is not the one of
all CPUs. -/
structure Topology.Ok {ι : Type*} (n : Topology ι) : Prop where
  lapic : isLapicPresent n.features = true
  registered : ∀ i, cpuidToLapicId n.tables (n.cpuid i) = some (n.lapicId i)
  only : ∀ c x, cpuidToLapicId n.tables c = some x → x ≠ invalidLapicId → ∃ i, n.cpuid i = c
  inj : Function.Injective n.lapicId
  valid : ∀ i, n.lapicId i ≠ invalidLapicId
  xapic : x2apicMode n.features = false → ∀ i, (n.lapicId i).toNat < 255

/-- The CPUs that `get_cpuid_for_lapic_id` has numbered. -/
def Topology.ofIds (f : Features) (t : IdTables) (ids : List Lapicid) (bsp : Fin ids.length → Bool) :
    Topology (Fin ids.length) where
  features := f
  tables := t
  cpuid i := i
  lapicId i := ids[i]
  bsp := bsp

theorem Topology.ofIds_ok {f : Features} {t : IdTables} {ids : List Lapicid} {bsp : Fin ids.length → Bool}
    (h : Holds t ids) (hlapic : isLapicPresent f = true)
    (hxapic : x2apicMode f = false → ∀ x ∈ ids, x.toNat < 255) : (Topology.ofIds f t ids bsp).Ok where
  lapic := hlapic
  registered i := by
    show t.cpuidToLapicIdMap[(i : ℕ)]? = some ids[i]
    rw [h.map, List.getElem?_append_left i.isLt]
    exact List.getElem?_eq_getElem i.isLt
  only c x hc hx := by
    by_cases hlt : c < ids.length
    · exact ⟨⟨c, hlt⟩, rfl⟩
    · change t.cpuidToLapicIdMap[c]? = some x at hc
      rw [h.map, List.getElem?_append_right (not_lt.mp hlt)] at hc
      exact absurd (List.eq_of_mem_replicate (List.mem_of_getElem? hc)) hx
  inj i j hij := Fin.ext ((h.nodup.getElem_inj_iff).mp hij)
  valid i hi := h.valid (hi ▸ List.getElem_mem i.isLt)
  xapic hf i := hxapic hf _ (List.getElem_mem i.isLt)

/-- A CPU.  `sending`: the sends that wait for their last store, the innermost first; `running`: the vectors of
the handlers. -/
structure Cpu where
  lapic : Lapic
  configured : Bool
  apicHz : BitVec 64
  up : Bool
  sending : List (BitVec 64)
  running : List ℕ

inductive Label (ι : Type*)
  | setup (i : ι) (elapsed : ℕ)
  | send (i : ι) (target : Cpuid) (vector : BitVec 8)
  | finish (i : ι)
  | program (i : ι) (tscDeadline : BitVec 64)
  | expire (i : ι)
  | legacySupport (i : ι)
  | enableLegacy (i : ι)
  | take (i : ι) (v : ℕ)
  | eoi (i : ι)

/-- `setup_bsp_apic` or `setup_ap_apic` -/
def setupApic (f : Features) (bsp : Bool) (l : Lapic) (elapsed : ℕ) :
    Option (Except ApicError (Lapic × BitVec 64)) :=
  if bsp then setupBspApic f l true elapsed else setupApApic f l elapsed

/-- The APIC with this id gets the interrupt of the value in the ICR. -/
def Lapic.receive (l : Lapic) (extd : Bool) (icr : BitVec 64) (id : Lapicid) : Lapic :=
  if Reaches extd icr id then l.accept (icr.extractLsb' 0 8).toNat else l

section Machine

variable {ι : Type*} [DecidableEq ι]

/-- A call on a CPU, or the hardware.  The frequency loop and the setup run with interrupts off; between the
stores of a send the CPU takes interrupts, whose handlers send themselves before they return. -/
inductive Step (n : Topology ι) : (ι → Cpu) → Label ι → (ι → Cpu) → Prop
  | setup {s i elapsed l hz} (hup : (s i).up = false)
      (h : setupApic n.features (n.bsp i) (s i).lapic elapsed = some (.ok (l, hz))) :
      Step n s (.setup i elapsed) (Function.update s i { s i with lapic := l, apicHz := hz, up := true })
  | send {s i target vector l icr} (hup : (s i).up = true) (hv : 16 ≤ vector.toNat)
      (h : apicSendTargetedIpi n.features (s i).lapic n.tables target vector = some (some (l, icr))) :
      Step n s (.send i target vector) (Function.update s i { s i with lapic := l, sending := icr :: (s i).sending })
  | finish {s i icr rest sent} (h : (s i).sending = icr :: rest)
      (hsent : apicWriteIcrLower (s i).lapic icr = some sent) :
      Step n s (.finish i) fun j =>
        { Function.update s i { s i with sending := rest } j with
          lapic := (s j).lapic.receive (s i).lapic.extd sent (n.lapicId j) }
  | program {s i d l configured} (hup : (s i).up = true)
      (h : apicProgramTscDeadlineTimer n.features (s i).lapic (s i).configured d = some (l, configured)) :
      Step n s (.program i d) (Function.update s i { s i with lapic := l, configured := configured })
  | expire {s i} (hup : (s i).up = true) (h : (s i).lapic.deadline ≠ none) :
      Step n s (.expire i) (Function.update s i { s i with lapic := (s i).lapic.expire })
  | legacySupport {s i l} (hup : (s i).up = true)
      (h : bspApicEnableLegacyIrqSupport n.features (s i).lapic (n.bsp i) = some l) :
      Step n s (.legacySupport i) (Function.update s i { s i with lapic := l })
  | enableLegacy {s i l} (hup : (s i).up = true)
      (h : bspApicEnableLegacyIrqs n.features (s i).lapic (n.bsp i) = some l) :
      Step n s (.enableLegacy i) (Function.update s i { s i with lapic := l })
  | take {s i v} (hup : (s i).up = true) (h : (s i).lapic.Next v) :
      Step n s (.take i v) (Function.update s i { s i with
        lapic := (s i).lapic.take v
        running := v :: (s i).running })
  | eoi {s i l v rest} (hrun : (s i).running = v :: rest) (h : apicSignalEoi n.features (s i).lapic = some l) :
      Step n s (.eoi i) (Function.update s i { s i with lapic := l, running := rest })

end Machine

/-! ### What the APICs are for -/

/-- A CPU without registers.  `last`: the target of the last send that was begun; `lint0`: the interrupts of the PIC are
configured, and let through. -/
structure Spec where
  up : Bool
  accepting : Bool
  pending : Finset ℕ
  running : List ℕ
  deadline : Option (BitVec 64)
  lint0 : Bool × Bool
  sending : List (Cpuid × BitVec 8)
  last : Cpuid

namespace Spec

/-- An interrupt arrives. -/
def receive (a : Spec) (v : ℕ) : Spec := if a.accepting then { a with pending := insert v a.pending } else a

section Call

variable {ι : Type*} [DecidableEq ι]

/-- In xAPIC mode a send that a handler interrupts with a send of its own goes to the target of the latter. -/
def call (n : Topology ι) (s : ι → Spec) : Label ι → ι → Spec
  | .setup i _ => Function.update s i { s i with
      up := true
      accepting := true
      deadline := none
      lint0 := (false, false) }
  | .send i target vector => Function.update s i { s i with
      sending := (target, vector) :: (s i).sending
      last := target }
  | .finish i => fun j =>
      match (s i).sending with
      | [] => s j
      | (target, vector) :: rest =>
          let a := Function.update s i { s i with sending := rest } j
          if n.cpuid j = if x2apicMode n.features then target else (s i).last then a.receive vector.toNat else a
  | .program i d => Function.update s i { s i with deadline := if d = 0 then none else some d }
  | .expire i => Function.update s i ({ s i with deadline := none }.receive 0x30)
  | .legacySupport i => if n.bsp i then Function.update s i { s i with lint0 := (true, false) } else s
  | .enableLegacy i => if n.bsp i then Function.update s i { s i with lint0 := ((s i).lint0.1, true) } else s
  | .take i v => Function.update s i { s i with
      pending := (s i).pending.erase v
      running := v :: (s i).running }
  | .eoi i => Function.update s i { s i with running := (s i).running.tail }

/-- The state after the calls. -/
def after (n : Topology ι) (s : ι → Spec) (ls : List (Label ι)) : ι → Spec := ls.foldl (call n) s

end Call

end Spec

/-! ### The refinement -/

section Refinement

variable {ι : Type*} {n : Topology ι} {c : Cpu} {a : Spec}

/-- The APIC of a CPU is where `Spec` is. -/
structure Rel (n : Topology ι) (c : Cpu) (a : Spec) : Prop where
  up : c.up = a.up
  accepting : c.lapic.enabled = a.accepting
  pending : c.lapic.irr = a.pending
  running : c.running = a.running
  service : c.lapic.isr = a.running.toFinset
  /-- The handlers interrupt each other by priority. -/
  nested : a.running.Pairwise fun v w => w / 16 < v / 16
  deadline : c.up = true → c.lapic.deadline = a.deadline
  armed : c.up = true → c.lapic.deadline ≠ none → c.configured = true
  fresh : c.up = false → c.configured = false
  regs : c.up = true → Up n.features c.lapic c.configured a.lint0
  extd : c.lapic.extd = true → x2apicMode n.features = true
  mode : c.up = true → c.lapic.extd = x2apicMode n.features
  sending : List.Forall₂ (fun icr p => ∃ j, n.cpuid j = p.1 ∧
    icr = ipiIcr (x2apicMode n.features) (n.lapicId j) p.2) c.sending a.sending
  last : a.sending ≠ [] → c.up = true ∧ (x2apicMode n.features = false →
    ∃ j, n.cpuid j = a.last ∧ c.lapic.reg xapicIcrRegW2 = destination false (n.lapicId j))

theorem Rel.undisturbed (h : Rel n c a) (hup : c.up = true) {l : Lapic} {configured : Bool} {lint0 : Bool × Bool}
    (hregs : Up n.features l configured lint0) (hl : Undisturbed c.lapic l)
    (harmed : l.deadline ≠ none → configured = true) :
    Rel n { c with lapic := l, configured := configured } { a with deadline := l.deadline, lint0 := lint0 } where
  up := h.up
  accepting := by
    rw [← h.accepting]
    exact (enabled_of_svr hregs.svr).trans (enabled_of_svr (h.regs hup).svr).symm
  pending := hl.1.2.1.trans h.pending
  running := h.running
  service := hl.1.2.2.trans h.service
  nested := h.nested
  deadline _ := rfl
  armed _ := harmed
  fresh hdown := by
    rw [hup] at hdown
    cases hdown
  regs _ := hregs
  extd hx := h.extd (hl.1.1.symm.trans hx)
  mode _ := hl.1.1.trans (h.mode hup)
  sending := h.sending
  last hne := ⟨hup, fun hx => by
    obtain ⟨j, hj, hreg⟩ := (h.last hne).2 hx
    exact ⟨j, hj, hl.2.trans hreg⟩⟩

theorem Rel.receive (h : Rel n c a) (v : ℕ) : Rel n { c with lapic := c.lapic.accept v } (a.receive v) := by
  unfold Lapic.accept Spec.receive
  rw [h.accepting]
  cases hacc : a.accepting with
  | false => exact h
  | true =>
      rw [if_pos rfl, if_pos rfl]
      exact { h with
        accepting := h.accepting.trans hacc
        pending := congrArg (insert v) h.pending
        regs := fun hup => (h.regs hup).of_reg rfl }

/-- The deadline is reached: the timer of a CPU that has programmed one is unmasked. -/
theorem Rel.expire (h : Rel n c a) (hup : c.up = true) (hconf : c.configured = true) :
    Rel n { c with lapic := c.lapic.expire } ({ a with deadline := none }.receive 0x30) := by
  have htimer : c.lapic.reg apicLvtTimerReg = 0x40030 := by
    rw [(h.regs hup).timer, hconf]
    rfl
  have hregs := h.regs hup
  have hexpire : c.lapic.expire = ({ c.lapic with deadline := none } : Lapic).accept 0x30 := by
    have hmask : (0x40030 : BitVec 32).getLsbD 16 = false := by decide
    have hvec : ((0x40030 : BitVec 32).extractLsb' 0 8).toNat = 0x30 := by decide
    simp only [Lapic.expire, htimer, hmask, hvec, Bool.false_eq_true, if_false]
  rw [hexpire]
  have hnone : Rel n { c with lapic := { c.lapic with deadline := none } } { a with deadline := none } :=
    h.undisturbed hup (l := { c.lapic with deadline := none })
      (hregs.of_reg rfl) ⟨⟨rfl, rfl, rfl⟩, rfl⟩ fun h => absurd rfl h
  exact hnone.receive 0x30

theorem sup_running {v : ℕ} {rest : List ℕ} (h : (v :: rest).Pairwise fun v w => w / 16 < v / 16) :
    (v :: rest).toFinset.sup id = v ∧ (v :: rest).toFinset.erase v = rest.toFinset := by
  have hrest := (List.pairwise_cons.mp h).1
  have hlt : ∀ w ∈ rest, w < v := fun w hw => by
    have := hrest w hw
    omega
  refine ⟨le_antisymm (Finset.sup_le fun w hw => ?_) (Finset.le_sup (f := id) (by simp)), ?_⟩
  · rcases List.mem_cons.mp (List.mem_toFinset.mp hw) with rfl | hw
    · exact le_refl _
    · exact (hlt w hw).le
  · rw [List.toFinset_cons, Finset.erase_insert]
    exact fun hv => lt_irrefl v (hlt v (List.mem_toFinset.mp hv))

/-- The end of the innermost handler: the APIC retires its vector. -/
theorem Rel.eoi (h : Rel n c a) {v : ℕ} {rest : List ℕ} (hrun : c.running = v :: rest) :
    Rel n { c with lapic := { c.lapic with isr := c.lapic.isr.erase (c.lapic.isr.sup id) }, running := rest }
      { a with running := a.running.tail } := by
  have hspec : a.running = v :: rest := h.running.symm.trans hrun
  have hnested := h.nested
  rw [hspec] at hnested
  obtain ⟨hsup, herase⟩ := sup_running hnested
  have hisr : c.lapic.isr = (v :: rest).toFinset := by rw [h.service, hspec]
  exact { h with
    running := by rw [hspec, List.tail_cons]
    service := by
      show c.lapic.isr.erase (c.lapic.isr.sup id) = _
      rw [hisr, hsup, herase, hspec, List.tail_cons]
    nested := by
      rw [hspec]
      exact (List.pairwise_cons.mp hnested).2
    regs := fun hup => (h.regs hup).of_reg rfl }

theorem Rel.take (h : Rel n c a) {v : ℕ} (hv : c.lapic.Next v) :
    Rel n { c with lapic := c.lapic.take v, running := v :: c.running }
      { a with pending := a.pending.erase v, running := v :: a.running } := by
  have hbelow : ∀ w ∈ a.running, w / 16 < v / 16 := fun w hw => by
    have hmem : w ∈ c.lapic.isr := by
      rw [h.service]
      exact List.mem_toFinset.mpr hw
    have hle : w ≤ c.lapic.isr.sup id := Finset.le_sup (f := id) hmem
    have hlt := hv.2.2.1
    omega
  exact { h with
    pending := congrArg (Finset.erase · v) h.pending
    running := congrArg (v :: ·) h.running
    service := by
      rw [List.toFinset_cons]
      exact congrArg (insert v) h.service
    nested := List.pairwise_cons.mpr ⟨hbelow, h.nested⟩
    regs := fun hup => (h.regs hup).of_reg rfl }

theorem setupApic_spec (hn : n.Ok) (bsp : Bool) {l : Lapic} (hx : l.extd = true → x2apicMode n.features = true)
    (elapsed : ℕ) : ∃ l', setupApic n.features bsp l elapsed =
        some (.ok (l', BitVec.ofNat 64 (min elapsed (2 ^ 32 - 1)) * 10)) ∧
      Up n.features l' false (false, false) ∧ l'.deadline = none ∧ l'.extd = x2apicMode n.features ∧
      l'.irr = l.irr ∧ l'.isr = l.isr := by
  obtain ⟨l', h, hup, hdeadline, hextd, hirr, hisr⟩ :=
    setupLapic_spec (f := n.features) (l := (tryEnableX2apicMode n.features l).1) elapsed
  have hmode : (tryEnableX2apicMode n.features l).1.extd = x2apicMode n.features ∧
      (tryEnableX2apicMode n.features l).1.irr = l.irr ∧ (tryEnableX2apicMode n.features l).1.isr = l.isr := by
    unfold tryEnableX2apicMode
    cases hf : x2apicMode n.features with
    | true => exact ⟨rfl, rfl, rfl⟩
    | false =>
        refine ⟨?_, rfl, rfl⟩
        cases he : l.extd with
        | false => exact he
        | true =>
            rw [hx he] at hf
            cases hf
  refine ⟨l', ?_, hup, hdeadline, hextd.trans hmode.1, hirr.trans hmode.2.1, hisr.trans hmode.2.2⟩
  cases bsp <;> simp [setupApic, setupBspApic, setupApApic, hn.lapic, h]

theorem Rel.setup (hn : n.Ok) (h : Rel n c a) (hdown : c.up = false) {bsp : Bool} {elapsed : ℕ} {l : Lapic}
    {hz : BitVec 64} (hs : setupApic n.features bsp c.lapic elapsed = some (.ok (l, hz))) :
    Rel n { c with lapic := l, apicHz := hz, up := true }
      { a with up := true, accepting := true, deadline := none, lint0 := (false, false) } := by
  obtain ⟨l', hspec, hup, hdeadline, hextd, hirr, hisr⟩ := setupApic_spec hn bsp h.extd elapsed
  rw [hs, Option.some.injEq, Except.ok.injEq, Prod.mk.injEq] at hspec
  obtain ⟨rfl, -⟩ := hspec
  have hidle : a.sending = [] := by
    by_contra hne
    rw [(h.last hne).1] at hdown
    cases hdown
  exact { h with
    up := rfl
    accepting := enabled_of_svr hup.svr
    pending := hirr.trans h.pending
    service := hisr.trans h.service
    deadline := fun _ => hdeadline
    armed := fun _ hne => absurd hdeadline hne
    fresh := fun hd => by cases hd
    regs := fun _ => by
      show Up n.features l c.configured (false, false)
      rw [h.fresh hdown]
      exact hup
    extd := fun he => hextd.symm.trans he
    mode := fun _ => hextd
    last := fun hne => absurd hidle hne }

/-- A send is begun: in xAPIC mode the target is in the upper half of the ICR. -/
theorem Rel.send (hn : n.Ok) (h : Rel n c a) (hup : c.up = true) {target : Cpuid} {vector : BitVec 8} {l : Lapic}
    {icr : BitVec 64}
    (hs : apicSendTargetedIpi n.features c.lapic n.tables target vector = some (some (l, icr))) :
    Rel n { c with lapic := l, sending := icr :: c.sending }
      { a with sending := (target, vector) :: a.sending, last := target } := by
  obtain ⟨x, hx, hs⟩ := Option.map_eq_some_iff.mp hs
  split at hs
  · cases hs
  rename_i hvalid
  rw [Option.some.injEq, Prod.mk.injEq] at hs
  obtain ⟨j, rfl⟩ := hn.only target x hx hvalid
  obtain rfl : x = n.lapicId j := by
    rw [hn.registered j, Option.some.injEq] at hx
    exact hx.symm
  have hmode := h.mode hup
  rw [hmode] at hs
  obtain ⟨hl, rfl⟩ := hs
  have hsending : List.Forall₂ (fun icr p => ∃ j, n.cpuid j = p.1 ∧
      icr = ipiIcr (x2apicMode n.features) (n.lapicId j) p.2)
      (ipiIcr (x2apicMode n.features) (n.lapicId j) vector :: c.sending) ((n.cpuid j, vector) :: a.sending) :=
    .cons ⟨j, rfl, rfl⟩ h.sending
  cases hf : x2apicMode n.features with
  | true =>
      rw [hf] at hl hmode
      obtain rfl : c.lapic = l := by
        rw [← hl, apicWriteIcrUpper, hmode, if_pos rfl]
      exact { h with
        sending := hf ▸ hsending
        last := fun _ => ⟨hup, fun hx => by rw [hf] at hx; cases hx⟩ }
  | false =>
      rw [hf] at hl hmode
      rw [apicWriteIcrUpper_xapic hmode] at hl
      subst hl
      have hregs := h.regs hup
      exact { h with
        regs := fun _ => { hregs with
          others := fun r hr ht h0 hc =>
            (Function.update_of_ne (by rintro rfl; cases hr) ..).trans (hregs.others r hr ht h0 hc) }
        mode := fun _ => hmode.trans hf.symm
        sending := hf ▸ hsending
        last := fun _ => ⟨hup, fun _ => ⟨j, rfl, rfl⟩⟩ }

theorem Topology.Ok.cpuid_inj (hn : n.Ok) {i j : ι} (h : n.cpuid i = n.cpuid j) : i = j := by
  refine hn.inj (Option.some.inj ?_)
  rw [← hn.registered i, ← hn.registered j, h]

theorem Rel.pop (h : Rel n c a) {rest : List (BitVec 64)} {rest' : List (Cpuid × BitVec 8)} (hne : a.sending ≠ [])
    (hrest : List.Forall₂ (fun icr p => ∃ j, n.cpuid j = p.1 ∧
      icr = ipiIcr (x2apicMode n.features) (n.lapicId j) p.2) rest rest') :
    Rel n { c with sending := rest } { a with sending := rest' } :=
  { h with
    sending := hrest
    last := fun _ => h.last hne }

theorem Rel.icr (hn : n.Ok) (h : Rel n c a) {icr : BitVec 64} {rest : List (BitVec 64)} (hs : c.sending = icr :: rest) :
    ∃ target vector rest' sent, a.sending = (target, vector) :: rest' ∧
      List.Forall₂ (fun icr p => ∃ j, n.cpuid j = p.1 ∧
        icr = ipiIcr (x2apicMode n.features) (n.lapicId j) p.2) rest rest' ∧
      apicWriteIcrLower c.lapic icr = some sent ∧ (sent.extractLsb' 0 8).toNat = vector.toNat ∧
      ∀ j, Reaches c.lapic.extd sent (n.lapicId j) = true ↔
        n.cpuid j = if x2apicMode n.features then target else a.last := by
  have hsending := h.sending
  rw [hs] at hsending
  cases ha : a.sending with
  | nil =>
      rw [ha] at hsending
      cases hsending
  | cons p rest' =>
      obtain ⟨target, vector⟩ := p
      rw [ha] at hsending
      obtain ⟨⟨j₀, htarget, hicr⟩, hrest⟩ := List.forall₂_cons.mp hsending
      obtain ⟨hup, hlast⟩ := h.last (by simp [ha])
      have hmode := h.mode hup
      have hcpu : ∀ j k, n.lapicId j = n.lapicId k ↔ n.cpuid j = n.cpuid k := fun j k =>
        ⟨fun e => congrArg n.cpuid (hn.inj e), fun e => congrArg n.lapicId (hn.cpuid_inj e)⟩
      cases hf : x2apicMode n.features with
      | true =>
          rw [hf] at hicr hmode hrest
          have hlower : apicWriteIcrLower c.lapic icr = some (ipiIcr true (n.lapicId j₀) vector) := by
            rw [hicr, apicWriteIcrLower_x2apic hmode]
          refine ⟨target, vector, rest', _, rfl, hrest, hlower, ipiIcr_vector, fun j => ?_⟩
          rw [hmode, reaches_x2apic (hn.valid j₀), hcpu, if_pos rfl, htarget]
      | false =>
          rw [hf] at hicr hmode hrest
          obtain ⟨jl, hjl, hreg⟩ := hlast hf
          have hlower : apicWriteIcrLower c.lapic icr = some (ipiIcr false (n.lapicId jl) vector) := by
            rw [hicr, apicWriteIcrLower_xapic hmode hreg]
          refine ⟨target, vector, rest', _, rfl, hrest, hlower, ipiIcr_vector, fun j => ?_⟩
          rw [hmode, reaches_xapic (hn.xapic hf jl) (hn.xapic hf j), hcpu, if_neg (by decide), hjl]

/-- A CPU out of reset: the firmware may have left the x2APIC on, and interrupts pending. -/
structure Cpu.Reset (n : Topology ι) (c : Cpu) : Prop where
  up : c.up = false
  configured : c.configured = false
  sending : c.sending = []
  running : c.running = []
  service : c.lapic.isr = ∅
  extd : c.lapic.extd = true → x2apicMode n.features = true

/-- `Spec` out of reset. -/
def Spec.reset (l : Lapic) : Spec where
  up := false
  accepting := l.enabled
  pending := l.irr
  running := []
  deadline := none
  lint0 := (false, false)
  sending := []
  last := 0

theorem Cpu.Reset.rel (h : c.Reset n) : Rel n c (.reset c.lapic) := by
  have hdown : c.up ≠ true := by simp [h.up]
  exact {
    up := h.up
    accepting := rfl
    pending := rfl
    running := h.running
    service := h.service
    nested := .nil
    deadline := fun hup => absurd hup hdown
    armed := fun hup => absurd hup hdown
    fresh := fun _ => h.configured
    regs := fun hup => absurd hup hdown
    extd := h.extd
    mode := fun hup => absurd hup hdown
    sending := by
      rw [h.sending]
      exact .nil
    last := fun hne => absurd rfl hne }

/-- What `Spec` says of a CPU, and that its next call raises no exception. -/
structure Agrees (n : Topology ι) (bsp : Bool) (c : Cpu) (a : Spec) : Prop where
  pending : c.lapic.irr = a.pending
  running : c.running = a.running
  service : c.lapic.isr = a.running.toFinset
  deadline : a.up = true → c.lapic.deadline = a.deadline
  extint : a.up = true → c.lapic.extint = (a.lint0.1 && a.lint0.2)
  /-- The timer is measured for a tenth of a second, with a counter of 32 bits. -/
  setup : a.up = false → ∀ elapsed, ∃ l, setupApic n.features bsp c.lapic elapsed =
    some (.ok (l, BitVec.ofNat 64 (min elapsed (2 ^ 32 - 1)) * 10))
  program : a.up = true → ∀ d, ∃ l, apicProgramTscDeadlineTimer n.features c.lapic c.configured d = some (l, true)
  legacySupport : a.up = true → ∃ l, bspApicEnableLegacyIrqSupport n.features c.lapic bsp = some l
  enableLegacy : a.up = true → ∃ l, bspApicEnableLegacyIrqs n.features c.lapic bsp = some l
  send : ∀ j vector, ∃ l icr, apicSendTargetedIpi n.features c.lapic n.tables (n.cpuid j) vector = some (some (l, icr))
  finish : ∀ icr rest, c.sending = icr :: rest → ∃ sent, apicWriteIcrLower c.lapic icr = some sent
  /-- The end of a handler retires its own vector. -/
  eoi : ∀ v rest, a.running = v :: rest →
    apicSignalEoi n.features c.lapic = some { c.lapic with isr := c.lapic.isr.erase v }

theorem Rel.agrees (hn : n.Ok) (h : Rel n c a) (bsp : Bool) : Agrees n bsp c a where
  pending := h.pending
  running := h.running
  service := h.service
  deadline hup := h.deadline (h.up.trans hup)
  extint hup := (h.regs (h.up.trans hup)).extint
  setup _ elapsed := by
    obtain ⟨l, hs, -⟩ := setupApic_spec hn bsp h.extd elapsed
    exact ⟨l, hs⟩
  program hup d := by
    obtain ⟨l, hs, -⟩ := (h.regs (h.up.trans hup)).program d
    exact ⟨l, hs⟩
  legacySupport hup := by
    cases bsp with
    | false => exact ⟨_, rfl⟩
    | true =>
        obtain ⟨l, hs, -⟩ := (h.regs (h.up.trans hup)).legacySupport
        exact ⟨l, hs⟩
  enableLegacy hup := by
    cases bsp with
    | false => exact ⟨_, rfl⟩
    | true =>
        obtain ⟨l, hs, -⟩ := (h.regs (h.up.trans hup)).enableLegacy
        exact ⟨l, hs⟩
  send j vector := by
    rw [apicSendTargetedIpi, hn.registered j, Option.map_some, if_neg (hn.valid j)]
    exact ⟨_, _, rfl⟩
  finish icr rest hs := by
    obtain ⟨-, -, -, sent, -, -, hsent, -⟩ := h.icr hn hs
    exact ⟨sent, hsent⟩
  eoi v rest hrun := by
    have hnested := h.nested
    rw [hrun] at hnested
    rw [apicSignalEoi_eq, h.service, hrun, (sup_running hnested).1]

theorem Rel.idle_iff (h : Rel n c a) : c.sending = [] ↔ a.sending = [] := by
  rw [← List.length_eq_zero_iff, ← List.length_eq_zero_iff, h.sending.length_eq]

variable [DecidableEq ι] {s s' : ι → Cpu} {b : ι → Spec} {l : Label ι}

theorem rel_update (i : ι) (h : ∀ j, Rel n (s j) (b j)) (hi : Rel n c a) (j : ι) :
    Rel n (Function.update s i c j) (Function.update b i a j) := by
  by_cases hj : j = i
  · rw [hj, Function.update_self, Function.update_self]
    exact hi
  · rw [Function.update_of_ne hj, Function.update_of_ne hj]
    exact h j

theorem rel_finish (hn : n.Ok) {i : ι} (h : ∀ j, Rel n (s j) (b j)) {icr sent : BitVec 64} {rest : List (BitVec 64)}
    (hs : (s i).sending = icr :: rest) (hsent : apicWriteIcrLower (s i).lapic icr = some sent) (j : ι) :
    Rel n { Function.update s i { s i with sending := rest } j with
        lapic := (s j).lapic.receive (s i).lapic.extd sent (n.lapicId j) }
      (Spec.call n b (.finish i) j) := by
  obtain ⟨target, vector, rest', sent', hb, hrest, hlower, hvector, hreach⟩ := (h i).icr hn hs
  obtain rfl := Option.some.inj (hsent.symm.trans hlower)
  have hpop := rel_update i h ((h i).pop (by simp [hb]) hrest) j
  have hlapic : (Function.update s i { s i with sending := rest } j).lapic = (s j).lapic := by
    by_cases hj : j = i
    · rw [hj, Function.update_self]
    · rw [Function.update_of_ne hj]
  simp only [Spec.call, hb, Lapic.receive, hvector, hreach j]
  generalize Function.update s i { s i with sending := rest } j = c' at hpop hlapic
  generalize Function.update b i { b i with sending := rest' } j = a' at hpop
  rw [← hlapic]
  by_cases hj : n.cpuid j = if x2apicMode n.features = true then target else (b i).last
  · rw [if_pos hj, if_pos hj]
    exact hpop.receive vector.toNat
  · rw [if_neg hj, if_neg hj]
    exact hpop

theorem rel_legacy {i : ι} (lint0 : Bool × Bool) (h : ∀ j, Rel n (s j) (b j)) (hup : (s i).up = true) {l : Lapic}
    (hbsp : n.bsp i = true → Up n.features l (s i).configured lint0 ∧ l.deadline = (s i).lapic.deadline ∧
      Undisturbed (s i).lapic l)
    (hap : n.bsp i = false → l = (s i).lapic) (j : ι) :
    Rel n (Function.update s i { s i with lapic := l } j)
      ((if n.bsp i then Function.update b i { b i with lint0 := lint0 } else b) j) := by
  cases hb : n.bsp i with
  | false =>
      rw [if_neg (by decide), hap hb]
      show Rel n (Function.update s i (s i) j) _
      rw [Function.update_eq_self]
      exact h j
  | true =>
      obtain ⟨hregs, hdeadline, hl⟩ := hbsp hb
      have hrel := (h i).undisturbed hup hregs hl fun hne => (h i).armed hup (hdeadline ▸ hne)
      rw [hdeadline, (h i).deadline hup] at hrel
      rw [if_pos rfl]
      exact rel_update i h hrel j

theorem rel_step (hn : n.Ok) (h : ∀ j, Rel n (s j) (b j)) (hstep : Step n s l s') (j : ι) :
    Rel n (s' j) (Spec.call n b l j) := by
  cases hstep with
  | setup hdown hs => exact rel_update _ h ((h _).setup hn hdown hs) j
  | send hup hv hs => exact rel_update _ h ((h _).send hn hup hs) j
  | finish hs hsent => exact rel_finish hn h hs hsent j
  | @program i d l configured hup hs =>
      obtain ⟨l', hspec, hregs, hdeadline, hl⟩ := ((h i).regs hup).program d
      rw [hs, Option.some.injEq, Prod.mk.injEq] at hspec
      obtain ⟨rfl, rfl⟩ := hspec
      have hrel := (h i).undisturbed hup hregs hl fun _ => rfl
      rw [hdeadline] at hrel
      exact rel_update _ h hrel j
  | expire hup hd => exact rel_update _ h ((h _).expire hup ((h _).armed hup hd)) j
  | @legacySupport i l hup hs =>
      refine rel_legacy (true, false) h hup (fun hb => ?_) (fun hb => ?_) j
      · obtain ⟨l', hspec, hup'⟩ := ((h i).regs hup).legacySupport
        rw [hb, hspec, Option.some.injEq] at hs
        exact hs ▸ hup'
      · rw [bspApicEnableLegacyIrqSupport, hb] at hs
        exact (Option.some.inj hs).symm
  | @enableLegacy i l hup hs =>
      refine rel_legacy ((b i).lint0.1, true) h hup (fun hb => ?_) (fun hb => ?_) j
      · obtain ⟨l', hspec, hup'⟩ := ((h i).regs hup).enableLegacy
        rw [hb, hspec, Option.some.injEq] at hs
        exact hs ▸ hup'
      · rw [bspApicEnableLegacyIrqs, hb] at hs
        exact (Option.some.inj hs).symm
  | take hup hv => exact rel_update _ h ((h _).take hv) j
  | @eoi i l v rest hrun hs =>
      rw [apicSignalEoi_eq, Option.some.injEq] at hs
      subst hs
      exact rel_update _ h ((h i).eoi hrun) j

theorem rel_run (hn : n.Ok) {s₀ : ι → Cpu} (hreset : ∀ i, (s₀ i).Reset n) {ls : List (Label ι)}
    (hrun : Run (Step n) s₀ ls s) (j : ι) :
    Rel n (s j) (Spec.after n (fun i => .reset (s₀ i).lapic) ls j) := by
  refine hrun.history (I := fun ls s => ∀ j, Rel n (s j) (Spec.after n (fun i => .reset (s₀ i).lapic) ls j))
    (fun j => (hreset j).rel) (fun ls s l s' hrel hstep j => ?_) j
  rw [Spec.after, List.foldl_append]
  exact rel_step hn hrel hstep j

/-- In every interleaving the APICs are where `Spec` is, and no access raises an exception. -/
theorem lapics_refine (hn : n.Ok) {s₀ : ι → Cpu} (hreset : ∀ i, (s₀ i).Reset n) {ls : List (Label ι)}
    (hrun : Run (Step n) s₀ ls s) (i : ι) :
    Agrees n (n.bsp i) (s i) (Spec.after n (fun i => .reset (s₀ i).lapic) ls i) :=
  (rel_run hn hreset hrun i).agrees hn (n.bsp i)

/-! ### Sends that are alone -/

/-- A send that no other interrupts: the target in the ICR is its own. -/
def Spec.Single (a : Spec) : Prop := ∀ p rest, a.sending = p :: rest → p.1 = a.last ∧ rest = []

/-- No send begins while another one on the CPU waits for its last store. -/
def Alone (s : ι → Cpu) : Label ι → Prop
  | .send i _ _ => (s i).sending = []
  | _ => True

theorem Spec.receive_sending (v : ℕ) : (a.receive v).sending = a.sending ∧ (a.receive v).last = a.last := by
  unfold Spec.receive
  split
  · exact ⟨rfl, rfl⟩
  · exact ⟨rfl, rfl⟩

theorem Spec.Single.congr (h : a.Single) {a' : Spec} (hs : a'.sending = a.sending ∧ a'.last = a.last) : a'.Single := by
  unfold Spec.Single
  rw [hs.1, hs.2]
  exact h

theorem Spec.Single.update {i : ι} (h : ∀ j, (b j).Single) (hi : a.Single) (j : ι) :
    (Function.update b i a j).Single := by
  by_cases hj : j = i
  · rw [hj, Function.update_self]
    exact hi
  · rw [Function.update_of_ne hj]
    exact h j

theorem Spec.Single.same {i : ι} (h : ∀ j, (b j).Single)
    (ha : a.sending = (b i).sending ∧ a.last = (b i).last) (j : ι) : (Function.update b i a j).Single :=
  Spec.Single.update h ((h i).congr ha) j

theorem Spec.Single.finish {i : ι} (h : ∀ j, (b j).Single) (j : ι) : (Spec.call n b (.finish i) j).Single := by
  cases hs : (b i).sending with
  | nil =>
      simp only [Spec.call, hs]
      exact h j
  | cons p rest =>
      have hrest : ({ b i with sending := rest } : Spec).Single := by
        rw [((h i) p rest hs).2]
        exact fun _ _ hnil => by cases hnil
      have hpop := Spec.Single.update (i := i) h hrest j
      simp only [Spec.call, hs]
      generalize Function.update b i { b i with sending := rest } j = a at hpop
      by_cases hj : n.cpuid j = if x2apicMode n.features = true then p.1 else (b i).last
      · rw [if_pos hj]
        exact hpop.congr (Spec.receive_sending p.2.toNat)
      · rw [if_neg hj]
        exact hpop

theorem Spec.Single.call (h : ∀ j, (b j).Single)
    (hl : ∀ i target vector, l = .send i target vector → (b i).sending = []) (j : ι) : (Spec.call n b l j).Single := by
  cases l with
  | setup i elapsed =>
      refine Spec.Single.same (i := i) h ?_ j
      exact ⟨rfl, rfl⟩
  | send i target vector =>
      refine Spec.Single.update h (fun p rest hs => ?_) j
      obtain ⟨rfl, rfl⟩ := List.cons.inj hs
      exact ⟨rfl, hl i target vector rfl⟩
  | finish i => exact Spec.Single.finish h j
  | program i d =>
      refine Spec.Single.same (i := i) h ?_ j
      exact ⟨rfl, rfl⟩
  | expire i =>
      refine Spec.Single.same (i := i) h ?_ j
      exact Spec.receive_sending 0x30
  | legacySupport i =>
      simp only [Spec.call]
      split
      · refine Spec.Single.same (i := i) h ?_ j
        exact ⟨rfl, rfl⟩
      · exact h j
  | enableLegacy i =>
      simp only [Spec.call]
      split
      · refine Spec.Single.same (i := i) h ?_ j
        exact ⟨rfl, rfl⟩
      · exact h j
  | take i v =>
      refine Spec.Single.same (i := i) h ?_ j
      exact ⟨rfl, rfl⟩
  | eoi i =>
      refine Spec.Single.same (i := i) h ?_ j
      exact ⟨rfl, rfl⟩

theorem single_run (hn : n.Ok) {s₀ : ι → Cpu} (hreset : ∀ i, (s₀ i).Reset n) {ls : List (Label ι)}
    (hrun : Run (fun s l s' => Step n s l s' ∧ (x2apicMode n.features = false → Alone s l)) s₀ ls s) :
    (∀ j, Rel n (s j) (Spec.after n (fun i => .reset (s₀ i).lapic) ls j)) ∧
      (x2apicMode n.features = false → ∀ j, (Spec.after n (fun i => .reset (s₀ i).lapic) ls j).Single) := by
  refine hrun.history (I := fun ls s => (∀ j, Rel n (s j) (Spec.after n (fun i => .reset (s₀ i).lapic) ls j)) ∧
      (x2apicMode n.features = false → ∀ j, (Spec.after n (fun i => .reset (s₀ i).lapic) ls j).Single))
    ⟨fun j => (hreset j).rel, fun _ _ _ _ hnil => by cases hnil⟩ (fun ls s l s' hI hstep => ?_)
  rw [Spec.after, List.foldl_append]
  refine ⟨rel_step hn hI.1 hstep.1, fun hx => Spec.Single.call (hI.2 hx) fun i target vector hl => ?_⟩
  have hidle := hstep.2 hx
  rw [hl] at hidle
  exact (hI.1 i).idle_iff.mp hidle

/-- A send reaches its target and nobody else, when in xAPIC mode no handler sends between its two stores. -/
theorem ipis_reach_target (hn : n.Ok) {s₀ : ι → Cpu} (hreset : ∀ i, (s₀ i).Reset n) {ls : List (Label ι)}
    (hrun : Run (fun s l s' => Step n s l s' ∧ (x2apicMode n.features = false → Alone s l)) s₀ ls s) {i : ι}
    (hstep : Step n s (.finish i) s') {target : Cpuid} {vector : BitVec 8} {rest : List (Cpuid × BitVec 8)}
    (hsending : (Spec.after n (fun i => .reset (s₀ i).lapic) ls i).sending = (target, vector) :: rest) (j : ι) :
    (s' j).lapic.irr = if n.cpuid j = target ∧ (s j).lapic.enabled = true then insert vector.toNat (s j).lapic.irr
      else (s j).lapic.irr := by
  obtain ⟨hrel, hsingle⟩ := single_run hn hreset hrun
  cases hstep with
  | @finish _ icr _ sent hs hsent =>
      obtain ⟨target', vector', rest', sent', hb, -, hlower, hvector, hreach⟩ := (hrel i).icr hn hs
      obtain rfl := Option.some.inj (hsent.symm.trans hlower)
      rw [hsending, List.cons.injEq, Prod.mk.injEq] at hb
      obtain ⟨⟨rfl, rfl⟩, rfl⟩ := hb
      have htarget : (if x2apicMode n.features = true then target
          else (Spec.after n (fun i => .reset (s₀ i).lapic) ls i).last) = target := by
        cases hx : x2apicMode n.features with
        | true => exact if_pos rfl
        | false => exact (if_neg (by decide)).trans (hsingle hx i _ _ hsending).1.symm
      have hj := hreach j
      rw [htarget] at hj
      show ((s j).lapic.receive (s i).lapic.extd sent (n.lapicId j)).irr = _
      unfold Lapic.receive Lapic.accept
      rw [hvector]
      by_cases hto : n.cpuid j = target
      · rw [if_pos (hj.mpr hto)]
        split <;> simp_all
      · rw [if_neg fun hr => hto (hj.mp hr), if_neg fun h => hto h.1]

end Refinement

/-! ### Two CPUs, with xAPICs and with x2APICs -/

def sampleIds : List Lapicid := [0, 4]

def sampleTables : IdTables where
  cpuidCounter := 2
  cpuidLapicIdPairs := pairsFrom 0 sampleIds ++ List.replicate 62 freePair
  cpuidToLapicIdMap := sampleIds ++ List.replicate 62 invalidLapicId

def sampleFeatures (x2apic : Bool) : Features := ⟨0x200, if x2apic then 0x200000 else 0, 0⟩

def sampleTopology (x2apic : Bool) : Topology (Fin 2) :=
  .ofIds (sampleFeatures x2apic) sampleTables sampleIds fun i => i.val = 0

def sampleReset (_ : Fin 2) : Cpu where
  lapic := ⟨false, fun _ => 0, none, ∅, ∅⟩
  configured := false
  apicHz := 0
  up := false
  sending := []
  running := []

/-- A handler of the first CPU sends to the second, while its CPU sends to itself. -/
def sampleCalls : List (Label (Fin 2)) :=
  [.setup 0 1000, .setup 1 1000, .send 0 0 0x40, .send 0 1 0x41, .finish 0, .finish 0]

theorem sampleTables_holds : Holds sampleTables sampleIds where
  nodup := by decide
  valid := by decide
  length_le := by decide
  counter := rfl
  pairs := rfl
  map := rfl

theorem sampleTopology_ok (x2apic : Bool) : (sampleTopology x2apic).Ok := by
  refine Topology.ofIds_ok sampleTables_holds (by cases x2apic <;> decide) fun _ x hx => ?_
  obtain rfl | rfl := List.mem_pair.mp hx
  · decide
  · decide

theorem sampleReset_reset (x2apic : Bool) (i : Fin 2) : (sampleReset i).Reset (sampleTopology x2apic) where
  up := rfl
  configured := rfl
  sending := rfl
  running := rfl
  service := rfl
  extd h := by cases h

theorem sampleCalls_run (x2apic : Bool) : ∃ s, Run (Step (sampleTopology x2apic)) sampleReset sampleCalls s := by
  have hok := sampleTopology_ok x2apic
  have hagrees : ∀ {ls : List (Label (Fin 2))} {s : Fin 2 → Cpu}, Run (Step (sampleTopology x2apic)) sampleReset ls s →
      ∀ i, Agrees (sampleTopology x2apic) ((sampleTopology x2apic).bsp i) (s i)
        (Spec.after (sampleTopology x2apic) (fun i => .reset (sampleReset i).lapic) ls i) := fun h i =>
    (rel_run hok (sampleReset_reset x2apic) h i).agrees hok _
  have h0 : Run (Step (sampleTopology x2apic)) sampleReset [] sampleReset := .nil _
  obtain ⟨l₁, hl₁⟩ := (hagrees h0 0).setup rfl 1000
  have h1 := h0.snoc (.setup rfl hl₁)
  obtain ⟨l₂, hl₂⟩ := (hagrees h1 1).setup rfl 1000
  have h2 := h1.snoc (.setup rfl hl₂)
  obtain ⟨l₃, icr₁, hl₃⟩ := (hagrees h2 0).send 0 0x40
  have h3 := h2.snoc (.send rfl (by decide) hl₃)
  obtain ⟨l₄, icr₂, hl₄⟩ := (hagrees h3 0).send 1 0x41
  have h4 := h3.snoc (.send rfl (by decide) hl₄)
  obtain ⟨sent₁, hsent₁⟩ := (hagrees h4 0).finish icr₂ [icr₁] rfl
  have h5 := h4.snoc (@Step.finish (Fin 2) _ _ _ 0 icr₂ [icr₁] sent₁ rfl hsent₁)
  obtain ⟨sent₂, hsent₂⟩ := (hagrees h5 0).finish icr₁ [] rfl
  exact ⟨_, h5.snoc (@Step.finish (Fin 2) _ _ _ 0 icr₁ [] sent₂ rfl hsent₂)⟩

/-- With xAPICs both interrupts go to the second CPU, with x2APICs each goes to its target. -/
theorem lapics_refine_sample :
    (∃ s, Run (Step (sampleTopology false)) sampleReset sampleCalls s ∧
      (s 0).lapic.irr = ∅ ∧ (s 1).lapic.irr = {0x40, 0x41}) ∧
    ∃ s, Run (Step (sampleTopology true)) sampleReset sampleCalls s ∧
      (s 0).lapic.irr = {0x40} ∧ (s 1).lapic.irr = {0x41} := by
  obtain ⟨s, h⟩ := sampleCalls_run false
  obtain ⟨s', h'⟩ := sampleCalls_run true
  have hagrees := lapics_refine (sampleTopology_ok false) (sampleReset_reset false) h
  have hagrees' := lapics_refine (sampleTopology_ok true) (sampleReset_reset true) h'
  exact ⟨⟨s, h, (hagrees 0).pending.trans (by decide), (hagrees 1).pending.trans (by decide)⟩,
    s', h', (hagrees' 0).pending.trans (by decide), (hagrees' 1).pending.trans (by decide)⟩

/-- A send to the second CPU that is alone. -/
def sampleSend : List (Label (Fin 2)) := [.setup 0 1000, .setup 1 1000, .send 0 1 0x41]

theorem sampleSend_run (x2apic : Bool) : ∃ s s', Run (fun s l s' => Step (sampleTopology x2apic) s l s' ∧
      (x2apicMode (sampleTopology x2apic).features = false → Alone s l)) sampleReset sampleSend s ∧
    Step (sampleTopology x2apic) s (.finish 0) s' ∧
    ∀ i, (s i).lapic.irr = ∅ ∧ (s i).lapic.enabled = true := by
  have hok := sampleTopology_ok x2apic
  have hrel : ∀ {ls : List (Label (Fin 2))} {s : Fin 2 → Cpu}, Run (fun s l s' => Step (sampleTopology x2apic) s l s' ∧
      (x2apicMode (sampleTopology x2apic).features = false → Alone s l)) sampleReset ls s → ∀ i,
      Rel (sampleTopology x2apic) (s i)
        (Spec.after (sampleTopology x2apic) (fun i => .reset (sampleReset i).lapic) ls i) := fun h =>
    (single_run hok (sampleReset_reset x2apic) h).1
  have h0 : Run (fun s l s' => Step (sampleTopology x2apic) s l s' ∧
      (x2apicMode (sampleTopology x2apic).features = false → Alone s l)) sampleReset [] sampleReset := .nil _
  obtain ⟨l₁, hl₁⟩ := ((hrel h0 0).agrees hok _).setup rfl 1000
  have h1 := h0.snoc ⟨.setup rfl hl₁, fun _ => trivial⟩
  obtain ⟨l₂, hl₂⟩ := ((hrel h1 1).agrees hok _).setup rfl 1000
  have h2 := h1.snoc ⟨.setup rfl hl₂, fun _ => trivial⟩
  obtain ⟨l₃, icr, hl₃⟩ := ((hrel h2 0).agrees hok ((sampleTopology x2apic).bsp 0)).send 1 0x41
  have h3 := h2.snoc ⟨.send rfl (by decide) hl₃, fun _ => rfl⟩
  obtain ⟨sent, hsent⟩ := ((hrel h3 0).agrees hok ((sampleTopology x2apic).bsp 0)).finish icr [] rfl
  refine ⟨_, _, h3, @Step.finish (Fin 2) _ _ _ 0 icr [] sent rfl hsent, fun i => ?_⟩
  rw [(hrel h3 i).pending, (hrel h3 i).accepting]
  cases x2apic <;> fin_cases i <;> exact ⟨by decide, by decide⟩

/-- With xAPICs and with x2APICs. -/
theorem ipis_reach_target_sample :
    (∃ s s', Run (fun s l s' => Step (sampleTopology false) s l s' ∧
        (x2apicMode (sampleTopology false).features = false → Alone s l)) sampleReset sampleSend s ∧
      Step (sampleTopology false) s (.finish 0) s' ∧ (s' 0).lapic.irr = ∅ ∧ (s' 1).lapic.irr = {0x41}) ∧
    ∃ s s', Run (fun s l s' => Step (sampleTopology true) s l s' ∧
        (x2apicMode (sampleTopology true).features = false → Alone s l)) sampleReset sampleSend s ∧
      Step (sampleTopology true) s (.finish 0) s' ∧ (s' 0).lapic.irr = ∅ ∧ (s' 1).lapic.irr = {0x41} := by
  have hother : ¬ (sampleTopology false).cpuid 0 = 1 := by decide
  constructor
  · obtain ⟨s, s', hrun, hstep, hs⟩ := sampleSend_run false
    have hreach := ipis_reach_target (sampleTopology_ok false) (sampleReset_reset false) hrun hstep
      (show _ = [((1 : Cpuid), (0x41 : BitVec 8))] from rfl)
    refine ⟨s, s', hrun, hstep, (hreach 0).trans ?_, (hreach 1).trans ?_⟩
    · rw [if_neg fun h => hother h.1, (hs 0).1]
    · rw [if_pos ⟨rfl, (hs 1).2⟩, (hs 1).1]
      rfl
  · obtain ⟨s, s', hrun, hstep, hs⟩ := sampleSend_run true
    have hreach := ipis_reach_target (sampleTopology_ok true) (sampleReset_reset true) hrun hstep
      (show _ = [((1 : Cpuid), (0x41 : BitVec 8))] from rfl)
    refine ⟨s, s', hrun, hstep, (hreach 0).trans ?_, (hreach 1).trans ?_⟩
    · rw [if_neg fun h => hother h.1, (hs 0).1]
    · rw [if_pos ⟨rfl, (hs 1).2⟩, (hs 1).1]
      rfl

end Apic

end HyveMind
