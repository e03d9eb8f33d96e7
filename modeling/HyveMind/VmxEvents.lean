import HyveMind.Lib.Run

/-! # Events for the guest

The part of `arch/x64/vmx/vmx.c` and `arch/x64/vmx/x86_emulate.c` that gives interrupts and exceptions to a
guest.  In front of every VM entry `vmx_external_irqs_entry_helper` injects an external interrupt or asks for
an exit as soon as the guest can take one; after a VM exit the emulation of an instruction can inject an
exception.  Both write the same field of the VMCS.

`vcpu_has_external_irq` and `vcpu_get_external_irq`, `guest_io_instruction` and `guest_apic_register_write` are
parameters: what the first two return is part of `Intr`, and what the others do to `rip` and which exception
they inject is part of `Exit`.  `none` is a call of `die` or of a null pointer. -/

namespace HyveMind

namespace VmxEvents

open Lib

def irqUdVector : ℕ := 0x06
def irqGpVector : ℕ := 0x0d

/-- `INJECT_EVENT_TYPE_EXT_INTERRUPT` -/
def extInterrupt : BitVec 3 := 0

/-- `INJECT_EVENT_TYPE_HW_EXCEPTION` -/
def hwException : BitVec 3 := 3

/-- `union vmcs_event_inject`, without the fields that stay zero. -/
structure VmcsEventInject where
  vector : BitVec 8
  type : BitVec 3
  errorCode : Bool
  valid : Bool

def VmcsEventInject.raw (e : VmcsEventInject) : BitVec 32 :=
  BitVec.ofBool e.valid ++ 0#19 ++ BitVec.ofBool e.errorCode ++ e.type ++ e.vector

/-- The fields of the VMCS. -/
structure Vmcs where
  injectedEventIdentification : BitVec 32
  injectedEventErrorCode : BitVec 32
  primaryProcBasedCtls : BitVec 32
  guestRip : BitVec 64
  guestRsp : BitVec 64
  guestRflags : BitVec 64
  guestActivityState : BitVec 64
  guestInterruptibilityState : BitVec 64

/-- The fields of `struct vcpu_user_regs`. -/
structure UserRegs where
  rip : BitVec 64
  rsp : BitVec 64
  rflags : BitVec 64
  rax : BitVec 64
  rbx : BitVec 64
  rcx : BitVec 64
  rdx : BitVec 64

structure Vcpu where
  vmcs : Vmcs
  regs : UserRegs

/-! ### The functions -/

/-- `vmwrite(INJECTED_EVENT_IDENTIFICATION, …)` -/
def Vcpu.setEvent (v : Vcpu) (e : VmcsEventInject) : Vcpu :=
  { v with vmcs := { v.vmcs with injectedEventIdentification := e.raw } }

/-- `vmx_inject_exception` -/
def vmxInjectException (v : Vcpu) (vector : ℕ) (errorCode : ℤ) : Vcpu :=
  if vector = irqUdVector then v.setEvent ⟨BitVec.ofNat 8 vector, hwException, false, true⟩
  else
    let v := { v with vmcs := { v.vmcs with injectedEventErrorCode := BitVec.ofInt 32 errorCode } }
    v.setEvent ⟨BitVec.ofNat 8 vector, hwException, true, true⟩

/-- `vmx_inject_ext_intr` -/
def vmxInjectExtIntr (v : Vcpu) (vector : BitVec 8) : Vcpu :=
  v.setEvent ⟨vector, extInterrupt, false, true⟩

/-- The bit `interrupt_window_exiting`. -/
def intrWindowExiting : BitVec 32 := 0x4

/-- `vmx_set_intr_window_exiting_ctrl` -/
def vmxSetIntrWindowExitingCtrl (v : Vcpu) (val : Bool) : Vcpu :=
  let ctls := v.vmcs.primaryProcBasedCtls
  let ctls := if val then ctls ||| intrWindowExiting else ctls &&& ~~~intrWindowExiting
  { v with vmcs := { v.vmcs with primaryProcBasedCtls := ctls } }

/-- `__vmx_entry_helper` -/
def vmxEntryHelper (v : Vcpu) : Vcpu :=
  { v with
    vmcs := { v.vmcs with guestRip := v.regs.rip, guestRsp := v.regs.rsp, guestRflags := v.regs.rflags } }

/-- What `vmx_external_irqs_entry_helper` finds. -/
structure Intr where
  /-- `vcpu_has_external_irq` -/
  hasExternalIrq : Bool
  /-- `vpic_has_pending_irq` -/
  pendingIrq : Bool
  /-- The result of `vcpu_get_external_irq`, if it is called. -/
  irq : ℤ

/-- Whether the guest can take an interrupt. -/
def interruptible (v : Vcpu) : Bool :=
  v.regs.rflags.getLsbD 9 && v.vmcs.guestActivityState == 0 &&
    v.vmcs.guestInterruptibilityState.setWidth 32 == 0#32

/-- `vmx_external_irqs_entry_helper`, with the vector for which `vcpu_get_external_irq` was called. -/
def vmxExternalIrqsEntryHelper (v : Vcpu) (q : Intr) : Vcpu × Option (BitVec 8) :=
  if !q.hasExternalIrq then (v, none)
  else if !q.pendingIrq then (v, none)
  else if !interruptible v then (vmxSetIntrWindowExitingCtrl v true, none)
  else
    let irq := BitVec.ofInt 8 q.irq
    (vmxInjectExtIntr v irq, some irq)

inductive ExitReason
  | extIntr | intrWindow | cpuid | ioInstruction | rdmsr | wrmsr | xsetbv | apicWrite | other
deriving DecidableEq, Repr

/-- An exception: the vector and the error code that `vmx_inject_exception` is called with. -/
abbrev Exception := ℕ × ℤ

/-- `cpuid_result_t` -/
structure CpuidResult where
  eax : BitVec 32
  ebx : BitVec 32
  ecx : BitVec 32
  edx : BitVec 32

/-- What is known of a VM exit, what the processor's `cpuid` says, and what the emulation of a device does. -/
structure Exit where
  reason : ExitReason
  instructionLength : BitVec 64
  cpuidRaw : BitVec 64 → BitVec 64 → CpuidResult
  deviceRip : BitVec 64
  deviceException : Option Exception

def Vcpu.setRip (v : Vcpu) (rip : BitVec 64) : Vcpu := { v with regs := { v.regs with rip := rip } }

def Vcpu.injectAny (v : Vcpu) : Option Exception → Vcpu
  | none => v
  | some e => vmxInjectException v e.1 e.2

/-- The characters of `hyvemind_id`. -/
def hyvemindId : CpuidResult := ⟨0, 0x65767968, 0x646e696d, 0x00202020⟩

/-- `emulate_cpuid` -/
def emulateCpuid (v : Vcpu) (x : Exit) : Vcpu :=
  let res := if v.regs.rax = 0x40000000 then hyvemindId else x.cpuidRaw v.regs.rax v.regs.rcx
  { v with
    regs := { v.regs with
      rax := res.eax.setWidth 64
      rbx := res.ebx.setWidth 64
      rcx := res.ecx.setWidth 64
      rdx := res.edx.setWidth 64
      rip := v.regs.rip + x.instructionLength } }

/-- The exception of `emulate_rdmsr`. -/
def emulateRdmsr : Exception := (irqGpVector, 0)

/-- `emulate_xsetbv`, with the exception that it injects. -/
def emulateXsetbv (v : Vcpu) (x : Exit) : Vcpu × Option Exception :=
  if v.regs.rcx ≠ 0 then (v.injectAny (some (irqUdVector, 0)), some (irqUdVector, 0))
  else (v.setRip (v.regs.rip + x.instructionLength), none)

/-- `vmx_vm_exit_handler` after an exit that is no failed entry, with the exception that is injected.
`emulate_ops` has no `emulate_wrmsr`. -/
def vmxVmExitHandler (v : Vcpu) (x : Exit) : Option (Vcpu × Option Exception) :=
  let v := { v with
    regs := { v.regs with rip := v.vmcs.guestRip, rsp := v.vmcs.guestRsp, rflags := v.vmcs.guestRflags } }
  match x.reason with
  | .extIntr => some (v, none)
  | .intrWindow => some (vmxSetIntrWindowExitingCtrl v false, none)
  | .cpuid => some (emulateCpuid v x, none)
  | .ioInstruction | .apicWrite =>
      some ((v.setRip x.deviceRip).injectAny x.deviceException, x.deviceException)
  | .rdmsr => some (v.injectAny (some emulateRdmsr), some emulateRdmsr)
  | .wrmsr => none
  | .xsetbv => some (emulateXsetbv v x)
  | .other => none

/-! ### The processor -/

/-- An event as the processor delivers it to the guest. -/
structure Event where
  type : BitVec 3
  vector : BitVec 8
  errorCode : Option (BitVec 32)
deriving DecidableEq, Repr

/-- The event that a VM entry delivers. -/
def Vmcs.event (m : Vmcs) : Option Event :=
  let id := m.injectedEventIdentification
  if id.getLsbD 31 then
    some ⟨id.extractLsb' 8 3, id.extractLsb' 0 8, if id.getLsbD 11 then some m.injectedEventErrorCode else none⟩
  else none

/-- What a VM exit saves of the guest. -/
structure Saved where
  rip : BitVec 64
  rsp : BitVec 64
  rflags : BitVec 64
  rax : BitVec 64
  rbx : BitVec 64
  rcx : BitVec 64
  rdx : BitVec 64
  activityState : BitVec 64
  interruptibilityState : BitVec 64

/-- A VM exit; the event is no longer valid. -/
def Vcpu.exit (v : Vcpu) (g : Saved) : Vcpu where
  vmcs := { v.vmcs with
    injectedEventIdentification := v.vmcs.injectedEventIdentification &&& ~~~0x80000000#32
    guestRip := g.rip
    guestRsp := g.rsp
    guestRflags := g.rflags
    guestActivityState := g.activityState
    guestInterruptibilityState := g.interruptibilityState }
  regs := { v.regs with rax := g.rax, rbx := g.rbx, rcx := g.rcx, rdx := g.rdx }

/-- The events that the functions make. -/
def Event.ofIrq (vector : BitVec 8) : Event := ⟨extInterrupt, vector, none⟩

def Event.ofException (e : Exception) : Event :=
  ⟨hwException, BitVec.ofNat 8 e.1, if e.1 = irqUdVector then none else some (BitVec.ofInt 32 e.2)⟩

theorem event_raw (m : Vmcs) (e : VmcsEventInject) :
    Vmcs.event { m with injectedEventIdentification := e.raw } =
      if e.valid then some ⟨e.type, e.vector, if e.errorCode then some m.injectedEventErrorCode else none⟩
      else none := by
  obtain ⟨vector, type, errorCode, valid⟩ := e
  have hbit : ∀ i, (VmcsEventInject.raw ⟨vector, type, errorCode, valid⟩).getLsbD i =
      if i < 8 then vector.getLsbD i
      else if i - 8 < 3 then type.getLsbD (i - 8)
      else if i - 8 - 3 < 1 then (BitVec.ofBool errorCode).getLsbD (i - 8 - 3)
      else if i - 8 - 3 - 1 < 19 then false
      else (BitVec.ofBool valid).getLsbD (i - 8 - 3 - 1 - 19) := by
    intro i
    simp only [VmcsEventInject.raw, BitVec.getLsbD_append, BitVec.getLsbD_zero]
  have hvalid : (VmcsEventInject.raw ⟨vector, type, errorCode, valid⟩).getLsbD 31 = valid := by
    rw [hbit]
    simp
  have hcode : (VmcsEventInject.raw ⟨vector, type, errorCode, valid⟩).getLsbD 11 = errorCode := by
    rw [hbit]
    simp
  have htype : (VmcsEventInject.raw ⟨vector, type, errorCode, valid⟩).extractLsb' 8 3 = type := by
    refine BitVec.eq_of_getLsbD_eq fun i hi => ?_
    rw [BitVec.getLsbD_extractLsb', hbit, if_neg (by omega), Nat.add_sub_cancel_left, if_pos hi,
      decide_eq_true hi, Bool.true_and]
  have hvector : (VmcsEventInject.raw ⟨vector, type, errorCode, valid⟩).extractLsb' 0 8 = vector := by
    refine BitVec.eq_of_getLsbD_eq fun i hi => ?_
    rw [BitVec.getLsbD_extractLsb', hbit, Nat.zero_add, if_pos hi, decide_eq_true hi, Bool.true_and]
  rw [Vmcs.event]
  dsimp only
  rw [hvalid, hcode, htype, hvector]

theorem event_setEvent (v : Vcpu) (e : VmcsEventInject) : (v.setEvent e).vmcs.event =
    if e.valid then some ⟨e.type, e.vector, if e.errorCode then some v.vmcs.injectedEventErrorCode else none⟩
    else none := event_raw v.vmcs e

theorem event_injectExtIntr (v : Vcpu) (vector : BitVec 8) :
    (vmxInjectExtIntr v vector).vmcs.event = some (.ofIrq vector) := event_setEvent v _

theorem event_injectException (v : Vcpu) (e : Exception) :
    (vmxInjectException v e.1 e.2).vmcs.event = some (.ofException e) := by
  unfold vmxInjectException Event.ofException
  split_ifs with hud
  · exact event_setEvent _ _
  · exact event_setEvent _ _

theorem event_injectAny (v : Vcpu) {x : Option Exception} (hv : v.vmcs.event = none) :
    (v.injectAny x).vmcs.event = x.map Event.ofException := by
  cases x with
  | none => exact hv
  | some e => exact event_injectException v e

theorem event_exit (v : Vcpu) (g : Saved) : (v.exit g).vmcs.event = none := by
  have hclear : ((v.exit g).vmcs.injectedEventIdentification).getLsbD 31 = false := by
    rw [show (v.exit g).vmcs.injectedEventIdentification =
      v.vmcs.injectedEventIdentification &&& ~~~0x80000000#32 from rfl, BitVec.getLsbD_and]
    simp
  simp only [Vmcs.event, hclear]
  rfl

/-! ### Entries and exits -/

inductive Phase
  | host | guest | returned
deriving DecidableEq, Repr

structure State where
  vcpu : Vcpu
  phase : Phase

inductive Label
  /-- A VM entry: what the helper found, the vector that it took, and what the guest is given. -/
  | enter (q : Intr) (taken : Option (BitVec 8)) (given : Option Event)
  | exit (g : Saved) (x : Exit) (raised : Option Exception)
  /-- An entry that fails: what the helper found, and the vector that it took. -/
  | fail (q : Intr) (taken : Option (BitVec 8))

/-- What is done in front of a VM entry. -/
def prepare (v : Vcpu) (q : Intr) : Vcpu × Option (BitVec 8) :=
  vmxExternalIrqsEntryHelper (vmxEntryHelper v) q

inductive Step : State → Label → State → Prop
  | enter {v : Vcpu} (q : Intr) :
      Step ⟨v, .host⟩ (.enter q (prepare v q).2 (prepare v q).1.vmcs.event) ⟨(prepare v q).1, .guest⟩
  /-- `vmlaunch` or `vmresume` fails. -/
  | enterFails {v : Vcpu} (q : Intr) : Step ⟨v, .host⟩ (.fail q (prepare v q).2) ⟨(prepare v q).1, .returned⟩
  /-- The processor exits at once, with `vm_entry_failure`. -/
  | entryFailure {v v' : Vcpu} (q : Intr) : Step ⟨v, .host⟩ (.fail q (prepare v q).2) ⟨v', .returned⟩
  | exit {v v' : Vcpu} (g : Saved) {x : Exit} {raised : Option Exception}
      (h : vmxVmExitHandler (v.exit g) x = some (v', raised)) :
      Step ⟨v, .guest⟩ (.exit g x raised) ⟨v', .host⟩

variable {v v' v₀ : Vcpu} {s s' : State} {ls : List Label} {q : Intr} {taken : Option (BitVec 8)}
  {given : Option Event} {x : Exit} {raised : Option Exception}

theorem vmxVmExitHandler_event (hv : v.vmcs.event = none) (h : vmxVmExitHandler v x = some (v', raised)) :
    v'.vmcs.event = raised.map Event.ofException := by
  unfold vmxVmExitHandler at h
  cases hreason : x.reason <;> simp only [hreason, Option.some.injEq, Prod.mk.injEq, reduceCtorEq] at h
  case extIntr | cpuid =>
    obtain ⟨rfl, rfl⟩ := h
    exact hv
  case intrWindow =>
    obtain ⟨rfl, rfl⟩ := h
    exact hv
  case ioInstruction | apicWrite | rdmsr =>
    obtain ⟨rfl, rfl⟩ := h
    exact event_injectAny _ hv
  case xsetbv =>
    unfold emulateXsetbv at h
    split_ifs at h
    · obtain ⟨rfl, rfl⟩ := Prod.mk.inj h
      exact event_injectAny _ hv
    · obtain ⟨rfl, rfl⟩ := Prod.mk.inj h
      exact hv

/-- What `vmx_external_irqs_entry_helper` does, case by case. -/
theorem prepare_cases (v : Vcpu) (q : Intr) :
    ((q.hasExternalIrq && q.pendingIrq) = false ∧ prepare v q = (vmxEntryHelper v, none)) ∨
    ((q.hasExternalIrq && q.pendingIrq) = true ∧ interruptible (vmxEntryHelper v) = false ∧
      prepare v q = (vmxSetIntrWindowExitingCtrl (vmxEntryHelper v) true, none)) ∨
    ((q.hasExternalIrq && q.pendingIrq) = true ∧ interruptible (vmxEntryHelper v) = true ∧
      prepare v q = (vmxInjectExtIntr (vmxEntryHelper v) (BitVec.ofInt 8 q.irq), some (BitVec.ofInt 8 q.irq))) := by
  unfold prepare vmxExternalIrqsEntryHelper
  cases hhas : q.hasExternalIrq with
  | false => exact .inl ⟨rfl, rfl⟩
  | true =>
      cases hpending : q.pendingIrq with
      | false => exact .inl ⟨rfl, rfl⟩
      | true =>
          cases hint : interruptible (vmxEntryHelper v) with
          | false => exact .inr (.inl ⟨rfl, rfl, by simp⟩)
          | true => exact .inr (.inr ⟨rfl, rfl, by simp⟩)

theorem prepare_event (v : Vcpu) (q : Intr) : (prepare v q).1.vmcs.event =
    ((prepare v q).2.map Event.ofIrq).or v.vmcs.event := by
  rcases prepare_cases v q with ⟨-, hp⟩ | ⟨-, -, hp⟩ | ⟨-, -, hp⟩ <;> rw [hp]
  · rfl
  · rfl
  · exact event_injectExtIntr _ _

/-! ### Runs -/

/-- The exception of the exit that was last, if there is one. -/
def lastRaised (ls : List Label) : Option Exception :=
  match ls.getLast? with
  | some (.exit _ _ raised) => raised
  | _ => none

theorem lastRaised_append (ls : List Label) (l : Label) : lastRaised (ls ++ [l]) = lastRaised [l] := by
  simp [lastRaised]

/-- In the host the VMCS holds the exception of the last exit. -/
def Inv (ls : List Label) (s : State) : Prop :=
  s.phase = .host → s.vcpu.vmcs.event = (lastRaised ls).map Event.ofException

theorem inv_run (hboot : v₀.vmcs.event = none) (hrun : Run Step ⟨v₀, .host⟩ ls s) : Inv ls s := by
  refine hrun.history (I := Inv) (fun _ => hboot) ?_
  rintro ls s l s' - hstep hphase
  cases hstep with
  | enter => cases hphase
  | enterFails => cases hphase
  | exit g h =>
      rw [lastRaised_append]
      exact vmxVmExitHandler_event (event_exit _ g) h
  | entryFailure => cases hphase

theorem run_snoc {front : List Label} {l : Label} (hrun : Run Step ⟨v₀, .host⟩ (front ++ [l]) s) :
    ∃ s₁, Run Step ⟨v₀, .host⟩ front s₁ ∧ Step s₁ l s := by
  generalize hls : front ++ [l] = ls at hrun
  cases hrun with
  | nil => simp at hls
  | snoc hrun hstep =>
      obtain ⟨rfl, hl⟩ := List.append_inj' hls rfl
      obtain rfl := List.singleton_inj.mp hl
      exact ⟨_, hrun, hstep⟩

/-- An instruction whose emulation raises an exception is not skipped. -/
theorem vmxVmExitHandler_rip {g : Saved} (hx : x.reason = .rdmsr ∨ x.reason = .xsetbv) {e : Exception}
    (h : vmxVmExitHandler (v.exit g) x = some (v', some e)) : v'.regs.rip = g.rip := by
  have hinject : ∀ (v : Vcpu) (y : Option Exception), (v.injectAny y).regs = v.regs := by
    intro v y
    cases y with
    | none => rfl
    | some y =>
        unfold Vcpu.injectAny vmxInjectException
        dsimp only
        split_ifs <;> rfl
  unfold vmxVmExitHandler at h
  rcases hx with hx | hx
  · simp only [hx, Option.some.injEq, Prod.mk.injEq] at h
    rw [← h.1, hinject]
    rfl
  · simp only [hx, Option.some.injEq] at h
    unfold emulateXsetbv at h
    split_ifs at h
    · rw [← (Prod.mk.inj h).1, hinject]
      rfl
    · cases (Prod.mk.inj h).2

theorem or_and_self_right {w : ℕ} (a b : BitVec w) : (a ||| b) &&& b = b := by
  refine BitVec.eq_of_getLsbD_eq fun i _ => ?_
  rw [BitVec.getLsbD_and, BitVec.getLsbD_or]
  cases b.getLsbD i <;> simp

/-- At every VM entry of a run: an external interrupt is injected only if the guest can take it and one is
pending; if one is pending and the guest cannot take it, the guest runs with interrupt-window exiting; the guest
is given the interrupt that was taken, else the exception that was raised at the exit before.  Where an
interrupt displaces an exception, the guest comes back to the instruction that raises it. -/
theorem entry_events {front : List Label} (hboot : v₀.vmcs.event = none)
    (hrun : Run Step ⟨v₀, .host⟩ (front ++ [.enter q taken given]) s) :
    given = (taken.map Event.ofIrq).or ((lastRaised front).map Event.ofException) ∧
    (∀ irq, taken = some irq → irq = BitVec.ofInt 8 q.irq ∧ q.hasExternalIrq = true ∧ q.pendingIrq = true ∧
      s.vcpu.vmcs.guestRflags.getLsbD 9 = true ∧ s.vcpu.vmcs.guestActivityState = 0 ∧
      s.vcpu.vmcs.guestInterruptibilityState.setWidth 32 = 0#32) ∧
    (taken = none → q.hasExternalIrq = true → q.pendingIrq = true →
      s.vcpu.vmcs.primaryProcBasedCtls &&& intrWindowExiting = intrWindowExiting) ∧
    (∀ front' g x e, front = front' ++ [.exit g x (some e)] → x.reason = .rdmsr ∨ x.reason = .xsetbv →
      s.vcpu.vmcs.guestRip = g.rip) := by
  obtain ⟨s₁, hrun₁, hstep⟩ := run_snoc hrun
  have hinv := inv_run hboot hrun₁
  generalize hl : Label.enter q taken given = l at hstep
  cases hstep with
  | @enter v q' =>
      obtain ⟨rfl, rfl, rfl⟩ := Label.enter.inj hl
      have hevent : v.vmcs.event = (lastRaised front).map Event.ofException := hinv rfl
      refine ⟨?_, fun irq htaken => ?_, fun htaken hhas hpending => ?_, fun front' g x e hfront hx => ?_⟩
      · rw [prepare_event, hevent]
      · rcases prepare_cases v q with ⟨-, hp⟩ | ⟨-, -, hp⟩ | ⟨hq, hint, hp⟩
        · rw [hp] at htaken
          cases htaken
        · rw [hp] at htaken
          cases htaken
        · rw [hp] at htaken ⊢
          rw [Bool.and_eq_true] at hq
          simp only [interruptible, Bool.and_eq_true, beq_iff_eq] at hint
          exact ⟨(Option.some.inj htaken).symm, hq.1, hq.2, hint.1.1, hint.1.2, hint.2⟩
      · rcases prepare_cases v q with ⟨hq, -⟩ | ⟨-, -, hp⟩ | ⟨-, -, hp⟩
        · rw [hhas, hpending] at hq
          cases hq
        · rw [hp]
          exact or_and_self_right _ _
        · rw [hp] at htaken
          cases htaken
      · subst hfront
        obtain ⟨s₂, -, hexit⟩ := run_snoc hrun₁
        generalize hl : Label.exit g x (some e) = l at hexit
        cases hexit with
        | exit g' h =>
            obtain ⟨rfl, rfl, rfl⟩ := Label.exit.inj hl
            have hrip := vmxVmExitHandler_rip hx h
            rcases prepare_cases v q with ⟨-, hp⟩ | ⟨-, -, hp⟩ | ⟨-, -, hp⟩ <;> rw [hp] <;> exact hrip
  | enterFails => cases hl
  | exit => cases hl
  | entryFailure => cases hl

/-- A vCPU with interrupts enabled. -/
def sample : Vcpu := ⟨⟨0, 0, 0, 0, 0, 0, 0, 0⟩, ⟨0, 0, 0x202, 0, 0, 0, 0⟩⟩

theorem sample_event : sample.vmcs.event = none := by decide

/-- An `rdmsr` at `0x100` raises an exception, and vector `0x20` is pending. -/
theorem displaced_run : ∃ front s, lastRaised front = some emulateRdmsr ∧
    Run Step ⟨sample, .host⟩
      (front ++ [.enter ⟨true, true, 0x20⟩ (some 0x20) (some (.ofIrq 0x20))]) s := by
  have h := (Run.nil _).snoc (Step.enter (v := sample) ⟨false, false, 0⟩)
  have h := h.snoc (Step.exit ⟨0x100, 0, 0x202, 0, 0, 0, 0, 0, 0⟩
    (x := ⟨.rdmsr, 2, fun _ _ => hyvemindId, 0, none⟩) rfl)
  exact ⟨_, _, rfl, h.snoc (Step.enter ⟨true, true, 0x20⟩)⟩

theorem entry_events_displaced : ∃ s : State, s.vcpu.vmcs.guestRflags.getLsbD 9 = true := by
  obtain ⟨front, s, -, hrun⟩ := displaced_run
  obtain ⟨-, htaken, -⟩ := entry_events sample_event hrun
  exact ⟨s, (htaken 0x20 rfl).2.2.2.1⟩

end VmxEvents

end HyveMind
