import HyveMind.Lib.X86

/-! # Entering and leaving a guest

`arch/x64/vmx/entry.S`: `vmx_execute_vcpu` saves the registers of its caller, sets up the stack that every VM
exit will find, and enters the guest; `asm_vmx_vm_exit_handler` is where the processor goes on after an
exit, with the registers of the guest.  The listing is taken block by block; the numeric labels `1:` and
the places behind calls have got names.

The C functions keep to the calling convention and are otherwise arbitrary, and so is the guest: it leaves
any values in the registers, but not in the host's stack.  `USREG_…` are the offsets in
`struct vcpu_user_regs`; `VCPU_VMX_LS_OFFSET` is a parameter. -/

namespace HyveMind

namespace VmxEntry

open Lib X86

/-! ### The listing -/

def vmxSuccess : BitVec 64 := 0
def vmxInvalidLaunchState : BitVec 64 := 31
def vmxVmlaunchFailed : BitVec 64 := 32
def vmxVmresumeFailed : BitVec 64 := 33
def vmxVmEntryError : BitVec 64 := 34
def vmxError : BitVec 64 := 35

def vmcsLsInvalidVal : BitVec 64 := 0x00
def vmcsLsClearVal : BitVec 64 := 0x01

def usregRdi : ℕ := 104
def usregR8 : ℕ := 56

/-- The registers of `save_guest_regs` and their `USREG_…`. -/
def savedRegs : List (Reg × ℕ) :=
  [(.r15, 0), (.r14, 8), (.r13, 16), (.r12, 24), (.r11, 32), (.r10, 40), (.r9, 48), (.r8, usregR8),
    (.rax, 64), (.rbx, 72), (.rcx, 80), (.rdx, 88), (.rsi, 96), (.rbp, 112)]

/-- The registers of `load_guest_regs` without the last one. -/
def loadedRegs : List (Reg × ℕ) :=
  [(.r15, 0), (.r14, 8), (.r13, 16), (.r12, 24), (.r11, 32), (.r10, 40), (.r9, 48), (.rax, 64), (.rbx, 72),
    (.rcx, 80), (.rdx, 88), (.rsi, 96), (.rdi, usregRdi), (.rbp, 112)]

/-- The general-purpose registers of the guest that the struct holds. -/
def guestRegs : List (Reg × ℕ) := (.rdi, usregRdi) :: savedRegs

/-- The size of what is written of the struct. -/
def usregsSize : ℕ := 120

def setupStackFrame : List Instr := [.push .rbp, .mov .rsp .rbp]

def calleePreservedRegs : List Reg := [.r15, .r14, .r13, .r12, .rbx]

def pushCalleePreservedRegs : List Instr := calleePreservedRegs.map .push

def popCalleePreservedRegs : List Instr := calleePreservedRegs.reverse.map .pop

/-- `load_guest_regs` -/
def loadGuestRegs (ptrReg : Reg) : List Instr := loadAll ptrReg loadedRegs ++ [.load usregR8 ptrReg .r8]

/-- `save_guest_regs` -/
def saveGuestRegs (ptrReg : Reg) : List Instr := saveAndClear ptrReg savedRegs

inductive Label
  | getVcpuLaunchState
  | asmVmxVmExitHandler | exitHandled | exitHandlerError
  | asmVmxVmEntryHandler | entryPrepared | entryHelperError
  | externalIrqs | externalIrqsDone | launchStateRead | launchStateInvalid | launchStateValid
  | lvmresumeOp | vmresumeFailed | lvmlaunchOp | vmlaunchFailed
  | lout | cleanedUp
  | vmxExecuteVcpuImpl | vcpuPrepared | vcpuPrepError | lvcpuPrepSuccess | exitHandlerRspSet
  | vmxExecuteVcpu | vmxExecuteVcpuReturn
deriving DecidableEq, Repr

/-- What the listing calls, and the two instructions that enter the guest. -/
inductive Extern
  | vmxPrepareVcpuExecution | vmxSetExitHandlerRsp | vmxExternalIrqsEntryHelper | vmxEntryHelper
  | vmxVmExitHandler | vmxEntryFailureCleanup
  | vmresume | vmlaunch
deriving DecidableEq, Repr

/-- The blocks. -/
def block (vcpuVmxLsOffset : BitVec 64) : Label → List Instr × Transfer Label Extern
  | .getVcpuLaunchState =>
      (setupStackFrame ++ [.mov .rdi .r10, .addImm vcpuVmxLsOffset .r10, .loadLong 0 .r10 .rax, .leave], .ret)
  | .asmVmxVmExitHandler =>
      ([.push .rdi, .load 0x08 .rsp .rdi] ++ saveGuestRegs .rdi ++
        [.pop .r8, .store .r8 usregRdi .rdi, .clear .r8, .mov .rsp .rbp, .addImm 0x10 .rbp,
          .load 0x08 .rsp .rdi], .ext .vmxVmExitHandler .exitHandled)
  | .exitHandled => ([.cmpImm vmxSuccess .rax], .je .asmVmxVmEntryHandler .exitHandlerError)
  | .exitHandlerError => ([.leave], .ret)
  | .asmVmxVmEntryHandler =>
      ([.load 0x08 .rsp .r12, .load 0x00 .rsp .r13, .mov .r12 .rdi], .ext .vmxEntryHelper .entryPrepared)
  | .entryPrepared => ([.cmpImm vmxSuccess .rax], .je .externalIrqs .entryHelperError)
  | .entryHelperError => ([.movImm vmxVmEntryError .rax], .jmp .lout)
  | .externalIrqs => ([.mov .r12 .rdi], .ext .vmxExternalIrqsEntryHelper .externalIrqsDone)
  | .externalIrqsDone => ([.mov .r12 .rdi], .call .getVcpuLaunchState .launchStateRead)
  | .launchStateRead =>
      ([.mov .rax .r10, .cmpImm vmcsLsInvalidVal .r10], .je .launchStateInvalid .launchStateValid)
  | .launchStateInvalid => ([.movImm vmxInvalidLaunchState .rax], .jmp .lout)
  | .launchStateValid => ([.cmpImm vmcsLsClearVal .r10], .je .lvmlaunchOp .lvmresumeOp)
  | .lvmresumeOp => (.mov .r13 .r8 :: loadGuestRegs .r8, .ext .vmresume .vmresumeFailed)
  | .vmresumeFailed => ([.movImm vmxVmresumeFailed .rax], .jmp .lout)
  | .lvmlaunchOp => (.mov .r13 .r8 :: loadGuestRegs .r8, .ext .vmlaunch .vmlaunchFailed)
  | .vmlaunchFailed => ([.movImm vmxVmlaunchFailed .rax], .jmp .lout)
  | .lout =>
      ([.mov .rsp .rbp, .addImm 0x10 .rbp, .load 0x08 .rsp .rdi, .push .rax],
        .ext .vmxEntryFailureCleanup .cleanedUp)
  | .cleanedUp => ([.pop .rax, .leave], .ret)
  | .vmxExecuteVcpuImpl =>
      (setupStackFrame ++ [.push .rdi, .push .rsi], .ext .vmxPrepareVcpuExecution .vcpuPrepared)
  | .vcpuPrepared => ([.cmpImm 0x00 .rax], .je .lvcpuPrepSuccess .vcpuPrepError)
  | .vcpuPrepError => ([.movImm vmxError .rax, .leave], .ret)
  | .lvcpuPrepSuccess => ([.mov .rsp .rdi], .ext .vmxSetExitHandlerRsp .exitHandlerRspSet)
  | .exitHandlerRspSet => ([], .jmp .asmVmxVmEntryHandler)
  | .vmxExecuteVcpu =>
      (setupStackFrame ++ pushCalleePreservedRegs, .call .vmxExecuteVcpuImpl .vmxExecuteVcpuReturn)
  | .vmxExecuteVcpuReturn => (popCalleePreservedRegs ++ [.leave], .ret)

/-! ### The world around it -/

/-- The field `HOST_RSP` of the current VMCS. -/
structure Env where
  hostRsp : BitVec 64

/-- Which of the external steps are calls of C functions that leave `HOST_RSP` alone. -/
def Extern.isCall : Extern → Bool
  | .vmxSetExitHandlerRsp | .vmresume | .vmlaunch => false
  | _ => true

def Extern.isEntry : Extern → Bool
  | .vmresume | .vmlaunch => true
  | _ => false

inductive ExternStep (top : ℕ) : External Label Extern Env
  | ccall {e : Extern} {l : Label} {s s' : Cpu} {h : Env} (he : e.isCall = true) (hc : CCall top s s') :
      ExternStep top e l (s, h) (l, s', h)
  | setExitHandlerRsp {l : Label} {s s' : Cpu} {h : Env} (hc : CCall top s s') :
      ExternStep top .vmxSetExitHandlerRsp l (s, h) (l, s', ⟨s.regs .rdi⟩)
  /-- The instruction fails; execution goes on behind it. -/
  | entryFails {e : Extern} {l : Label} {s : Cpu} {h : Env} (z : Bool) (he : e.isEntry = true) :
      ExternStep top e l (s, h) (l, { s with zf := z }, h)
  /-- The guest runs until the next exit. -/
  | exit {e : Extern} {l : Label} {s s' : Cpu} {h : Env} (he : e.isEntry = true)
      (hrsp : s'.regs .rsp = h.hostRsp)
      (hmem : ∀ b, h.hostRsp.toNat ≤ b → b < top → s'.mem b = s.mem b) :
      ExternStep top e l (s, h) (.asmVmxVmExitHandler, s', h)

/-! ### The stack -/

/-- A call of `vmx_execute_vcpu`: the state at its entry, the address of the return address, the return
address, what the caller has on the stack above it, and where the blocks are. -/
structure Entered where
  cpu : Cpu
  sp : ℕ
  ra : BitVec 64
  content : List (BitVec 64)
  addr : Label → BitVec 64
  vcpuVmxLsOffset : BitVec 64

namespace Entered

variable (c : Entered)

def vcpu : BitVec 64 := c.cpu.regs .rdi

/-- The pointer to `struct vcpu_user_regs`. -/
def regs : BitVec 64 := c.cpu.regs .rsi

def code : Code Label Extern := ⟨block c.vcpuVmxLsOffset, c.addr⟩

/-- The end of the caller's part of the stack. -/
def top : ℕ := c.sp + 8 + 8 * c.content.length

/-- What `vmx_execute_vcpu` pushes, on top of the return address. -/
def outer : List (BitVec 64) :=
  [c.cpu.regs .rbx, c.cpu.regs .r12, c.cpu.regs .r13, c.cpu.regs .r14, c.cpu.regs .r15, c.cpu.regs .rbp] ++
    c.ra :: c.content

/-- The stack of `__vmx_execute_vcpu`, which every exit finds again. -/
def inner : List (BitVec 64) :=
  [c.regs, c.vcpu, BitVec.ofNat 64 (c.sp - 8), c.addr .vmxExecuteVcpuReturn] ++ c.outer

/-- There is room for the stack, the struct does not meet it, and the return address does not point into
the listing. -/
structure Ok : Prop where
  stack : OnStack c.cpu c.sp (c.ra :: c.content)
  room : 4096 ≤ c.sp
  apart : c.regs.toNat + usregsSize ≤ c.sp - 88 ∨ c.top ≤ c.regs.toNat
  fits : c.regs.toNat + usregsSize < 2 ^ 64
  addr : Function.Injective c.addr
  ra : ∀ l, c.ra ≠ c.addr l

/-- The state with the stack of `__vmx_execute_vcpu` and its place in the VMCS. -/
structure Framed (s : Cpu) (h : Env) : Prop where
  stack : OnStack s (c.sp - 80) c.inner
  hostRsp : h.hostRsp.toNat = c.sp - 80

/-- The launch state of the vCPU, as `get_vcpu_launch_state` reads it. -/
def launchState (s : Cpu) : BitVec 64 :=
  (s.quad (c.vcpu + c.vcpuVmxLsOffset).toNat).setWidth 32 |>.setWidth 64

/-- What holds in front of each block. -/
def Inv (s : Cpu) (h : Env) : Label → Prop
  | .vmxExecuteVcpu => s = c.cpu
  | .vmxExecuteVcpuImpl =>
      OnStack s (c.sp - 56) (c.addr .vmxExecuteVcpuReturn :: c.outer) ∧ (s.regs .rbp).toNat = c.sp - 8 ∧
        s.regs .rdi = c.vcpu ∧ s.regs .rsi = c.regs
  | .vcpuPrepared | .vcpuPrepError | .lvcpuPrepSuccess =>
      OnStack s (c.sp - 80) c.inner ∧ (s.regs .rbp).toNat = c.sp - 64
  | .exitHandlerRspSet | .asmVmxVmExitHandler | .asmVmxVmEntryHandler => c.Framed s h
  | .exitHandled => c.Framed s h ∧ (s.regs .rbp).toNat = c.sp - 64
  | .exitHandlerError => c.Framed s h ∧ (s.regs .rbp).toNat = c.sp - 64 ∧ s.regs .rax ≠ vmxSuccess
  | .entryPrepared | .entryHelperError | .externalIrqs | .externalIrqsDone =>
      c.Framed s h ∧ s.regs .r12 = c.vcpu ∧ s.regs .r13 = c.regs
  | .getVcpuLaunchState =>
      OnStack s (c.sp - 88) (c.addr .launchStateRead :: c.inner) ∧ h.hostRsp.toNat = c.sp - 80 ∧
        s.regs .rdi = c.vcpu ∧ s.regs .r13 = c.regs
  | .launchStateRead => c.Framed s h ∧ s.regs .r13 = c.regs ∧ s.regs .rax = c.launchState s
  | .launchStateInvalid => c.Framed s h
  | .launchStateValid =>
      c.Framed s h ∧ s.regs .r13 = c.regs ∧ s.regs .r10 = c.launchState s ∧
        c.launchState s ≠ vmcsLsInvalidVal
  | .lvmresumeOp =>
      c.Framed s h ∧ s.regs .r13 = c.regs ∧ c.launchState s ≠ vmcsLsInvalidVal ∧
        c.launchState s ≠ vmcsLsClearVal
  | .lvmlaunchOp => c.Framed s h ∧ s.regs .r13 = c.regs ∧ c.launchState s = vmcsLsClearVal
  | .vmresumeFailed | .vmlaunchFailed => c.Framed s h
  | .lout => c.Framed s h ∧ s.regs .rax ≠ vmxSuccess
  | .cleanedUp => ∃ rax, rax ≠ vmxSuccess ∧ OnStack s (c.sp - 88) (rax :: c.inner) ∧
      (s.regs .rbp).toNat = c.sp - 64
  | .vmxExecuteVcpuReturn =>
      OnStack s (c.sp - 48) c.outer ∧ (s.regs .rbp).toNat = c.sp - 8 ∧ s.regs .rax ≠ vmxSuccess

/-- Behind the return of `vmx_execute_vcpu`. -/
structure Returned (s : Cpu) (rip : BitVec 64) : Prop where
  rip : rip = c.ra
  stack : OnStack s (c.sp + 8) c.content
  saved : ∀ r ∈ [Reg.rbx, .rbp, .r12, .r13, .r14, .r15], s.regs r = c.cpu.regs r
  rax : s.regs .rax ≠ vmxSuccess

def InvM (m : Machine Label Env) : Prop :=
  match m.pc with
  | .at l => c.Inv m.cpu m.env l
  | .returned rip => c.Returned m.cpu rip
  | .resumed _ _ _ _ => False

variable {c} {s s' : Cpu} {h h' : Env} {l : Label} {m m' : Machine Label Env}

theorem Framed.of_eq (hf : c.Framed s h) (hr : s'.regs .rsp = s.regs .rsp) (hmem : s'.mem = s.mem) :
    c.Framed s' h :=
  ⟨hf.stack.of_eq hr hmem, hf.hostRsp⟩

theorem inner_length : c.inner.length = c.content.length + 11 := rfl

/-- The stack of `__vmx_execute_vcpu` ends where the caller's does. -/
theorem top_eq (hok : c.Ok) : c.sp - 80 + 8 * c.inner.length = c.top := by
  have hroom := hok.room
  rw [inner_length, top]
  omega

theorem Framed.ccall (hf : c.Framed s h) (hok : c.Ok) (hcall : CCall c.top s s') : c.Framed s' h :=
  ⟨hcall.onStack hf.stack (top_eq hok).le, hf.hostRsp⟩

theorem Framed.callee {e : Extern} {l' : Label} (hf : c.Framed s h) (hok : c.Ok)
    (he : e.isCall = true) (hstep : ExternStep c.top e l (s, h) (l', s', h')) :
    l' = l ∧ c.Framed s' h' ∧ ∀ r ∈ calleeSaved, s'.regs r = s.regs r := by
  cases hstep with
  | ccall _ hc => exact ⟨rfl, hf.ccall hok hc, hc.regs⟩
  | setExitHandlerRsp => cases he
  | entryFails _ he' => cases e <;> cases he <;> cases he'
  | exit he' => cases e <;> cases he <;> cases he'

theorem Framed.entry {e : Extern} {l' : Label} (hf : c.Framed s h) (hok : c.Ok)
    (he : e.isEntry = true) (hstep : ExternStep c.top e l (s, h) (l', s', h')) :
    (l' = l ∨ l' = .asmVmxVmExitHandler) ∧ c.Framed s' h' := by
  cases hstep with
  | ccall he' => cases e <;> cases he <;> cases he'
  | setExitHandlerRsp => cases he
  | entryFails z => exact ⟨.inl rfl, hf.of_eq rfl rfl⟩
  | exit _ hrsp hmem =>
      refine ⟨.inr rfl, ⟨?_, ?_, hf.stack.fits⟩, hf.hostRsp⟩
      · rw [hrsp]
        exact hf.hostRsp
      · refine hf.stack.stack.congr fun b hb hb' => hmem b (by rw [hf.hostRsp]; exact hb) ?_
        have htop := top_eq hok
        omega

/-! ### The longer blocks -/

theorem savedRegs_layout : Layout savedRegs usregsSize := ⟨by decide, by decide, by decide⟩

theorem loadedRegs_layout : Layout loadedRegs usregsSize := ⟨by decide, by decide, by decide⟩

theorem Ok.outside (hok : c.Ok) {off b : ℕ} (hoff : off + 8 ≤ usregsSize) (hb : c.sp - 88 ≤ b)
    (hb' : b < c.top) : b < c.regs.toNat + off ∨ c.regs.toNat + off + 8 ≤ b := by
  have hapart := hok.apart
  omega

/-- `rdi` is pushed, points to the struct, and the other registers are saved. -/
theorem exec_saveGuestRegs (hok : c.Ok) (hf : c.Framed s h) :
    let s' := s.exec ([.push .rdi, .load 0x08 .rsp .rdi] ++ saveGuestRegs .rdi)
    OnStack s' (c.sp - 88) (s.regs .rdi :: c.inner) ∧ s'.regs .rdi = c.regs ∧
      ∀ x ∈ savedRegs, s'.quad (c.regs.toNat + x.2) = s.regs x.1 := by
  have hroom := hok.room
  have htop := top_eq hok
  have hpush := hf.stack.push (by omega) (s.regs .rdi)
  rw [show c.sp - 80 - 8 = c.sp - 88 by omega] at hpush
  have hquad := hpush.quad (i := 1) (by rw [List.length_cons, inner_length]; omega)
  rw [Cpu.exec_append]
  generalize hs₁ : s.exec [.push .rdi, .load 0x08 .rsp .rdi] = s₁
  have hrdi : s₁.regs .rdi = c.regs := by
    rw [← hs₁]
    exact (Cpu.regs_set_self ..).trans hquad
  have hstack₁ : OnStack s₁ (c.sp - 88) (s.regs .rdi :: c.inner) := by
    rw [← hs₁]
    exact hpush.set (by decide)
  have hregs₁ : ∀ r, r ≠ .rsp → r ≠ .rdi → s₁.regs r = s.regs r := by
    intro r hr hr'
    rw [← hs₁]
    exact (Cpu.regs_set_of_ne _ _ _ _ hr').trans (Cpu.regs_set_of_ne _ _ _ _ hr)
  obtain ⟨hsaved, hframe, hkeeps⟩ := exec_saves (s := s₁) savedRegs_layout (by decide : Reg.rdi ∉ _)
    (by rw [hrdi]; exact hok.fits)
  rw [hrdi] at hsaved hframe
  refine ⟨⟨?_, hstack₁.stack.congr fun b hb hb' => hframe b fun x hx => ?_, hstack₁.fits⟩, ?_, ?_⟩
  · rw [saveGuestRegs, hkeeps .rsp (by decide)]
    exact hstack₁.rsp
  · rw [List.length_cons] at hb'
    exact hok.outside (savedRegs_layout.within x hx) hb (by omega)
  · exact (hkeeps .rdi (by decide)).trans hrdi
  · intro x hx
    have hne : ∀ x ∈ savedRegs, x.1 ≠ .rsp ∧ x.1 ≠ .rdi := by decide
    rw [← hregs₁ x.1 (hne x hx).1 (hne x hx).2]
    exact hsaved x hx

/-- The pushed `rdi` follows, and the frame pointer is set up again. -/
theorem exec_exitTail (hok : c.Ok) {v : BitVec 64} (hstack : OnStack s (c.sp - 88) (v :: c.inner))
    (hrdi : s.regs .rdi = c.regs) :
    let s' := s.exec [.pop .r8, .store .r8 usregRdi .rdi, .clear .r8, .mov .rsp .rbp, .addImm 0x10 .rbp,
      .load 0x08 .rsp .rdi]
    OnStack s' (c.sp - 80) c.inner ∧ (s'.regs .rbp).toNat = c.sp - 64 ∧ s'.regs .rdi = c.vcpu ∧
      s'.mem = store64 s.mem (c.regs.toNat + usregRdi) v.toNat := by
  have hroom := hok.room
  have htop := top_eq hok
  obtain ⟨hv, hpop⟩ := hstack.pop
  rw [show c.sp - 88 + 8 = c.sp - 80 by omega] at hpop
  let s₁ := s.exec1 (.pop .r8)
  have hstack₁ : OnStack s₁ (c.sp - 80) c.inner := hpop.set (by decide)
  have hrdi₁ : s₁.regs .rdi = c.regs := hrdi
  have hr8 : s₁.regs .r8 = v := (Cpu.regs_set_self ..).trans hv
  have hea : s₁.ea usregRdi .rdi = c.regs.toNat + usregRdi := by
    have hlt : c.regs.toNat + usregRdi < c.regs.toNat + usregsSize := Nat.add_lt_add_left (by decide) _
    rw [ea_eq (by rw [hrdi₁]; exact hlt.trans hok.fits), hrdi₁]
  have hmem : (s₁.exec1 (.store .r8 usregRdi .rdi)).mem =
      store64 s.mem (c.regs.toNat + usregRdi) v.toNat := by
    rw [← hea, ← hr8]
    rfl
  have hstack₂ : OnStack (s₁.exec1 (.store .r8 usregRdi .rdi)) (c.sp - 80) c.inner := by
    refine ⟨hstack₁.rsp, hstack₁.stack.congr fun b hb hb' => ?_, hstack₁.fits⟩
    rw [hmem]
    exact store64_of_notMem (hok.outside (by decide) (by omega) (by omega))
  have hquad := hstack₂.quad (i := 1) (by rw [inner_length]; omega)
  refine ⟨hstack₂.of_eq rfl rfl, ?_, hquad, hmem⟩
  have hrbp : (s₁.exec [.store .r8 usregRdi .rdi, .clear .r8, .mov .rsp .rbp, .addImm 0x10 .rbp,
      .load 0x08 .rsp .rdi]).regs .rbp = s₁.regs .rsp + 0x10 := rfl
  change ((s₁.exec [.store .r8 usregRdi .rdi, .clear .r8, .mov .rsp .rbp, .addImm 0x10 .rbp,
      .load 0x08 .rsp .rdi]).regs .rbp).toNat = _
  rw [hrbp, BitVec.toNat_add, hstack₁.rsp]
  have hfits := hstack₁.fits
  rw [inner_length] at hfits
  simp only [BitVec.reduceToNat]
  omega

/-- After an exit the struct holds the registers of the guest. -/
theorem exec_exitHandler (hok : c.Ok) (hf : c.Framed s h) :
    let s' := s.exec (c.code.block .asmVmxVmExitHandler).1
    c.Framed s' h ∧ (s'.regs .rbp).toNat = c.sp - 64 ∧ s'.regs .rdi = c.vcpu ∧
      ∀ x ∈ guestRegs, s'.quad (c.regs.toNat + x.2) = s.regs x.1 := by
  obtain ⟨hstack, hrdi, hsaved⟩ := exec_saveGuestRegs hok hf
  have hblock : (c.code.block .asmVmxVmExitHandler).1 =
      ([.push .rdi, .load 0x08 .rsp .rdi] ++ saveGuestRegs .rdi) ++
        [.pop .r8, .store .r8 usregRdi .rdi, .clear .r8, .mov .rsp .rbp, .addImm 0x10 .rbp,
          .load 0x08 .rsp .rdi] := rfl
  rw [hblock, Cpu.exec_append]
  generalize s.exec ([.push .rdi, .load 0x08 .rsp .rdi] ++ saveGuestRegs .rdi) = s₁ at hstack hrdi hsaved
  obtain ⟨hstack', hrbp, hrdi', hmem⟩ := exec_exitTail hok hstack hrdi
  refine ⟨⟨hstack', hf.hostRsp⟩, hrbp, hrdi', fun x hx => ?_⟩
  rw [Cpu.quad, hmem]
  rcases List.mem_cons.mp hx with rfl | hx
  · rw [load64_store64 (s.regs .rdi).isLt, BitVec.ofNat_toNat, BitVec.setWidth_eq]
  · rw [load64_congr fun b hb hb' => store64_of_notMem ?_]
    · exact hsaved x hx
    · have happ : ∀ x ∈ savedRegs, x.2 + 8 ≤ usregRdi ∨ usregRdi + 8 ≤ x.2 := by decide
      have hx := happ x hx
      omega

/-- In front of an entry the registers are those of the struct. -/
theorem exec_loadGuestRegs (hok : c.Ok) (hr13 : s.regs .r13 = c.regs) :
    let s' := s.exec (.mov .r13 .r8 :: loadGuestRegs .r8)
    s'.mem = s.mem ∧ s'.regs .rsp = s.regs .rsp ∧
      ∀ x ∈ guestRegs, s'.regs x.1 = s.quad (c.regs.toNat + x.2) := by
  rw [Cpu.exec_cons, loadGuestRegs, Cpu.exec_append]
  have hr8 : (s.exec1 (.mov .r13 .r8)).regs .r8 = c.regs := (Cpu.regs_set_self ..).trans hr13
  obtain ⟨hloaded, hmem, hkeeps⟩ := exec_loads (s := s.exec1 (.mov .r13 .r8)) loadedRegs_layout
    (by decide : Reg.r8 ∉ _) (by rw [hr8]; exact hok.fits)
  rw [hr8] at hloaded
  have hr8' := hkeeps .r8 (by decide)
  have hrsp := hkeeps .rsp (by decide)
  generalize (s.exec1 (.mov .r13 .r8)).exec (loadAll .r8 loadedRegs) = s₁ at hloaded hmem hr8' hrsp
  have hr8₁ : s₁.regs .r8 = c.regs := hr8'.trans hr8
  refine ⟨hmem, hrsp, fun x hx => ?_⟩
  have hcases : ∀ x ∈ guestRegs, x = (.r8, usregR8) ∨ x ∈ loadedRegs ∧ x.1 ≠ .r8 := by decide
  rcases hcases x hx with rfl | ⟨hx, hne⟩
  · have hlt : c.regs.toNat + usregR8 < c.regs.toNat + usregsSize := Nat.add_lt_add_left (by decide) _
    have hea : s₁.ea usregR8 .r8 = c.regs.toNat + usregR8 := by
      rw [ea_eq (by rw [hr8₁]; exact hlt.trans hok.fits), hr8₁]
    have hload : (s₁.exec [.load usregR8 .r8 .r8]).regs .r8 = s₁.quad (s₁.ea usregR8 .r8) :=
      Cpu.regs_set_self ..
    rw [hload, hea, Cpu.quad, hmem]
    rfl
  · exact (Cpu.regs_set_of_ne _ _ _ _ hne).trans (hloaded x hx)

theorem exec_getVcpuLaunchState {vs : List (BitVec 64)} {a : ℕ} (hstack : OnStack s a vs)
    (ha : 8 ≤ a) (hrdi : s.regs .rdi = c.vcpu) :
    let s' := s.exec (c.code.block .getVcpuLaunchState).1
    OnStack s' a vs ∧ s'.regs .rax = c.launchState s' ∧ s'.regs .r13 = s.regs .r13 := by
  obtain ⟨hframe, hrbp, hregs⟩ := hstack.frame ha
  have hblock : (c.code.block .getVcpuLaunchState).1 = [.push .rbp, .mov .rsp .rbp] ++
      ([.mov .rdi .r10, .addImm c.vcpuVmxLsOffset .r10, .loadLong 0 .r10 .rax] ++ [.leave]) := rfl
  rw [hblock, Cpu.exec_append, Cpu.exec_append]
  have hrdi₁ := (hregs .rdi (by decide) (by decide)).trans hrdi
  have hr13₁ := hregs .r13 (by decide) (by decide)
  generalize s.exec [.push .rbp, .mov .rsp .rbp] = s₁ at hframe hrbp hrdi₁ hr13₁
  have hrax : (s₁.exec [.mov .rdi .r10, .addImm c.vcpuVmxLsOffset .r10, .loadLong 0 .r10 .rax]).regs .rax =
      c.launchState s₁ := by
    have hea : (s₁.regs .rdi + c.vcpuVmxLsOffset + BitVec.ofNat 64 0).toNat =
        (c.vcpu + c.vcpuVmxLsOffset).toNat := by
      rw [hrdi₁]
      exact congrArg _ (BitVec.add_zero _)
    have hload : (s₁.exec [.mov .rdi .r10, .addImm c.vcpuVmxLsOffset .r10, .loadLong 0 .r10 .rax]).regs .rax =
        ((s₁.quad (s₁.regs .rdi + c.vcpuVmxLsOffset + BitVec.ofNat 64 0).toNat).setWidth 32).setWidth 64 := rfl
    rw [hload, hea]
    rfl
  have hframe₂ : OnStack (s₁.exec [.mov .rdi .r10, .addImm c.vcpuVmxLsOffset .r10, .loadLong 0 .r10 .rax])
      (a - 8) ([] ++ s.regs .rbp :: vs) := hframe.of_eq rfl rfl
  obtain ⟨-, hleave, hmem, hkeeps⟩ := hframe₂.leave hrbp
  refine ⟨?_, ?_, (hkeeps .r13 (by decide) (by decide)).trans hr13₁⟩
  · rw [List.length_nil, Nat.mul_zero, Nat.add_zero, Nat.sub_add_cancel ha] at hleave
    exact hleave
  · refine ((hkeeps .rax (by decide) (by decide)).trans hrax).trans ?_
    unfold launchState Cpu.quad
    rw [show (Cpu.exec _ [.leave]).mem = _ from hmem]
    rfl

theorem exec_vmxExecuteVcpu (hok : c.Ok) :
    let s' := (c.cpu.exec (c.code.block .vmxExecuteVcpu).1).push (c.addr .vmxExecuteVcpuReturn)
    OnStack s' (c.sp - 56) (c.addr .vmxExecuteVcpuReturn :: c.outer) ∧ (s'.regs .rbp).toNat = c.sp - 8 ∧
      s'.regs .rdi = c.vcpu ∧ s'.regs .rsi = c.regs := by
  have hroom := hok.room
  obtain ⟨hframe, hrbp, hregs⟩ := hok.stack.frame (by omega)
  have hblock : (c.code.block .vmxExecuteVcpu).1 =
      [.push .rbp, .mov .rsp .rbp] ++ calleePreservedRegs.map .push := rfl
  rw [hblock, Cpu.exec_append]
  generalize c.cpu.exec [.push .rbp, .mov .rsp .rbp] = s₁ at hframe hrbp hregs
  have hlen : 8 * calleePreservedRegs.length = 40 := rfl
  obtain ⟨hpushed, hkeeps, -⟩ := exec_pushes calleePreservedRegs (by decide) hframe (by omega)
  have houter : (calleePreservedRegs.map s₁.regs).reverse ++ c.cpu.regs .rbp :: c.ra :: c.content = c.outer := by
    have hsame : calleePreservedRegs.map s₁.regs = calleePreservedRegs.map c.cpu.regs := by
      have hne : ∀ r ∈ calleePreservedRegs, r ≠ .rsp ∧ r ≠ .rbp := by decide
      exact List.map_congr_left fun r hr => hregs r (hne r hr).1 (hne r hr).2
    rw [hsame]
    rfl
  rw [houter, hlen, show c.sp - 8 - 40 = c.sp - 48 by omega] at hpushed
  have hpush := hpushed.push (by omega) (c.addr .vmxExecuteVcpuReturn)
  rw [show c.sp - 48 - 8 = c.sp - 56 by omega] at hpush
  generalize s₁.exec (calleePreservedRegs.map .push) = s₂ at hkeeps hpush
  refine ⟨hpush, ?_, ?_, ?_⟩
  · exact (congrArg _ (hkeeps .rbp (by decide))).trans hrbp
  · exact (hkeeps .rdi (by decide)).trans (hregs .rdi (by decide) (by decide))
  · exact (hkeeps .rsi (by decide)).trans (hregs .rsi (by decide) (by decide))

theorem exec_vmxExecuteVcpuImpl (hok : c.Ok)
    (hstack : OnStack s (c.sp - 56) (c.addr .vmxExecuteVcpuReturn :: c.outer))
    (hrbp : (s.regs .rbp).toNat = c.sp - 8) (hrdi : s.regs .rdi = c.vcpu) (hrsi : s.regs .rsi = c.regs) :
    let s' := s.exec (c.code.block .vmxExecuteVcpuImpl).1
    OnStack s' (c.sp - 80) c.inner ∧ (s'.regs .rbp).toNat = c.sp - 64 := by
  have hroom := hok.room
  obtain ⟨hframe, hrbp', hregs⟩ := hstack.frame (by omega)
  have hblock : (c.code.block .vmxExecuteVcpuImpl).1 =
      [.push .rbp, .mov .rsp .rbp] ++ [Reg.rdi, .rsi].map .push := rfl
  rw [hblock, Cpu.exec_append]
  generalize s.exec [.push .rbp, .mov .rsp .rbp] = s₁ at hframe hrbp' hregs
  have hlen : 8 * [Reg.rdi, .rsi].length = 16 := rfl
  obtain ⟨hpushed, hkeeps, -⟩ := exec_pushes [.rdi, .rsi] (by decide) hframe (by omega)
  have hrbpval : s.regs .rbp = BitVec.ofNat 64 (c.sp - 8) := by
    rw [← hrbp, BitVec.ofNat_toNat, BitVec.setWidth_eq]
  have hinner : ([Reg.rdi, .rsi].map s₁.regs).reverse ++ s.regs .rbp ::
      c.addr .vmxExecuteVcpuReturn :: c.outer = c.inner := by
    have h₁ := (hregs .rdi (by decide) (by decide)).trans hrdi
    have h₂ := (hregs .rsi (by decide) (by decide)).trans hrsi
    rw [List.map_cons, List.map_cons, List.map_nil, h₁, h₂, hrbpval]
    rfl
  rw [hinner, hlen, show c.sp - 56 - 8 - 16 = c.sp - 80 by omega] at hpushed
  refine ⟨hpushed, ?_⟩
  rw [hkeeps .rbp (by decide), hrbp']
  omega

theorem exec_vmxExecuteVcpuReturn (hok : c.Ok) (hstack : OnStack s (c.sp - 48) c.outer)
    (hrbp : (s.regs .rbp).toNat = c.sp - 8) :
    let s' := s.exec (c.code.block .vmxExecuteVcpuReturn).1
    OnStack s' c.sp (c.ra :: c.content) ∧ s'.regs .rax = s.regs .rax ∧
      ∀ r ∈ [Reg.rbx, .rbp, .r12, .r13, .r14, .r15], s'.regs r = c.cpu.regs r := by
  have hroom := hok.room
  have hblock : (c.code.block .vmxExecuteVcpuReturn).1 =
      calleePreservedRegs.reverse.map .pop ++ [.leave] := rfl
  rw [hblock, Cpu.exec_append]
  have houter : c.outer = calleePreservedRegs.reverse.map c.cpu.regs ++
      c.cpu.regs .rbp :: c.ra :: c.content := rfl
  rw [houter] at hstack
  obtain ⟨hpopped, -, hregs, hkeeps⟩ := exec_pops calleePreservedRegs.reverse (by decide) (by decide)
    (List.length_map ..) hstack
  rw [show c.sp - 48 + 8 * calleePreservedRegs.reverse.length = c.sp - 8 by
    rw [show calleePreservedRegs.reverse.length = 5 from rfl]; omega] at hpopped
  have hrbp₁ := hkeeps .rbp (by decide)
  have hrax₁ := hkeeps .rax (by decide)
  generalize s.exec (calleePreservedRegs.reverse.map .pop) = s₁ at hpopped hregs hrbp₁ hrax₁
  have hframe : OnStack s₁ (c.sp - 8) ([] ++ c.cpu.regs .rbp :: c.ra :: c.content) := hpopped
  obtain ⟨hrbp', hleave, -, hkeeps'⟩ := hframe.leave (by rw [hrbp₁, hrbp]; rfl)
  rw [List.length_nil, Nat.mul_zero, Nat.add_zero, Nat.sub_add_cancel (by omega)] at hleave
  refine ⟨hleave, (hkeeps' .rax (by decide) (by decide)).trans hrax₁, fun r hr => ?_⟩
  have hcases : ∀ r ∈ [Reg.rbx, .rbp, .r12, .r13, .r14, .r15], r = .rbp ∨
      r ∈ calleePreservedRegs.reverse ∧ r ≠ .rsp ∧ r ≠ .rbp := by decide
  rcases hcases r hr with rfl | ⟨hr, hne, hne'⟩
  · exact hrbp'
  · exact (hkeeps' r hne hne').trans (List.map_inj_left.mp hregs r hr)

/-! ### One block -/

abbrev CodeStep (c : Entered) : Machine Label Env → Label → Machine Label Env → Prop :=
  Step c.code (ExternStep c.top)

theorem inv_je {l₁ l₂ : Label} {b : Bool} (h₁ : b = true → c.Inv s h l₁) (h₂ : b = false → c.Inv s h l₂) :
    c.Inv s h (if b then l₁ else l₂) := by
  cases b with
  | true => exact h₁ rfl
  | false => exact h₂ rfl

theorem ret_at (hok : c.Ok) {a : ℕ} {vs : List (BitVec 64)} (hstack : OnStack s a (c.addr l :: vs))
    (hf : Follows c.code (ExternStep c.top) s h m' .ret) :
    m' = ⟨s.pop.2, h, .at l⟩ ∧ OnStack s.pop.2 (a + 8) vs := by
  obtain ⟨hv, hpop⟩ := hstack.pop
  rcases hf with ⟨l', hl', rfl⟩ | ⟨hno, -⟩
  · obtain rfl := hok.addr (hv.symm.trans hl')
    exact ⟨rfl, hpop⟩
  · exact absurd hv (hno l)

theorem ret_caller (hok : c.Ok) {a : ℕ} {vs : List (BitVec 64)} (hstack : OnStack s a (c.ra :: vs))
    (hf : Follows c.code (ExternStep c.top) s h m' .ret) :
    m' = ⟨s.pop.2, h, .returned c.ra⟩ ∧ OnStack s.pop.2 (a + 8) vs := by
  obtain ⟨hv, hpop⟩ := hstack.pop
  rcases hf with ⟨l', hl', -⟩ | ⟨-, rfl⟩
  · exact absurd (hv.symm.trans hl') (hok.ra l')
  · exact ⟨by rw [hv], hpop⟩

theorem leave_ret (hok : c.Ok) {a : ℕ} {w : List (BitVec 64)} (hstack : OnStack s a (w ++ c.inner))
    (hrbp : (s.regs .rbp).toNat = c.sp - 64) (ha : a + 8 * w.length = c.sp - 80)
    (hrax : s.regs .rax ≠ vmxSuccess)
    (hf : Follows c.code (ExternStep c.top) (s.exec [.leave]) h m' .ret) : c.InvM m' := by
  have hroom := hok.room
  have hsplit : w ++ c.inner = (w ++ [c.regs, c.vcpu]) ++ BitVec.ofNat 64 (c.sp - 8) ::
      (c.addr .vmxExecuteVcpuReturn :: c.outer) := by
    rw [List.append_assoc]
    rfl
  rw [hsplit] at hstack
  have hlen : (w ++ [c.regs, c.vcpu]).length = w.length + 2 := by
    rw [List.length_append]
    rfl
  obtain ⟨hv, hleave, hmem, hkeeps⟩ := hstack.leave (by rw [hlen, hrbp]; omega)
  obtain ⟨rfl, hpop⟩ := ret_at hok hleave hf
  refine ⟨?_, ?_, ?_⟩
  · rw [hlen, show a + 8 * (w.length + 2) + 8 + 8 = c.sp - 48 by omega] at hpop
    exact hpop
  · have hpc : (s.exec1 .leave).pop.2.regs .rbp = (s.exec1 .leave).regs .rbp :=
      Cpu.regs_set_of_ne _ _ _ _ (by decide)
    change ((s.exec1 .leave).pop.2.regs .rbp).toNat = _
    rw [hpc, hv, BitVec.toNat_ofNat]
    have hlt := hok.stack.fits
    rw [List.length_cons] at hlt
    omega
  · change (s.exec1 .leave).pop.2.regs .rax ≠ _
    rw [show (s.exec1 .leave).pop.2.regs .rax = (s.exec1 .leave).regs .rax from
      Cpu.regs_set_of_ne _ _ _ _ (by decide), hkeeps .rax (by decide) (by decide)]
    exact hrax

theorem results_ne : vmxVmEntryError ≠ vmxSuccess ∧ vmxInvalidLaunchState ≠ vmxSuccess ∧
    vmxVmresumeFailed ≠ vmxSuccess ∧ vmxVmlaunchFailed ≠ vmxSuccess ∧ vmxError ≠ vmxSuccess := by
  decide

/-- A block of the listing is executed. -/
abbrev Executed (c : Entered) (s : Cpu) (h : Env) (l : Label) (m' : Machine Label Env) : Prop :=
  Follows c.code (ExternStep c.top) (s.exec (c.code.block l).1) h m' (c.code.block l).2

theorem inv_vmxExecuteVcpuImpl (hok : c.Ok) (hinv : c.Inv s h .vmxExecuteVcpuImpl)
    (hf : c.Executed s h .vmxExecuteVcpuImpl m') : c.InvM m' := by
  obtain ⟨l', s', h', hext, rfl⟩ := hf
  obtain ⟨hstack, hrbp, hrdi, hrsi⟩ := hinv
  obtain ⟨hinner, hrbp'⟩ := exec_vmxExecuteVcpuImpl hok hstack hrbp hrdi hrsi
  cases hext with
  | ccall _ hc =>
      refine ⟨hc.onStack hinner (top_eq hok).le, ?_⟩
      rw [hc.regs .rbp (by decide)]
      exact hrbp'
  | entryFails _ he => cases he
  | exit he => cases he

theorem inv_lvcpuPrepSuccess (hok : c.Ok) (hinv : c.Inv s h .lvcpuPrepSuccess)
    (hf : c.Executed s h .lvcpuPrepSuccess m') : c.InvM m' := by
  obtain ⟨l', s', h', hext, rfl⟩ := hf
  cases hext with
  | ccall he => cases he
  | entryFails _ he => cases he
  | exit he => cases he
  | setExitHandlerRsp hc => exact ⟨hc.onStack (hinv.1.of_eq rfl rfl) (top_eq hok).le, hinv.1.rsp⟩

theorem inv_asmVmxVmExitHandler (hok : c.Ok) (hinv : c.Inv s h .asmVmxVmExitHandler)
    (hf : c.Executed s h .asmVmxVmExitHandler m') : c.InvM m' := by
  obtain ⟨l', s', h', hext, rfl⟩ := hf
  obtain ⟨hframed, hrbp, -, -⟩ := exec_exitHandler hok hinv
  obtain ⟨rfl, hframed', hregs⟩ := hframed.callee hok rfl hext
  refine ⟨hframed', ?_⟩
  rw [hregs .rbp (by decide)]
  exact hrbp

theorem inv_asmVmxVmEntryHandler (hok : c.Ok) (hinv : c.Inv s h .asmVmxVmEntryHandler)
    (hf : c.Executed s h .asmVmxVmEntryHandler m') : c.InvM m' := by
  obtain ⟨l', s', h', hext, rfl⟩ := hf
  have hlen := inner_length (c := c)
  have hstack₁ : OnStack (s.exec1 (.load 0x08 .rsp .r12)) _ _ := hinv.stack.set (by decide)
  have hvcpu := hinv.stack.quad (i := 1) (by omega)
  have hregs := hstack₁.quad (i := 0) (by omega)
  have hframed : c.Framed (s.exec (c.code.block .asmVmxVmEntryHandler).1) h := hinv.of_eq rfl rfl
  obtain ⟨rfl, hframed', hkeep⟩ := hframed.callee hok rfl hext
  exact ⟨hframed', (hkeep .r12 (by decide)).trans hvcpu, (hkeep .r13 (by decide)).trans hregs⟩

theorem inv_externalIrqs (hok : c.Ok) (hinv : c.Inv s h .externalIrqs)
    (hf : c.Executed s h .externalIrqs m') : c.InvM m' := by
  obtain ⟨l', s', h', hext, rfl⟩ := hf
  have hframed : c.Framed (s.exec (c.code.block .externalIrqs).1) h := hinv.1.of_eq rfl rfl
  obtain ⟨rfl, hframed', hkeep⟩ := hframed.callee hok rfl hext
  exact ⟨hframed', (hkeep .r12 (by decide)).trans hinv.2.1, (hkeep .r13 (by decide)).trans hinv.2.2⟩

theorem inv_externalIrqsDone (hok : c.Ok) (hinv : c.Inv s h .externalIrqsDone)
    (hf : c.Executed s h .externalIrqsDone m') : c.InvM m' := by
  have hroom := hok.room
  obtain rfl := hf
  have hstack : OnStack (s.exec (c.code.block .externalIrqsDone).1) _ _ := hinv.1.stack.of_eq rfl rfl
  have hpush := hstack.push (by omega) (c.addr .launchStateRead)
  rw [show c.sp - 80 - 8 = c.sp - 88 by omega] at hpush
  exact ⟨hpush, hinv.1.hostRsp, hinv.2.1, hinv.2.2⟩

theorem inv_getVcpuLaunchState (hok : c.Ok) (hinv : c.Inv s h .getVcpuLaunchState)
    (hf : c.Executed s h .getVcpuLaunchState m') : c.InvM m' := by
  have hroom := hok.room
  obtain ⟨hstack, hhost, hrdi, hr13⟩ := hinv
  obtain ⟨hstack', hrax, hr13'⟩ := exec_getVcpuLaunchState hstack (by omega) hrdi
  obtain ⟨rfl, hpop⟩ := ret_at hok hstack' hf
  rw [show c.sp - 88 + 8 = c.sp - 80 by omega] at hpop
  exact ⟨⟨hpop, hhost⟩, hr13'.trans hr13, hrax⟩

theorem inv_launchStateRead (hinv : c.Inv s h .launchStateRead) (hf : c.Executed s h .launchStateRead m') :
    c.InvM m' := by
  obtain rfl := hf
  obtain ⟨hframed, hr13, hrax⟩ := hinv
  refine inv_je (fun _ => hframed.of_eq rfl rfl) fun hne => ⟨hframed.of_eq rfl rfl, hr13, hrax, ?_⟩
  exact fun he => of_decide_eq_false hne (hrax.trans he)

theorem inv_launchStateValid (hinv : c.Inv s h .launchStateValid) (hf : c.Executed s h .launchStateValid m') :
    c.InvM m' := by
  obtain rfl := hf
  obtain ⟨hframed, hr13, hr10, hvalid⟩ := hinv
  refine inv_je (fun heq => ⟨hframed.of_eq rfl rfl, hr13, ?_⟩)
    fun hne => ⟨hframed.of_eq rfl rfl, hr13, hvalid, ?_⟩
  · exact hr10.symm.trans (of_decide_eq_true heq)
  · exact fun he => of_decide_eq_false hne (hr10.trans he)

/-- `vmlaunch` and `vmresume`: the guest runs until it exits, or the instruction fails. -/
theorem inv_entry {e : Extern} (l₁ : Label) (hok : c.Ok) (hframed : c.Framed s h) (hr13 : s.regs .r13 = c.regs)
    (he : e.isEntry = true) (hfail : ∀ {s' h'}, c.Framed s' h' → c.Inv s' h' l₁)
    (hf : Follows c.code (ExternStep c.top) (s.exec (.mov .r13 .r8 :: loadGuestRegs .r8)) h m' (.ext e l₁)) :
    c.InvM m' := by
  obtain ⟨l', s', h', hext, rfl⟩ := hf
  obtain ⟨hmem, hrsp, -⟩ := exec_loadGuestRegs hok hr13
  obtain ⟨rfl | rfl, hframed'⟩ := (hframed.of_eq hrsp hmem).entry hok he hext
  · exact hfail hframed'
  · exact hframed'

theorem inv_lout (hok : c.Ok) (hinv : c.Inv s h .lout) (hf : c.Executed s h .lout m') : c.InvM m' := by
  have hroom := hok.room
  have htop := top_eq hok
  obtain ⟨l', s', h', hext, rfl⟩ := hf
  obtain ⟨hframed, hrax⟩ := hinv
  have hpush := hframed.stack.push (by omega) (s.regs .rax)
  rw [show c.sp - 80 - 8 = c.sp - 88 by omega] at hpush
  have hstack : OnStack (s.exec (c.code.block .lout).1) (c.sp - 88) (s.regs .rax :: c.inner) :=
    hpush.of_eq rfl rfl
  have hrbp : ((s.exec (c.code.block .lout).1).regs .rbp).toNat = c.sp - 64 := by
    have hval : (s.exec (c.code.block .lout).1).regs .rbp = s.regs .rsp + 0x10 := rfl
    have hfits := hframed.stack.fits
    rw [inner_length] at hfits
    rw [hval, BitVec.toNat_add, hframed.stack.rsp]
    simp only [BitVec.reduceToNat]
    omega
  cases hext with
  | ccall _ hc =>
      refine ⟨s.regs .rax, hrax, hc.onStack hstack ?_, ?_⟩
      · rw [List.length_cons]
        omega
      · rw [hc.regs .rbp (by decide)]
        exact hrbp
  | entryFails _ he => cases he
  | exit he => cases he

theorem inv_cleanedUp (hok : c.Ok) (hinv : c.Inv s h .cleanedUp) (hf : c.Executed s h .cleanedUp m') :
    c.InvM m' := by
  have hroom := hok.room
  obtain ⟨rax, hrax, hstack, hrbp⟩ := hinv
  obtain ⟨hv, hpop⟩ := hstack.pop
  rw [show c.sp - 88 + 8 = c.sp - 80 by omega] at hpop
  refine leave_ret (s := s.exec1 (.pop .rax)) (w := []) hok (hpop.set (by decide)) hrbp rfl ?_ hf
  rw [show (s.exec1 (.pop .rax)).regs .rax = s.pop.1 from Cpu.regs_set_self .., hv]
  exact hrax

theorem inv_vmxExecuteVcpuReturn (hok : c.Ok) (hinv : c.Inv s h .vmxExecuteVcpuReturn)
    (hf : c.Executed s h .vmxExecuteVcpuReturn m') : c.InvM m' := by
  obtain ⟨hstack, hrbp, hrax⟩ := hinv
  obtain ⟨hstack', hrax', hsaved⟩ := exec_vmxExecuteVcpuReturn hok hstack hrbp
  obtain ⟨rfl, hpop⟩ := ret_caller hok hstack' hf
  have hne : ∀ r ∈ [Reg.rbx, .rbp, .r12, .r13, .r14, .r15], r ≠ .rsp := by decide
  refine ⟨rfl, hpop, fun r hr => ?_, ?_⟩
  · exact (Cpu.regs_set_of_ne _ _ _ _ (hne r hr)).trans (hsaved r hr)
  · rw [show (s.exec (c.code.block .vmxExecuteVcpuReturn).1).pop.2.regs .rax = _ from
      (Cpu.regs_set_of_ne _ _ _ _ (by decide)).trans hrax']
    exact hrax

theorem inv_step (hok : c.Ok) (hinv : c.InvM m) (hstep : c.CodeStep m l m') : c.InvM m' := by
  obtain ⟨hpc, hf⟩ := hstep.follows
  obtain ⟨s, h, pc⟩ := m
  obtain rfl : pc = .at l := hpc
  have hinv : c.Inv s h l := hinv
  cases l with
  | vmxExecuteVcpu =>
      obtain rfl : s = c.cpu := hinv
      obtain rfl := hf
      exact exec_vmxExecuteVcpu hok
  | vmxExecuteVcpuImpl => exact inv_vmxExecuteVcpuImpl hok hinv hf
  | vcpuPrepared =>
      obtain rfl := hf
      exact inv_je (fun _ => ⟨hinv.1.of_eq rfl rfl, hinv.2⟩) fun _ => ⟨hinv.1.of_eq rfl rfl, hinv.2⟩
  | vcpuPrepError =>
      exact leave_ret (s := s.set .rax vmxError) (w := []) hok (hinv.1.set (by decide)) hinv.2 rfl
        results_ne.2.2.2.2 hf
  | lvcpuPrepSuccess => exact inv_lvcpuPrepSuccess hok hinv hf
  | exitHandlerRspSet =>
      obtain rfl := hf
      exact hinv
  | asmVmxVmExitHandler => exact inv_asmVmxVmExitHandler hok hinv hf
  | exitHandled =>
      obtain rfl := hf
      refine inv_je (fun _ => hinv.1.of_eq rfl rfl) fun hne => ⟨hinv.1.of_eq rfl rfl, hinv.2, ?_⟩
      exact of_decide_eq_false hne
  | exitHandlerError => exact leave_ret (w := []) hok hinv.1.stack hinv.2.1 rfl hinv.2.2 hf
  | asmVmxVmEntryHandler => exact inv_asmVmxVmEntryHandler hok hinv hf
  | entryPrepared =>
      obtain rfl := hf
      exact inv_je (fun _ => ⟨hinv.1.of_eq rfl rfl, hinv.2⟩) fun _ => ⟨hinv.1.of_eq rfl rfl, hinv.2⟩
  | entryHelperError =>
      obtain rfl := hf
      exact ⟨hinv.1.of_eq rfl rfl, results_ne.1⟩
  | externalIrqs => exact inv_externalIrqs hok hinv hf
  | externalIrqsDone => exact inv_externalIrqsDone hok hinv hf
  | getVcpuLaunchState => exact inv_getVcpuLaunchState hok hinv hf
  | launchStateRead => exact inv_launchStateRead hinv hf
  | launchStateInvalid =>
      obtain rfl := hf
      exact ⟨hinv.of_eq rfl rfl, results_ne.2.1⟩
  | launchStateValid => exact inv_launchStateValid hinv hf
  | lvmresumeOp => exact inv_entry .vmresumeFailed hok hinv.1 hinv.2.1 rfl id hf
  | vmresumeFailed =>
      obtain rfl := hf
      exact ⟨hinv.of_eq rfl rfl, results_ne.2.2.1⟩
  | lvmlaunchOp => exact inv_entry .vmlaunchFailed hok hinv.1 hinv.2.1 rfl id hf
  | vmlaunchFailed =>
      obtain rfl := hf
      exact ⟨hinv.of_eq rfl rfl, results_ne.2.2.2.1⟩
  | lout => exact inv_lout hok hinv hf
  | cleanedUp => exact inv_cleanedUp hok hinv hf
  | vmxExecuteVcpuReturn => exact inv_vmxExecuteVcpuReturn hok hinv hf

/-! ### Whole runs -/

/-- A call of `vmx_execute_vcpu` up to any point. -/
theorem inv_run {h₀ : Env} {ls : List Label} (hok : c.Ok)
    (hrun : Run c.CodeStep ⟨c.cpu, h₀, .at .vmxExecuteVcpu⟩ ls m) : c.InvM m :=
  hrun.invariant (I := c.InvM) (fun _ _ _ hinv hstep => inv_step hok hinv hstep) rfl

/-- A call with the stack at `0x10000`, the vCPU at `0x5000` and its registers at `0x6000`.  The quadwords of the
memory are different from each other, and so are the registers. -/
def sample : Entered where
  cpu :=
    { regs := fun r => match r with
        | .rsp => 0x10000
        | .rdi => 0x5000
        | .rsi => 0x6000
        | r => 0x100 + BitVec.ofNat 64 r.ctorIdx
      mem := store64 (store64 (fun b => if b % 8 = 0 then b / 8 % 256 else 0) 0x5040 1) 0x10000 0x1234
      zf := false }
  sp := 0x10000
  ra := 0x1234
  content := [1, 2, 3]
  addr l := 0x400000 + BitVec.ofNat 64 l.ctorIdx
  vcpuVmxLsOffset := 0x40

theorem sample_ok : sample.Ok where
  stack := ⟨rfl, ⟨by decide, by decide, by decide, by decide, trivial⟩, by decide⟩
  room := by decide
  apart := by decide
  fits := by decide
  addr := by
    intro l l' hl
    have hidx : ∀ l : Label, l.ctorIdx < 25 := by
      intro l
      cases l <;> decide
    have hl := congrArg BitVec.toNat ((BitVec.add_right_inj _).mp hl)
    rw [BitVec.toNat_ofNat, BitVec.toNat_ofNat, Nat.mod_eq_of_lt ((hidx l).trans (by norm_num)),
      Nat.mod_eq_of_lt ((hidx l').trans (by norm_num))] at hl
    rw [← Label.ofNat_ctorIdx l, hl, Label.ofNat_ctorIdx]
  ra := by
    intro l
    cases l <;> decide

theorem ccall_rax (top : ℕ) (s : Cpu) (v : BitVec 64) : CCall top s (s.set .rax v) :=
  ⟨fun r hr => Cpu.regs_set_of_ne _ .rax r v (by rintro rfl; revert hr; decide), fun _ _ _ => rfl⟩

/-- What the guest leaves at an exit: a different value in each register. -/
def sampleExit (h : Env) (mem : ℕ → ℕ) : Cpu where
  regs r := match r with
    | .rsp => h.hostRsp
    | r => 0x200 + BitVec.ofNat 64 r.ctorIdx
  mem := mem
  zf := false

/-- The functions succeed up to the first `vmlaunch`; the guest exits, the handler fails, and the call returns. -/
theorem sample_run : ∃ ls₁ ls₂ ls₃, ∃ m₁ m₂ m₃ : Machine Label Env,
    (m₁.pc = .at .lvmlaunchOp ∧ m₁.cpu.quad 0x6008 = 1 ∧ m₁.cpu.quad 0x6068 = 13 ∧
      Run sample.CodeStep ⟨sample.cpu, ⟨0⟩, .at .vmxExecuteVcpu⟩ ls₁ m₁) ∧
    (m₂.pc = .at .asmVmxVmExitHandler ∧ m₂.cpu.regs .r14 = 0x20e ∧ m₂.cpu.regs .rdi = 0x205 ∧
      Run sample.CodeStep ⟨sample.cpu, ⟨0⟩, .at .vmxExecuteVcpu⟩ ls₂ m₂) ∧
    m₃.pc = .returned 0x1234 ∧ .lvmlaunchOp ∈ ls₃ ∧ .asmVmxVmExitHandler ∈ ls₃ ∧
      Run sample.CodeStep ⟨sample.cpu, ⟨0⟩, .at .vmxExecuteVcpu⟩ ls₃ m₃ := by
  have h := (Run.nil _).snoc (Step.call rfl : sample.CodeStep ⟨sample.cpu, ⟨0⟩, .at .vmxExecuteVcpu⟩ _ _)
  have h := h.snoc (Step.ext rfl (ExternStep.ccall rfl (ccall_rax _ _ 0)))
  have h := h.snoc (Step.je rfl)
  have h := h.snoc (Step.ext rfl (ExternStep.setExitHandlerRsp (ccall_rax _ _ 0)))
  have h := h.snoc (Step.jmp rfl)
  have h := h.snoc (Step.ext rfl (ExternStep.ccall rfl (ccall_rax _ _ 0)))
  have h := h.snoc (Step.je rfl)
  have h := h.snoc (Step.ext rfl (ExternStep.ccall rfl (ccall_rax _ _ 0)))
  have h := h.snoc (Step.call rfl)
  have h := h.snoc (Step.ret rfl (by decide +kernel : _ = sample.addr .launchStateRead))
  have h := h.snoc (Step.je rfl)
  have h₁ := h.snoc (Step.je rfl)
  have h₂ := h₁.snoc (Step.ext rfl (@ExternStep.exit _ _ _ _ (sampleExit _ _) _ rfl rfl fun _ _ _ => rfl))
  have h := h₂.snoc (Step.ext rfl (ExternStep.ccall rfl (ccall_rax _ _ 1)))
  have h := h.snoc (Step.je rfl)
  have h := h.snoc (Step.ret rfl (by decide +kernel : _ = sample.addr .vmxExecuteVcpuReturn))
  have h₃ := h.snoc (Step.leave rfl fun l hl => sample_ok.ra l (.trans (by decide +kernel : sample.ra = _) hl))
  exact ⟨_, _, _, _, _, _, ⟨rfl, by decide +kernel, by decide +kernel, h₁⟩, ⟨rfl, rfl, rfl, h₂⟩, rfl, by decide,
    by decide, h₃⟩

/-- At every exit the struct receives the registers that the guest has left, before the C handler is called
with the vCPU; at every `vmlaunch` and `vmresume` the registers are what the struct holds.  `vmlaunch` is
executed with a vCPU whose launch state is `VMCS_LS_CLEAR`, `vmresume` with one whose launch state is
neither that nor `VMCS_LS_INVALID`. -/
theorem guest_registers_kept {h₀ : Env} {ls : List Label} {l : Label} (hok : c.Ok)
    (hrun : Run c.CodeStep ⟨c.cpu, h₀, .at .vmxExecuteVcpu⟩ ls m) (hpc : m.pc = .at l) :
    let s' := m.cpu.exec (c.code.block l).1
    (l = .asmVmxVmExitHandler → s'.regs .rdi = c.vcpu ∧
      ∀ x ∈ guestRegs, s'.quad (c.regs.toNat + x.2) = m.cpu.regs x.1) ∧
    (l = .lvmlaunchOp ∨ l = .lvmresumeOp → m.env.hostRsp = BitVec.ofNat 64 (c.sp - 80) ∧
      ∀ x ∈ guestRegs, s'.regs x.1 = m.cpu.quad (c.regs.toNat + x.2)) ∧
    (l = .lvmlaunchOp → c.launchState m.cpu = vmcsLsClearVal) ∧
    (l = .lvmresumeOp → c.launchState m.cpu ≠ vmcsLsInvalidVal ∧ c.launchState m.cpu ≠ vmcsLsClearVal) := by
  have hinv := inv_run hok hrun
  rw [InvM, hpc] at hinv
  have hhost : ∀ {s h}, c.Framed s h → h.hostRsp = BitVec.ofNat 64 (c.sp - 80) := by
    intro s h hf
    rw [← hf.hostRsp, BitVec.ofNat_toNat, BitVec.setWidth_eq]
  refine ⟨?_, ?_, ?_, ?_⟩
  · rintro rfl
    obtain ⟨-, -, hrdi, hsaved⟩ := exec_exitHandler hok hinv
    exact ⟨hrdi, hsaved⟩
  · rintro (rfl | rfl)
    · exact ⟨hhost hinv.1, (exec_loadGuestRegs hok hinv.2.1).2.2⟩
    · exact ⟨hhost hinv.1, (exec_loadGuestRegs hok hinv.2.1).2.2⟩
  · rintro rfl
    exact hinv.2.2
  · rintro rfl
    exact hinv.2.2

theorem guest_registers_kept_sample :
    (∃ ls, ∃ m : Machine Label Env, Run sample.CodeStep ⟨sample.cpu, ⟨0⟩, .at .vmxExecuteVcpu⟩ ls m ∧
      m.pc = .at .lvmlaunchOp ∧ (m.cpu.exec (block 0x40 .lvmlaunchOp).1).regs .r14 = 1 ∧
      (m.cpu.exec (block 0x40 .lvmlaunchOp).1).regs .rdi = 13) ∧
    ∃ ls, ∃ m : Machine Label Env, Run sample.CodeStep ⟨sample.cpu, ⟨0⟩, .at .vmxExecuteVcpu⟩ ls m ∧
      m.pc = .at .asmVmxVmExitHandler ∧ (m.cpu.exec (block 0x40 .asmVmxVmExitHandler).1).quad 0x6008 = 0x20e ∧
      (m.cpu.exec (block 0x40 .asmVmxVmExitHandler).1).quad 0x6068 = 0x205 := by
  obtain ⟨ls₁, ls₂, -, m₁, m₂, -, ⟨hpc₁, hr14, hrdi, hrun₁⟩, ⟨hpc₂, hr14', hrdi', hrun₂⟩, -⟩ := sample_run
  have hentry := ((guest_registers_kept sample_ok hrun₁ hpc₁).2.1 (.inl rfl)).2
  have hexit := ((guest_registers_kept sample_ok hrun₂ hpc₂).1 rfl).2
  refine ⟨⟨ls₁, m₁, hrun₁, hpc₁, ?_, ?_⟩, ls₂, m₂, hrun₂, hpc₂, ?_, ?_⟩
  · exact (hentry (.r14, 8) (by decide)).trans hr14
  · exact (hentry (.rdi, usregRdi) (by decide)).trans hrdi
  · exact (hexit (.r14, 8) (by decide)).trans hr14'
  · exact (hexit (.rdi, usregRdi) (by decide)).trans hrdi'

end Entered

end VmxEntry

end HyveMind
