import HyveMind.Lib.X86

/-! # Interrupt entry points

`arch/x64/entry.S`: the macros that generate the entry points of interrupts and exceptions.  An entry point
saves the registers on the stack that the processor has chosen, calls a C function, restores the registers
and goes back.  The C functions keep to the calling convention and are otherwise arbitrary.

`interrupted_context_kept`: what was interrupted goes on as if nothing had happened. -/

namespace HyveMind

namespace IrqEntry

open Lib X86

/-! ### The listing -/

def buildStackFrame : List Instr := [.push .rbp, .mov .rsp .rbp]

/-- The registers of `save_registers`. -/
def savedRegisters : List Reg :=
  [.rax, .rbx, .rcx, .rdx, .rsi, .rdi, .r8, .r9, .r10, .r11, .r12, .r13, .r14, .r15]

def saveRegisters : List Instr := savedRegisters.map .push

def restoreRegisters : List Instr := savedRegisters.reverse.map .pop

inductive Label
  | entry | called | signalled
deriving DecidableEq, Repr

/-- What an entry point calls. -/
inductive Extern
  | cfunc | apicSignalEoi
deriving DecidableEq, Repr

abbrev Blocks := Label → List Instr × Transfer Label Extern

/-- An entry point: what stands in front of the call of `cfunc`, and whether `apic_signal_eoi` is called
behind it. -/
def entryPoint (front : List Instr) (eoi : Bool) : Blocks
  | .entry => (buildStackFrame ++ (saveRegisters ++ front), .ext .cfunc .called)
  | .called =>
      if eoi then ([], .ext .apicSignalEoi .signalled) else (restoreRegisters ++ [.leave], .iret)
  | .signalled => (restoreRegisters ++ [.leave], .iret)

def asmIrqHandlerWithEoi : Blocks := entryPoint [] true

def asmIrqHandlerWithoutEoi : Blocks := entryPoint [] false

def asmExceptionHandlerWithoutErr : Blocks := entryPoint [] false

/-- `asm_common_irq_trampoline_vec` -/
def asmCommonIrqTrampolineVec (vec : BitVec 8) : Blocks := entryPoint [.movByte vec .rdi] false

/-- The macros. -/
inductive Macro
  | irqWithEoi | irqWithoutEoi | exceptionWithoutErr | commonTrampoline (vec : BitVec 8)

def Macro.blocks : Macro → Blocks
  | .irqWithEoi => asmIrqHandlerWithEoi
  | .irqWithoutEoi => asmIrqHandlerWithoutEoi
  | .exceptionWithoutErr => asmExceptionHandlerWithoutErr
  | .commonTrampoline vec => asmCommonIrqTrampolineVec vec

def Macro.front : Macro → List Instr
  | .commonTrampoline vec => [.movByte vec .rdi]
  | _ => []

def Macro.eoi : Macro → Bool
  | .irqWithEoi => true
  | _ => false

theorem Macro.blocks_eq (k : Macro) : k.blocks = entryPoint k.front k.eoi := by
  cases k <;> rfl

/-! ### The interrupt -/

/-- What an interrupt stops, the stack pointer that the processor takes (the current one, or one of the
interrupt stack table), and what is on that stack.  For an entry point with a stack of its own `content` is
what that stack holds; nothing is said of the stack that was interrupted then. -/
structure Interrupted where
  cpu : Cpu
  rip : BitVec 64
  cs : BitVec 64
  rflags : BitVec 64
  ss : BitVec 64
  stack : BitVec 64
  content : List (BitVec 64)

namespace Interrupted

variable (c : Interrupted)

/-- The stack pointer is aligned. -/
def base : ℕ := c.stack.toNat / 16 * 16

/-- The processor saves where it is. -/
def deliver : Cpu :=
  let s := c.cpu.set .rsp (BitVec.ofNat 64 c.base)
  ((((s.push c.ss).push (c.cpu.regs .rsp)).push c.rflags).push c.cs).push c.rip

/-- The frame that `iretq` takes back. -/
def frame : List (BitVec 64) := c.rip :: c.cs :: c.rflags :: c.cpu.regs .rsp :: c.ss :: c.content

/-- What an entry point has on the stack while it calls. -/
def saved : List (BitVec 64) := (savedRegisters.map c.cpu.regs).reverse ++ c.cpu.regs .rbp :: c.frame

/-- There is room for the frame below the stack, and the stack lies below the address `top`. -/
structure Ok (top : ℕ) : Prop where
  room : 4096 ≤ c.base
  content : Stack c.cpu.mem c.base c.content
  below : c.base + 8 * c.content.length ≤ top
  fits : top < 2 ^ 64

/-- A C function that is called, up to the address `top`. -/
inductive ExternStep (top : ℕ) : External Label Extern Unit
  | ccall {e : Extern} {l : Label} {s s' : Cpu} (hc : CCall top s s') :
      ExternStep top e l (s, ()) (l, s', ())

/-- What holds in front of each block. -/
def Inv (s : Cpu) : Label → Prop
  | .entry => s = c.deliver
  | _ => OnStack s (c.base - 160) c.saved ∧ (s.regs .rbp).toNat = c.base - 48

/-- Behind the `iretq`. -/
structure Resumed (s : Cpu) (rip cs rflags ss : BitVec 64) : Prop where
  rip : rip = c.rip
  cs : cs = c.cs
  rflags : rflags = c.rflags
  ss : ss = c.ss
  regs : ∀ r, s.regs r = c.cpu.regs r
  content : Stack s.mem c.base c.content

def InvM (m : Machine Label Unit) : Prop :=
  match m.pc with
  | .at l => c.Inv m.cpu l
  | .returned _ => False
  | .resumed rip cs rflags ss => c.Resumed m.cpu rip cs rflags ss

variable {c} {s s' : Cpu} {top : ℕ} {m m' : Machine Label Unit} {l : Label} {k : Macro}
  {addr : Label → BitVec 64}

theorem base_aligned : c.base % 16 = 0 := Nat.mul_mod_left ..

theorem deliver_onStack (hok : c.Ok top) : OnStack c.deliver (c.base - 40) c.frame := by
  have hroom := hok.room
  have hbase : OnStack (c.cpu.set .rsp (BitVec.ofNat 64 c.base)) c.base c.content := by
    refine ⟨?_, hok.content, hok.below.trans_lt hok.fits⟩
    rw [Cpu.regs_set_self, BitVec.toNat_ofNat]
    exact Nat.mod_eq_of_lt (by have hbelow := hok.below; have hfits := hok.fits; omega)
  have h := (((hbase.push (by omega) c.ss).push (by omega) (c.cpu.regs .rsp)).push (by omega) c.rflags)
  have h := (h.push (by omega) c.cs).push (by omega) c.rip
  rwa [show c.base - 8 - 8 - 8 - 8 - 8 = c.base - 40 by omega] at h

theorem deliver_regs {r : Reg} (hr : r ≠ .rsp) : c.deliver.regs r = c.cpu.regs r := by
  simp only [deliver, Cpu.push, Cpu.regs_write, Cpu.regs_set_of_ne _ _ _ _ hr]

/-- The call of `cfunc`: the registers are on the stack, which is aligned. -/
theorem exec_entry (hok : c.Ok top) :
    let s := c.deliver.exec (buildStackFrame ++ saveRegisters)
    OnStack s (c.base - 160) c.saved ∧ (s.regs .rbp).toNat = c.base - 48 := by
  have hroom := hok.room
  obtain ⟨hframe, hrbp, hregs⟩ := (deliver_onStack hok).frame (by omega)
  rw [Cpu.exec_append, buildStackFrame]
  generalize c.deliver.exec [.push .rbp, .mov .rsp .rbp] = s₁ at hframe hrbp hregs
  have hlen : 8 * savedRegisters.length = 112 := rfl
  obtain ⟨hpushed, hkeeps, -⟩ := exec_pushes savedRegisters (by decide) hframe (by omega)
  have hmap : savedRegisters.map s₁.regs = savedRegisters.map c.cpu.regs := by
    have hne : ∀ r ∈ savedRegisters, r ≠ .rsp ∧ r ≠ .rbp := by decide
    refine List.map_congr_left fun r hr => ?_
    rw [hregs r (hne r hr).1 (hne r hr).2, deliver_regs (hne r hr).1]
  rw [hmap, deliver_regs (by decide), hlen, show c.base - 40 - 8 - 112 = c.base - 160 by omega] at hpushed
  refine ⟨hpushed, ?_⟩
  rw [saveRegisters, hkeeps .rbp (by decide), hrbp]
  omega

/-- The registers are restored, and `iretq` takes the frame back. -/
theorem exec_exit (hok : c.Ok top) (hstack : OnStack s (c.base - 160) c.saved)
    (hrbp : (s.regs .rbp).toNat = c.base - 48)
    (hf : m' = ⟨(iretq (s.exec (restoreRegisters ++ [.leave])) : Cpu × Pc Label).1, (),
      (iretq (s.exec (restoreRegisters ++ [.leave]))).2⟩) : c.InvM m' := by
  have hroom := hok.room
  have hrev : (savedRegisters.map c.cpu.regs).reverse = savedRegisters.reverse.map c.cpu.regs :=
    List.map_reverse.symm
  rw [saved, hrev] at hstack
  obtain ⟨hpopped, hmem, hregs, hkeeps⟩ := exec_pops savedRegisters.reverse (by decide) (by decide)
    (List.length_map ..) hstack
  have hlen : savedRegisters.reverse.length = 14 := rfl
  rw [hlen, show c.base - 160 + 8 * 14 = c.base - 48 by omega] at hpopped
  have hrbp₁ := hkeeps .rbp (by decide)
  rw [Cpu.exec_append, restoreRegisters] at hf
  generalize s.exec (savedRegisters.reverse.map .pop) = s₁ at hpopped hmem hregs hrbp₁ hf
  have hpopped : OnStack s₁ (c.base - 48) ([] ++ c.cpu.regs .rbp :: c.frame) := hpopped
  obtain ⟨hrbp', hleave, hmem', hkeeps'⟩ := hpopped.leave (by rw [hrbp₁, hrbp]; rfl)
  rw [List.length_nil, Nat.mul_zero, Nat.add_zero] at hleave
  have hiret := iretq_eq (L := Label) hleave
  have hf : m' = ⟨(iretq (s₁.exec1 .leave) : Cpu × Pc Label).1, (), (iretq (s₁.exec1 .leave)).2⟩ := hf
  obtain ⟨hpc, hrsp, hmem'', hkeeps''⟩ := hiret
  rw [hpc] at hf
  obtain rfl := hf
  refine ⟨rfl, rfl, rfl, rfl, fun r => ?_, ?_⟩
  · have hcases : ∀ r, r = .rsp ∨ r = .rbp ∨ r ∈ savedRegisters.reverse ∧ r ≠ .rsp ∧ r ≠ .rbp := by
      intro r
      cases r <;> decide
    rcases hcases r with rfl | rfl | ⟨hr, hne, hne'⟩
    · exact hrsp
    · exact (hkeeps'' .rbp (by decide)).trans hrbp'
    · rw [hkeeps'' r (by simpa using hne), hkeeps' r hne hne']
      exact List.map_inj_left.mp hregs r hr
  · have hframe : Stack _ _ (c.frame.take 5) ∧ Stack _ _ c.content := stack_append.mp hleave.stack
    have haddr : c.base - 48 + 8 + 8 * (c.frame.take 5).length = c.base := by
      have hlen : (c.frame.take 5).length = 5 := rfl
      omega
    rw [haddr] at hframe
    change Stack (iretq (s₁.exec1 .leave) : Cpu × Pc Label).1.mem _ _
    rw [hmem'']
    exact hframe.2

/-- What stands in front of the call leaves the stack alone. -/
theorem front_keeps (k : Macro) : (s.exec k.front).mem = s.mem ∧ Keeps [.rdi] s (s.exec k.front) := by
  cases k with
  | commonTrampoline vec =>
      exact ⟨rfl, fun r hr => Cpu.regs_set_of_ne _ _ _ _ (by simpa using hr)⟩
  | irqWithEoi | irqWithoutEoi | exceptionWithoutErr => exact ⟨rfl, fun _ _ => rfl⟩

theorem exec_call (k : Macro) (hok : c.Ok top) :
    let s := c.deliver.exec (k.blocks .entry).1
    OnStack s (c.base - 160) c.saved ∧ (s.regs .rbp).toNat = c.base - 48 := by
  obtain ⟨hstack, hrbp⟩ := exec_entry hok
  have hblock : (k.blocks .entry).1 = (buildStackFrame ++ saveRegisters) ++ k.front := by
    rw [k.blocks_eq, List.append_assoc]
    rfl
  rw [hblock, Cpu.exec_append]
  obtain ⟨hmem, hkeeps⟩ := front_keeps (s := c.deliver.exec (buildStackFrame ++ saveRegisters)) k
  refine ⟨hstack.of_eq (hkeeps .rsp (by decide)) hmem, ?_⟩
  rw [hkeeps .rbp (by decide)]
  exact hrbp

/-! ### Runs -/

/-- The blocks that have been executed. -/
def trace (k : Macro) : Pc Label → List Label
  | .at .entry => []
  | .at .called => [.entry]
  | .at .signalled => [.entry, .called]
  | .returned _ => []
  | .resumed _ _ _ _ => if k.eoi then [.entry, .called, .signalled] else [.entry, .called]

abbrev EntryStep (k : Macro) (addr : Label → BitVec 64) (top : ℕ) :
    Machine Label Unit → Label → Machine Label Unit → Prop := Step ⟨k.blocks, addr⟩ (ExternStep top)

/-- Where an entry point is, and how it has got there. -/
structure Reached (c : Interrupted) (k : Macro) (ls : List Label) (m : Machine Label Unit) : Prop where
  inv : c.InvM m
  trace : ls = trace k m.pc
  eoi : m.pc = .at .signalled → k.eoi = true

theorem ccall_keeps (hok : c.Ok top) (hcall : CCall top s s')
    (h : OnStack s (c.base - 160) c.saved ∧ (s.regs .rbp).toNat = c.base - 48) :
    OnStack s' (c.base - 160) c.saved ∧ (s'.regs .rbp).toNat = c.base - 48 := by
  have hlen : c.saved.length = 20 + c.content.length := by
    rw [saved, frame, List.length_append, List.length_reverse, List.length_map]
    simp only [List.length_cons, show savedRegisters.length = 14 from rfl]
    omega
  have hroom := hok.room
  have hbelow := hok.below
  refine ⟨hcall.onStack h.1 (by omega), ?_⟩
  rw [hcall.regs .rbp (by decide)]
  exact h.2

theorem reached_step {ls : List Label} (hok : c.Ok top) (h : Reached c k ls m)
    (hstep : EntryStep k addr top m l m') : Reached c k (ls ++ [l]) m' := by
  obtain ⟨hpc, hf⟩ := hstep.follows
  obtain ⟨s, ⟨⟩, pc⟩ := m
  obtain rfl : pc = .at l := hpc
  obtain ⟨hinv, rfl, heoi⟩ := h
  have hinv : c.Inv s l := hinv
  dsimp only at hf
  cases l with
  | entry =>
      obtain rfl : s = c.deliver := hinv
      have hexec := exec_call k hok
      rw [show (k.blocks .entry).2 = .ext .cfunc .called by rw [k.blocks_eq]; rfl] at hf
      obtain ⟨l', s', ⟨⟩, hext, rfl⟩ := hf
      cases hext with
      | ccall hc => exact ⟨ccall_keeps hok hc hexec, rfl, fun hpc => by cases hpc⟩
  | called =>
      cases hk : k.eoi with
      | true =>
          rw [show k.blocks .called = ([], .ext .apicSignalEoi .signalled) by
            rw [k.blocks_eq, hk]; rfl] at hf
          obtain ⟨l', s', ⟨⟩, hext, rfl⟩ := hf
          cases hext with
          | ccall hc => exact ⟨ccall_keeps hok hc hinv, rfl, fun _ => hk⟩
      | false =>
          rw [show k.blocks .called = (restoreRegisters ++ [.leave], .iret) by
            rw [k.blocks_eq, hk]; rfl] at hf
          refine ⟨exec_exit hok hinv.1 hinv.2 hf, ?_, ?_⟩ <;> obtain rfl := hf
          · simp [trace, iretq, hk]
          · intro hpc
            cases hpc
  | signalled =>
      rw [show k.blocks .signalled = (restoreRegisters ++ [.leave], .iret) by rw [k.blocks_eq]; rfl] at hf
      refine ⟨exec_exit hok hinv.1 hinv.2 hf, ?_, ?_⟩ <;> obtain rfl := hf
      · simp [trace, iretq, heoi rfl]
      · intro hpc
        cases hpc

theorem reached_run {ls : List Label} (hok : c.Ok top)
    (hrun : Run (EntryStep k addr top) ⟨c.deliver, (), .at .entry⟩ ls m) : Reached c k ls m :=
  hrun.history (I := fun ls m => Reached c k ls m) ⟨rfl, rfl, fun hpc => by cases hpc⟩
    fun _ _ _ _ h hstep => reached_step hok h hstep

/-- Whatever was interrupted and on whichever stack: the C functions are called with an aligned stack, the
handler of a trampoline with its vector, and when the entry point goes back, it goes back to where the
interrupt has come from, with the flags, all registers and the stack as they were; by then the handler has
been called once, and behind it, if the macro says so, `apic_signal_eoi`. -/
theorem interrupted_context_kept {ls : List Label} (hok : c.Ok top)
    (hrun : Run (EntryStep k addr top) ⟨c.deliver, (), .at .entry⟩ ls m) :
    (∀ rip, m.pc ≠ .returned rip) ∧
      (∀ l e l', m.pc = .at l → (k.blocks l).2 = .ext e l' →
        ((m.cpu.exec (k.blocks l).1).regs .rsp).toNat % 16 = 0) ∧
      (∀ vec, k = .commonTrampoline vec → m.pc = .at .entry →
        ((m.cpu.exec (k.blocks .entry).1).regs .rdi).setWidth 8 = vec) ∧
      ∀ rip cs rflags ss, m.pc = .resumed rip cs rflags ss →
        c.Resumed m.cpu rip cs rflags ss ∧
          ls = if k.eoi then [.entry, .called, .signalled] else [.entry, .called] := by
  obtain ⟨hinv, htrace, -⟩ := reached_run hok hrun
  rw [InvM] at hinv
  have halign : (c.base - 160) % 16 = 0 := by
    have hbase := base_aligned (c := c)
    have hroom := hok.room
    omega
  refine ⟨fun rip hpc => ?_, fun l e l' hpc hext => ?_, fun vec hk hpc => ?_,
    fun rip cs rflags ss hpc => ?_⟩
  · rw [hpc] at hinv
    exact hinv
  · rw [hpc] at hinv
    have hinv : c.Inv m.cpu l := hinv
    cases l with
    | entry =>
        have hinv : m.cpu = c.deliver := hinv
        rw [hinv, (exec_call k hok).1.rsp]
        exact halign
    | called =>
        have hblock : (k.blocks .called).1 = [] := by
          rw [k.blocks_eq] at hext ⊢
          cases heoi : k.eoi with
          | true => rfl
          | false =>
              rw [heoi] at hext
              cases hext
        rw [hblock, Cpu.exec_nil, hinv.1.rsp]
        exact halign
    | signalled =>
        rw [k.blocks_eq] at hext
        cases hext
  · subst hk
    have hexec : m.cpu.exec ((Macro.commonTrampoline vec).blocks .entry).1 =
        (m.cpu.exec (buildStackFrame ++ saveRegisters)).exec1 (.movByte vec .rdi) := by
      rw [show ((Macro.commonTrampoline vec).blocks .entry).1 =
        (buildStackFrame ++ saveRegisters) ++ [.movByte vec .rdi] by rfl, Cpu.exec_append]
      rfl
    rw [hexec, Cpu.exec1, Cpu.regs_set_self]
    exact BitVec.setWidth_append_eq_right
  · rw [hpc] at hinv htrace
    exact ⟨hinv, htrace⟩

/-- An interrupt on a stack that is not aligned, with a different value in each register and each quadword of
the stack. -/
def sample : Interrupted where
  cpu :=
    { regs := fun r => if r = .rsp then 0x10008 else 0x100 + BitVec.ofNat 64 r.ctorIdx
      mem := fun b => if b % 8 = 0 then b / 8 % 256 + 1 else 0
      zf := false }
  rip := 0x400000
  cs := 8
  rflags := 0x202
  ss := 0
  stack := 0x10008
  content := [1, 2, 3]

theorem sample_ok : sample.Ok 0x20000 :=
  ⟨by decide, ⟨by decide, by decide, by decide, trivial⟩, by decide, by decide⟩

/-- The handler of vector `0x21` returns, with another value in `rax`. -/
theorem sample_run : ∃ ls, ∃ m : Machine Label Unit, m.pc = .resumed 0x400000 8 0x202 0 ∧
    Run (EntryStep (.commonTrampoline 0x21) (fun _ => 0) 0x20000) ⟨sample.deliver, (), .at .entry⟩ ls m := by
  have hcall : ∀ s : Cpu, CCall 0x20000 s (s.set .rax 7) := fun s =>
    ⟨fun r hr => Cpu.regs_set_of_ne _ .rax r 7 (by rintro rfl; revert hr; decide), fun _ _ _ => rfl⟩
  have h := (Run.nil _).snoc (Step.ext rfl (ExternStep.ccall (hcall _)) :
    EntryStep (.commonTrampoline 0x21) (fun _ => 0) 0x20000 ⟨sample.deliver, (), .at .entry⟩ _ _)
  have h := h.snoc (Step.iret rfl)
  exact ⟨_, _, rfl, h⟩

theorem interrupted_context_kept_sample : ∃ m : Machine Label Unit, m.pc = .resumed 0x400000 8 0x202 0 ∧
    m.cpu.regs .rsp = 0x10008 ∧ m.cpu.regs .rax = 0x100 ∧ m.cpu.regs .r15 = 0x10f ∧
    Stack m.cpu.mem 0x10000 [1, 2, 3] := by
  obtain ⟨ls, m, hpc, hrun⟩ := sample_run
  obtain ⟨-, -, -, hres⟩ := interrupted_context_kept sample_ok hrun
  have hresumed := (hres _ _ _ _ hpc).1
  exact ⟨m, hpc, hresumed.regs .rsp, hresumed.regs .rax, hresumed.regs .r15, hresumed.content⟩

end Interrupted

end IrqEntry

end HyveMind
