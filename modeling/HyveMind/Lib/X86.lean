import HyveMind.Lib.ByteMem
import HyveMind.Lib.Run

/-! # A fragment of x86-64

The sixteen registers, byte-addressed memory and the zero flag, and the instructions that the entry and exit
code of a kernel is made of.  Straight-line code is a list of instructions (`exec`); a program consists of
blocks, each with a way to end, and what is called from outside is a relation (`Step`).

The stack is described by `Stack mem a vs`: from the address `a` on the quadwords are `vs`.  There is one
rule for each sequence of equal instructions: `exec_pushes`, `exec_pops`, `exec_saves`, `exec_loads`. -/

namespace HyveMind.Lib

namespace X86

inductive Reg
  | rax | rbx | rcx | rdx | rsi | rdi | rbp | rsp | r8 | r9 | r10 | r11 | r12 | r13 | r14 | r15
deriving DecidableEq, Repr

/-- The state that instructions work on. -/
structure Cpu where
  regs : Reg → BitVec 64
  mem : ℕ → ℕ
  zf : Bool

inductive Instr
  | push (r : Reg)
  | pop (r : Reg)
  | mov (src dst : Reg)
  | movImm (imm : BitVec 64) (dst : Reg)
  /-- `movb $imm, %dst`, of the lowest byte. -/
  | movByte (imm : BitVec 8) (dst : Reg)
  /-- `movq disp(%base), %dst` -/
  | load (disp : ℕ) (base dst : Reg)
  /-- `movl disp(%base), %dst`, which clears the upper half. -/
  | loadLong (disp : ℕ) (base dst : Reg)
  /-- `movq %src, disp(%base)` -/
  | store (src : Reg) (disp : ℕ) (base : Reg)
  /-- `xor %r, %r` -/
  | clear (r : Reg)
  | addImm (imm : BitVec 64) (r : Reg)
  | cmpImm (imm : BitVec 64) (r : Reg)
  | leave
deriving DecidableEq, Repr

namespace Cpu

def set (s : Cpu) (r : Reg) (v : BitVec 64) : Cpu := { s with regs := Function.update s.regs r v }

/-- The quadword at an address. -/
def quad (s : Cpu) (a : ℕ) : BitVec 64 := BitVec.ofNat 64 (load64 s.mem a)

def write (s : Cpu) (a : ℕ) (v : BitVec 64) : Cpu := { s with mem := store64 s.mem a v.toNat }

/-- The address `disp(%base)`. -/
def ea (s : Cpu) (disp : ℕ) (base : Reg) : ℕ := (s.regs base + BitVec.ofNat 64 disp).toNat

def push (s : Cpu) (v : BitVec 64) : Cpu :=
  (s.set .rsp (s.regs .rsp - 8)).write (s.regs .rsp - 8).toNat v

def pop (s : Cpu) : BitVec 64 × Cpu :=
  (s.quad (s.regs .rsp).toNat, s.set .rsp (s.regs .rsp + 8))

def exec1 (s : Cpu) : Instr → Cpu
  | .push r => s.push (s.regs r)
  | .pop r => s.pop.2.set r s.pop.1
  | .mov src dst => s.set dst (s.regs src)
  | .movImm imm dst => s.set dst imm
  | .movByte imm dst => s.set dst ((s.regs dst).extractLsb' 8 56 ++ imm)
  | .load disp base dst => s.set dst (s.quad (s.ea disp base))
  | .loadLong disp base dst => s.set dst ((s.quad (s.ea disp base)).setWidth 32 |>.setWidth 64)
  | .store src disp base => s.write (s.ea disp base) (s.regs src)
  | .clear r => { s.set r 0 with zf := true }
  | .addImm imm r => { s.set r (s.regs r + imm) with zf := decide (s.regs r + imm = 0) }
  | .cmpImm imm r => { s with zf := decide (s.regs r = imm) }
  | .leave =>
      let s := s.set .rsp (s.regs .rbp)
      s.pop.2.set .rbp s.pop.1

def exec (s : Cpu) (is : List Instr) : Cpu := is.foldl exec1 s

/-! ### The fields behind an instruction -/

variable (s : Cpu) (r r' : Reg) (v : BitVec 64) (a : ℕ)

@[simp] theorem regs_set_self : (s.set r v).regs r = v := Function.update_self ..

theorem regs_set_of_ne (h : r' ≠ r) : (s.set r v).regs r' = s.regs r' := Function.update_of_ne h ..

@[simp] theorem mem_set : (s.set r v).mem = s.mem := rfl

@[simp] theorem zf_set : (s.set r v).zf = s.zf := rfl

@[simp] theorem regs_write : (s.write a v).regs = s.regs := rfl

@[simp] theorem zf_write : (s.write a v).zf = s.zf := rfl

@[simp] theorem quad_set : (s.set r v).quad a = s.quad a := rfl

@[simp] theorem exec_nil : s.exec [] = s := rfl

theorem exec_cons (i : Instr) (is : List Instr) : s.exec (i :: is) = (s.exec1 i).exec is := rfl

theorem exec_append (is is' : List Instr) : s.exec (is ++ is') = (s.exec is).exec is' :=
  List.foldl_append ..

end Cpu

/-! ### The stack -/

/-- From `a` on the quadwords are `vs`. -/
def Stack (mem : ℕ → ℕ) : ℕ → List (BitVec 64) → Prop
  | _, [] => True
  | a, v :: vs => BitVec.ofNat 64 (load64 mem a) = v ∧ Stack mem (a + 8) vs

variable {s s' : Cpu} {r r' : Reg} {mem mem' : ℕ → ℕ} {a b : ℕ} {v : BitVec 64} {vs ws : List (BitVec 64)}

theorem Stack.congr (h : Stack mem a vs) (hmem : ∀ b, a ≤ b → b < a + 8 * vs.length → mem' b = mem b) :
    Stack mem' a vs := by
  induction vs generalizing a with
  | nil => trivial
  | cons v vs ih =>
      rw [List.length_cons] at hmem
      refine ⟨?_, ih h.2 fun b hb hb' => hmem b (by omega) (by omega)⟩
      rw [load64_congr fun b hb hb' => hmem b hb (by omega)]
      exact h.1

theorem stack_append : Stack mem a (vs ++ ws) ↔ Stack mem a vs ∧ Stack mem (a + 8 * vs.length) ws := by
  induction vs generalizing a with
  | nil => simp [Stack]
  | cons v vs ih =>
      rw [List.cons_append, Stack, ih, Stack, and_assoc, List.length_cons]
      have haddr : a + 8 + 8 * vs.length = a + 8 * (vs.length + 1) := by ring
      rw [haddr]

theorem load64_write (s : Cpu) (a : ℕ) (v : BitVec 64) : (s.write a v).quad a = v := by
  unfold Cpu.quad Cpu.write
  rw [load64_store64 v.isLt, BitVec.ofNat_toNat, BitVec.setWidth_eq]

theorem Stack.write (h : Stack s.mem a vs) (hb : b + 8 ≤ a ∨ a + 8 * vs.length ≤ b) :
    Stack (s.write b v).mem a vs :=
  h.congr fun c hc hc' => store64_of_notMem (by omega)

/-- The stack pointer is `a`, and from there on the stack is `vs`. -/
structure OnStack (s : Cpu) (a : ℕ) (vs : List (BitVec 64)) : Prop where
  rsp : (s.regs .rsp).toNat = a
  stack : Stack s.mem a vs
  fits : a + 8 * vs.length < 2 ^ 64

theorem OnStack.set (h : OnStack s a vs) (hr : r ≠ .rsp) : OnStack (s.set r v) a vs := by
  refine ⟨?_, h.stack, h.fits⟩
  rw [Cpu.regs_set_of_ne _ _ _ _ (Ne.symm hr)]
  exact h.rsp

theorem OnStack.push (h : OnStack s a vs) (ha : 8 ≤ a) (v : BitVec 64) :
    OnStack (s.push v) (a - 8) (v :: vs) := by
  have hrsp := h.rsp
  have hsub : (s.regs .rsp - 8).toNat = a - 8 := by
    have hlt := (s.regs .rsp).isLt
    rw [BitVec.toNat_sub, hrsp]
    simp only [BitVec.reduceToNat]
    omega
  refine ⟨?_, ⟨?_, ?_⟩, ?_⟩
  · rw [Cpu.push, Cpu.regs_write, Cpu.regs_set_self, hsub]
  · rw [Cpu.push, hsub]
    exact load64_write _ _ _
  · rw [Cpu.push, hsub, Nat.sub_add_cancel ha]
    exact Stack.write (s := s.set .rsp _) h.stack (by omega)
  · rw [List.length_cons]
    have hfits := h.fits
    omega

theorem OnStack.pop (h : OnStack s a (v :: vs)) : s.pop.1 = v ∧ OnStack s.pop.2 (a + 8) vs := by
  have hfits := h.fits
  rw [List.length_cons] at hfits
  refine ⟨?_, ?_, h.stack.2, by omega⟩
  · rw [Cpu.pop, h.rsp]
    exact h.stack.1
  · rw [Cpu.pop, Cpu.regs_set_self, BitVec.toNat_add, h.rsp]
    simp only [BitVec.reduceToNat]
    omega

theorem OnStack.quad (h : OnStack s a vs) {i : ℕ} (hi : i < vs.length) :
    s.quad (s.ea (8 * i) .rsp) = vs[i] := by
  have hfits := h.fits
  have hea : s.ea (8 * i) .rsp = a + 8 * i := by
    rw [Cpu.ea, BitVec.toNat_add, h.rsp, BitVec.toNat_ofNat]
    omega
  rw [hea]
  have hsplit := h.stack
  rw [← List.take_append_drop i vs, stack_append, List.length_take, min_eq_left hi.le,
    List.drop_eq_getElem_cons hi] at hsplit
  exact hsplit.2.1

theorem OnStack.of_eq (h : OnStack s a vs) (hr : s'.regs .rsp = s.regs .rsp) (hmem : s'.mem = s.mem) :
    OnStack s' a vs :=
  ⟨by rw [hr]; exact h.rsp, by rw [hmem]; exact h.stack, h.fits⟩

theorem OnStack.frame (h : OnStack s a vs) (ha : 8 ≤ a) :
    OnStack (s.exec [.push .rbp, .mov .rsp .rbp]) (a - 8) (s.regs .rbp :: vs) ∧
      ((s.exec [.push .rbp, .mov .rsp .rbp]).regs .rbp).toNat = a - 8 ∧
      ∀ r, r ≠ .rsp → r ≠ .rbp → (s.exec [.push .rbp, .mov .rsp .rbp]).regs r = s.regs r := by
  have hpush := h.push ha (s.regs .rbp)
  refine ⟨hpush.set (by decide), ?_, fun r hr hr' => ?_⟩
  · have hrbp : (s.exec [.push .rbp, .mov .rsp .rbp]).regs .rbp = (s.push (s.regs .rbp)).regs .rsp :=
      Cpu.regs_set_self ..
    rw [hrbp]
    exact hpush.rsp
  · exact (Cpu.regs_set_of_ne _ _ _ _ hr').trans (Cpu.regs_set_of_ne _ _ _ _ hr)

theorem OnStack.leave (h : OnStack s a (ws ++ v :: vs)) (hrbp : (s.regs .rbp).toNat = a + 8 * ws.length) :
    (s.exec1 .leave).regs .rbp = v ∧ OnStack (s.exec1 .leave) (a + 8 * ws.length + 8) vs ∧
      (s.exec1 .leave).mem = s.mem ∧ ∀ r, r ≠ .rsp → r ≠ .rbp → (s.exec1 .leave).regs r = s.regs r := by
  have hfits := h.fits
  rw [List.length_append, List.length_cons] at hfits
  have hframe : OnStack (s.set .rsp (s.regs .rbp)) (a + 8 * ws.length) (v :: vs) := by
    refine ⟨?_, (stack_append.mp h.stack).2, ?_⟩
    · rw [Cpu.regs_set_self]
      exact hrbp
    · rw [List.length_cons]
      omega
  obtain ⟨hv, hpop⟩ := hframe.pop
  refine ⟨?_, hpop.set (by decide), rfl, fun r hr hr' => ?_⟩
  · rw [← hv]
    exact Cpu.regs_set_self ..
  · rw [Cpu.exec1, Cpu.regs_set_of_ne _ _ _ _ hr', Cpu.pop, Cpu.regs_set_of_ne _ _ _ _ hr,
      Cpu.regs_set_of_ne _ _ _ _ hr]

/-! ### Sequences of one instruction -/

/-- The registers that are not in `rs` are as before. -/
def Keeps (rs : List Reg) (s s' : Cpu) : Prop := ∀ r, r ∉ rs → s'.regs r = s.regs r

theorem exec_pushes (rs : List Reg) (hrs : Reg.rsp ∉ rs) (h : OnStack s a vs) (ha : 8 * rs.length ≤ a) :
    OnStack (s.exec (rs.map .push)) (a - 8 * rs.length) ((rs.map s.regs).reverse ++ vs) ∧
      Keeps [.rsp] s (s.exec (rs.map .push)) ∧
      ∀ b, b < a - 8 * rs.length ∨ a ≤ b → (s.exec (rs.map .push)).mem b = s.mem b := by
  induction rs generalizing s a vs with
  | nil => exact ⟨h, fun _ _ => rfl, fun _ _ => rfl⟩
  | cons r rs ih =>
      rw [List.length_cons] at ha
      simp only [List.mem_cons, not_or] at hrs
      have hpush := h.push (by omega) (s.regs r)
      obtain ⟨hstack, hkeeps, hmem⟩ := ih hrs.2 hpush (by omega)
      have hregs : ∀ r' ∉ [Reg.rsp], (s.push (s.regs r)).regs r' = s.regs r' := by
        intro r' hr'
        exact Cpu.regs_set_of_ne _ _ _ _ (by simpa using hr')
      have hmap : rs.map (s.push (s.regs r)).regs = rs.map s.regs := by
        refine List.map_congr_left fun r' hr' => hregs r' ?_
        rw [List.mem_singleton]
        exact fun he => hrs.2 (he ▸ hr')
      rw [List.map_cons, Cpu.exec_cons, List.map_cons, List.reverse_cons, List.append_assoc, List.length_cons]
      refine ⟨?_, fun r' hr' => (hkeeps r' hr').trans (hregs r' hr'), fun b hb => ?_⟩
      · have haddr : a - 8 * (rs.length + 1) = a - 8 - 8 * rs.length := by omega
        rw [haddr, ← hmap]
        exact hstack
      · rw [Cpu.exec1, hmem b (by omega), Cpu.push]
        have hsub : (s.regs .rsp - 8).toNat = a - 8 := by
          have hrsp := hpush.rsp
          rwa [Cpu.push, Cpu.regs_write, Cpu.regs_set_self] at hrsp
        rw [hsub]
        exact store64_of_notMem (by omega)

theorem exec_pops (rs : List Reg) (hrs : Reg.rsp ∉ rs) (hnodup : rs.Nodup) (hlen : ws.length = rs.length)
    (h : OnStack s a (ws ++ vs)) :
    OnStack (s.exec (rs.map .pop)) (a + 8 * rs.length) vs ∧
      (s.exec (rs.map .pop)).mem = s.mem ∧
      rs.map (s.exec (rs.map .pop)).regs = ws ∧
      Keeps (.rsp :: rs) s (s.exec (rs.map .pop)) := by
  induction rs generalizing s a ws with
  | nil =>
      obtain rfl := List.length_eq_zero_iff.mp hlen
      exact ⟨h, rfl, rfl, fun _ _ => rfl⟩
  | cons r rs ih =>
      obtain ⟨w, ws, rfl⟩ : ∃ w ws', ws = w :: ws' := by
        cases ws with
        | nil => cases hlen
        | cons w ws => exact ⟨w, ws, rfl⟩
      simp only [List.mem_cons, not_or] at hrs
      obtain ⟨hr, hnodup⟩ := List.nodup_cons.mp hnodup
      obtain ⟨hw, hpop⟩ := h.pop
      have hset : OnStack (s.exec1 (.pop r)) (a + 8) (ws ++ vs) := hpop.set (Ne.symm hrs.1)
      obtain ⟨hstack, hmem, hregs, hkeeps⟩ := ih hrs.2 hnodup (by simpa using hlen) hset
      rw [List.map_cons, Cpu.exec_cons]
      refine ⟨?_, hmem, ?_, fun r' hr' => ?_⟩
      · have haddr : a + 8 * (rs.length + 1) = a + 8 + 8 * rs.length := by omega
        rw [List.length_cons, haddr]
        exact hstack
      · rw [List.map_cons, hregs, hkeeps r (by simp [Ne.symm hrs.1, hr]), Cpu.exec1, Cpu.regs_set_self, hw]
      · simp only [List.mem_cons, not_or] at hr'
        rw [hkeeps r' (by simp [hr'.1, hr'.2.2]), Cpu.exec1, Cpu.regs_set_of_ne _ _ _ _ hr'.2.1, Cpu.pop,
          Cpu.regs_set_of_ne _ _ _ _ hr'.1]

/-- `mov %r, disp(%base); xor %r, %r` for each register with its place. -/
def saveAndClear (base : Reg) (slots : List (Reg × ℕ)) : List Instr :=
  slots.flatMap fun p => [.store p.1 p.2 base, .clear p.1]

/-- `mov disp(%base), %r` for each register with its place. -/
def loadAll (base : Reg) (slots : List (Reg × ℕ)) : List Instr := slots.map fun p => .load p.2 base p.1

/-- The places lie behind `p`, without overlap, and within `size` bytes. -/
structure Layout (slots : List (Reg × ℕ)) (size : ℕ) : Prop where
  nodup : (slots.map Prod.fst).Nodup
  apart : slots.Pairwise fun x y => x.2 + 8 ≤ y.2 ∨ y.2 + 8 ≤ x.2
  within : ∀ x ∈ slots, x.2 + 8 ≤ size

theorem ea_eq {base : Reg} {disp : ℕ} (h : (s.regs base).toNat + disp < 2 ^ 64) :
    s.ea disp base = (s.regs base).toNat + disp := by
  rw [Cpu.ea, BitVec.toNat_add, BitVec.toNat_ofNat]
  omega

theorem Layout.tail {x : Reg × ℕ} {slots : List (Reg × ℕ)} {size : ℕ} (h : Layout (x :: slots) size) :
    Layout slots size :=
  ⟨(List.nodup_cons.mp h.nodup).2, (List.pairwise_cons.mp h.apart).2,
    fun y hy => h.within y (List.mem_cons_of_mem _ hy)⟩

theorem exec_saves {base : Reg} {slots : List (Reg × ℕ)} {size : ℕ} (hlayout : Layout slots size)
    (hbase : base ∉ slots.map Prod.fst) (hfits : (s.regs base).toNat + size < 2 ^ 64) :
    (∀ x ∈ slots, (s.exec (saveAndClear base slots)).quad ((s.regs base).toNat + x.2) = s.regs x.1) ∧
      (∀ b, (∀ x ∈ slots, b < (s.regs base).toNat + x.2 ∨ (s.regs base).toNat + x.2 + 8 ≤ b) →
        (s.exec (saveAndClear base slots)).mem b = s.mem b) ∧
      Keeps (slots.map Prod.fst) s (s.exec (saveAndClear base slots)) := by
  induction slots generalizing s with
  | nil => exact ⟨fun _ hx => absurd hx List.not_mem_nil, fun _ _ => rfl, fun _ _ => rfl⟩
  | cons x slots ih =>
      obtain ⟨r, off⟩ := x
      simp only [List.map_cons, List.mem_cons, not_or] at hbase
      have hoff := hlayout.within (r, off) (List.mem_cons_self ..)
      obtain ⟨hr, -⟩ := List.nodup_cons.mp hlayout.nodup
      let s₁ : Cpu := (s.exec1 (.store r off base)).exec1 (.clear r)
      have hsplit : s.exec (saveAndClear base ((r, off) :: slots)) = s₁.exec (saveAndClear base slots) := rfl
      have hmem₁ : s₁.mem = store64 s.mem ((s.regs base).toNat + off) (s.regs r).toNat := by
        rw [← ea_eq (by omega)]
        rfl
      have hregs₁ : ∀ r', r' ≠ r → s₁.regs r' = s.regs r' := fun r' hr' => Function.update_of_ne hr' ..
      have hbase₁ := hregs₁ base hbase.1
      obtain ⟨hsaved, hframe, hkeeps⟩ := ih hlayout.tail hbase.2 (by rw [hbase₁]; exact hfits)
      rw [hbase₁] at hsaved hframe
      rw [hsplit]
      refine ⟨fun y hy => ?_, fun b hb => ?_, fun r' hr' => ?_⟩
      · rcases List.mem_cons.mp hy with rfl | hy
        · have hbytes : ∀ b, (s.regs base).toNat + off ≤ b → b < (s.regs base).toNat + off + 8 →
              (s₁.exec (saveAndClear base slots)).mem b = s₁.mem b := by
            intro b hb hb'
            refine hframe b fun y hy => ?_
            have hapart := (List.pairwise_cons.mp hlayout.apart).1 y hy
            simp only at hapart
            omega
          rw [Cpu.quad, load64_congr hbytes, hmem₁, load64_store64 (s.regs r).isLt, BitVec.ofNat_toNat,
            BitVec.setWidth_eq]
        · rw [hsaved y hy, hregs₁]
          exact fun he => hr (List.mem_map.mpr ⟨y, hy, he⟩)
      · rw [hframe b fun y hy => hb y (List.mem_cons_of_mem _ hy), hmem₁]
        exact store64_of_notMem (hb (r, off) (List.mem_cons_self ..))
      · simp only [List.map_cons, List.mem_cons, not_or] at hr'
        rw [hkeeps r' hr'.2, hregs₁ r' hr'.1]

theorem exec_loads {base : Reg} {slots : List (Reg × ℕ)} {size : ℕ} (hlayout : Layout slots size)
    (hbase : base ∉ slots.map Prod.fst) (hfits : (s.regs base).toNat + size < 2 ^ 64) :
    (∀ x ∈ slots, (s.exec (loadAll base slots)).regs x.1 = s.quad ((s.regs base).toNat + x.2)) ∧
      (s.exec (loadAll base slots)).mem = s.mem ∧
      Keeps (slots.map Prod.fst) s (s.exec (loadAll base slots)) := by
  induction slots generalizing s with
  | nil => exact ⟨fun _ hx => absurd hx List.not_mem_nil, rfl, fun _ _ => rfl⟩
  | cons x slots ih =>
      obtain ⟨r, off⟩ := x
      simp only [List.map_cons, List.mem_cons, not_or] at hbase
      have hoff := hlayout.within (r, off) (List.mem_cons_self ..)
      obtain ⟨hr, -⟩ := List.nodup_cons.mp hlayout.nodup
      let s₁ : Cpu := s.exec1 (.load off base r)
      have hsplit : s.exec (loadAll base ((r, off) :: slots)) = s₁.exec (loadAll base slots) := rfl
      have hregs₁ : ∀ r', r' ≠ r → s₁.regs r' = s.regs r' := fun r' hr' => Function.update_of_ne hr' ..
      have hloaded₁ : s₁.regs r = s.quad ((s.regs base).toNat + off) := by
        rw [← ea_eq (by omega)]
        exact Function.update_self ..
      have hbase₁ := hregs₁ base hbase.1
      obtain ⟨hloaded, hmem, hkeeps⟩ := ih hlayout.tail hbase.2 (by rw [hbase₁]; exact hfits)
      rw [hbase₁] at hloaded
      rw [hsplit]
      refine ⟨fun y hy => ?_, hmem, fun r' hr' => ?_⟩
      · rcases List.mem_cons.mp hy with rfl | hy
        · rw [hkeeps r hr, hloaded₁]
        · exact hloaded y hy
      · simp only [List.map_cons, List.mem_cons, not_or] at hr'
        rw [hkeeps r' hr'.2, hregs₁ r' hr'.1]

/-! ### Programs -/

/-- How a block ends. -/
inductive Transfer (L E : Type)
  | jmp (l : L)
  /-- `je l`, and otherwise on to `l'`. -/
  | je (l l' : L)
  /-- `call l`, with the return to `l'`. -/
  | call (l l' : L)
  | ret
  | iret
  /-- What is not part of the program, with the block behind it. -/
  | ext (e : E) (l : L)

/-- The blocks, and where in memory they are. -/
structure Code (L E : Type) where
  block : L → List Instr × Transfer L E
  addr : L → BitVec 64

inductive Pc (L : Type)
  | at (l : L)
  /-- Behind a `ret` to an address outside of the program. -/
  | returned (rip : BitVec 64)
  /-- Behind an `iretq`, with what it has loaded. -/
  | resumed (rip cs rflags ss : BitVec 64)

structure Machine (L H : Type) where
  cpu : Cpu
  /-- What else the external steps look at. -/
  env : H
  pc : Pc L

variable {L E H : Type}

/-- `iretq`: the state and the place afterwards. -/
def iretq (s : Cpu) : Cpu × Pc L :=
  let (rip, s) := s.pop
  let (cs, s) := s.pop
  let (rflags, s) := s.pop
  let (rsp, s) := s.pop
  let (ss, s) := s.pop
  (s.set .rsp rsp, .resumed rip cs rflags ss)

theorem iretq_eq {rip cs rflags rsp ss : BitVec 64} (h : OnStack s a (rip :: cs :: rflags :: rsp :: ss :: vs)) :
    (iretq s : Cpu × Pc L).2 = .resumed rip cs rflags ss ∧
      (iretq s : Cpu × Pc L).1.regs .rsp = rsp ∧
      (iretq s : Cpu × Pc L).1.mem = s.mem ∧ Keeps [.rsp] s (iretq s : Cpu × Pc L).1 := by
  obtain ⟨hrip, h⟩ := h.pop
  obtain ⟨hcs, h⟩ := h.pop
  obtain ⟨hrflags, h⟩ := h.pop
  obtain ⟨hrsp, h⟩ := h.pop
  obtain ⟨hss, h⟩ := h.pop
  refine ⟨?_, ?_, rfl, fun r hr => ?_⟩
  · rw [← hrip, ← hcs, ← hrflags, ← hss]
    rfl
  · rw [← hrsp]
    exact Cpu.regs_set_self ..
  · have hr : r ≠ .rsp := by simpa using hr
    simp only [iretq, Cpu.pop, Cpu.regs_set_of_ne _ _ _ _ hr]

/-- The external steps: from the block behind it and the state, to a block and a state. -/
abbrev External (L E H : Type) := E → L → Cpu × H → L × Cpu × H → Prop

/-- The execution of a block. -/
inductive Step (code : Code L E) (ext : External L E H) : Machine L H → L → Machine L H → Prop
  | jmp {s : Cpu} {h : H} {l l' : L} {is : List Instr} (hl : code.block l = (is, .jmp l')) :
      Step code ext ⟨s, h, .at l⟩ l ⟨s.exec is, h, .at l'⟩
  | je {s : Cpu} {h : H} {l l₁ l₂ : L} {is : List Instr} (hl : code.block l = (is, .je l₁ l₂)) :
      Step code ext ⟨s, h, .at l⟩ l ⟨s.exec is, h, .at (if (s.exec is).zf then l₁ else l₂)⟩
  | call {s : Cpu} {h : H} {l l₁ l₂ : L} {is : List Instr} (hl : code.block l = (is, .call l₁ l₂)) :
      Step code ext ⟨s, h, .at l⟩ l ⟨(s.exec is).push (code.addr l₂), h, .at l₁⟩
  | ret {s : Cpu} {h : H} {l l' : L} {is : List Instr} (hl : code.block l = (is, .ret))
      (hl' : (s.exec is).pop.1 = code.addr l') :
      Step code ext ⟨s, h, .at l⟩ l ⟨(s.exec is).pop.2, h, .at l'⟩
  | leave {s : Cpu} {h : H} {l : L} {is : List Instr} (hl : code.block l = (is, .ret))
      (hl' : ∀ l', (s.exec is).pop.1 ≠ code.addr l') :
      Step code ext ⟨s, h, .at l⟩ l ⟨(s.exec is).pop.2, h, .returned (s.exec is).pop.1⟩
  | iret {s : Cpu} {h : H} {l : L} {is : List Instr} (hl : code.block l = (is, .iret)) :
      Step code ext ⟨s, h, .at l⟩ l ⟨(iretq (s.exec is) : Cpu × Pc L).1, h, (iretq (s.exec is)).2⟩
  | ext {s s' : Cpu} {h h' : H} {l l₁ l₂ : L} {is : List Instr} {e : E}
      (hl : code.block l = (is, .ext e l₁)) (he : ext e l₁ (s.exec is, h) (l₂, s', h')) :
      Step code ext ⟨s, h, .at l⟩ l ⟨s', h', .at l₂⟩

/-- What a step can do, by the way in which the block ends. -/
def Follows (code : Code L E) (ext : External L E H) (s : Cpu) (h : H) (m : Machine L H) : Transfer L E → Prop
  | .jmp l => m = ⟨s, h, .at l⟩
  | .je l l' => m = ⟨s, h, .at (if s.zf then l else l')⟩
  | .call l l' => m = ⟨s.push (code.addr l'), h, .at l⟩
  | .ret => (∃ l, s.pop.1 = code.addr l ∧ m = ⟨s.pop.2, h, .at l⟩) ∨
      ((∀ l, s.pop.1 ≠ code.addr l) ∧ m = ⟨s.pop.2, h, .returned s.pop.1⟩)
  | .iret => m = ⟨(iretq s : Cpu × Pc L).1, h, (iretq s).2⟩
  | .ext e l => ∃ l' s' h', ext e l (s, h) (l', s', h') ∧ m = ⟨s', h', .at l'⟩

theorem Step.follows {code : Code L E} {ext : External L E H} {m m' : Machine L H} {l : L}
    (h : Step code ext m l m') : m.pc = .at l ∧
      Follows code ext (m.cpu.exec (code.block l).1) m.env m' (code.block l).2 := by
  cases h with
  | jmp hl | je hl | call hl | iret hl =>
      rw [hl]
      exact ⟨rfl, rfl⟩
  | ret hl hl' =>
      rw [hl]
      exact ⟨rfl, .inl ⟨_, hl', rfl⟩⟩
  | leave hl hl' =>
      rw [hl]
      exact ⟨rfl, .inr ⟨hl', rfl⟩⟩
  | ext hl he =>
      rw [hl]
      exact ⟨rfl, _, _, _, he, rfl⟩

/-- The registers that a called function keeps. -/
def calleeSaved : List Reg := [.rbx, .rbp, .rsp, .r12, .r13, .r14, .r15]

/-- A call of a function that keeps to the calling convention: it returns with the stack as it was, up to
the address `top`. -/
structure CCall (top : ℕ) (s s' : Cpu) : Prop where
  regs : ∀ r ∈ calleeSaved, s'.regs r = s.regs r
  mem : ∀ b, (s.regs .rsp).toNat ≤ b → b < top → s'.mem b = s.mem b

theorem CCall.onStack {top : ℕ} (hcall : CCall top s s') (h : OnStack s a vs)
    (htop : a + 8 * vs.length ≤ top) : OnStack s' a vs := by
  refine ⟨?_, h.stack.congr fun b hb hb' => hcall.mem b (by rw [h.rsp]; exact hb) (by omega), h.fits⟩
  rw [hcall.regs .rsp (by decide)]
  exact h.rsp

end X86

end HyveMind.Lib
