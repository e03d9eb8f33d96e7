import HyveMind.HallocRun
import HyveMind.VmConfigConvert

/-! # Allocating a VM

`allocate_vm` of `vm.c` with all that it calls, over the heap and the page-frame allocator.  The
contents of the structures that are filled in are kept beside the memory of the heap; `Sys.blocks`
and `Sys.others` hold the blocks and the pages that have not been given back.

`failed_allocation_leaks`: when a vCPU cannot be allocated, `allocate_vm` never gives back all that
it has taken.  `vcpus` and the name are forgotten, and so is the last vCPU, because `destroy_vcpus`
is called with `i - 1`. -/

namespace HyveMind.VmAlloc

open Lib Halloc

/-! ### Memory -/

/-- `hmalloc`: the block, or `none` for `NULL`. -/
def hmalloc (s : Sys) (req : ℕ) : Option (Sys × Option Block) := do
  let (h, ptr) ← s.heap.hmalloc req
  let block : Block := ⟨ptr, req, hallocDefaultAlignment⟩
  return ({ s with heap := h, blocks := Sys.handOut s.blocks block },
    if ptr = 0 then none else some block)

/-- `hfree`. -/
def hfree (s : Sys) (block : Block) : Option Sys := s.call (.hfree block)

/-- `strdup_nt`; the copy is a block, and a null pointer is not read. -/
def strdupNt (s : Sys) (str : Option (List UInt8)) : Option (Sys × Option Block) := do
  let str ← str
  hmalloc s (str.length + 1)

/-- `get_page_zeroed`. -/
def getPageZeroed (s : Sys) : Option (Sys × Option ℕ) := do
  let (pf, addr) ← s.heap.pf.getPages 1
  match addr with
  | none => return ({ s with heap := { s.heap with pf := pf } }, none)
  | some vaddr =>
      return ({ s with
        heap := { s.heap with pf := pf, mem := fillZero s.heap.mem vaddr pageSize }
        others := (physToPfn (virtToPhys vaddr), 1) :: s.others }, some vaddr)

/-- `free_page_raw`. -/
def freePageRaw (s : Sys) (addr : ℕ) : Option Sys := do
  let pf ← s.heap.pf.freePageRaw addr
  return { s with
    heap := { s.heap with pf := pf }
    others := s.others.erase (physToPfn addr, 1) }

/-! ### vCPUs -/

/-- The sizes of `struct vm` and `struct vcpu`, the revision identifier of `MSRX64_IA32_VMX_BASIC`,
the present CPU, and whether `vmclear` of the new VMCS of the `i`-th vCPU succeeds. -/
structure Platform where
  vmSize : ℕ
  vcpuSize : ℕ
  revisionId : ℕ
  cpu : ℕ
  vmclear : ℕ → Bool

/-- `struct vcpu`: where it is, and the fields that its release reads (`none` is `INVALID_CPUID` and
the null pointer). -/
structure Vcpu where
  block : Block
  vmcsPtr : ℕ
  activeCpu : Option ℕ
  virtPolicy : Option Block
deriving DecidableEq, Repr

/-- `struct vm`. -/
structure Vm where
  block : Block
  name : Option Block
  array : Block
  vcpus : List (Option Vcpu)
deriving DecidableEq, Repr

section Functions

variable (m : Platform)

/-- `tag_region_with_vmx_revisionid`. -/
def tagRegionWithVmxRevisionid (s : Sys) (region : ℕ) : Sys :=
  let vaddr := physToVirt region
  let mem : ℕ → ℕ := fun b =>
    if vaddr ≤ b ∧ b < vaddr + 4 then m.revisionId / 256 ^ (b - vaddr) % 256 else s.heap.mem b
  { s with heap := { s.heap with mem := mem } }

/-- `create_new_vmcs_area`. -/
def createNewVmcsArea (s : Sys) : Option (Sys × ℕ) := do
  let (s, vaddr) ← getPageZeroed s
  match vaddr with
  | none => return (s, 0)
  | some vaddr => return (tagRegionWithVmxRevisionid m s (virtToPhys vaddr), virtToPhys vaddr)

/-- `vmx_vcpu_allocate` for the `i`-th vCPU: the new `vmcs_ptr`. -/
def vmxVcpuAllocate (i : ℕ) (s : Sys) : Option (Sys × Option ℕ) := do
  let (s, vmcsPtr) ← createNewVmcsArea m s
  if vmcsPtr = 0 then return (s, none)
  else if m.vmclear i = false then do
    let s ← freePageRaw s vmcsPtr
    return (s, none)
  else return (s, some vmcsPtr)

/-- `arch_alloc_vcpu`. -/
def archAllocVcpu (i : ℕ) (s : Sys) : Option (Sys × Option ℕ) := vmxVcpuAllocate m i s

/-- `allocate_vcpu`. -/
def allocateVcpu (i : ℕ) (s : Sys) : Option (Sys × Option Vcpu) := do
  let (s, vcpu) ← hmalloc s m.vcpuSize
  match vcpu with
  | none => return (s, none)
  | some block => do
      let (s, vmcsPtr) ← archAllocVcpu m i s
      match vmcsPtr with
      | none => do
          let s ← hfree s block
          return (s, none)
      | some vmcsPtr => return (s, some ⟨block, vmcsPtr, none, none⟩)

/-- `vmx_clear_vcpu`; clearing a vCPU that is active on another CPU is not implemented. -/
def vmxClearVcpu (vcpu : Vcpu) : Option Vcpu :=
  match vcpu.activeCpu with
  | none => some vcpu
  | some active => if active = m.cpu then some { vcpu with activeCpu := none } else none

/-- `vmx_destroy_vcpu`. -/
def vmxDestroyVcpu (s : Sys) (vcpu : Vcpu) : Option (Sys × Vcpu) := do
  let vcpu ← vmxClearVcpu m vcpu
  let s ← freePageRaw s vcpu.vmcsPtr
  return (s, { vcpu with vmcsPtr := 0 })

/-- `arch_destroy_vcpu`. -/
def archDestroyVcpu (s : Sys) (vcpu : Vcpu) : Option (Sys × Vcpu) := do
  let (s, vcpu) ← vmxDestroyVcpu m s vcpu
  match vcpu.virtPolicy with
  | none => return (s, vcpu)
  | some policy => do
      let s ← hfree s policy
      return (s, vcpu)

/-- `destroy_vcpu`. -/
def destroyVcpu (s : Sys) (vcpu : Vcpu) : Option Sys := do
  let (s, vcpu) ← archDestroyVcpu m s vcpu
  hfree s vcpu.block

/-- The loop of `destroy_vcpus`. -/
def destroyLoop : List (Option Vcpu) → Sys → Option Sys
  | [], s => some s
  | none :: vcpus, s => destroyLoop vcpus s
  | some vcpu :: vcpus, s => (destroyVcpu m s vcpu).bind (destroyLoop vcpus)

/-- `destroy_vcpus`. -/
def destroyVcpus (s : Sys) (vm : Vm) (nr : ℤ) : Option Sys := destroyLoop m (vm.vcpus.take nr.toNat) s

/-! ### VMs -/

/-- The loop of `allocate_vm`: `vcpus` are the vCPUs so far, and `false` is a failure. -/
def allocateLoop : ℕ → List Vcpu → Sys → Option (Sys × List Vcpu × Bool)
  | 0, vcpus, s => some (s, vcpus, true)
  | nr + 1, vcpus, s => do
      let (s, vcpu) ← allocateVcpu m vcpus.length s
      match vcpu with
      | none => return (s, vcpus, false)
      | some vcpu => allocateLoop nr (vcpus ++ [vcpu]) s

/-- The entries of `vcpus`: the vCPUs so far, and null pointers. -/
def entries (nr : ℕ) (vcpus : List Vcpu) : List (Option Vcpu) :=
  vcpus.map some ++ List.replicate (nr - vcpus.length) none

/-- `allocate_vm`; `i` is the number of vCPUs so far. -/
def allocateVm (config : VmConfig.Config) (s : Sys) : Option (Sys × Option Vm) := do
  let (s, vm) ← hmalloc s m.vmSize
  match vm with
  | none => return (s, none)
  | some block => do
      let (s, name) ← strdupNt s config.name
      let (s, array) ← hmalloc s (u64 (config.nrVcpus * 8))
      match array with
      | none => do
          let s ← hfree s block
          return (s, none)
      | some array => do
          let (s, vcpus, ok) ← allocateLoop m config.nrVcpus [] s
          let vm : Vm := ⟨block, name, array, entries config.nrVcpus vcpus⟩
          if ok then return (s, some vm)
          else do
            let s ← destroyVcpus m s vm (vcpus.length - 1)
            let s ← hfree s vm.block
            return (s, none)

/-- The index at which `allocate_vcpu` fails first, if `allocate_vm` comes that far. -/
def firstFailure (config : VmConfig.Config) (s : Sys) : Option ℕ := do
  let (s, vm) ← hmalloc s m.vmSize
  let _ ← vm
  let (s, _) ← strdupNt s config.name
  let (s, array) ← hmalloc s (u64 (config.nrVcpus * 8))
  let _ ← array
  let (_, vcpus, ok) ← allocateLoop m config.nrVcpus [] s
  if ok then none else some vcpus.length

end Functions

/-! ### What is held -/

section Account

variable {m : Platform} {s s' : Sys} {config : VmConfig.Config}

theorem hmalloc_blocks {req : ℕ} {b : Option Block} (h : hmalloc s req = some (s', b)) :
    s'.blocks = b.toList ++ s.blocks := by
  obtain ⟨⟨heap, ptr⟩, -, h⟩ := Option.bind_eq_some_iff.mp h
  obtain ⟨rfl, rfl⟩ := Prod.mk.inj (Option.some.inj h)
  by_cases hptr : ptr = 0
  · simp [Sys.handOut, hptr]
  · simp [Sys.handOut, hptr]

theorem hfree_blocks {b : Block} (h : hfree s b = some s') : s'.blocks = s.blocks.erase b := by
  obtain ⟨heap, -, h⟩ := Option.bind_eq_some_iff.mp h
  obtain rfl := Option.some.inj h
  rfl

theorem strdupNt_blocks {str : Option (List UInt8)} {b : Option Block}
    (h : strdupNt s str = some (s', b)) : s'.blocks = b.toList ++ s.blocks := by
  obtain ⟨str, -, h⟩ := Option.bind_eq_some_iff.mp h
  exact hmalloc_blocks h

theorem freePageRaw_blocks {addr : ℕ} (h : freePageRaw s addr = some s') : s'.blocks = s.blocks := by
  obtain ⟨pf, -, h⟩ := Option.bind_eq_some_iff.mp h
  obtain rfl := Option.some.inj h
  rfl

theorem createNewVmcsArea_blocks {ptr : ℕ} (h : createNewVmcsArea m s = some (s', ptr)) :
    s'.blocks = s.blocks := by
  obtain ⟨⟨s₁, vaddr⟩, hget, h⟩ := Option.bind_eq_some_iff.mp h
  obtain ⟨⟨pf, addr⟩, -, hget⟩ := Option.bind_eq_some_iff.mp hget
  cases addr with
  | none =>
      obtain ⟨rfl, rfl⟩ := Prod.mk.inj (Option.some.inj hget)
      obtain ⟨rfl, -⟩ := Prod.mk.inj (Option.some.inj h)
      rfl
  | some addr =>
      obtain ⟨rfl, rfl⟩ := Prod.mk.inj (Option.some.inj hget)
      obtain ⟨rfl, -⟩ := Prod.mk.inj (Option.some.inj h)
      rfl

theorem archAllocVcpu_blocks {i : ℕ} {ptr : Option ℕ} (h : archAllocVcpu m i s = some (s', ptr)) :
    s'.blocks = s.blocks := by
  obtain ⟨⟨s₁, vmcsPtr⟩, hnew, h⟩ := Option.bind_eq_some_iff.mp h
  have hblocks := createNewVmcsArea_blocks hnew
  simp only at h
  split_ifs at h
  · obtain ⟨rfl, -⟩ := Prod.mk.inj (Option.some.inj h)
    exact hblocks
  · obtain ⟨s₂, hfree, h⟩ := Option.bind_eq_some_iff.mp h
    obtain ⟨rfl, -⟩ := Prod.mk.inj (Option.some.inj h)
    exact (freePageRaw_blocks hfree).trans hblocks
  · obtain ⟨rfl, -⟩ := Prod.mk.inj (Option.some.inj h)
    exact hblocks

theorem allocateVcpu_blocks {i : ℕ} {v : Option Vcpu} (h : allocateVcpu m i s = some (s', v)) :
    s'.blocks = (v.map Vcpu.block).toList ++ s.blocks ∧ ∀ vcpu ∈ v, vcpu.virtPolicy = none := by
  obtain ⟨⟨s₁, b⟩, hmem, h⟩ := Option.bind_eq_some_iff.mp h
  have hblocks₁ := hmalloc_blocks hmem
  cases b with
  | none =>
      obtain ⟨rfl, rfl⟩ := Prod.mk.inj (Option.some.inj h)
      exact ⟨hblocks₁, fun vcpu hv => by cases hv⟩
  | some block =>
      obtain ⟨⟨s₂, vmcsPtr⟩, harch, h⟩ := Option.bind_eq_some_iff.mp h
      have hblocks₂ := archAllocVcpu_blocks harch
      cases vmcsPtr with
      | none =>
          obtain ⟨s₃, hfree, h⟩ := Option.bind_eq_some_iff.mp h
          obtain ⟨rfl, rfl⟩ := Prod.mk.inj (Option.some.inj h)
          refine ⟨?_, fun vcpu hv => by cases hv⟩
          rw [hfree_blocks hfree, hblocks₂, hblocks₁]
          exact List.erase_cons_head ..
      | some vmcsPtr =>
          obtain ⟨rfl, rfl⟩ := Prod.mk.inj (Option.some.inj h)
          refine ⟨hblocks₂.trans hblocks₁, fun vcpu hv => ?_⟩
          obtain rfl := Option.mem_some_iff.mp hv
          rfl

/-- The blocks of some vCPUs. -/
def blocksOf (vcpus : List Vcpu) : Multiset Block := (vcpus.map Vcpu.block : List Block)

theorem allocateLoop_spec {nr : ℕ} {vcpus vcpus' : List Vcpu} {ok : Bool}
    (h : allocateLoop m nr vcpus s = some (s', vcpus', ok)) :
    ∃ new, vcpus' = vcpus ++ new ∧ (s'.blocks : Multiset Block) = blocksOf new + s.blocks ∧
      ∀ v ∈ new, v.virtPolicy = none := by
  induction nr generalizing vcpus s with
  | zero =>
      obtain ⟨rfl, rfl, -⟩ := by simpa [allocateLoop] using h
      exact ⟨[], by simp, by simp [blocksOf], by simp⟩
  | succ nr ih =>
      obtain ⟨⟨s₁, v⟩, hnew, h⟩ := Option.bind_eq_some_iff.mp h
      obtain ⟨hblocks, hpolicy⟩ := allocateVcpu_blocks hnew
      cases v with
      | none =>
          obtain ⟨rfl, rfl, -⟩ := by simpa using h
          exact ⟨[], by simp, by rw [hblocks]; simp [blocksOf], by simp⟩
      | some v =>
          obtain ⟨new, rfl, hrest, hnone⟩ := ih h
          refine ⟨v :: new, by simp, ?_, ?_⟩
          · rw [hrest, hblocks]
            simp [blocksOf, ← Multiset.cons_coe]
          · intro w hw
            rcases List.mem_cons.mp hw with rfl | hw
            · exact hpolicy w rfl
            · exact hnone w hw

theorem destroyVcpu_blocks {v : Vcpu} (hpolicy : v.virtPolicy = none)
    (h : destroyVcpu m s v = some s') : s'.blocks = s.blocks.erase v.block := by
  obtain ⟨⟨s₁, v₁⟩, harch, h⟩ := Option.bind_eq_some_iff.mp h
  obtain ⟨⟨s₂, v₂⟩, hvmx, harch⟩ := Option.bind_eq_some_iff.mp harch
  obtain ⟨v₃, hclear, hvmx⟩ := Option.bind_eq_some_iff.mp hvmx
  obtain ⟨s₃, hpage, hvmx⟩ := Option.bind_eq_some_iff.mp hvmx
  obtain ⟨rfl, rfl⟩ := Prod.mk.inj (Option.some.inj hvmx)
  have hsame : v₃.block = v.block ∧ v₃.virtPolicy = none := by
    unfold vmxClearVcpu at hclear
    split at hclear
    · obtain rfl := Option.some.inj hclear
      exact ⟨rfl, hpolicy⟩
    · split_ifs at hclear
      obtain rfl := Option.some.inj hclear
      exact ⟨rfl, hpolicy⟩
  simp only [hsame.2] at harch
  obtain ⟨rfl, rfl⟩ := Prod.mk.inj (Option.some.inj harch)
  rw [hfree_blocks h, freePageRaw_blocks hpage]
  exact congrArg _ hsame.1

/-- The loop of `destroy_vcpus` gives back the blocks of the vCPUs it gets. -/
theorem destroyLoop_blocks {vcpus : List Vcpu} {rest : Multiset Block}
    (hpolicy : ∀ v ∈ vcpus, v.virtPolicy = none)
    (hheld : (s.blocks : Multiset Block) = blocksOf vcpus + rest)
    (h : destroyLoop m (vcpus.map some) s = some s') : (s'.blocks : Multiset Block) = rest := by
  induction vcpus generalizing s with
  | nil =>
      obtain rfl := Option.some.inj h
      simpa [blocksOf] using hheld
  | cons v vcpus ih =>
      obtain ⟨s₁, hdestroy, h⟩ := Option.bind_eq_some_iff.mp h
      refine ih (fun w hw => hpolicy w (List.mem_cons_of_mem _ hw)) ?_ h
      rw [destroyVcpu_blocks (hpolicy v (List.mem_cons_self ..)) hdestroy, ← Multiset.coe_erase,
        hheld]
      simp [blocksOf, ← Multiset.cons_coe]

/-- When the `k`-th vCPU cannot be allocated, `vcpus`, the name and the vCPU before are lost. -/
theorem allocateVm_blocks {k : ℕ} {r : Option Vm} (hfail : firstFailure m config s = some k)
    (hcall : allocateVm m config s = some (s', r)) :
    r = none ∧ ∃ (array : Block) (name : Option Block) (last : List Vcpu), last.length = min k 1 ∧
      (s'.blocks : Multiset Block) = array ::ₘ ((name.toList : Multiset Block) + blocksOf last) + s.blocks := by
  unfold firstFailure at hfail
  unfold allocateVm at hcall
  obtain ⟨⟨s₁, vm⟩, hvm, hfail₁⟩ := Option.bind_eq_some_iff.mp hfail
  obtain ⟨block, rfl, hfail₂⟩ := Option.bind_eq_some_iff.mp hfail₁
  obtain ⟨⟨s₂, name⟩, hname, hfail₃⟩ := Option.bind_eq_some_iff.mp hfail₂
  obtain ⟨⟨s₃, array⟩, harray, hfail₄⟩ := Option.bind_eq_some_iff.mp hfail₃
  obtain ⟨array, rfl, hfail₅⟩ := Option.bind_eq_some_iff.mp hfail₄
  obtain ⟨⟨s₄, vcpus, ok⟩, hloop, hfail₆⟩ := Option.bind_eq_some_iff.mp hfail₅
  simp only at hname harray hloop hfail₆
  split_ifs at hfail₆ with hok
  obtain rfl := Option.some.inj hfail₆
  simp only [hvm, hname, harray, hloop, hok, Option.bind_eq_bind, Option.bind_some,
    Bool.false_eq_true, if_false] at hcall
  obtain ⟨s₅, hdestroy, hcall⟩ := Option.bind_eq_some_iff.mp hcall
  obtain ⟨s₆, hfree, hcall⟩ := Option.bind_eq_some_iff.mp hcall
  obtain ⟨rfl, rfl⟩ := Prod.mk.inj (Option.some.inj hcall)
  obtain ⟨_, rfl, hheld, hpolicy⟩ := allocateLoop_spec hloop
  refine ⟨rfl, array, name, vcpus.drop (vcpus.length - 1), ?_, ?_⟩
  · rw [List.length_drop]
    omega
  · have htake : (entries config.nrVcpus vcpus).take (((vcpus.length : ℤ) - 1).toNat) =
        (vcpus.take (vcpus.length - 1)).map some := by
      rw [entries, show ((vcpus.length : ℤ) - 1).toNat = vcpus.length - 1 by omega,
        List.take_append_of_le_length (by simp), List.map_take]
    unfold destroyVcpus at hdestroy
    rw [htake] at hdestroy
    have hsplit : blocksOf vcpus = blocksOf (vcpus.take (vcpus.length - 1)) +
        blocksOf (vcpus.drop (vcpus.length - 1)) := by
      simp only [blocksOf, Multiset.coe_add, ← List.map_append, List.take_append_drop]
    have hrest : (s₅.blocks : Multiset Block) =
        blocksOf (vcpus.drop (vcpus.length - 1)) + s₃.blocks :=
      destroyLoop_blocks (fun v hv => hpolicy v (List.mem_of_mem_take hv))
        (by rw [hheld, hsplit, add_assoc]) hdestroy
    have hall : blocksOf (vcpus.drop (vcpus.length - 1)) + s₃.blocks = block ::ₘ
        (array ::ₘ ((name.toList : Multiset Block) + blocksOf (vcpus.drop (vcpus.length - 1))) +
          s.blocks) := by
      rw [hmalloc_blocks harray, strdupNt_blocks hname, hmalloc_blocks hvm]
      simp only [Option.toList_some, ← Multiset.coe_add, Multiset.coe_singleton,
        ← Multiset.singleton_add]
      abel
    rw [hfree_blocks hfree, ← Multiset.coe_erase, hrest, hall, Multiset.erase_cons_head]

/-- All blocks and pages have been given back. -/
def NoLeak (s s' : Sys) : Prop :=
  (s'.blocks : Multiset Block) = s.blocks ∧ (s'.others : Multiset (ℕ × ℕ)) = s.others

/-- **A failed allocation leaks.**  Whenever a vCPU cannot be allocated, `allocate_vm` does not return
`NULL` with all blocks and pages given back. -/
theorem failed_allocation_leaks {k : ℕ} (hfail : firstFailure m config s = some k) :
    ¬ ∃ s', allocateVm m config s = some (s', none) ∧ NoLeak s s' := by
  rintro ⟨s', hcall, hblocks, -⟩
  obtain ⟨-, array, name, last, -, hheld⟩ := allocateVm_blocks hfail hcall
  have hcard := congrArg Multiset.card (hheld.symm.trans hblocks)
  simp only [Multiset.cons_add, Multiset.card_cons, Multiset.card_add] at hcard
  omega

end Account

/-- Only the first `vmclear` succeeds. -/
def demoPlatform : Platform := ⟨2200, 1000, 1, 0, fun i => i = 0⟩

/-- A VM with the name `v` and two vCPUs. -/
def demoConfig : VmConfig.Config := { VmConfig.Config.zero with name := some [118], nrVcpus := 2 }

/-- On a machine with 64 frames the second vCPU cannot be allocated: three blocks and one page are
not given back. -/
theorem demo_leak :
    ∃ h s', initHalloc (initSystemMemoryInfo (getBootMemInfo sixtyFourFrames)) sixtyFourInit
        (fun _ => 170) = some (h, true) ∧
      firstFailure demoPlatform demoConfig ⟨h, [], []⟩ = some 1 ∧
      allocateVm demoPlatform demoConfig ⟨h, [], []⟩ = some (s', none) ∧
      s'.blocks.length = 3 ∧ s'.others.length = 1 := by
  have hrun : (initHalloc (initSystemMemoryInfo (getBootMemInfo sixtyFourFrames)) sixtyFourInit
      fun _ => 170).map (fun x => (x.2, firstFailure demoPlatform demoConfig ⟨x.1, [], []⟩,
        (allocateVm demoPlatform demoConfig ⟨x.1, [], []⟩).map fun y =>
          (y.2, y.1.blocks.length, y.1.others.length))) =
      some (true, some 1, some (none, 3, 1)) := by
    decide +kernel
  obtain ⟨⟨h, ok⟩, hinit, hres⟩ := Option.map_eq_some_iff.mp hrun
  simp only [Prod.mk.injEq] at hres
  obtain ⟨rfl, hfail, hcall⟩ := hres
  obtain ⟨⟨s', r⟩, hcall, hobs⟩ := Option.map_eq_some_iff.mp hcall
  simp only [Prod.mk.injEq] at hobs
  obtain ⟨rfl, hblocks, hothers⟩ := hobs
  exact ⟨h, s', hinit, hfail, hcall, hblocks, hothers⟩

/-- The failure of the second vCPU. -/
theorem failed_allocation_leaks_second_vcpu :
    ∃ h, initHalloc (initSystemMemoryInfo (getBootMemInfo sixtyFourFrames)) sixtyFourInit
        (fun _ => 170) = some (h, true) ∧
      firstFailure demoPlatform demoConfig ⟨h, [], []⟩ = some 1 ∧
      ¬ ∃ s', allocateVm demoPlatform demoConfig ⟨h, [], []⟩ = some (s', none) ∧
        NoLeak ⟨h, [], []⟩ s' := by
  obtain ⟨h, -, hinit, hfail, -⟩ := demo_leak
  exact ⟨h, hinit, hfail, failed_allocation_leaks hfail⟩

/-- The same failure: `NULL` is returned, and three blocks and one page are not given back. -/
theorem second_vcpu_leaks :
    ∃ h s', initHalloc (initSystemMemoryInfo (getBootMemInfo sixtyFourFrames)) sixtyFourInit
        (fun _ => 170) = some (h, true) ∧
      firstFailure demoPlatform demoConfig ⟨h, [], []⟩ = some 1 ∧
      allocateVm demoPlatform demoConfig ⟨h, [], []⟩ = some (s', none) ∧
      s'.blocks.length = 3 ∧ s'.others.length = 1 ∧ ¬ NoLeak ⟨h, [], []⟩ s' := by
  obtain ⟨h, s', hinit, hfail, hcall, hblocks, hothers⟩ := demo_leak
  refine ⟨h, s', hinit, hfail, hcall, hblocks, hothers, fun hno => ?_⟩
  have hcard := congrArg Multiset.card hno.1
  simp only [Multiset.coe_card, hblocks] at hcard
  cases hcard

end HyveMind.VmAlloc
