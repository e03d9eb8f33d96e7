import HyveMind.LinuxLoader
import HyveMind.VmMemory
import Mathlib.Data.List.GetD

/-! # What the Linux loader does to the memory of a VM

The loader is proved against one assertion, `Stage`: all accesses so far are in bounds, the host's
memory is unchanged outside of the VM, and the guest sees the blocks that were copied so far, one
over the other.  Each part of the loader adds its block.

`accesses_inBounds` says that every run stays in bounds, whatever the setup header contains.  The
guest address of the initramfs is computed modulo `2 ^ 64`; the checks are made on the result, and the
bounds are about it.

`loaded_iff` says when a load that returns `0` leaves all five components intact and described.  The
loader checks that each component fits into the VM's memory, but not that they do not overlap, and
stores addresses and sizes in 32 bits. -/

namespace HyveMind

open Lib Lib.Prog

/-! ### The VM's memory -/

namespace VmPhysicalMemory

variable (vm : VmPhysicalMemory)

/-- The number of bytes of the VM. -/
def size : ℕ := vm.memEnd - vm.memStart + 1

/-- The memory as the guest sees it. -/
def guest (mem : ℕ → UInt8) (g : ℕ) : UInt8 := mem (physToVirt (vm.memStart + g))

theorem size_le : vm.size ≤ 2 ^ 64 := by
  have := vm.lt
  unfold size
  omega

theorem memStart_add_size : vm.memStart + vm.size = vm.memEnd + 1 := by
  have := vm.le
  unfold size
  omega

end VmPhysicalMemory

variable {vm : VmPhysicalMemory} {info : LinuxBootInfo}

theorem getVmMemorySize_eq (vm : VmPhysicalMemory) : getVmMemorySize vm = u64 vm.size := by
  rw [getVmMemorySize, u64Sub_of_le vm.lt vm.le]
  rfl

/-- The range check, for all 64-bit arguments.  A VM with all of the `2 ^ 64` bytes has the size `0`;
the check then refuses only what starts at `0`. -/
theorem vmMemoryContigRangeFits_iff {start n : ℕ} (hstart : start < 2 ^ 64) (hn : n < 2 ^ 64) :
    vmMemoryContigRangeFits vm start n = true ↔
      start < vm.size ∧ start + n ≤ vm.size ∧ (vm.size = 2 ^ 64 → start = 0 → n = 0) := by
  have hsize := vm.size_le
  have hpos : 0 < vm.size := Nat.succ_pos _
  simp only [vmMemoryContigRangeFits, getVmMemorySize_eq, Bool.and_eq_true, decide_eq_true_eq]
  generalize vm.size = size at *
  unfold u64Sub u64
  omega

section Virtualize

open Ept

/-- `virtualize_guest_physical_mem` gives a VM the whole pages that its size needs. -/
theorem virtualizeGuestPhysicalMem_range {mm : List LimineMemmapEntry} {md : ℕ × ℕ} {bits : ℕ}
    {h h₁ : EptHeap} {a : PfAlloc} {mbPages gbPages : Bool} {fuel memSize hostStart : ℕ}
    {granularity : MemGranularity} {vm : VmMem} (hbits : bits ≤ 52) (hram : RamBelow mm bits)
    (hgood : GoodAlloc mm md h.alloc) (hmem : memSize < 2 ^ 64)
    (hcall : VmMem.virtualizeGuestPhysicalMem (2 ^ bits - 1) mbPages gbPages fuel memSize granularity h =
      some (h₁, some vm))
    (hpages : h.alloc.getPagesRaw (bytesToNrPages (getVmConfigReqBytes memSize granularity)) =
      some (a, some hostStart)) :
    ∃ m : VmPhysicalMemory, m.memStart = vm.physMemStart ∧ m.memEnd = vm.physMemEnd ∧
      m.size = bytesToNrPages (getVmConfigReqBytes memSize granularity) * 4096 := by
  obtain ⟨-, frames⟩ :=
    VmMem.virtualizeGuestPhysicalMem_frames hbits hram hgood hmem hcall hpages
  have hpos := frames.pos
  have hbelow := frames.below
  unfold VmMem.virtualizeGuestPhysicalMem at hcall
  simp only [hpages, Option.bind_eq_bind, Option.bind_some] at hcall
  obtain ⟨⟨h', eptp, ret⟩, -, hrest⟩ := Option.bind_eq_some_iff.mp hcall
  by_cases hret : ret = .success
  · simp only [hret, ne_eq, not_true_eq_false, if_false] at hrest
    obtain ⟨-, hvm⟩ := Prod.mk.inj (Option.some.inj hrest)
    obtain rfl := Option.some.inj hvm
    generalize bytesToNrPages (getVmConfigReqBytes memSize granularity) = nr at *
    have hend : u64Sub (u64 (hostStart + u64 (nr * 4096))) 1 = hostStart + nr * 4096 - 1 := by
      unfold u64Sub u64
      omega
    refine ⟨⟨hostStart, hostStart + nr * 4096 - 1, by omega, by omega⟩, rfl, hend.symm, ?_⟩
    unfold VmPhysicalMemory.size
    dsimp only
    omega
  · simp only [ne_eq, hret, not_false_iff, if_true] at hrest
    obtain ⟨a', -, hrest⟩ := Option.bind_eq_some_iff.mp hrest
    obtain ⟨⟨h'', _⟩, -, hrest⟩ := Option.bind_eq_some_iff.mp hrest
    obtain ⟨-, hvm⟩ := Prod.mk.inj (Option.some.inj hrest)
    cases hvm

end Virtualize

theorem memcpy_apply {mem : ℕ → UInt8} {dst a : ℕ} {bs : List UInt8} (hdst : dst < 2 ^ 64)
    (ha : a < 2 ^ 64) (hlen : bs.length ≤ 2 ^ 64) :
    memcpy mem dst bs a = bs.getD (u64Sub a dst) (mem a) := by
  induction bs generalizing mem dst with
  | nil => rfl
  | cons b bs ih =>
      rw [List.length_cons] at hlen
      rw [memcpy, ih (u64_lt _) (by omega)]
      by_cases h : a = dst
      · subst h
        have hlast : u64Sub a (u64 (a + 1)) = 2 ^ 64 - 1 := by
          unfold u64Sub u64
          omega
        have hfirst : u64Sub a a = 0 := by
          rw [u64Sub_of_le ha (le_refl a), Nat.sub_self]
        rw [hlast, hfirst, List.getD_eq_default _ _ (by omega), Function.update_self,
          List.getD_cons_zero]
      · have hnext : u64Sub a dst = u64Sub a (u64 (dst + 1)) + 1 := by
          unfold u64Sub u64
          omega
        rw [hnext, List.getD_cons_succ, Function.update_of_ne h]

section Copy

variable {mem : ℕ → UInt8} {start : ℕ} {bs : List UInt8}

theorem physToVirt_lt (p : ℕ) : physToVirt p < 2 ^ 64 := u64_lt _

theorem u64Sub_physToVirt (p q : ℕ) :
    u64Sub (physToVirt p) (physToVirt q) = u64Sub (u64 p) (u64 q) := by
  unfold physToVirt physToVirtAt u64Sub u64
  omega

theorem guest_memcpy (hfits : start + bs.length ≤ vm.size) {g : ℕ} (hg : g < vm.size) :
    vm.guest (memcpy mem (physToVirt (u64 (vm.memStart + start))) bs) g =
      place (vm.guest mem) start bs g := by
  have hlt := vm.lt
  have hend := vm.memStart_add_size
  rw [VmPhysicalMemory.guest, memcpy_apply (physToVirt_lt _) (physToVirt_lt _) (by omega),
    u64Sub_physToVirt, place]
  rcases Nat.lt_or_ge g start with hgs | hgs
  · rw [if_neg (by omega), List.getD_eq_default]
    · rfl
    · unfold u64Sub u64
      omega
  · have hdist : u64Sub (u64 (vm.memStart + g)) (u64 (u64 (vm.memStart + start))) = g - start := by
      unfold u64Sub u64
      omega
    rw [if_pos hgs, hdist]
    rfl

/-- A copy into the VM leaves the rest of the host's memory alone. -/
theorem memcpy_frame (hfits : start + bs.length ≤ vm.size) {v : ℕ} (hv : v < 2 ^ 64)
    (hout : ∀ p, vm.memStart ≤ p → p ≤ vm.memEnd → v ≠ physToVirt p) :
    memcpy mem (physToVirt (u64 (vm.memStart + start))) bs v = mem v := by
  have hlt := vm.lt
  have hend := vm.memStart_add_size
  rw [memcpy_apply (physToVirt_lt _) hv (by omega), List.getD_eq_default]
  by_contra hin
  have hne := hout (vm.memStart + start + u64Sub v (physToVirt (u64 (vm.memStart + start))))
    (by omega) (by omega)
  apply hne
  unfold physToVirt physToVirtAt u64Sub u64 at *
  omega

end Copy

/-! ### Accesses in bounds -/

/-- The access stays in its object, and no address of it wraps around: byte `i` is at
`base + offset + i`.  For a VM within the direct mapping this is true of the virtual addresses, too. -/
def InBounds (vm : VmPhysicalMemory) (info : LinuxBootInfo) (a : Access) : Prop :=
  ∀ i < a.size, a.addr i = a.base + a.offset + i ∧
    match a.object with
    | .bzImage => a.base = info.bzImage.addr ∧ a.offset + i < info.bzImage.size
    | .initramfs => a.base = info.initramfs.addr ∧ a.offset + i < info.initramfs.size
    | .vmMemory => vm.memStart ≤ a.addr i ∧ a.addr i ≤ vm.memEnd ∧
        (vm.memEnd + hypervisorDirectMappingOffset < 2 ^ 64 →
          physToVirt (a.addr i) = a.base + a.offset + i + hypervisorDirectMappingOffset)

theorem inBounds_bzImage {off n : ℕ} (h : off + n ≤ info.bzImage.size) :
    InBounds vm info ⟨.bzImage, info.bzImage.addr, off, n⟩ := by
  have hmem : info.bzImage.addr + info.bzImage.size < 2 ^ 64 := info.bzImage.inMemory
  intro i hi
  simp only [Access.addr, u64] at hi ⊢
  refine ⟨by omega, trivial, by omega⟩

theorem inBounds_initramfs {off n : ℕ} (h : off + n ≤ info.initramfs.size) :
    InBounds vm info ⟨.initramfs, info.initramfs.addr, off, n⟩ := by
  have hmem : info.initramfs.addr + info.initramfs.size < 2 ^ 64 := info.initramfs.inMemory
  intro i hi
  simp only [Access.addr, u64] at hi ⊢
  refine ⟨by omega, trivial, by omega⟩

theorem inBounds_vmMemory {start n : ℕ} (h : start + n ≤ vm.size) :
    InBounds vm info ⟨.vmMemory, vm.memStart, start, n⟩ := by
  have hlt := vm.lt
  have hend := vm.memStart_add_size
  intro i hi
  simp only [Access.addr] at hi ⊢
  have haddr : virtToPhys (u64 (physToVirt (u64 (vm.memStart + start)) + i)) =
      vm.memStart + start + i := by
    unfold virtToPhys virtToPhysAt physToVirt physToVirtAt u64Sub u64
    omega
  rw [haddr]
  refine ⟨rfl, by omega, by omega, fun hdirect => ?_⟩
  unfold physToVirt physToVirtAt u64
  omega

/-! ### The assertion of the loader -/

/-- The loader has copied `blocks` into the VM, and nothing else. -/
structure Stage (vm : VmPhysicalMemory) (info : LinuxBootInfo) (mem₀ : ℕ → UInt8)
    (blocks : List (ℕ × List UInt8)) (s : LoaderState) : Prop where
  inBounds : ∀ a ∈ s.accesses, InBounds vm info a
  frame : ∀ v < 2 ^ 64, (∀ p, vm.memStart ≤ p → p ≤ vm.memEnd → v ≠ physToVirt p) →
    s.mem v = mem₀ v
  guest : ∀ g < vm.size, vm.guest s.mem g = placeAll (vm.guest mem₀) blocks g

section Rules

variable {mem₀ : ℕ → UInt8} {blocks : List (ℕ × List UInt8)} {s : LoaderState}

theorem Stage.access (h : Stage vm info mem₀ blocks s) {a : Access} (ha : InBounds vm info a) :
    Stage vm info mem₀ blocks { s with accesses := s.accesses ++ [a] } where
  inBounds := by
    intro b hb
    rcases List.mem_append.mp hb with hb | hb
    · exact h.inBounds b hb
    · obtain rfl := List.mem_singleton.mp hb
      exact ha
  frame := h.frame
  guest := h.guest

theorem Stage.alloc (h : Stage vm info mem₀ blocks s) (a : PfAlloc) :
    Stage vm info mem₀ blocks { s with alloc := a } := ⟨h.inBounds, h.frame, h.guest⟩

theorem SetupField.offset_add_width_le (f : SetupField) : f.offset + f.width ≤ setupHeaderSize := by
  cases f <;> decide

theorem readHdr_spec (hsize : setupHeaderOffset + setupHeaderSize ≤ info.bzImage.size)
    (f : SetupField) (s : LoaderState) (h : Stage vm info mem₀ blocks s) :
    ∃ s', readHdr info f s = (.ok (info.hdr f), s') ∧ Stage vm info mem₀ blocks s' := by
  have hf := f.offset_add_width_le
  exact ⟨_, rfl, h.access (inBounds_bzImage (by omega))⟩

theorem Ptr.reads_inBounds {data : Ptr} {size : ℕ} (h : size ≤ (data.bytes info).length)
    {a : Access} (ha : a ∈ data.reads info size) : InBounds vm info a := by
  cases data with
  | bzImage offset =>
      obtain rfl := List.mem_singleton.mp ha
      intro i hi
      have hlen : size ≤ info.bzImage.size - offset := by
        simpa [Ptr.bytes, FileInfo.size] using h
      have hin : InBounds vm info ⟨.bzImage, info.bzImage.addr, offset, size⟩ :=
        inBounds_bzImage (by simp only at hi; omega)
      exact hin i hi
  | initramfs =>
      obtain rfl := List.mem_singleton.mp ha
      exact inBounds_initramfs (by rw [Nat.zero_add]; exact h)
  | commandLine => exact absurd ha List.not_mem_nil
  | page bytes => exact absurd ha List.not_mem_nil

/-- `copy_to_vm_gpaddr` adds a block, or fails and does nothing. -/
theorem copyToVmGpaddr_spec {start size : ℕ} {data : Ptr} (hstart : start < 2 ^ 64)
    (hsize : size < 2 ^ 64) (hlen : size ≤ (data.bytes info).length) {E : Exit → LoaderState → Prop} :
    Meets (Stage vm info mem₀ blocks) (copyToVmGpaddr vm info start data size)
      (fun ret s => (ret = 0 ∧ start < vm.size ∧ start + size ≤ vm.size ∧
          Stage vm info mem₀ (blocks ++ [(start, (data.bytes info).take size)]) s) ∨
        (ret = -1 ∧ Stage vm info mem₀ blocks s)) E := by
  refine ⟨fun s h => ?_⟩
  unfold copyToVmGpaddr
  by_cases hfits : vmMemoryContigRangeFits vm start size = true
  · obtain ⟨hlt, hle, -⟩ := (vmMemoryContigRangeFits_iff hstart hsize).mp hfits
    have hblock : ((data.bytes info).take size).length = size := by
      rw [List.length_take]
      omega
    rw [if_neg (by rw [hfits]; decide)]
    refine Or.inl ⟨rfl, hlt, hle, ?_, ?_, ?_⟩
    · intro a ha
      simp only [List.mem_append, List.mem_singleton, or_assoc] at ha
      rcases ha with ha | ha | rfl
      · exact h.inBounds a ha
      · exact Ptr.reads_inBounds hlen ha
      · exact inBounds_vmMemory hle
    · intro v hv hout
      rw [← h.frame v hv hout]
      exact memcpy_frame (by omega) hv hout
    · intro g hg
      rw [placeAll_append]
      simp only
      rw [guest_memcpy (by omega) hg]
      unfold place
      rw [h.guest g hg]
  · rw [if_pos (Bool.eq_false_of_not_eq_true hfits)]
    exact Or.inr ⟨rfl, h⟩

/-- The assertion at an early return: some of the blocks were copied. -/
def Partial (vm : VmPhysicalMemory) (info : LinuxBootInfo) (mem₀ : ℕ → UInt8) (_ : Exit)
    (s : LoaderState) : Prop := ∃ blocks, Stage vm info mem₀ blocks s

theorem meets_copy {α : Type} {start size : ℕ} {data : Ptr} {rest : Unit → Loader α}
    {Q : α → LoaderState → Prop} (hstart : start < 2 ^ 64) (hsize : size < 2 ^ 64)
    (hlen : size ≤ (data.bytes info).length)
    (h : start < vm.size → start + size ≤ vm.size →
      Meets (Stage vm info mem₀ (blocks ++ [(start, (data.bytes info).take size)])) (rest ()) Q
        (Partial vm info mem₀)) :
    Meets (Stage vm info mem₀ blocks)
      (copyToVmGpaddr vm info start data size >>= fun ret =>
        exitIf (ret ≠ 0) (.code (-1)) >>= rest) Q (Partial vm info mem₀) := by
  apply Meets.bind (copyToVmGpaddr_spec hstart hsize hlen)
  intro ret
  apply Meets.bind_exitIf
  · rintro s (⟨-, -, -, hs⟩ | ⟨-, hs⟩) _ <;> exact ⟨_, hs⟩
  · intro hret
    apply Meets.of_pre
    rintro s (⟨-, hlt, hle, hs⟩ | ⟨rfl, -⟩)
    · exact ⟨_, hs, h hlt hle⟩
    · exact absurd (by decide) hret

theorem validLinuxSetupHeader_spec
    (hsize : setupHeaderOffset + setupHeaderSize ≤ info.bzImage.size) :
    Meets (Stage vm info mem₀ blocks) (validLinuxSetupHeader info)
      (fun _ => Stage vm info mem₀ blocks) (Partial vm info mem₀) := by
  apply Meets.bind_step (readHdr_spec hsize .bootFlag)
  split_ifs
  · exact Meets.pure fun s hs => hs
  apply Meets.bind_step (readHdr_spec hsize .header)
  split_ifs
  · exact Meets.pure fun s hs => hs
  apply Meets.bind_step (readHdr_spec hsize .jump)
  split_ifs
  · exact Meets.pure fun s hs => hs
  apply Meets.bind_step (readHdr_spec hsize .jump)
  dsimp only
  split_ifs <;> exact Meets.pure fun s hs => hs

theorem verifyBzImage_spec (hsize : setupHeaderOffset + setupHeaderSize ≤ info.bzImage.size) :
    Meets (Stage vm info mem₀ blocks) (verifyBzImage info)
      (fun _ => Stage vm info mem₀ blocks) (Partial vm info mem₀) := by
  apply Meets.bind_step (readHdr_spec hsize .version)
  split_ifs
  · exact Meets.pure fun s hs => hs
  apply Meets.bind_step (readHdr_spec hsize .loadflags)
  split_ifs <;> exact Meets.pure fun s hs => hs

end Rules

/-! ### The components -/

namespace LinuxBootInfo

variable (info : LinuxBootInfo)

/-- The offset of the protected-mode kernel in the bzImage. -/
def pmKernelOffset : ℕ := ((if info.hdr .setupSects = 0 then 4 else info.hdr .setupSects) + 1) * 512

/-- The declared size of the protected-mode kernel. -/
def declaredSize : ℕ := 16 * info.hdr .syssize

/-- The bytes of the protected-mode kernel. -/
def pmKernel : List UInt8 := (info.bzImage.bytes.drop info.pmKernelOffset).take info.declaredSize

/-- The size that the kernel needs at its preferred address. -/
def effectiveSize : ℕ := max info.declaredSize (info.hdr .initSize)

/-- The address of the initramfs: the first page boundary behind the kernel at its preferred address,
modulo `2 ^ 64`. -/
def initramfsGpaddr : ℕ := alignForward (u64 (info.hdr .prefAddress + info.effectiveSize + 1)) 4096

/-- The number of bytes copied for the command line. -/
def cmdlineCopied : ℕ := (info.cmdlineStr.length % 2 ^ 32 + 1) % 2 ^ 32

end LinuxBootInfo

theorem hdr_lt (info : LinuxBootInfo) (f : SetupField) : info.hdr f < 256 ^ f.width := field_lt _ _ _

theorem alignForward_lt {val : ℕ} (h : val < 2 ^ 64) : alignForward val 4096 < 2 ^ 64 := by
  unfold alignForward u64
  dsimp only
  split_ifs <;> omega

section Parts

variable {mem₀ : ℕ → UInt8} {blocks : List (ℕ × List UInt8)}

theorem loadPmKernel_spec : Meets (Stage vm info mem₀ blocks) (loadPmKernel vm info)
    (fun r s => r = (info.hdr .code32Start, info.declaredSize, info.effectiveSize) ∧
      setupHeaderOffset + setupHeaderSize ≤ info.bzImage.size ∧
      info.pmKernelOffset + info.declaredSize ≤ info.bzImage.size ∧
      info.hdr .code32Start + info.declaredSize ≤ vm.size ∧
      Stage vm info mem₀ (blocks ++ [(info.hdr .code32Start, info.pmKernel)]) s)
    (Partial vm info mem₀) := by
  have hleave : ∀ {c : Prop} (s : LoaderState), Stage vm info mem₀ blocks s → c →
      Partial vm info mem₀ (.code (-1)) s := fun s hs _ => ⟨blocks, hs⟩
  have hsys : info.hdr .syssize < 2 ^ 32 := hdr_lt info .syssize
  have hcode : info.hdr .code32Start < 2 ^ 32 := hdr_lt info .code32Start
  have hdecl : u64 (info.hdr .syssize <<< 4) = info.declaredSize := by
    rw [Nat.shiftLeft_eq, LinuxBootInfo.declaredSize, u64_of_lt (by omega)]
    omega
  unfold loadPmKernel
  apply Meets.bind_exitIf hleave
  intro hsize
  have hsize := Nat.le_of_not_lt hsize
  apply Meets.bind (validLinuxSetupHeader_spec hsize)
  intro valid
  apply Meets.bind_exitIf hleave
  intro _
  apply Meets.bind (verifyBzImage_spec hsize)
  intro isBzImage
  apply Meets.bind_exitIf hleave
  intro _
  apply Meets.bind_step (readHdr_spec hsize .version)
  apply Meets.bind_exitIf hleave
  intro _
  apply Meets.bind_step (readHdr_spec hsize .setupSects)
  apply Meets.bind_exitIf hleave
  intro hoffset
  apply Meets.bind_step (readHdr_spec hsize .syssize)
  apply Meets.bind_exitIf hleave
  intro _
  apply Meets.bind_exitIf hleave
  intro havail
  apply Meets.bind_step (readHdr_spec hsize .code32Start)
  apply Meets.bind_exitIf hleave
  intro _
  apply Meets.bind_step (readHdr_spec hsize .initSize)
  apply Meets.bind_exitIf hleave
  intro _
  rw [hdecl] at havail ⊢
  have hmem : info.bzImage.addr + info.bzImage.size < 2 ^ 64 := info.bzImage.inMemory
  have hoffset : info.pmKernelOffset < info.bzImage.size := Nat.lt_of_not_le hoffset
  have havail : info.declaredSize ≤ u64Sub info.bzImage.size info.pmKernelOffset :=
    Nat.le_of_not_lt havail
  rw [u64Sub_of_le (by omega) hoffset.le] at havail
  have hlen : info.declaredSize ≤ ((Ptr.bzImage info.pmKernelOffset).bytes info).length := by
    rw [Ptr.bytes, List.length_drop]
    exact havail
  apply meets_copy (by omega) (by omega) hlen
  intro _ hfits
  exact Meets.pure fun s hs => ⟨rfl, hsize, by omega, hfits, hs⟩

theorem loadInitramfs_spec (hsize : setupHeaderOffset + setupHeaderSize ≤ info.bzImage.size) :
    Meets (Stage vm info mem₀ blocks) (loadInitramfs vm info info.effectiveSize)
      (fun r s => r = info.initramfsGpaddr ∧ info.initramfsGpaddr + info.initramfs.size ≤ vm.size ∧
        Stage vm info mem₀ (blocks ++ [(info.initramfsGpaddr, info.initramfs.bytes)]) s)
      (Partial vm info mem₀) := by
  have hmem : info.initramfs.addr + info.initramfs.size < 2 ^ 64 := info.initramfs.inMemory
  have hlen : info.initramfs.size ≤ (Ptr.initramfs.bytes info).length := le_refl _
  apply Meets.bind_step (readHdr_spec hsize .prefAddress)
  apply Meets.bind_exitIf fun s hs _ => ⟨blocks, hs⟩
  intro _
  apply meets_copy (alignForward_lt (u64_lt _)) (by omega) hlen
  intro _ hfits
  have hall : (Ptr.initramfs.bytes info).take info.initramfs.size = info.initramfs.bytes :=
    List.take_length
  rw [hall]
  exact Meets.pure fun s hs => ⟨rfl, hfits, hs⟩

theorem getPageZeroed_spec : Meets (Stage vm info mem₀ blocks) getPageZeroed
    (fun _ => Stage vm info mem₀ blocks) (Partial vm info mem₀) := by
  refine ⟨fun s hs => ?_⟩
  rw [getPageZeroed]
  cases s.alloc.getPages 1 with
  | none => exact ⟨blocks, hs⟩
  | some p => exact hs.alloc p.1

theorem freePage_spec (addr : ℕ) : Meets (Stage vm info mem₀ blocks) (freePage addr)
    (fun _ => Stage vm info mem₀ blocks) (Partial vm info mem₀) := by
  refine ⟨fun s hs => ?_⟩
  rw [freePage]
  cases s.alloc.freePage addr with
  | none => exact ⟨blocks, hs⟩
  | some a => exact hs.alloc a

theorem length_writeGdtEntry {gdt : List UInt8} {index : ℕ} (h : 8 * index + 16 ≤ gdt.length)
    (desc : List UInt8) (type : DescType) :
    (writeGdtEntry gdt desc index type).length = gdt.length := by
  apply length_splice
  rw [List.length_take]
  split_ifs <;> omega

theorem length_zeroedPage : zeroedPage.length = 4096 := List.length_replicate

theorem length_bootGdt : bootGdt.length = 4096 := by
  rw [bootGdt, length_writeGdtEntry, length_writeGdtEntry, length_zeroedPage]
  · rw [length_zeroedPage]
    norm_num
  · rw [length_writeGdtEntry (by rw [length_zeroedPage]; norm_num), length_zeroedPage]
    norm_num

theorem load32bitBootGdt_spec : Meets (Stage vm info mem₀ blocks)
    (load32bitBootGdt vm info linuxGuestDefaultGdtGpaddr)
    (fun ret s => (ret = 0 ∧ Stage vm info mem₀ (blocks ++ [(linuxGuestDefaultGdtGpaddr, bootGdt)]) s) ∨
      (ret = -1 ∧ Stage vm info mem₀ blocks s)) (Partial vm info mem₀) := by
  apply Meets.bind getPageZeroed_spec
  intro page
  cases page with
  | none => exact Meets.pure fun s hs => Or.inr ⟨rfl, hs⟩
  | some gdtVaddr =>
      have hlen : pageSize ≤ ((Ptr.page bootGdt).bytes info).length := length_bootGdt.ge
      have hstart : linuxGuestDefaultGdtGpaddr < 2 ^ 64 := by norm_num
      apply Meets.bind (copyToVmGpaddr_spec hstart (by norm_num) hlen)
      intro ret
      apply Meets.of_pre
      rintro s (⟨rfl, -, -, hs⟩ | ⟨rfl, hs⟩)
      · have hall : ((Ptr.page bootGdt).bytes info).take pageSize = bootGdt :=
          List.take_of_length_le length_bootGdt.le
        rw [hall] at hs
        refine ⟨_, hs, Meets.bind (freePage_spec gdtVaddr) fun _ => ?_⟩
        exact Meets.pure fun s hs => Or.inl ⟨rfl, hs⟩
      · refine ⟨_, hs, Meets.bind (freePage_spec gdtVaddr) fun _ => ?_⟩
        exact Meets.pure fun s hs => Or.inr ⟨rfl, hs⟩

theorem loadCommandLine_spec (hsize : setupHeaderOffset + setupHeaderSize ≤ info.bzImage.size) :
    Meets (Stage vm info mem₀ blocks) (loadCommandLine vm info)
      (fun _ => Stage vm info mem₀ (blocks ++ [(linuxGuestDefaultCommandLineGpaddr,
        (info.cmdlineStr ++ [0]).take info.cmdlineCopied)])) (Partial vm info mem₀) := by
  have hlen : info.cmdlineCopied ≤ (Ptr.commandLine.bytes info).length := by
    rw [Ptr.bytes, List.length_append, List.length_singleton, LinuxBootInfo.cmdlineCopied]
    have := Nat.mod_le info.cmdlineStr.length (2 ^ 32)
    have := Nat.mod_le (info.cmdlineStr.length % 2 ^ 32 + 1) (2 ^ 32)
    omega
  have hlt : info.cmdlineCopied < 2 ^ 32 := Nat.mod_lt _ (by norm_num)
  apply Meets.bind_step (readHdr_spec hsize .cmdlineSize)
  apply Meets.bind_exitIf fun s hs _ => ⟨blocks, hs⟩
  intro _
  have hstart : linuxGuestDefaultCommandLineGpaddr < 2 ^ 64 := by norm_num
  apply Meets.bind (copyToVmGpaddr_spec hstart (hlt.trans (by norm_num)) hlen)
  intro ret
  apply Meets.exitIf
  · rintro s (⟨-, -, -, hs⟩ | ⟨-, hs⟩) _ <;> exact ⟨_, hs⟩
  · rintro hret s (⟨-, -, -, hs⟩ | ⟨rfl, -⟩)
    · exact hs
    · exact absurd (by decide) hret

/-- The stores that fill the zero page, after the copy of the header. -/
def bootParamsStores (vm : VmPhysicalMemory) (info : LinuxBootInfo) (initramfsGpaddr loadflags : ℕ) :
    List Store :=
  [⟨bootParamsHdr + SetupField.typeOfLoader.offset, SetupField.typeOfLoader.width, 0xFF⟩,
    ⟨bootParamsHdr + SetupField.loadflags.offset, SetupField.loadflags.width, loadflags⟩,
    ⟨bootParamsHdr + SetupField.cmdLinePtr.offset, SetupField.cmdLinePtr.width,
      linuxGuestDefaultCommandLineGpaddr⟩,
    ⟨bootParamsHdr + SetupField.ramdiskImage.offset, SetupField.ramdiskImage.width, initramfsGpaddr⟩,
    ⟨bootParamsHdr + SetupField.ramdiskSize.offset, SetupField.ramdiskSize.width,
      info.initramfs.size⟩,
    ⟨bootParamsE820Entries, 1, 1⟩,
    ⟨bootParamsE820Table, 8, 0⟩,
    ⟨bootParamsE820Table + 8, 8, getVmMemorySize vm⟩,
    ⟨bootParamsE820Table + 16, 4, linuxE820TypeRam⟩]

/-- The zero page before the stores. -/
def bootParamsCopied (info : LinuxBootInfo) : List UInt8 :=
  splice zeroedPage bootParamsHdr ((info.bzImage.bytes.drop setupHeaderOffset).take setupHeaderSize)

theorem bootParamsPage_eq (vm : VmPhysicalMemory) (info : LinuxBootInfo) (initramfsGpaddr : ℕ) :
    ∃ loadflags, bootParamsPage vm info initramfsGpaddr =
      storeAll (bootParamsCopied info) (bootParamsStores vm info initramfsGpaddr loadflags) := by
  refine ⟨field (setHdr (bootParamsCopied info) .typeOfLoader 0xFF)
    (bootParamsHdr + SetupField.loadflags.offset) 1 &&& 0x7F, ?_⟩
  rw [bootParamsStores]
  repeat rw [storeAll_cons]
  rw [storeAll_nil]
  rfl

theorem footprint_bootParamsStores (vm : VmPhysicalMemory) (info : LinuxBootInfo)
    (initramfsGpaddr loadflags : ℕ) :
    footprint (bootParamsStores vm info initramfsGpaddr loadflags) =
      [(0x210, 1), (0x211, 1), (0x228, 4), (0x218, 4), (0x21C, 4), (0x1E8, 1), (0x2D0, 8), (0x2D8, 8),
        (0x2E0, 4)] := rfl

theorem length_header_le (info : LinuxBootInfo) :
    ((info.bzImage.bytes.drop setupHeaderOffset).take setupHeaderSize).length ≤ 123 :=
  List.length_take_le _ _

theorem length_bootParamsCopied (info : LinuxBootInfo) : (bootParamsCopied info).length = 4096 := by
  have hhdr := length_header_le info
  rw [bootParamsCopied, length_splice, length_zeroedPage]
  rw [length_zeroedPage]
  exact (Nat.add_le_add_left hhdr 0x1F1).trans (by norm_num)

theorem length_bootParamsPage (vm : VmPhysicalMemory) (info : LinuxBootInfo) (initramfsGpaddr : ℕ) :
    (bootParamsPage vm info initramfsGpaddr).length = 4096 := by
  obtain ⟨loadflags, heq⟩ := bootParamsPage_eq vm info initramfsGpaddr
  rw [heq, length_storeAll, length_bootParamsCopied]
  rw [footprint_bootParamsStores, length_bootParamsCopied]
  decide

theorem loadZeroPage_spec (hsize : setupHeaderOffset + setupHeaderSize ≤ info.bzImage.size)
    (initramfsGpaddr : ℕ) :
    Meets (Stage vm info mem₀ blocks) (loadZeroPage vm info initramfsGpaddr)
      (fun _ s => linuxGuestDefaultZeroPageGpaddr + pageSize ≤ vm.size ∧
        Stage vm info mem₀ (blocks ++ [(linuxGuestDefaultZeroPageGpaddr,
          bootParamsPage vm info initramfsGpaddr)]) s) (Partial vm info mem₀) := by
  apply Meets.bind getPageZeroed_spec
  intro page
  cases page with
  | none => exact ⟨fun s hs => ⟨blocks, hs⟩⟩
  | some bootParamsRawAddr =>
      have hread : ∀ s, Stage vm info mem₀ blocks s →
          ∃ s', access ⟨.bzImage, info.bzImage.addr, setupHeaderOffset, setupHeaderSize⟩ s =
            (.ok (), s') ∧ Stage vm info mem₀ blocks s' :=
        fun s hs => ⟨_, rfl, hs.access (inBounds_bzImage hsize)⟩
      have hpage := length_bootParamsPage vm info initramfsGpaddr
      have hlen : pageSize ≤
          ((Ptr.page (bootParamsPage vm info initramfsGpaddr)).bytes info).length := hpage.ge
      have hstart : linuxGuestDefaultZeroPageGpaddr < 2 ^ 64 := by norm_num
      have hall : ((Ptr.page (bootParamsPage vm info initramfsGpaddr)).bytes info).take pageSize =
          bootParamsPage vm info initramfsGpaddr := List.take_of_length_le hpage.le
      apply Meets.bind_step hread
      apply Meets.bind (copyToVmGpaddr_spec hstart (by norm_num) hlen)
      intro ret
      apply Meets.of_pre
      rintro s (⟨rfl, -, hfits, hs⟩ | ⟨rfl, hs⟩)
      · rw [hall] at hs
        refine ⟨_, hs, Meets.bind (freePage_spec bootParamsRawAddr) fun _ => ?_⟩
        exact Meets.exitIf (fun s _ hret => absurd rfl hret) fun _ s hs => ⟨hfits, hs⟩
      · refine ⟨_, hs, Meets.bind (freePage_spec bootParamsRawAddr) fun _ => ?_⟩
        exact Meets.exitIf (fun s hs _ => ⟨blocks, hs⟩) fun hret => absurd (by decide) hret

end Parts

/-! ### A whole load -/

/-- The copies of a load, in order. -/
def copies (vm : VmPhysicalMemory) (info : LinuxBootInfo) : List (ℕ × List UInt8) :=
  [(info.hdr .code32Start, info.pmKernel), (info.initramfsGpaddr, info.initramfs.bytes),
    (linuxGuestDefaultGdtGpaddr, bootGdt),
    (linuxGuestDefaultCommandLineGpaddr, (info.cmdlineStr ++ [0]).take info.cmdlineCopied),
    (linuxGuestDefaultZeroPageGpaddr, bootParamsPage vm info info.initramfsGpaddr)]

/-- What the loader has checked when it returns `0`. -/
structure Accepted (vm : VmPhysicalMemory) (info : LinuxBootInfo) : Prop where
  kernel : info.pmKernelOffset + info.declaredSize ≤ info.bzImage.size
  kernelFits : info.hdr .code32Start + info.declaredSize ≤ vm.size
  initramfsFits : info.initramfsGpaddr + info.initramfs.size ≤ vm.size
  zeroPageFits : linuxGuestDefaultZeroPageGpaddr + pageSize ≤ vm.size

theorem loadLinux32bitDirectBootForVm_spec (mem₀ : ℕ → UInt8) :
    Meets (Stage vm info mem₀ []) (loadLinux32bitDirectBootForVm vm info)
      (fun _ s => Accepted vm info ∧ Stage vm info mem₀ (copies vm info) s)
      (Partial vm info mem₀) := by
  apply Meets.bind loadPmKernel_spec
  rintro ⟨pmKernelLoadAddr, declaredPmKernelSize, effectivePmKernelLoadSize⟩
  apply Meets.of_pre
  rintro s ⟨heq, hsize, hkernel, hkernelFits, hs⟩
  obtain ⟨rfl, rfl, rfl⟩ := Prod.mk.inj heq |>.imp_right Prod.mk.inj
  refine ⟨_, hs, ?_⟩
  clear hs s
  apply Meets.bind (loadInitramfs_spec hsize)
  intro initramfsGpaddr
  apply Meets.of_pre
  rintro s ⟨rfl, hinitramfsFits, hs⟩
  refine ⟨_, hs, ?_⟩
  clear hs s
  apply Meets.bind load32bitBootGdt_spec
  intro ret
  apply Meets.bind_exitIf
  · rintro s (⟨-, hs⟩ | ⟨-, hs⟩) _ <;> exact ⟨_, hs⟩
  intro hret
  apply Meets.of_pre
  rintro s (⟨-, hs⟩ | ⟨rfl, -⟩)
  · refine ⟨_, hs, Meets.bind (loadCommandLine_spec hsize) fun _ => ?_⟩
    apply Meets.bind (loadZeroPage_spec hsize info.initramfsGpaddr)
    intro _
    exact Meets.pure fun s hs => ⟨⟨hkernel, hkernelFits, hinitramfsFits, hs.1⟩, hs.2⟩
  · exact absurd (by decide) hret

/-- **The loader stays in bounds.**  For all files, command lines and VMs, and whatever the setup
header contains: every byte that is read from the bzImage or the initramfs lies in that file, every
byte that is written through `copy_to_vm_gpaddr` lies in the VM's physical memory, and none of these
addresses wraps around.  The host's memory outside of the VM is unchanged. -/
theorem accesses_inBounds (vm : VmPhysicalMemory) (info : LinuxBootInfo) (alloc : PfAlloc)
    (mem : ℕ → UInt8) :
    (∀ a ∈ (loadLinux32bitDirectBootForVm vm info ⟨alloc, mem, []⟩).2.accesses, InBounds vm info a) ∧
    ∀ v < 2 ^ 64, (∀ p, vm.memStart ≤ p → p ≤ vm.memEnd → v ≠ physToVirt p) →
      (loadLinux32bitDirectBootForVm vm info ⟨alloc, mem, []⟩).2.mem v = mem v := by
  have hinit : Stage vm info mem [] ⟨alloc, mem, []⟩ :=
    ⟨fun a ha => absurd ha List.not_mem_nil, fun _ _ _ => rfl, fun _ _ => rfl⟩
  have hstage : ∃ blocks, Stage vm info mem blocks
      (loadLinux32bitDirectBootForVm vm info ⟨alloc, mem, []⟩).2 :=
    (loadLinux32bitDirectBootForVm_spec mem).of_both (fun _ _ h => ⟨_, h.2⟩) (fun _ _ h => h) hinit
  obtain ⟨blocks, h⟩ := hstage
  exact ⟨h.inBounds, h.frame⟩

/-! ### The fields of the zero page -/

section ZeroPage

variable {stores : List Store}

theorem field_bootParamsStores {initramfsGpaddr loadflags : ℕ} {st : Store}
    (hst : st ∈ bootParamsStores vm info initramfsGpaddr loadflags) :
    field (storeAll (bootParamsCopied info) (bootParamsStores vm info initramfsGpaddr loadflags))
      st.off st.width = st.val % 256 ^ st.width := by
  refine field_storeAll ?_ ?_ st hst
  · rw [footprint_bootParamsStores, length_bootParamsCopied]
    decide
  · rw [footprint_bootParamsStores]
    decide

/-- The bytes in front of the header, apart from `e820_entries`, are `0`. -/
theorem extRamdiskImage_eq_zero (vm : VmPhysicalMemory) (info : LinuxBootInfo)
    (initramfsGpaddr : ℕ) :
    field (bootParamsPage vm info initramfsGpaddr) bootParamsExtRamdiskImage 4 = 0 := by
  have hhdr := length_header_le info
  obtain ⟨loadflags, heq⟩ := bootParamsPage_eq vm info initramfsGpaddr
  rw [heq, field_storeAll_of_disjoint]
  · rw [field, bootParamsCopied, slice_splice_of_disjoint]
    · rfl
    · rw [length_zeroedPage]
      exact (Nat.add_le_add_left hhdr 0x1F1).trans (by norm_num)
    · exact Or.inl (by norm_num)
  · rw [footprint_bootParamsStores, length_bootParamsCopied]
    decide
  · rw [footprint_bootParamsStores]
    decide

end ZeroPage

/-! ### A successful load -/

/-- The five components, with the addresses they belong to. -/
def components (vm : VmPhysicalMemory) (info : LinuxBootInfo) : List (ℕ × List UInt8) :=
  [(info.hdr .code32Start, info.pmKernel), (info.initramfsGpaddr, info.initramfs.bytes),
    (linuxGuestDefaultGdtGpaddr, bootGdt),
    (linuxGuestDefaultCommandLineGpaddr, info.cmdlineStr ++ [0]),
    (linuxGuestDefaultZeroPageGpaddr, bootParamsPage vm info info.initramfsGpaddr)]

/-- The zero page gives the addresses and sizes of the other components and of the VM's memory. -/
structure Describes (vm : VmPhysicalMemory) (info : LinuxBootInfo) (page : List UInt8) : Prop where
  cmdLinePtr : field page (bootParamsHdr + SetupField.cmdLinePtr.offset) 4 =
    linuxGuestDefaultCommandLineGpaddr
  ramdiskImage : field page (bootParamsHdr + SetupField.ramdiskImage.offset) 4 +
    2 ^ 32 * field page bootParamsExtRamdiskImage 4 = info.initramfsGpaddr
  ramdiskSize : field page (bootParamsHdr + SetupField.ramdiskSize.offset) 4 = info.initramfs.size
  e820Entries : field page bootParamsE820Entries 1 = 1
  e820Addr : field page bootParamsE820Table 8 = 0
  e820Size : field page (bootParamsE820Table + 8) 8 = vm.size
  e820Type : field page (bootParamsE820Table + 16) 4 = linuxE820TypeRam

/-- In the guest's memory all components are intact, none was written over another one, and the zero
page describes them. -/
structure Loaded (vm : VmPhysicalMemory) (info : LinuxBootInfo) (guest : ℕ → UInt8) : Prop where
  intact : ∀ c ∈ components vm info, BytesAt guest c.1 c.2
  apart : (components vm info).Pairwise fun x y => Apart x.1 x.2.length y.1 y.2.length
  describes : Describes vm info (bytesFrom guest linuxGuestDefaultZeroPageGpaddr pageSize)

/-- The `n` bytes from `a` on contain nothing of the boot GDT, the command line of `len` bytes with its
NUL, and the zero page. -/
def ClearOfFixed (a n len : ℕ) : Prop :=
  Apart a n 0x10000 0x1000 ∧ Apart a n 0x20000 (len + 1) ∧ Apart a n 0x30000 0x1000

instance (a n len : ℕ) : Decidable (ClearOfFixed a n len) :=
  inferInstanceAs (Decidable (_ ∧ _ ∧ _))

/-- The images, the command line and the VM that the loader handles correctly. -/
structure LayoutOk (vm : VmPhysicalMemory) (info : LinuxBootInfo) : Prop where
  cmdline : info.cmdlineStr.length < 0x10000
  kernel : ClearOfFixed (info.hdr .code32Start) (16 * info.hdr .syssize) info.cmdlineStr.length
  initramfs : ClearOfFixed info.initramfsGpaddr info.initramfs.size info.cmdlineStr.length
  apart : Apart (info.hdr .code32Start) (16 * info.hdr .syssize) info.initramfsGpaddr
    info.initramfs.size
  addrBelow4G : info.initramfsGpaddr < 2 ^ 32
  sizeBelow4G : info.initramfs.size < 2 ^ 32
  memSize : vm.memEnd - vm.memStart + 1 < 2 ^ 64

section Load

variable {alloc : PfAlloc} {mem : ℕ → UInt8} {loadInfo : LinuxLoadInfo}

theorem Accepted.length_pmKernel (h : Accepted vm info) : info.pmKernel.length = info.declaredSize := by
  have hkernel := h.kernel
  unfold FileInfo.size at hkernel
  rw [LinuxBootInfo.pmKernel, List.length_take, List.length_drop]
  omega

theorem pairwise_components_iff (h : Accepted vm info) :
    (components vm info).Pairwise (fun x y => Apart x.1 x.2.length y.1 y.2.length) ↔
      Apart (info.hdr .code32Start) info.declaredSize info.initramfsGpaddr info.initramfs.size ∧
      ClearOfFixed (info.hdr .code32Start) info.declaredSize info.cmdlineStr.length ∧
      ClearOfFixed info.initramfsGpaddr info.initramfs.size info.cmdlineStr.length ∧
      info.cmdlineStr.length < 0x10000 := by
  have hgdt : Apart 0x10000 4096 0x20000 (info.cmdlineStr.length + 1) :=
    Or.inr (Or.inr (Or.inl (by norm_num)))
  have hzero : Apart 0x10000 4096 0x30000 4096 := by decide
  have hcmd : Apart 0x20000 (info.cmdlineStr.length + 1) 0x30000 4096 ↔
      info.cmdlineStr.length < 0x10000 := by
    unfold Apart
    omega
  simp only [components, List.pairwise_cons, List.mem_cons, List.not_mem_nil, or_false,
    forall_eq_or_imp, forall_eq, IsEmpty.forall_iff, implies_true, List.Pairwise.nil, and_true,
    h.length_pmKernel, length_bootGdt, length_bootParamsPage, List.length_append,
    List.length_singleton, hcmd, hgdt, hzero, ClearOfFixed, FileInfo.size]
  constructor
  · rintro ⟨⟨h1, h2, h3, h4⟩, ⟨h5, h6, h7⟩, h8⟩
    exact ⟨h1, ⟨h2, h3, h4⟩, ⟨h5, h6, h7⟩, h8.2⟩
  · rintro ⟨h1, ⟨h2, h3, h4⟩, ⟨h5, h6, h7⟩, h8⟩
    exact ⟨⟨h1, h2, h3, h4⟩, ⟨h5, h6, h7⟩, trivial, h8⟩

/-- The zero page tells the truth iff nothing is lost in its fields: `ext_ramdisk_image` is always
`0`. -/
theorem describes_iff : Describes vm info (bootParamsPage vm info info.initramfsGpaddr) ↔
    info.initramfsGpaddr < 2 ^ 32 ∧ info.initramfs.size < 2 ^ 32 ∧ vm.size < 2 ^ 64 := by
  have hsize := vm.size_le
  have hpos : 0 < vm.size := Nat.succ_pos _
  have hext := extRamdiskImage_eq_zero vm info info.initramfsGpaddr
  obtain ⟨loadflags, heq⟩ := bootParamsPage_eq vm info info.initramfsGpaddr
  have hread := @field_bootParamsStores vm info info.initramfsGpaddr loadflags
  rw [← heq] at hread
  simp only [bootParamsStores, List.mem_cons, List.not_mem_nil, or_false, forall_eq_or_imp,
    forall_eq] at hread
  obtain ⟨-, -, hcmd, himage, hramdisk, hentries, haddr, hmem, htype⟩ := hread
  rw [getVmMemorySize_eq] at hmem
  have himage : field (bootParamsPage vm info info.initramfsGpaddr)
      (bootParamsHdr + SetupField.ramdiskImage.offset) 4 = info.initramfsGpaddr % 2 ^ 32 := himage
  have hramdisk : field (bootParamsPage vm info info.initramfsGpaddr)
      (bootParamsHdr + SetupField.ramdiskSize.offset) 4 = info.initramfs.size % 2 ^ 32 := hramdisk
  have hmem : field (bootParamsPage vm info info.initramfsGpaddr) (bootParamsE820Table + 8) 8 =
      vm.size % 2 ^ 64 % 2 ^ 64 := hmem
  constructor
  · rintro ⟨-, hi, hr, -, -, hm, -⟩
    rw [himage, hext] at hi
    rw [hramdisk] at hr
    rw [hmem] at hm
    omega
  · rintro ⟨hi, hr, hm⟩
    refine ⟨hcmd, ?_, ?_, hentries, haddr, ?_, htype⟩
    · rw [himage, hext]
      omega
    · rw [hramdisk]
      omega
    · rw [hmem]
      omega

/-- A load that returns `0` has made all checks and all copies. -/
theorem load_stage (h : (loadLinux32bitDirectBootForVm vm info ⟨alloc, mem, []⟩).1 = .ok loadInfo) :
    Accepted vm info ∧ Stage vm info mem (copies vm info)
      (loadLinux32bitDirectBootForVm vm info ⟨alloc, mem, []⟩).2 := by
  have hinit : Stage vm info mem [] ⟨alloc, mem, []⟩ :=
    ⟨fun a ha => absurd ha List.not_mem_nil, fun _ _ _ => rfl, fun _ _ => rfl⟩
  exact (loadLinux32bitDirectBootForVm_spec mem).of_ok hinit h

theorem Stage.bytesAt {blocks : List (ℕ × List UInt8)} {s : LoaderState}
    (h : Stage vm info mem blocks s) {a : ℕ} {bs : List UInt8} (hfits : a + bs.length ≤ vm.size)
    (hbytes : BytesAt (placeAll (vm.guest mem) blocks) a bs) : BytesAt (vm.guest s.mem) a bs :=
  hbytes.congr fun b _ hb => h.guest b (hb.trans_le hfits)

theorem zeroPage_intact
    (h : (loadLinux32bitDirectBootForVm vm info ⟨alloc, mem, []⟩).1 = .ok loadInfo) :
    bytesFrom (vm.guest (loadLinux32bitDirectBootForVm vm info ⟨alloc, mem, []⟩).2.mem)
      linuxGuestDefaultZeroPageGpaddr pageSize = bootParamsPage vm info info.initramfsGpaddr := by
  obtain ⟨hacc, hstage⟩ := load_stage h
  have hlen := length_bootParamsPage vm info info.initramfsGpaddr
  have hfits := hacc.zeroPageFits
  have hlast : BytesAt (placeAll (vm.guest mem) (copies vm info)) linuxGuestDefaultZeroPageGpaddr
      (bootParamsPage vm info info.initramfsGpaddr) :=
    placeAll_last ((copies vm info).take 4) (linuxGuestDefaultZeroPageGpaddr, _)
  have hat := (hstage.bytesAt (by rwa [hlen]) hlast).bytesFrom_eq
  rwa [hlen] at hat

theorem copies_eq_components (h : info.cmdlineStr.length < 0x10000) :
    copies vm info = components vm info := by
  have hlen : info.cmdlineCopied = info.cmdlineStr.length + 1 := by
    unfold LinuxBootInfo.cmdlineCopied
    omega
  rw [copies, components, hlen, List.take_of_length_le (by simp)]

theorem Accepted.component_fits (h : Accepted vm info) (hlen : info.cmdlineStr.length < 0x10000) :
    ∀ c ∈ components vm info, c.1 + c.2.length ≤ vm.size := by
  have hzero : 0x30000 + 4096 ≤ vm.size := h.zeroPageFits
  simp only [components, List.mem_cons, List.not_mem_nil, or_false, forall_eq_or_imp, forall_eq,
    h.length_pmKernel, length_bootGdt, length_bootParamsPage, List.length_append,
    List.length_singleton]
  refine ⟨h.kernelFits, h.initramfsFits, ?_, ?_, hzero⟩
  · exact le_trans (by norm_num) hzero
  · have hcmd : 0x20000 + (info.cmdlineStr.length + 1) ≤ 0x30000 + 4096 := by omega
    exact hcmd.trans hzero

/-- **When a load is correct.**  Whenever the loader returns `0`: all components are intact and the zero
page describes them iff the command line ends in front of the zero page, the kernel at `code32_start`
and the initramfs behind `pref_address` overlap neither each other nor the fixed components, and the
address and size of the initramfs and the size of the memory are representable. -/
theorem loaded_iff
    (h : (loadLinux32bitDirectBootForVm vm info ⟨alloc, mem, []⟩).1 = .ok loadInfo) :
    Loaded vm info (vm.guest (loadLinux32bitDirectBootForVm vm info ⟨alloc, mem, []⟩).2.mem) ↔
      LayoutOk vm info := by
  obtain ⟨hacc, hstage⟩ := load_stage h
  have hpage := zeroPage_intact h
  constructor
  · rintro ⟨-, hapart, hdesc⟩
    rw [hpage, describes_iff] at hdesc
    obtain ⟨haddr, hsize, hmem⟩ := hdesc
    obtain ⟨hki, hkernel, hinitramfs, hcmd⟩ := (pairwise_components_iff hacc).mp hapart
    exact ⟨hcmd, hkernel, hinitramfs, hki, haddr, hsize, hmem⟩
  · rintro ⟨hcmd, hkernel, hinitramfs, hki, haddr, hsize, hmem⟩
    have hapart := (pairwise_components_iff hacc).mpr ⟨hki, hkernel, hinitramfs, hcmd⟩
    rw [copies_eq_components hcmd] at hstage
    refine ⟨fun c hc => ?_, hapart, ?_⟩
    · exact hstage.bytesAt (hacc.component_fits hcmd c hc) (placeAll_intact hapart c hc)
    · rw [hpage, describes_iff]
      exact ⟨haddr, hsize, hmem⟩

end Load

/-- A setup header for one setup sector and a kernel of sixteen bytes. -/
def smallHeader (code32Start prefAddress : ℕ) : SetupField → ℕ
  | .setupSects => 1
  | .syssize => 1
  | .bootFlag => 0xAA55
  | .jump => 0x6AEB
  | .header => 0x53726448
  | .version => 0x020F
  | .loadflags => 1
  | .code32Start => code32Start
  | .cmdlineSize => 2047
  | .prefAddress => prefAddress
  | .initSize => 0x1000
  | _ => 0

/-- A bzImage with that header, whose kernel starts with the byte `0x90`. -/
def smallImage (code32Start prefAddress : ℕ) : List UInt8 :=
  List.replicate setupHeaderOffset 0 ++
    (SetupField.layout.flatMap (fun p => toBytes p.2 (smallHeader code32Start prefAddress p.1)) ++
      (List.replicate 404 0 ++ 0x90 :: List.replicate 15 0))

theorem length_smallImage (code32Start prefAddress : ℕ) :
    (smallImage code32Start prefAddress).length = 1040 := by
  have hhdr : (SetupField.layout.flatMap
      (fun p => toBytes p.2 (smallHeader code32Start prefAddress p.1))).length = 123 := rfl
  rw [smallImage, List.length_append, List.length_append, List.length_append, List.length_cons, hhdr,
    List.length_replicate, List.length_replicate, List.length_replicate]

/-- A configuration with that image, an initramfs of three bytes and the command line `ro`. -/
def smallBoot (code32Start prefAddress : ℕ) : LinuxBootInfo where
  bzImage := ⟨0xFFFF800000500000, smallImage code32Start prefAddress, by
    rw [length_smallImage]
    norm_num⟩
  initramfs := ⟨0xFFFF800000600000, [1, 2, 3], by decide⟩
  cmdlineStr := bytesOf "ro"
  noNul := by decide

/-- A VM with 2 MiB. -/
def smallVm : VmPhysicalMemory := ⟨0x800000, 0x9FFFFF, by decide, by decide⟩

/-- The layout of a kernel at 1 MiB is correct. -/
theorem loaded_iff_kernel_at_1M :
    (loadLinux32bitDirectBootForVm smallVm (smallBoot 0x100000 0x100000)
      ⟨Ept.sixteenFramesInit.alloc, fun _ => 0, []⟩).1 =
        .ok ⟨0x100000, 16, 0x100000, 0x10000, 0x30000, 0x20000⟩ ∧
    Loaded smallVm (smallBoot 0x100000 0x100000)
      (smallVm.guest (loadLinux32bitDirectBootForVm smallVm (smallBoot 0x100000 0x100000)
        ⟨Ept.sixteenFramesInit.alloc, fun _ => 0, []⟩).2.mem) := by
  have hload : (loadLinux32bitDirectBootForVm smallVm (smallBoot 0x100000 0x100000)
      ⟨Ept.sixteenFramesInit.alloc, fun _ => 0, []⟩).1 =
        .ok ⟨0x100000, 16, 0x100000, 0x10000, 0x30000, 0x20000⟩ := by decide +kernel
  have hcode : (smallBoot 0x100000 0x100000).hdr .code32Start = 0x100000 := by decide +kernel
  have hsys : (smallBoot 0x100000 0x100000).hdr .syssize = 1 := by decide +kernel
  have hinitramfs : (smallBoot 0x100000 0x100000).initramfsGpaddr = 0x102000 := by decide +kernel
  refine ⟨hload, (loaded_iff hload).mpr ?_⟩
  constructor
  · decide
  · rw [hcode, hsys]
    decide +kernel
  · rw [hinitramfs]
    decide +kernel
  · rw [hcode, hsys, hinitramfs]
    decide +kernel
  · rw [hinitramfs]
    norm_num
  · decide
  · decide

/-- A kernel whose `code32_start` is the address of the boot GDT is overwritten, and the loader returns
`0`. -/
theorem kernel_at_gdt_is_overwritten :
    (loadLinux32bitDirectBootForVm smallVm (smallBoot 0x10000 0x100000)
      ⟨Ept.sixteenFramesInit.alloc, fun _ => 0, []⟩).1 =
        .ok ⟨0x10000, 16, 0x10000, 0x10000, 0x30000, 0x20000⟩ ∧
    ¬ Loaded smallVm (smallBoot 0x10000 0x100000)
      (smallVm.guest (loadLinux32bitDirectBootForVm smallVm (smallBoot 0x10000 0x100000)
        ⟨Ept.sixteenFramesInit.alloc, fun _ => 0, []⟩).2.mem) := by
  have hcode : (smallBoot 0x10000 0x100000).hdr .code32Start = 0x10000 := by decide +kernel
  have hkernel : (smallBoot 0x10000 0x100000).pmKernel[0]? = some 0x90 := by decide +kernel
  have hgdt : bootGdt[0]? = some 0 := by decide +kernel
  refine ⟨by decide +kernel, fun hloaded => ?_⟩
  have hmem := hloaded.intact
  simp only [components, List.forall_mem_cons, hcode] at hmem
  have hsame := hmem.1.agree hmem.2.2.1 rfl hkernel hgdt
  exact absurd hsame (by decide)

end HyveMind
