import HyveMind.EptMapping
import HyveMind.VmConfig

/-! # The physical memory of a VM

The part of `arch/x64/vm/vm.c` and `arch/x64/vm/vlapic.c` that builds a VM's guest-physical
address space: `virtualize_guest_physical_mem` maps the guest's frames at address `0`, and
`remap_vlapic_base` adds the APIC access page.

`isolation_iff` says exactly when a VM reaches no host frame but its own.  `add_ept_mapping` takes
the first address behind the range as its last one, so that one page too many is mapped whenever
the size is a multiple of the page size, and two pages for the APIC access page; 2 MiB leaves lead
to twice their address. -/

namespace HyveMind

open Lib Lib.PageTable Ept

/-- The fields of `struct vm` that describe its memory. -/
structure VmMem where
  physMemStart : ℕ
  physMemEnd : ℕ
  eptp : ℕ
deriving DecidableEq, Repr

namespace VmMem

/-- The mapping of the guest's frames. -/
def guestMapping (mbPages gbPages : Bool) (reqBytes hostStart : ℕ) : EptMappingInfo :=
  { createEptMappingInfo 0 reqBytes hostStart with
    noPageFlags := eptRwx
    pageMapFlags := eptMapsPage ||| eptRwx ||| eptMemTypeWbFlag
    useMbMappings := mbPages
    useGbMappings := gbPages }

/-- `virtualize_guest_physical_mem`.  `mbPages` and `gbPages` are the processor's capabilities that
`try_use_mb_mappings` and `try_use_gb_mappings` read, `fuel` bounds the teardown after a failure. -/
def virtualizeGuestPhysicalMem (maxPhysAddr : ℕ) (mbPages gbPages : Bool) (fuel memSize : ℕ)
    (granularity : MemGranularity) (h : EptHeap) : Option (EptHeap × Option VmMem) := do
  let reqBytes := getVmConfigReqBytes memSize granularity
  let reqPages := bytesToNrPages reqBytes
  let (a, addr) ← h.alloc.getPagesRaw reqPages
  match addr with
  | none => return (⟨a, h.mem⟩, none)
  | some contigVmMemStart => do
      let info := guestMapping mbPages gbPages reqBytes contigVmMemStart
      let (h', eptp, ret) ← createEptMapping maxPhysAddr info ⟨a, h.mem⟩
      if ret ≠ .success then do
        let a' ← h'.alloc.freePagesRaw reqPages contigVmMemStart
        let (h'', _) ← destroyEptMapping maxPhysAddr fuel eptp ⟨a', h'.mem⟩
        return (h'', none)
      else
        return (h', some ⟨contigVmMemStart,
          u64Sub (u64 (contigVmMemStart + u64 (reqPages * pageSize))) 1, eptp⟩)

/-- The mapping of the APIC access page. -/
def apicMapping (vlapicBase apicAccessPage : ℕ) : EptMappingInfo :=
  { createEptMappingInfo vlapicBase pageSize apicAccessPage with
    noPageFlags := eptRwx
    pageMapFlags := eptRwx ||| eptMapsPage ||| eptMemTypeUcFlag }

/-- `remap_vlapic_base`: `true` for `VLAPIC_SUCCESS`. -/
def remapVlapicBase (maxPhysAddr : ℕ) (vm : VmMem) (apicAccessPage vlapicBase : ℕ) (h : EptHeap) :
    Option (EptHeap × Bool) := do
  let (h', ret) ← addEptMapping maxPhysAddr vm.eptp (apicMapping vlapicBase apicAccessPage) h
  return (h', ret = .success)

/-- Allocation and mapping of the APIC access page in `prepare_apic_virtualization`: the page, if
both succeed. -/
def prepareApicAccessPage (maxPhysAddr : ℕ) (vm : VmMem) (vlapicBase : ℕ) (h : EptHeap) :
    Option (EptHeap × Option ℕ) := do
  let (a, addr) ← h.alloc.getPageRaw
  match addr with
  | none => return (⟨a, h.mem⟩, none)
  | some apicAccessPage => do
      let (h', ok) ← remapVlapicBase maxPhysAddr vm apicAccessPage vlapicBase ⟨a, h.mem⟩
      if ok then return (h', some apicAccessPage)
      else do
        let a' ← h'.alloc.freePageRaw apicAccessPage
        return (⟨a', h'.mem⟩, none)

/-! ### The leaves of the guest's frames -/

/-- The host address lies in the `nrPages` frames from `hostStart` on. -/
def Owns (hostStart nrPages host : ℕ) : Prop :=
  hostStart ≤ host ∧ host < hostStart + nrPages * 4096

/-- The processor's features and the size and place of the guest's memory for which all leaves lead
into it: a page behind the last one is either not mapped or part of a 2 MiB leaf, and every 2 MiB
leaf, at twice its address, is inside. -/
def LeavesInside (mbPages gbPages : Bool) (reqBytes hostStart : ℕ) : Prop :=
  (reqBytes % 4096 = 0 →
    takesMbLeaf (guestMapping mbPages gbPages reqBytes hostStart) 0 reqBytes reqBytes = true) ∧
  ∀ x ≤ reqBytes,
    takesMbLeaf (guestMapping mbPages gbPages reqBytes hostStart) 0 reqBytes x = true →
      hostStart ≤ 2 * (x / 2 ^ 21 * 2 ^ 21 + hostStart) % 2 ^ 52 ∧
      2 * (x / 2 ^ 21 * 2 ^ 21 + hostStart) % 2 ^ 52 + 2 ^ 21 ≤
        hostStart + bytesToNrPages reqBytes * 4096

/-- The guest's frames, as the allocator hands them out for `reqBytes` bytes. -/
structure FramesOk (bits reqBytes hostStart nrPages : ℕ) : Prop where
  nr : nrPages = (reqBytes + 4095) / 4096
  pos : 0 < nrPages
  aligned : hostStart % 4096 = 0
  below : hostStart + nrPages * 4096 ≤ 2 ^ 52
  limit : hostStart + (nrPages - 1) * 4096 < 2 ^ bits
  page : 4096 < 2 ^ bits
  notAll : hostStart = 0 → nrPages * 4096 < 2 ^ 52

section Leaves

variable {bits reqBytes hostStart nrPages : ℕ} {mbPages gbPages : Bool}

theorem guestMapping_offset (mbPages gbPages : Bool) (reqBytes : ℕ) (h : hostStart < 2 ^ 64) :
    (guestMapping mbPages gbPages reqBytes hostStart).offset = hostStart := by
  simp only [guestMapping, createEptMappingInfo]
  rw [u64Sub_of_le h (Nat.zero_le _), Nat.sub_zero]

theorem guestMapping_flags (mbPages gbPages : Bool) (reqBytes hostStart : ℕ) :
    FlagsOk (guestMapping mbPages gbPages reqBytes hostStart) := by
  constructor <;> simp only [guestMapping] <;> decide

theorem mbPiece_zero (last x : ℕ) : (mbPiece 0 last x).1 = x / 2 ^ 21 * 2 ^ 21 := by
  simp only [mbPiece, chunkStart, shift]
  norm_num

theorem gbPiece_zero (last x : ℕ) : (gbPiece 0 last x).1 = x / 2 ^ 30 * 2 ^ 30 := by
  simp only [gbPiece, chunkStart, shift]
  norm_num

theorem takesGbLeaf_bounds {info : EptMappingInfo} {x : ℕ}
    (hx : x ≤ reqBytes) (h : takesGbLeaf info 0 reqBytes x = true) :
    x / 2 ^ 30 * 2 ^ 30 + 2 ^ 30 ≤ reqBytes + 1 ∧
      u64 (x / 2 ^ 30 * 2 ^ 30 + info.offset) % 2 ^ 30 = 0 := by
  obtain ⟨-, hsize, -, halign⟩ := shouldDoGbMapping_iff.mp h
  rw [gbPiece_zero] at hsize halign
  refine ⟨?_, halign⟩
  have hend : (gbPiece 0 reqBytes x).2 ≤ reqBytes := min_le_left _ _
  have hmem : x ≤ (gbPiece 0 reqBytes x).2 := le_min hx (le_blockEnd _ _)
  simp only [u64Sub, u64] at hsize
  omega

theorem takesMbLeaf_bounds {info : EptMappingInfo} {x : ℕ}
    (hx : x ≤ reqBytes) (h : takesMbLeaf info 0 reqBytes x = true) :
    x / 2 ^ 21 * 2 ^ 21 + 2 ^ 20 ≤ reqBytes + 1 ∧
      u64 (x / 2 ^ 21 * 2 ^ 21 + info.offset) % 2 ^ 20 = 0 := by
  obtain ⟨-, hsize, -, halign⟩ := shouldDoMbMapping_iff.mp (takesMbLeaf_iff.mp h).2
  rw [mbPiece_zero] at hsize halign
  refine ⟨?_, halign⟩
  have hend : (mbPiece 0 reqBytes x).2 ≤ reqBytes := min_le_left _ _
  have hmem : x ≤ (mbPiece 0 reqBytes x).2 := le_min hx (le_blockEnd _ _)
  simp only [u64Sub, u64] at hsize
  omega

theorem owns_of_gb (ok : FramesOk bits reqBytes hostStart nrPages) (hbits : bits ≤ 52) {x y : ℕ}
    (hy : y ≤ reqBytes) (hxy : x / 2 ^ 30 = y / 2 ^ 30)
    (hg : takesGbLeaf (guestMapping mbPages gbPages reqBytes hostStart) 0 reqBytes y = true) :
    Owns hostStart nrPages (leafTarget x
      (1, (eptScheme (2 ^ bits - 1) (guestMapping mbPages gbPages reqBytes hostStart)).leafEntry 1 0
        (gbPiece 0 reqBytes y).1)) := by
  obtain ⟨hnr, hpos, haligned, hbelow, hlimit, -, -⟩ := ok
  have hoff := guestMapping_offset mbPages gbPages reqBytes (show hostStart < 2 ^ 64 by omega)
  obtain ⟨hend, halign⟩ := takesGbLeaf_bounds hy hg
  rw [hoff] at halign
  have hu : u64 (y / 2 ^ 30 * 2 ^ 30 + hostStart) = y / 2 ^ 30 * 2 ^ 30 + hostStart :=
    u64_of_lt (by omega)
  rw [gbPiece_zero, leafTarget_gb (guestMapping_flags ..) hbits x (by rw [hoff, hu]; omega)
    (by rwa [hoff]), hoff, hu]
  unfold Owns
  omega

theorem target_of_mb (ok : FramesOk bits reqBytes hostStart nrPages) (hbits : bits ≤ 52) {x y : ℕ}
    (hy : y ≤ reqBytes)
    (hm : takesMbLeaf (guestMapping mbPages gbPages reqBytes hostStart) 0 reqBytes y = true) :
    leafTarget x
      (2, (eptScheme (2 ^ bits - 1) (guestMapping mbPages gbPages reqBytes hostStart)).leafEntry 2 0
        (mbPiece 0 reqBytes y).1) =
      2 * (y / 2 ^ 21 * 2 ^ 21 + hostStart) % 2 ^ 52 + x % 2 ^ 21 := by
  obtain ⟨hnr, hpos, haligned, hbelow, hlimit, -, -⟩ := ok
  have hoff := guestMapping_offset mbPages gbPages reqBytes (show hostStart < 2 ^ 64 by omega)
  obtain ⟨hend, halign⟩ := takesMbLeaf_bounds hy hm
  rw [hoff] at halign
  have hu : u64 (y / 2 ^ 21 * 2 ^ 21 + hostStart) = y / 2 ^ 21 * 2 ^ 21 + hostStart :=
    u64_of_lt (by omega)
  rw [hu] at halign
  rw [mbPiece_zero, leafTarget_mb (guestMapping_flags ..) hbits x (by rw [hoff, hu]; omega), hoff,
    hu]
  omega

/-- A 4 KiB leaf leads into the guest's frames, unless it is the leaf behind them. -/
theorem owns_of_page_iff (ok : FramesOk bits reqBytes hostStart nrPages) {x y : ℕ}
    (hy : y ≤ reqBytes) (hxy : x / 4096 = y / 4096) :
    Owns hostStart nrPages (leafTarget x
      (3, (eptScheme (2 ^ bits - 1) (guestMapping mbPages gbPages reqBytes hostStart)).leafEntry 3 0
        (y / 4096 * 4096))) ↔ y < nrPages * 4096 := by
  obtain ⟨hnr, hpos, haligned, hbelow, hlimit, hpage, hall⟩ := ok
  have hoff := guestMapping_offset mbPages gbPages reqBytes (show hostStart < 2 ^ 64 by omega)
  have hu : u64 (y / 4096 * 4096 + hostStart) = y / 4096 * 4096 + hostStart :=
    u64_of_lt (by omega)
  rw [leafTarget_page (guestMapping_flags ..) x (by rw [hoff, hu]; omega)
    (by rw [hoff, hu]; omega), hoff, hu]
  unfold Owns
  omega

/-- In 4 KiB steps the page behind the frames has a leaf of its own unless it is part of a 2 MiB
leaf. -/
theorem takesGbLeaf_behind {info : EptMappingInfo} (h : reqBytes % 4096 = 0) :
    takesGbLeaf info 0 reqBytes reqBytes = false := by
  by_contra hg
  have := (takesGbLeaf_bounds (le_refl _) (Bool.not_eq_false _ ▸ hg)).1
  omega

/-- **Where the leaves of the guest's frames lead.** -/
theorem leaves_owned_iff (ok : FramesOk bits reqBytes hostStart nrPages) (hbits : bits ≤ 52)
    (hnr : bytesToNrPages reqBytes = nrPages) :
    (∀ x host, (newLeaf (eptScheme (2 ^ bits - 1) (guestMapping mbPages gbPages reqBytes hostStart))
        4 0 0 reqBytes x).map (leafTarget x) = some host → Owns hostStart nrPages host) ↔
      LeavesInside mbPages gbPages reqBytes hostStart := by
  have hleaf := fun y hy => @newLeaf_of_mem (2 ^ bits - 1)
    (guestMapping mbPages gbPages reqBytes hostStart) 0 reqBytes y (Nat.zero_mod _) (Nat.zero_le y) hy
  constructor
  · intro hown
    refine ⟨fun hz => ?_, fun x hx hm => ?_⟩
    · by_contra hm
      have hpage := hown reqBytes _ (by
        rw [hleaf _ (le_refl _), takesGbLeaf_behind hz, if_neg Bool.false_ne_true, if_neg hm]; rfl)
      rw [owns_of_page_iff ok (le_refl _) rfl] at hpage
      have := ok.nr
      omega
    · have hnew := hleaf x hx
      rw [(takesMbLeaf_iff.mp hm).1, if_neg Bool.false_ne_true, if_pos hm] at hnew
      obtain ⟨-, -, -, -, hsame⟩ := newLeaf_block (by norm_num) (Nat.zero_le _) hnew
      have hin : ∀ z, z / 2 ^ 21 = x / 2 ^ 21 → Owns hostStart nrPages
          (2 * (x / 2 ^ 21 * 2 ^ 21 + hostStart) % 2 ^ 52 + z % 2 ^ 21) := fun z hz => by
        rw [← target_of_mb ok hbits hx hm]
        exact hown z _ (by rw [hsame z hz, Option.map_some])
      have hfst := hin (x / 2 ^ 21 * 2 ^ 21) (by omega)
      have hlst := hin (x / 2 ^ 21 * 2 ^ 21 + (2 ^ 21 - 1)) (by omega)
      unfold Owns at hfst hlst
      rw [hnr]
      omega
  · rintro ⟨hbehind, hmb⟩ x host hx
    obtain ⟨⟨d, e⟩, hnew, rfl⟩ := Option.map_eq_some_iff.mp hx
    obtain ⟨y, -, hy, hyx, hy'⟩ := exists_mem_of_newLeaf (by norm_num) (Nat.zero_le _) hnew
    rw [hleaf y hy] at hy'
    split_ifs at hy' with hg hm
    · obtain ⟨rfl, rfl⟩ := Prod.mk.inj (Option.some.inj hy')
      exact owns_of_gb ok hbits hy hyx.symm hg
    · obtain ⟨rfl, rfl⟩ := Prod.mk.inj (Option.some.inj hy')
      have hin := hmb y hy hm
      rw [target_of_mb ok hbits hy hm]
      unfold Owns
      rw [hnr] at hin
      omega
    · obtain ⟨rfl, rfl⟩ := Prod.mk.inj (Option.some.inj hy')
      rw [owns_of_page_iff ok hy hyx.symm]
      by_contra hge
      have := ok.nr
      obtain rfl : y = reqBytes := by omega
      exact hm (hbehind (by omega))

end Leaves

/-! ### The address space after `virtualize_guest_physical_mem` -/

section Guest

variable {mm : List LimineMemmapEntry} {md : ℕ × ℕ} {bits : ℕ} {h h₁ : EptHeap} {a : PfAlloc}
variable {mbPages gbPages : Bool} {fuel memSize hostStart : ℕ} {granularity : MemGranularity}
variable {vm : VmMem}

theorem virtualizeGuestPhysicalMem_cases {maxPhysAddr : ℕ}
    (hcall : virtualizeGuestPhysicalMem maxPhysAddr mbPages gbPages fuel memSize granularity h =
      some (h₁, some vm))
    (hpages : h.alloc.getPagesRaw (bytesToNrPages (getVmConfigReqBytes memSize granularity)) =
      some (a, some hostStart)) :
    createEptMapping maxPhysAddr
      (guestMapping mbPages gbPages (getVmConfigReqBytes memSize granularity) hostStart)
      ⟨a, h.mem⟩ = some (h₁, vm.eptp, .success) := by
  unfold virtualizeGuestPhysicalMem at hcall
  simp only [hpages, Option.bind_eq_bind, Option.bind_some] at hcall
  obtain ⟨⟨h', eptp, ret⟩, hcreate, hrest⟩ := Option.bind_eq_some_iff.mp hcall
  rw [hcreate]
  by_cases hret : ret = .success
  · simp only [hret, ne_eq, not_true_eq_false, if_false] at hrest
    obtain ⟨rfl, hvm⟩ := Prod.mk.inj (Option.some.inj hrest)
    obtain rfl := Option.some.inj hvm
    rw [hret]
  · simp only [ne_eq, hret, not_false_iff, if_true] at hrest
    obtain ⟨a', -, hrest⟩ := Option.bind_eq_some_iff.mp hrest
    obtain ⟨⟨h'', _⟩, -, hrest⟩ := Option.bind_eq_some_iff.mp hrest
    obtain ⟨-, hvm⟩ := Prod.mk.inj (Option.some.inj hrest)
    cases hvm

theorem getVmConfigReqBytes_lt (hmem : memSize < 2 ^ 64) (granularity : MemGranularity) :
    getVmConfigReqBytes memSize granularity < 2 ^ 64 := by
  cases granularity with
  | bytes => exact hmem
  | kb => exact u64_lt _
  | mb => exact u64_lt _
  | gb => exact u64_lt _

theorem bytesToNrPages_of_pos {bytes : ℕ} (hb : bytes < 2 ^ 64) (hpos : 0 < bytesToNrPages bytes) :
    bytesToNrPages bytes = (bytes + 4095) / 4096 := by
  have heq : bytesToNrPages bytes = u64 (bytes + 4095) / 4096 := by
    rw [bytesToNrPages, Nat.shiftRight_eq_div_pow]
    rfl
  rw [heq] at hpos ⊢
  unfold u64 at *
  omega

theorem framesOk (hbits : bits ≤ 52) (hram : RamBelow mm bits) (hgood : GoodAlloc mm md h.alloc)
    {reqBytes : ℕ} (hreq : reqBytes < 2 ^ 64)
    (hpages : h.alloc.getPagesRaw (bytesToNrPages reqBytes) = some (a, some hostStart)) {q : ℕ}
    (hfree : bitSet a.bitmap q = false) :
    FramesOk bits reqBytes hostStart (bytesToNrPages reqBytes) := by
  obtain ⟨p, rfl, hpos, hgood', htaken, -⟩ := getPagesRaw_spec hgood hpages
  have h52 : 2 ^ bits ≤ 2 ^ 52 := Nat.pow_le_pow_right (by norm_num) hbits
  have hlast := hram _ (usable_of_clear hgood
    (htaken (p + bytesToNrPages reqBytes - 1) (by omega) (by omega)).1)
  have hother := hram _ (usable_of_clear hgood' hfree)
  have hout : ¬ (p ≤ q ∧ q < p + bytesToNrPages reqBytes) := by
    rintro ⟨h1, h2⟩
    rw [(htaken q h1 h2).2] at hfree
    cases hfree
  have hnr := bytesToNrPages_of_pos hreq hpos
  generalize bytesToNrPages reqBytes = nrPages at *
  have harith : p * 4096 + nrPages * 4096 ≤ 2 ^ 52 ∧ p * 4096 + (nrPages - 1) * 4096 < 2 ^ bits ∧
      4096 < 2 ^ bits ∧ (p * 4096 = 0 → nrPages * 4096 < 2 ^ 52) := by
    generalize 2 ^ bits = limit at *
    omega
  obtain ⟨h1, h2, h3, h4⟩ := harith
  exact ⟨hnr, hpos, Nat.mul_mod_left _ _, h1, h2, h3, h4⟩

/-- No host address but those of the `nrPages` frames from `hostStart` on is reachable. -/
def GuestIsolated (mem : ℕ → ℕ) (eptp hostStart nrPages : ℕ) : Prop :=
  ∀ gpa host, eptWalk mem eptp gpa = some host → Owns hostStart nrPages host

/-- The tables of a VM are well formed and its frames are in use. -/
structure VmOk (mm : List LimineMemmapEntry) (md : ℕ × ℕ) (eptp hostStart nrPages : ℕ)
    (h : EptHeap) : Prop where
  rep : EptRep mm md h (rootOf eptp)
  frames : ∀ q, Owns hostStart nrPages (q * 4096) → bitSet h.alloc.bitmap q = true

/-- The frames that `virtualize_guest_physical_mem` gives the guest. -/
theorem virtualizeGuestPhysicalMem_frames (hbits : bits ≤ 52) (hram : RamBelow mm bits)
    (hgood : GoodAlloc mm md h.alloc) (hmem : memSize < 2 ^ 64)
    (hcall : virtualizeGuestPhysicalMem (2 ^ bits - 1) mbPages gbPages fuel memSize granularity h =
      some (h₁, some vm))
    (hpages : h.alloc.getPagesRaw (bytesToNrPages (getVmConfigReqBytes memSize granularity)) =
      some (a, some hostStart)) :
    getVmConfigReqBytes memSize granularity + 1 < 2 ^ 64 ∧
      FramesOk bits (getVmConfigReqBytes memSize granularity) hostStart
        (bytesToNrPages (getVmConfigReqBytes memSize granularity)) := by
  have hcreate := virtualizeGuestPhysicalMem_cases hcall hpages
  obtain ⟨p, hstart, hpos, hgood', htaken, -⟩ := getPagesRaw_spec hgood hpages
  have hreq := getVmConfigReqBytes_lt hmem granularity
  generalize getVmConfigReqBytes memSize granularity = reqBytes at *
  have hnr := bytesToNrPages_of_pos hreq hpos
  have hlast := hram _ (usable_of_clear hgood
    (htaken (p + bytesToNrPages reqBytes - 1) (by omega) (by omega)).1)
  have h52 : 2 ^ bits ≤ 2 ^ 52 := Nat.pow_le_pow_right (by norm_num) hbits
  have hend : reqBytes + 1 < 2 ^ 64 := by omega
  obtain ⟨-, q, -, -, hclear, -⟩ := createEptMapping_cases hbits hram (h := ⟨a, h.mem⟩) hgood' hcreate
    (by decide) (by simp only [guestMapping, createEptMappingInfo]; omega)
  exact ⟨hend, framesOk hbits hram hgood hreq hpages hclear⟩

/-- With its tables below 1 TiB `virtualize_guest_physical_mem` builds well-formed tables, and the
guest reaches no frame but its own exactly if the leaves lead there. -/
theorem guestIsolated_iff (hbits : bits ≤ 52) (hram : RamBelow mm bits)
    (hgood : GoodAlloc mm md h.alloc) (hmem : memSize < 2 ^ 64)
    (hcall : virtualizeGuestPhysicalMem (2 ^ bits - 1) mbPages gbPages fuel memSize granularity h =
      some (h₁, some vm))
    (hpages : h.alloc.getPagesRaw (bytesToNrPages (getVmConfigReqBytes memSize granularity)) =
      some (a, some hostStart))
    (hlow : TakenBelow a h₁.alloc) :
    VmOk mm md vm.eptp hostStart (bytesToNrPages (getVmConfigReqBytes memSize granularity)) h₁ ∧
      (GuestIsolated h₁.mem vm.eptp hostStart
          (bytesToNrPages (getVmConfigReqBytes memSize granularity)) ↔
        LeavesInside mbPages gbPages (getVmConfigReqBytes memSize granularity) hostStart) := by
  obtain ⟨hend, ok⟩ := virtualizeGuestPhysicalMem_frames hbits hram hgood hmem hcall hpages
  have hcreate := virtualizeGuestPhysicalMem_cases hcall hpages
  obtain ⟨p, hstart, -, hgood', htaken, -⟩ := getPagesRaw_spec hgood hpages
  generalize getVmConfigReqBytes memSize granularity = reqBytes at *
  obtain ⟨h₂, rep, hempty, hkept, hlow₂, hmap⟩ := createEptMapping_spec hbits hram
    (h := ⟨a, h.mem⟩) hgood' hcreate (by decide)
    (by simp only [guestMapping, createEptMappingInfo]; omega) hlow
  simp only [guestMapping, createEptMappingInfo, Nat.zero_div, Nat.zero_mul, Nat.zero_add] at hmap
  have m := doEptPml4Mapping_spec (guestMapping_flags mbPages gbPages reqBytes hostStart) hbits hram
    rep hend (Nat.zero_le _) hmap hlow₂
  refine ⟨⟨m.rep, ?_⟩, ?_⟩
  · rintro q ⟨h1, h2⟩
    have hq : p ≤ q ∧ q < p + bytesToNrPages reqBytes := by omega
    exact (doEptPml4Mapping_kept rep.good hmap).2 q (hkept q (htaken q hq.1 hq.2).2)
  · rw [← leaves_owned_iff ok hbits rfl]
    have hreached := reached_iff m hempty (Nat.zero_le _)
    unfold GuestIsolated
    constructor
    · intro hiso x host hx
      obtain ⟨gpa, hwalk⟩ := (hreached host).mpr ⟨x, hx⟩
      exact hiso gpa host hwalk
    · intro hown gpa host hwalk
      obtain ⟨x, hx⟩ := (hreached host).mp ⟨gpa, hwalk⟩
      exact hown x host hx

end Guest

/-! ### The APIC access page -/

section Apic

variable {mm : List LimineMemmapEntry} {md : ℕ × ℕ} {bits : ℕ} {h h' h₁ : EptHeap}
variable {eptp hostStart nrPages vlapicBase apicAccessPage : ℕ}

/-- Between the two calls the tables of the VM are not written, and neither they nor the frames of
the guest are released. -/
structure Undisturbed (mm : List LimineMemmapEntry) (md : ℕ × ℕ) (eptp hostStart nrPages : ℕ)
    (h h' : EptHeap) : Prop where
  good : GoodAlloc mm md h'.alloc
  tables : ∀ d g t, d ≤ 3 → table eptFormat h.mem (rootOf eptp) d g = some t →
    PageInUse h'.alloc (t / 4096) ∧ ∀ b, b / 4096 = t / 4096 → h'.mem b = h.mem b
  frames : ∀ q, Owns hostStart nrPages (q * 4096) → bitSet h'.alloc.bitmap q = true

theorem Undisturbed.slots (u : Undisturbed mm md eptp hostStart nrPages h h')
    (rep : EptRep mm md h (rootOf eptp)) (d g b : ℕ) (hd : d ≤ 3)
    (hb : slot eptFormat h.mem (rootOf eptp) d g = some b) : h'.mem b = h.mem b := by
  obtain ⟨t, ht, rfl⟩ := Option.map_eq_some_iff.mp hb
  have haligned := rep.sep.aligned d g t hd ht
  have hindex := index_lt d g
  exact (u.tables d g t hd ht).2 _ (by omega)

theorem Undisturbed.vmOk (u : Undisturbed mm md eptp hostStart nrPages h h')
    (ok : VmOk mm md eptp hostStart nrPages h) : VmOk mm md eptp hostStart nrPages h' where
  rep := ok.rep.of_tables u.good
    (fun d g t hd ht => ⟨(u.tables d g t hd ht).1, (ok.rep.inUse d g t hd ht).2⟩) (u.slots ok.rep)
  frames := u.frames

theorem Undisturbed.eptWalk_eq (u : Undisturbed mm md eptp hostStart nrPages h h')
    (rep : EptRep mm md h (rootOf eptp)) (gpa : ℕ) :
    eptWalk h'.mem eptp gpa = eptWalk h.mem eptp gpa := by
  have hlook : lookup eptFormat h'.mem (rootOf eptp) gpa = lookup eptFormat h.mem (rootOf eptp) gpa :=
    lookupFrom_entry_congr fun d _ hd => entry_of_agree (by omega) (u.slots rep)
  simp only [eptWalk, hlook]

theorem VmOk.undisturbed (ok : VmOk mm md eptp hostStart nrPages h) :
    Undisturbed mm md eptp hostStart nrPages h h where
  good := ok.rep.good
  tables := fun d g t hd ht => ⟨(ok.rep.inUse d g t hd ht).1, fun _ _ => rfl⟩
  frames := ok.frames

theorem apicMapping_flags (vlapicBase apicAccessPage : ℕ) :
    FlagsOk (apicMapping vlapicBase apicAccessPage) := by
  constructor <;> simp only [apicMapping] <;> decide

/-- The two leaves of the APIC access page: its own and the one behind it. -/
theorem apicLeaf (hpage : 4096 < 2 ^ bits) (hbits : bits ≤ 52)
    (hbase : vlapicBase % 4096 = 0) (hlt : vlapicBase + 4096 < 2 ^ 48)
    (hapic : apicAccessPage % 4096 = 0) (hlim : apicAccessPage < 2 ^ bits) {x gpa : ℕ}
    (h1 : vlapicBase ≤ x) (h2 : x ≤ vlapicBase + 4096) :
    (newLeaf (eptScheme (2 ^ bits - 1) (apicMapping vlapicBase apicAccessPage)) 4 0 vlapicBase
        (vlapicBase + 4096) x).map (leafTarget gpa) =
      some ((apicAccessPage + (x - vlapicBase) / 4096 * 4096) % 2 ^ 52 + gpa % 4096) := by
  have h52 : 2 ^ bits ≤ 2 ^ 52 := Nat.pow_le_pow_right (by norm_num) hbits
  have hoff : (apicMapping vlapicBase apicAccessPage).offset = u64Sub apicAccessPage vlapicBase := rfl
  have hu : u64 (x / 4096 * 4096 + u64Sub apicAccessPage vlapicBase) =
      apicAccessPage + (x - vlapicBase) / 4096 * 4096 := by
    unfold u64 u64Sub u64
    omega
  have hdiv : (apicAccessPage + (x - vlapicBase) / 4096 * 4096) / 4096 < 2 ^ bits := by
    generalize 2 ^ bits = limit at *
    omega
  have hmod : (apicAccessPage + (x - vlapicBase) / 4096 * 4096) % 4096 = 0 := by omega
  rw [newLeaf_of_mem hbase h1 h2]
  have hgb : takesGbLeaf (apicMapping vlapicBase apicAccessPage) vlapicBase (vlapicBase + 4096) x =
      false := rfl
  have hmb : takesMbLeaf (apicMapping vlapicBase apicAccessPage) vlapicBase (vlapicBase + 4096) x =
      false := rfl
  rw [hgb, hmb, if_neg Bool.false_ne_true, if_neg Bool.false_ne_true, Option.map_some,
    leafTarget_page (apicMapping_flags ..) gpa (by rwa [hoff, hu]) (by rwa [hoff, hu]), hoff, hu]

/-- No host address is reachable but those of the guest's frames and, in the page at `vlapicBase`,
of the APIC access page. -/
def Isolated (mem : ℕ → ℕ) (eptp hostStart nrPages vlapicBase apicAccessPage : ℕ) : Prop :=
  ∀ gpa host, eptWalk mem eptp gpa = some host → Owns hostStart nrPages host ∨
    (gpa / 4096 = vlapicBase / 4096 ∧ host / 4096 = apicAccessPage / 4096)

theorem remapVlapicBase_cases {maxPhysAddr : ℕ} {vm : VmMem}
    (hcall : prepareApicAccessPage maxPhysAddr vm vlapicBase h = some (h', some apicAccessPage)) :
    ∃ a, h.alloc.getPageRaw = some (a, some apicAccessPage) ∧
      addEptMapping maxPhysAddr vm.eptp (apicMapping vlapicBase apicAccessPage) ⟨a, h.mem⟩ =
        some (h', .success) := by
  unfold prepareApicAccessPage remapVlapicBase at hcall
  obtain ⟨⟨a, addr⟩, hpage, hcall⟩ := Option.bind_eq_some_iff.mp hcall
  cases addr with
  | none =>
      obtain ⟨-, hnone⟩ := Prod.mk.inj (Option.some.inj hcall)
      cases hnone
  | some page =>
      obtain ⟨⟨h'', ok⟩, hremap, hcall⟩ := Option.bind_eq_some_iff.mp hcall
      obtain ⟨⟨h₁, ret⟩, hadd, hret⟩ := Option.bind_eq_some_iff.mp hremap
      obtain ⟨rfl, rfl⟩ := Prod.mk.inj (Option.some.inj hret)
      by_cases hs : ret = .success
      · simp only [hs, decide_true, if_true] at hcall
        obtain ⟨rfl, hsome⟩ := Prod.mk.inj (Option.some.inj hcall)
        obtain rfl := Option.some.inj hsome
        exact ⟨a, hpage, by rw [hadd, hs]⟩
      · simp only [hs, decide_false] at hcall
        obtain ⟨a', -, hcall⟩ := Option.bind_eq_some_iff.mp hcall
        obtain ⟨-, hnone⟩ := Prod.mk.inj (Option.some.inj hcall)
        cases hnone

/-- The tables that a remap adds lie below 1 TiB. -/
def RemapBelow (a a' : PfAlloc) (apicAccessPage : ℕ) : Prop :=
  ∀ q, OwnFrame a a' q → q * 4096 ≠ apicAccessPage → q * 4096 < 2 ^ 40

theorem rootOf_of_rep (rep : EptRep mm md h (rootOf eptp)) :
    physToVirt (eptpReadPaddr eptp) = rootOf eptp := by
  have huse := (rep.inUse 0 0 _ (by norm_num) rfl).2
  have hfield := paddrField_lt eptp
  rw [Nat.div_mul_cancel (Nat.dvd_of_mod_eq_zero (rep.sep.aligned 0 0 _ (by norm_num) rfl)), rootOf,
    virtToPhys_physToVirt (by omega), physToPfn_eq, Nat.mul_div_cancel _ (by norm_num)] at huse
  rw [eptpReadPaddr, readPaddr_of_lt huse, rootOf]

/-- A remap changes the translation of two pages, which had none: the one at `vlapicBase` and the
one behind it. -/
theorem remap_walk (hbits : bits ≤ 52) (hram : RamBelow mm bits) (hpage : 4096 < 2 ^ bits)
    {vm : VmMem} (ok : VmOk mm md vm.eptp hostStart nrPages h) (hbase : vlapicBase % 4096 = 0)
    (hlt : vlapicBase + 4096 < 2 ^ 48)
    (hcall : prepareApicAccessPage (2 ^ bits - 1) vm vlapicBase h = some (h', some apicAccessPage))
    (hlow : RemapBelow h.alloc h'.alloc apicAccessPage) :
    ∃ q, apicAccessPage = q * 4096 ∧ q * 4096 < 2 ^ bits ∧ ¬ Owns hostStart nrPages (q * 4096) ∧
      (∀ gpa host, eptWalk h.mem vm.eptp gpa = some host → eptWalk h'.mem vm.eptp gpa = some host) ∧
      (∀ gpa, vlapicBase ≤ gpa → gpa ≤ vlapicBase + 4096 → eptWalk h.mem vm.eptp gpa = none ∧
        eptWalk h'.mem vm.eptp gpa =
          some ((q * 4096 + (gpa - vlapicBase) / 4096 * 4096) % 2 ^ 52 + gpa % 4096)) ∧
      ∀ gpa host, eptWalk h'.mem vm.eptp gpa = some host → eptWalk h.mem vm.eptp gpa = some host ∨
        ∃ y, vlapicBase ≤ y ∧ y ≤ vlapicBase + 4096 ∧ y / 4096 = gpa / 4096 ∧
          host = (q * 4096 + (y - vlapicBase) / 4096 * 4096) % 2 ^ 52 + gpa % 4096 := by
  obtain ⟨a, halloc, hadd⟩ := remapVlapicBase_cases hcall
  obtain ⟨q, rfl, -, hgood', htaken, hkept⟩ := getPagesRaw_spec ok.rep.good halloc
  obtain ⟨hclear, hset⟩ := htaken q (le_refl _) (by omega)
  have hlim := hram q (usable_of_clear ok.rep.good hclear)
  have rep : EptRep mm md ⟨a, h.mem⟩ (rootOf vm.eptp) := ok.rep.of_tables hgood'
    (fun d g t hd ht => (ok.rep.inUse d g t hd ht).mono hkept) fun _ _ _ _ _ => rfl
  have hmap : doEptPml4Mapping (2 ^ bits - 1) (apicMapping vlapicBase (q * 4096)) ⟨a, h.mem⟩
      (rootOf vm.eptp) vlapicBase (vlapicBase + 4096) = some (h', .success) := by
    rw [← hadd, addEptMapping, rootOf_of_rep rep, pageAlign_eq]
    simp only [apicMapping, createEptMappingInfo]
    rw [u64_of_lt (by simp only [pageSize]; omega), Nat.div_mul_cancel (Nat.dvd_of_mod_eq_zero hbase)]
  have hlow' : TakenBelow a h'.alloc := by
    refine fun p hp => hlow p ⟨hkept.clear hp.1, hp.2⟩ fun heq => ?_
    obtain rfl : p = q := by omega
    rw [hp.1] at hset
    cases hset
  have m := doEptPml4Mapping_spec (apicMapping_flags vlapicBase (q * 4096)) hbits hram rep
    (show vlapicBase + 4096 + 1 < 2 ^ 64 by omega) (Nat.le_add_right _ _) hmap hlow'
  have hleaf := fun x gpa => @apicLeaf bits vlapicBase (q * 4096) hpage hbits hbase hlt
    (Nat.mul_mod_left _ _) hlim x gpa
  refine ⟨q, rfl, hlim, ?_, fun gpa host hwalk => walk_kept m hwalk, ?_, ?_⟩
  · intro hown
    rw [ok.frames q hown] at hclear
    cases hclear
  · intro gpa h1 h2
    obtain ⟨hnone, hwalk⟩ := walk_done m (by omega) (newLeaf_isSome _ _ hbase h1 h2)
    exact ⟨hnone, hwalk.trans (hleaf gpa gpa h1 h2)⟩
  · intro gpa host hwalk
    apply (walk_new m (Nat.le_add_right _ _) hwalk).imp_right
    rintro ⟨x, hx, hnew⟩
    obtain ⟨⟨d, e⟩, hfound, htarget⟩ := Option.map_eq_some_iff.mp hnew
    obtain ⟨y, h1, h2, hyx, hy⟩ := exists_mem_of_newLeaf (by norm_num) (Nat.le_add_right _ _) hfound
    have htarget' := hleaf y x h1 h2
    rw [hy, Option.map_some, Option.some.injEq, htarget] at htarget'
    rw [newLeaf_of_mem hbase h1 h2] at hy
    obtain ⟨rfl, -⟩ := Prod.mk.inj (Option.some.inj hy)
    have hyx : y / 4096 = x / 4096 := hyx
    exact ⟨y, h1, h2, by omega, by omega⟩

/-- After a remap the VM is isolated iff it was before and the frame behind the APIC access page is
the guest's first one. -/
theorem isolated_iff (hbits : bits ≤ 52) (hram : RamBelow mm bits) (hpage : 4096 < 2 ^ bits)
    (hnr : 0 < nrPages) (hstart : hostStart % 4096 = 0) {vm : VmMem}
    (ok : VmOk mm md vm.eptp hostStart nrPages h) (hbase : vlapicBase % 4096 = 0)
    (hlt : vlapicBase + 4096 < 2 ^ 48)
    (hcall : prepareApicAccessPage (2 ^ bits - 1) vm vlapicBase h = some (h', some apicAccessPage))
    (hlow : RemapBelow h.alloc h'.alloc apicAccessPage) :
    Isolated h'.mem vm.eptp hostStart nrPages vlapicBase apicAccessPage ↔
      GuestIsolated h.mem vm.eptp hostStart nrPages ∧
        (apicAccessPage + 4096) % 2 ^ 52 = hostStart := by
  obtain ⟨q, rfl, hlim, hnot, hkept, hdone, hnew⟩ := remap_walk hbits hram hpage ok hbase hlt hcall hlow
  have h52 : 2 ^ bits ≤ 2 ^ 52 := Nat.pow_le_pow_right (by norm_num) hbits
  have hq : q * 4096 < 2 ^ 52 := hlim.trans_le h52
  constructor
  · intro hiso
    constructor
    · intro gpa host hwalk
      rcases hiso gpa host (hkept gpa host hwalk) with hown | ⟨hg, -⟩
      · exact hown
      · rw [(hdone gpa (by omega) (by omega)).1] at hwalk
        cases hwalk
    · rcases hiso _ _ (hdone (vlapicBase + 4096) (by omega) (le_refl _)).2 with hown | ⟨hg, -⟩
      · unfold Owns at *
        omega
      · omega
  · rintro ⟨hiso, hbehind⟩ gpa host hwalk
    rcases hnew gpa host hwalk with hold | ⟨y, h1, h2, hy, rfl⟩
    · exact Or.inl (hiso gpa host hold)
    · rcases Nat.lt_or_ge y (vlapicBase + 4096) with hfst | hsnd
      · refine Or.inr ⟨by omega, by omega⟩
      · apply Or.inl
        unfold Owns
        omega

end Apic

/-! ### Isolation -/

/-- **When a VM reaches no host frame but its own.**  For every size and granularity, every choice of
large pages and every place of the guest's frames, with the tables below 1 TiB: after
`virtualize_guest_physical_mem` exactly the guest's frames are reachable iff `LeavesInside`; after a
following `remap_vlapic_base` the VM is isolated iff, besides, the frame behind the APIC access page
is the guest's first one. -/
theorem isolation_iff {mm : List LimineMemmapEntry} {md : ℕ × ℕ} {bits : ℕ} {h h₁ : EptHeap}
    {a : PfAlloc} {mbPages gbPages : Bool} {fuel memSize hostStart : ℕ}
    {granularity : MemGranularity} {vm : VmMem} (hbits : bits ≤ 52) (hram : RamBelow mm bits)
    (hgood : GoodAlloc mm md h.alloc) (hmem : memSize < 2 ^ 64)
    (hcall : virtualizeGuestPhysicalMem (2 ^ bits - 1) mbPages gbPages fuel memSize granularity h =
      some (h₁, some vm))
    (hpages : h.alloc.getPagesRaw (bytesToNrPages (getVmConfigReqBytes memSize granularity)) =
      some (a, some hostStart))
    (hlow : TakenBelow a h₁.alloc) :
    (GuestIsolated h₁.mem vm.eptp hostStart
        (bytesToNrPages (getVmConfigReqBytes memSize granularity)) ↔
      LeavesInside mbPages gbPages (getVmConfigReqBytes memSize granularity) hostStart) ∧
    ∀ h₂ h₃ vlapicBase apicAccessPage, vlapicBase % 4096 = 0 → vlapicBase + 4096 < 2 ^ 48 →
      Undisturbed mm md vm.eptp hostStart
        (bytesToNrPages (getVmConfigReqBytes memSize granularity)) h₁ h₂ →
      prepareApicAccessPage (2 ^ bits - 1) vm vlapicBase h₂ = some (h₃, some apicAccessPage) →
      RemapBelow h₂.alloc h₃.alloc apicAccessPage →
      (Isolated h₃.mem vm.eptp hostStart
          (bytesToNrPages (getVmConfigReqBytes memSize granularity)) vlapicBase apicAccessPage ↔
        LeavesInside mbPages gbPages (getVmConfigReqBytes memSize granularity) hostStart ∧
          (apicAccessPage + 4096) % 2 ^ 52 = hostStart) := by
  obtain ⟨-, frames⟩ := virtualizeGuestPhysicalMem_frames hbits hram hgood hmem hcall hpages
  obtain ⟨ok, hiff⟩ := guestIsolated_iff hbits hram hgood hmem hcall hpages hlow
  refine ⟨hiff, fun h₂ h₃ vlapicBase apicAccessPage hbase hlt u hremap hlow' => ?_⟩
  have hsame : GuestIsolated h₂.mem vm.eptp hostStart
      (bytesToNrPages (getVmConfigReqBytes memSize granularity)) ↔ GuestIsolated h₁.mem vm.eptp
      hostStart (bytesToNrPages (getVmConfigReqBytes memSize granularity)) := by
    simp only [GuestIsolated, u.eptWalk_eq ok.rep]
  rw [isolated_iff hbits hram frames.page frames.pos frames.aligned (u.vmOk ok) hbase hlt hremap hlow',
    hsame, hiff]

/-- A guest of one hundred bytes reaches its one frame only, until the APIC access page is mapped:
then it also reaches the frame behind that page. -/
theorem isolation_iff_hundred_bytes :
    ∃ h₁ vm h₂ apicAccessPage,
      virtualizeGuestPhysicalMem (2 ^ 40 - 1) true true 0 100 .bytes sixteenFramesInit =
        some (h₁, some vm) ∧ GuestIsolated h₁.mem vm.eptp 4096 1 ∧
      prepareApicAccessPage (2 ^ 40 - 1) vm 0x200000 h₁ = some (h₂, some apicAccessPage) ∧
      ¬ Isolated h₂.mem vm.eptp 4096 1 0x200000 apicAccessPage := by
  have hpages : sixteenFramesInit.alloc.getPagesRaw (bytesToNrPages (getVmConfigReqBytes 100 .bytes))
    = some (⟨[0xC0#8, 0#8], 2, 0, 2, 14, 2⟩, some 4096) := rfl
  have hrun : ((virtualizeGuestPhysicalMem (2 ^ 40 - 1) true true 0 100 .bytes sixteenFramesInit).map
      fun x => x.2.map fun vm => (prepareApicAccessPage (2 ^ 40 - 1) vm 0x200000 x.1).map
        fun y => y.2) = some (some (some (some 24576))) := rfl
  obtain ⟨⟨h₁, res⟩, hcall, hres⟩ := Option.map_eq_some_iff.mp hrun
  obtain ⟨vm, rfl, hvm⟩ := Option.map_eq_some_iff.mp hres
  obtain ⟨⟨h₂, apic⟩, hremap, rfl⟩ := Option.map_eq_some_iff.mp hvm
  have hinside : LeavesInside true true (getVmConfigReqBytes 100 .bytes) 4096 := by
    refine ⟨fun h => absurd h (by decide), fun x hx hm => ?_⟩
    have hend := (takesMbLeaf_bounds hx hm).1
    have hreq : getVmConfigReqBytes 100 .bytes = 100 := rfl
    omega
  have hmem : 100 < 2 ^ 64 := by norm_num
  obtain ⟨-, -, -, hgood, -⟩ := getPagesRaw_spec sixteenFrames_good hpages
  have hlow : TakenBelow _ h₁.alloc := TakenBelow.of_ram sixteenFrames_below hgood
  obtain ⟨ok, -⟩ := guestIsolated_iff (by norm_num) sixteenFrames_below sixteenFrames_good hmem
    hcall hpages hlow
  obtain ⟨hguest, hapic⟩ := isolation_iff (by norm_num) sixteenFrames_below sixteenFrames_good hmem
    hcall hpages hlow
  refine ⟨h₁, vm, h₂, 24576, hcall, hguest.mpr hinside, hremap, fun hiso => ?_⟩
  have hbehind := (hapic h₁ h₂ _ _ (by norm_num) (by norm_num) ok.undisturbed hremap
    fun q hq _ => TakenBelow.of_ram sixteenFrames_below ok.rep.good q hq).mp hiso
  exact absurd hbehind.2 (by norm_num)

/-- A guest of one page, at frame `1`, reaches frame `2`: its own page tables. -/
theorem onePage_guest_reaches_tables :
    ∃ h₁ vm, virtualizeGuestPhysicalMem (2 ^ 40 - 1) true true 0 4096 .bytes sixteenFramesInit =
        some (h₁, some vm) ∧ vm.physMemStart = 4096 ∧ vm.physMemEnd = 8191 ∧
      eptWalk h₁.mem vm.eptp 4096 = some 8192 ∧ paddrField vm.eptp * 4096 = 8192 ∧
      ¬ GuestIsolated h₁.mem vm.eptp 4096 1 := by
  have hrun : ((virtualizeGuestPhysicalMem (2 ^ 40 - 1) true true 0 4096 .bytes sixteenFramesInit).map
      fun x => x.2.map fun vm => (vm.physMemStart, vm.physMemEnd, eptWalk x.1.mem vm.eptp 4096,
        paddrField vm.eptp * 4096)) = some (some (4096, 8191, some 8192, 8192)) := rfl
  obtain ⟨⟨h₁, res⟩, hcall, hres⟩ := Option.map_eq_some_iff.mp hrun
  obtain ⟨vm, rfl, hvm⟩ := Option.map_eq_some_iff.mp hres
  simp only [Prod.mk.injEq] at hvm
  obtain ⟨hstart, hend, hwalk, hroot⟩ := hvm
  refine ⟨h₁, vm, hcall, hstart, hend, hwalk, hroot, fun hiso => ?_⟩
  have hown := (hiso 4096 8192 hwalk).2
  omega

end VmMem

end HyveMind
