import HyveMind.Ept
import HyveMind.PfAllocRun

/-! # The address space that the extended page tables describe

The four nested loops of `ept.c` are one instance of the general range mapper
(`doEptPml4Mapping_eq`), the page-frame allocator is a source of fresh pages for it
(`growSpec`), so that `mapRange_spec` says what every call does to the tables.

`createEptMapping_translates_iff` says exactly which mappings translate every address of the range
to itself plus the offset: those that choose no 2 MiB leaf (but for two degenerate targets).  4 KiB
and 1 GiB leaves are right; `ept_pde_set_pf_paddr` puts bit 20 of the address where the processor
expects bit 21. -/

namespace HyveMind.Ept

open Lib Lib.PageTable

/-! ### Reading the fields of an entry -/

theorem getEptPml4Index_eq (addr : ℕ) : getEptPml4Index addr = index 0 addr := by
  simp only [getEptPml4Index, getEptXentryIndex, index, shift, u64, Nat.shiftLeft_eq,
    Nat.shiftRight_eq_div_pow]
  norm_num
  omega

theorem getEptPdptIndex_eq (addr : ℕ) : getEptPdptIndex addr = index 1 addr := by
  simp only [getEptPdptIndex, getEptXentryIndex, index, shift, u64, Nat.shiftLeft_eq,
    Nat.shiftRight_eq_div_pow]
  norm_num
  omega

theorem getEptPdIndex_eq (addr : ℕ) : getEptPdIndex addr = index 2 addr := by
  simp only [getEptPdIndex, getEptXentryIndex, index, shift, u64, Nat.shiftLeft_eq,
    Nat.shiftRight_eq_div_pow]
  norm_num
  omega

theorem getEptPtIndex_eq (addr : ℕ) : getEptPtIndex addr = index 3 addr := by
  simp only [getEptPtIndex, getEptXentryIndex, index, shift, u64, Nat.shiftLeft_eq,
    Nat.shiftRight_eq_div_pow]
  norm_num
  omega

theorem scaleBlockIndex_eq (i : ℕ) : scaleBlockIndex i = 8 * i := by
  rw [scaleBlockIndex, Nat.shiftLeft_eq, Nat.mul_comm]

theorem paddrField_lt (raw : ℕ) : paddrField raw < 2 ^ 40 := Nat.mod_lt _ (by norm_num)

/-- Of the number of the frame only the lower 28 bits are read. -/
theorem readPaddr_eq (raw : ℕ) : readPaddr raw = paddrField raw % 2 ^ 28 * 4096 := by
  rw [readPaddr, Nat.shiftLeft_eq, show 2 ^ pageShift = 4096 from rfl]
  omega

theorem readPaddr_of_lt {raw : ℕ} (h : paddrField raw < 2 ^ 28) :
    readPaddr raw = paddrField raw * 4096 := by
  rw [readPaddr_eq, Nat.mod_eq_of_lt h]

theorem and_two_pow_ne_zero (x i : ℕ) : x &&& 2 ^ i ≠ 0 ↔ x.testBit i = true := by
  constructor
  · intro h
    obtain ⟨j, hj⟩ := Nat.exists_testBit_of_ne_zero h
    rw [Nat.testBit_and, Nat.testBit_two_pow, Bool.and_eq_true, decide_eq_true_iff] at hj
    rw [hj.2]
    exact hj.1
  · intro h hz
    have := congrArg (fun y => Nat.testBit y i) hz
    simp [h] at this

theorem or_flags (q : ℕ) {flags : ℕ} (h : flags < 4096) :
    q * 4096 ||| flags = q * 4096 + flags := by
  rw [Nat.mul_comm]
  exact (Nat.two_pow_add_eq_or_of_lt (i := 12) h q).symm

theorem isEptEntryPresent_of_flags (q : ℕ) {flags : ℕ} (h8 : flags % 8 ≠ 0) :
    isEptEntryPresent (q * 4096 + flags) = true := by
  have h7 : (q * 4096 + flags) &&& 7 = (q * 4096 + flags) % 8 :=
    Nat.and_two_pow_sub_one_eq_mod _ 3
  have hne : (q * 4096 + flags) % 8 ≠ 0 := by omega
  rw [isEptEntryPresent, h7]
  simpa using Or.inl hne

theorem eptEntryMapsPage_of_flags (q flags : ℕ) :
    eptEntryMapsPage (q * 4096 + flags) = decide (flags / 128 % 2 = 1) := by
  have h := and_two_pow_ne_zero (q * 4096 + flags) 7
  have h2 : (q * 4096 + flags) / 2 ^ 7 % 2 = flags / 128 % 2 := by omega
  rw [Nat.testBit_eq_decide_div_mod_eq, h2, decide_eq_true_iff] at h
  rw [eptEntryMapsPage, Bool.eq_iff_iff, bne_iff_ne, decide_eq_true_iff]
  exact h

theorem setPaddrField_zero (val : ℕ) : setPaddrField 0 val = val % 2 ^ 40 * 4096 := by
  simp [setPaddrField]

theorem paddrField_of_flags {q flags : ℕ} (hq : q < 2 ^ 40) (h : flags < 4096) :
    paddrField (q * 4096 + flags) = q := by
  unfold paddrField
  omega

/-- The field that the setters of table and 4 KiB addresses write. -/
theorem setPaddr_zero {bits p : ℕ} (hp : p / 4096 < 2 ^ bits) :
    setPaddr (2 ^ bits - 1) 0 p = p / 4096 % 2 ^ 40 * 4096 := by
  have hq : p >>> pageShift = p / 4096 := Nat.shiftRight_eq_div_pow p 12
  rw [setPaddr, setPaddrField_zero, hq, Nat.and_two_pow_sub_one_of_lt_two_pow hp]

theorem eptPdpteSetPfPaddr_zero {bits p : ℕ} (hbits : bits ≤ 52) (hp : p < 2 ^ bits) :
    eptPdpteSetPfPaddr (2 ^ bits - 1) 0 p = p / 2 ^ 30 * 2 ^ 30 ∧ p / 2 ^ 30 < 2 ^ 22 := by
  have h52 : p < 2 ^ 52 := hp.trans_le (Nat.pow_le_pow_right (by norm_num) hbits)
  rw [eptPdpteSetPfPaddr, setPaddrField_zero, Nat.and_two_pow_sub_one_of_lt_two_pow hp,
    Nat.shiftLeft_eq, Nat.shiftRight_eq_div_pow]
  constructor
  · rw [Nat.mod_eq_of_lt (by omega), Nat.mul_assoc]
    norm_num
  · omega

/-- The field that the setter of 2 MiB pages writes: bit 20 of the address is at bit 21. -/
theorem eptPdeSetPfPaddr_zero {bits p : ℕ} (hbits : bits ≤ 52) (hp : p < 2 ^ bits) :
    eptPdeSetPfPaddr (2 ^ bits - 1) 0 p = p / 2 ^ 20 % 2 ^ 31 * 2 ^ 21 := by
  have h52 : p < 2 ^ 52 := hp.trans_le (Nat.pow_le_pow_right (by norm_num) hbits)
  rw [eptPdeSetPfPaddr, setPaddrField_zero, Nat.and_two_pow_sub_one_of_lt_two_pow hp,
    Nat.shiftLeft_eq, Nat.shiftRight_eq_div_pow]
  omega

/-! ### The mapping functions as a range mapper -/

/-- The results of the mapping functions. -/
def eptCodes : Codes EptError :=
  ⟨.success, .rangeAlreadyMapped, .partsOfRangeAlreadyMapped, .error⟩

theorem eptCodes_ok : CodesOk eptCodes := by
  constructor <;> decide

/-- The leaves that the mapping functions choose. -/
def eptScheme (maxPhysAddr : ℕ) (info : EptMappingInfo) : Scheme where
  wants := fun d currStart currEnd =>
    if d = 0 then false
    else if d = 1 then shouldDoGbMapping currStart currEnd info
    else if d = 2 then shouldDoMbMapping currStart currEnd info
    else true
  leafEntry := fun d raw currStart =>
    let paddr := u64 (currStart + info.offset)
    (if d = 1 then eptPdpteSetPfPaddr maxPhysAddr raw paddr
      else if d = 2 then eptPdeSetPfPaddr maxPhysAddr raw paddr
      else eptPteSetPaddr maxPhysAddr raw paddr) ||| info.pageMapFlags

/-- How the mapping functions follow a link. -/
def eptRead (raw : ℕ) : ℕ := physToVirt (readPaddr raw)

/-- How the mapping functions link a new table. -/
def eptGrow (maxPhysAddr : ℕ) (info : EptMappingInfo) (h : EptHeap) (entry : ℕ) :
    Option (EptHeap × Bool) :=
  initTableEntry (setPaddr maxPhysAddr) entry info h

variable {maxPhysAddr : ℕ} {info : EptMappingInfo}

@[simp] theorem eptFormat_present (e : ℕ) : eptFormat.present e = isEptEntryPresent e := rfl

@[simp] theorem eptFormat_leaf_pml4 (e : ℕ) : eptFormat.leaf 0 e = false := rfl

@[simp] theorem eptFormat_leaf_pdpt (e : ℕ) : eptFormat.leaf 1 e = eptEntryMapsPage e := rfl

@[simp] theorem eptFormat_leaf_pd (e : ℕ) : eptFormat.leaf 2 e = eptEntryMapsPage e := rfl

@[simp] theorem eptFormat_leaf_pt (e : ℕ) : eptFormat.leaf 3 e = true := rfl

@[simp] theorem eptFormat_next (e : ℕ) : eptFormat.next e = physToVirt (paddrField e * 4096) := rfl

@[simp] theorem eptScheme_wants_pml4 (cs ce : ℕ) :
    (eptScheme maxPhysAddr info).wants 0 cs ce = false := rfl

@[simp] theorem eptScheme_wants_pdpt (cs ce : ℕ) :
    (eptScheme maxPhysAddr info).wants 1 cs ce = shouldDoGbMapping cs ce info := rfl

@[simp] theorem eptScheme_wants_pd (cs ce : ℕ) :
    (eptScheme maxPhysAddr info).wants 2 cs ce = shouldDoMbMapping cs ce info := rfl

@[simp] theorem eptScheme_wants_pt (cs ce : ℕ) :
    (eptScheme maxPhysAddr info).wants 3 cs ce = true := rfl

theorem doEptPtMapping_eq (h : EptHeap) (t first last : ℕ) :
    doEptPtMapping maxPhysAddr info h t first last =
      mapRange (eptFormat.reading eptRead) eptCodes (eptScheme maxPhysAddr info)
        (eptGrow maxPhysAddr info) 1 3 h t first last := by
  rw [doEptPtMapping, mapRange]
  congr 1
  funext h curr currEnd
  simp only [mapBlock, Format.reading_present, Format.reading_leaf, getEptPtIndex_eq,
    scaleBlockIndex_eq, eptFormat_present, eptFormat_leaf_pt, eptScheme_wants_pt, Bool.and_true,
    if_true]
  by_cases hp : isEptEntryPresent (h.mem (t + 8 * index 3 curr)) = true
  · simp [hp, eptCodes]
  · simp [hp, eptCodes, eptScheme]

theorem doEptPdMapping_eq (h : EptHeap) (t first last : ℕ) :
    doEptPdMapping maxPhysAddr info h t first last =
      mapRange (eptFormat.reading eptRead) eptCodes (eptScheme maxPhysAddr info)
        (eptGrow maxPhysAddr info) 2 2 h t first last := by
  rw [doEptPdMapping, mapRange]
  congr 1
  funext h curr currEnd
  simp only [mapBlock, Format.reading_present, Format.reading_leaf, Format.reading_next,
    getEptPdIndex_eq, scaleBlockIndex_eq, eptFormat_present, eptFormat_leaf_pd, eptScheme_wants_pd,
    eptPdeReadPaddr, eptRead, doEptPtMapping_eq]
  by_cases hp : isEptEntryPresent (h.mem (t + 8 * index 2 curr)) = true
  · by_cases hw : shouldDoMbMapping curr currEnd info = true
    · simp [hp, hw, eptCodes]
    · simp [hp, hw, eptCodes]
  · by_cases hw : shouldDoMbMapping curr currEnd info = true
    · simp [hp, hw, eptCodes, eptScheme]
    · simp [hp, hw, eptCodes, eptGrow, initPdTableEntry]
      rfl

theorem doEptPdptMapping_eq (h : EptHeap) (t first last : ℕ) :
    doEptPdptMapping maxPhysAddr info h t first last =
      mapRange (eptFormat.reading eptRead) eptCodes (eptScheme maxPhysAddr info)
        (eptGrow maxPhysAddr info) 3 1 h t first last := by
  rw [doEptPdptMapping, mapRange]
  congr 1
  funext h curr currEnd
  simp only [mapBlock, Format.reading_present, Format.reading_leaf, Format.reading_next,
    getEptPdptIndex_eq, scaleBlockIndex_eq, eptFormat_present, eptFormat_leaf_pdpt,
    eptScheme_wants_pdpt, eptPdpteReadPaddr, eptRead, doEptPdMapping_eq]
  by_cases hp : isEptEntryPresent (h.mem (t + 8 * index 1 curr)) = true
  · by_cases hw : shouldDoGbMapping curr currEnd info = true
    · simp [hp, hw, eptCodes]
    · simp [hp, hw, eptCodes]
  · by_cases hw : shouldDoGbMapping curr currEnd info = true
    · simp [hp, hw, eptCodes, eptScheme]
    · simp [hp, hw, eptCodes, eptGrow, initPdptEntry]
      rfl

/-- The nested loops of `ept.c` are the general range mapper. -/
theorem doEptPml4Mapping_eq (h : EptHeap) (t first last : ℕ) :
    doEptPml4Mapping maxPhysAddr info h t first last =
      mapRange (eptFormat.reading eptRead) eptCodes (eptScheme maxPhysAddr info)
        (eptGrow maxPhysAddr info) 4 0 h t first last := by
  rw [doEptPml4Mapping, mapRange]
  congr 1
  funext h curr currEnd
  simp only [mapBlock, Format.reading_present, Format.reading_leaf, Format.reading_next,
    getEptPml4Index_eq, scaleBlockIndex_eq, eptFormat_present, eptFormat_leaf_pml4,
    eptScheme_wants_pml4, eptPml4eReadPaddr, eptRead, doEptPdptMapping_eq, Bool.and_false]
  by_cases hp : isEptEntryPresent (h.mem (t + 8 * index 0 curr)) = true
  · simp [hp]
  · simp [hp, eptCodes, eptGrow, initPml4Entry]
    rfl

/-! ### Flags and fresh pages -/

/-- What the callers put in the flags of a mapping: links have a permission bit and not the bit of
large pages, leaves have both, and neither touches the address. -/
structure FlagsOk (info : EptMappingInfo) : Prop where
  link_lt : info.noPageFlags < 4096
  link_present : info.noPageFlags % 8 ≠ 0
  link_table : info.noPageFlags / 128 % 2 = 0
  leaf_lt : info.pageMapFlags < 4096
  leaf_present : info.pageMapFlags % 8 ≠ 0
  leaf_maps : info.pageMapFlags / 128 % 2 = 1

theorem leafEntry_eq (maxPhysAddr : ℕ) (hf : FlagsOk info) (d cs : ℕ) :
    ∃ q, (eptScheme maxPhysAddr info).leafEntry d 0 cs = q * 4096 + info.pageMapFlags := by
  simp only [eptScheme, eptPdpteSetPfPaddr, eptPdeSetPfPaddr, eptPteSetPaddr, setPaddr,
    setPaddrField_zero]
  split_ifs <;> exact ⟨_, or_flags _ hf.leaf_lt⟩

theorem eptScheme_ok (hf : FlagsOk info) : SchemeOk eptFormat (eptScheme maxPhysAddr info) where
  zero := rfl
  leaf_last := fun _ => rfl
  wants_last := fun _ _ => rfl
  leafEntry := by
    intro d cs ce hd hw
    obtain ⟨q, hq⟩ := leafEntry_eq maxPhysAddr hf d cs
    have hmaps : eptEntryMapsPage (q * 4096 + info.pageMapFlags) = true := by
      rw [eptEntryMapsPage_of_flags, hf.leaf_maps]
      rfl
    rw [hq]
    refine ⟨isEptEntryPresent_of_flags q hf.leaf_present, ?_⟩
    interval_cases d
    · simp at hw
    · exact hmaps
    · exact hmaps
    · rfl

/-- The invariant of the page-frame allocator, whatever ranges are live. -/
def GoodAlloc (mm : List LimineMemmapEntry) (md : ℕ × ℕ) (a : PfAlloc) : Prop :=
  ∃ live, PfAlloc.Inv mm md a live

/-- The frame was taken from the allocator between the states `a₀` and `a`. -/
def OwnFrame (a₀ a : PfAlloc) (q : ℕ) : Prop :=
  bitSet a₀.bitmap q = false ∧ bitSet a.bitmap q = true

/-- The frames of `a₀` that are in use still are. -/
def FramesKept (a₀ a : PfAlloc) : Prop := ∀ q, bitSet a₀.bitmap q = true → bitSet a.bitmap q = true

/-- All frames that were taken from the allocator between the states `a₀` and `a` lie below `2 ^ 40`. -/
def TakenBelow (a₀ a : PfAlloc) : Prop := ∀ q, OwnFrame a₀ a q → q * 4096 < 2 ^ 40

/-- The frame behind page `p` of the direct mapping is marked as used. -/
def PageInUse (a : PfAlloc) (p : ℕ) : Prop :=
  bitSet a.bitmap (physToPfn (virtToPhys (p * 4096))) = true

/-- The page is in use and its frame lies below `2 ^ 40`, so that links to it are read right. -/
def TableInUse (a : PfAlloc) (p : ℕ) : Prop :=
  PageInUse a p ∧ physToPfn (virtToPhys (p * 4096)) < 2 ^ 28

/-- All usable memory lies below the physical address limit. -/
def RamBelow (mm : List LimineMemmapEntry) (bits : ℕ) : Prop :=
  ∀ q, PfAlloc.UsableFrame mm q → q * 4096 < 2 ^ bits

theorem physToVirt_frame {q : ℕ} (hq : q < 2 ^ 52) :
    ∃ p, physToVirt (q * 4096) = p * 4096 ∧ physToPfn (virtToPhys (p * 4096)) = q := by
  have h : physToVirt (q * 4096) / 4096 * 4096 = physToVirt (q * 4096) := by
    simp only [physToVirt, physToVirtAt, u64, hypervisorDirectMappingOffset]
    omega
  refine ⟨physToVirt (q * 4096) / 4096, h.symm, ?_⟩
  rw [h, virtToPhys_physToVirt (by omega), physToPfn_eq]
  omega

variable {mm : List LimineMemmapEntry} {md : ℕ × ℕ} {bits : ℕ}

section Alloc

variable {a a' : PfAlloc}

theorem usable_of_clear (hgood : GoodAlloc mm md a) {q : ℕ} (hq : bitSet a.bitmap q = false) :
    PfAlloc.UsableFrame mm q := by
  obtain ⟨live, inv⟩ := hgood
  exact ((inv.bits q).mp hq).1

/-- Without memory above 1 TiB all frames are taken below it. -/
theorem TakenBelow.of_ram (hram : RamBelow mm 40) (hgood : GoodAlloc mm md a) : TakenBelow a a' :=
  fun q hq => hram q (usable_of_clear hgood hq.1)

/-- A successful call of `get_pages_raw` takes clear frames and touches no other. -/
theorem getPagesRaw_spec (hgood : GoodAlloc mm md a) {nr addr : ℕ}
    (hcall : a.getPagesRaw nr = some (a', some addr)) :
    ∃ p, addr = p * 4096 ∧ 0 < nr ∧ GoodAlloc mm md a' ∧
      (∀ q, p ≤ q → q < p + nr → bitSet a.bitmap q = false ∧ bitSet a'.bitmap q = true) ∧
      FramesKept a a' := by
  obtain ⟨live, inv⟩ := hgood
  obtain ⟨a₁, res, hcall₁, -, hsome⟩ := inv.getPagesImpl nr
  obtain ⟨rfl, rfl⟩ := Prod.mk.inj (Option.some.inj (hcall.symm.trans hcall₁))
  obtain ⟨p, haddr, -, hfree, inv'⟩ := hsome addr rfl
  refine ⟨p, haddr, (inv'.liveUsable _ (List.mem_cons_self ..)).1, ⟨_, inv'⟩, ?_, ?_⟩
  · intro q h1 h2
    refine ⟨hfree q h1 h2, ?_⟩
    by_contra hclear
    rw [Bool.not_eq_true, inv'.bits] at hclear
    exact hclear.2.2 (p, nr) (List.mem_cons_self ..) (PfAlloc.mem_frames.mpr ⟨h1, h2⟩)
  · intro q hq
    by_contra hclear
    rw [Bool.not_eq_true, inv'.bits] at hclear
    rw [(inv.bits _).mpr ⟨hclear.1, hclear.2.1, fun r hr =>
      hclear.2.2 r (List.mem_cons_of_mem _ hr)⟩] at hq
    cases hq

theorem FramesKept.clear {q : ℕ} (hkept : FramesKept a a') (hq : bitSet a'.bitmap q = false) :
    bitSet a.bitmap q = false := by
  by_contra hset
  rw [hkept q (Bool.eq_true_of_not_eq_false hset)] at hq
  cases hq

theorem FramesKept.trans {a'' : PfAlloc} (h : FramesKept a a') (h' : FramesKept a' a'') :
    FramesKept a a'' := fun q hq => h' q (h q hq)

theorem TakenBelow.first {a'' : PfAlloc} (h : TakenBelow a a'') (hkept : FramesKept a' a'') :
    TakenBelow a a' := fun q hq => h q ⟨hq.1, hkept q hq.2⟩

theorem TakenBelow.rest {a'' : PfAlloc} (h : TakenBelow a a'') (hkept : FramesKept a a') :
    TakenBelow a' a'' := fun q hq => h q ⟨hkept.clear hq.1, hq.2⟩

theorem TableInUse.mono (hkept : FramesKept a a') {p : ℕ} (hp : TableInUse a p) : TableInUse a' p :=
  ⟨hkept _ hp.1, hp.2⟩

/-- `get_page_raw` takes one clear frame and touches no other, or nothing happens. -/
theorem getPageRaw_frames (hgood : GoodAlloc mm md a) {res : Option ℕ}
    (hcall : a.getPageRaw = some (a', res)) :
    GoodAlloc mm md a' ∧ ((res = none ∧ a' = a) ∨ ∃ q, res = some (q * 4096) ∧
      bitSet a.bitmap q = false ∧
      ∀ q', bitSet a'.bitmap q' = true ↔ bitSet a.bitmap q' = true ∨ q' = q) := by
  obtain ⟨live, inv⟩ := hgood
  obtain ⟨a₁, res₁, hcall₁, hnone, hsome⟩ := inv.getPagesImpl 1
  obtain ⟨rfl, rfl⟩ := Prod.mk.inj (Option.some.inj (hcall.symm.trans hcall₁))
  cases res with
  | none =>
      obtain rfl := hnone rfl
      exact ⟨⟨live, inv⟩, Or.inl ⟨rfl, rfl⟩⟩
  | some addr =>
      obtain ⟨q, rfl, -, hfree, inv'⟩ := hsome addr rfl
      have hq := hfree q (le_refl q) (by omega)
      refine ⟨⟨_, inv'⟩, Or.inr ⟨q, rfl, hq, fun q' => ?_⟩⟩
      have hframe : q' ∈ PfAlloc.frames (q, 1) ↔ q' = q := by
        rw [PfAlloc.mem_frames]
        omega
      have hold := inv.bits q'
      have hnew := inv'.bits q'
      rw [List.forall_mem_cons, hframe] at hnew
      rw [← Bool.not_eq_false, ← Bool.not_eq_false, hold, hnew]
      by_cases hqq : q' = q
      · simp only [hqq, not_true_eq_false, false_and, and_false, not_false_eq_true, or_true]
      · simp only [hqq, not_false_eq_true, true_and, or_false]

end Alloc

section Tables

variable {h h' : EptHeap} {a : ℕ}

/-- A new table: an empty page in one frame that was clear, or nothing happens. -/
theorem allocateEptPagingStructure_frames (hgood : GoodAlloc mm md h.alloc) {ptr : ℕ}
    (hcall : allocateEptPagingStructure h = some (h', ptr)) :
    GoodAlloc mm md h'.alloc ∧
      ((ptr = 0 ∧ h.alloc.getPageRaw = some (h.alloc, none) ∧ h' = h) ∨
        ∃ q, ptr = q * 4096 ∧ bitSet h.alloc.bitmap q = false ∧
          (∀ q', bitSet h'.alloc.bitmap q' = true ↔ bitSet h.alloc.bitmap q' = true ∨ q' = q) ∧
          h'.mem = memsetZero h.mem (physToVirt (q * 4096)) pageSize) := by
  obtain ⟨⟨a₁, res⟩, hpage, hrest⟩ := Option.bind_eq_some_iff.mp hcall
  obtain ⟨hgood₁, ⟨rfl, rfl⟩ | ⟨q, rfl, hclear, hbits⟩⟩ := getPageRaw_frames hgood hpage
  · obtain ⟨rfl, rfl⟩ := Prod.mk.inj (Option.some.inj hrest)
    exact ⟨hgood₁, Or.inl ⟨rfl, hpage, rfl⟩⟩
  · simp only [Option.pure_def, Option.some.injEq, Prod.mk.injEq] at hrest
    obtain ⟨rfl, rfl⟩ := hrest
    refine ⟨hgood₁, Or.inr ⟨q, rfl, hclear, hbits, ?_⟩⟩
    with_reducible rfl

theorem allocateEptPagingStructure_defined (hgood : GoodAlloc mm md h.alloc) :
    ∃ h' ptr, allocateEptPagingStructure h = some (h', ptr) := by
  obtain ⟨live, inv⟩ := hgood
  obtain ⟨a', res, hpage, -⟩ := inv.getPagesImpl 1
  cases res with
  | none => exact ⟨_, _, by rw [allocateEptPagingStructure, PfAlloc.getPageRaw, hpage]; rfl⟩
  | some addr => exact ⟨_, _, by rw [allocateEptPagingStructure, PfAlloc.getPageRaw, hpage]; rfl⟩

/-- What linking a new table does: nothing, or a clear frame is taken and emptied and, unless it is
frame `0`, a link to it is put in the entry. -/
theorem eptGrow_cases (hgood : GoodAlloc mm md h.alloc) {ok : Bool}
    (hcall : eptGrow maxPhysAddr info h a = some (h', ok)) :
    GoodAlloc mm md h'.alloc ∧ ((ok = false ∧ h' = h) ∨ ∃ q, bitSet h.alloc.bitmap q = false ∧
      (∀ q', bitSet h'.alloc.bitmap q' = true ↔ bitSet h.alloc.bitmap q' = true ∨ q' = q) ∧
      ∃ mem', mem' = memsetZero h.mem (physToVirt (q * 4096)) pageSize ∧
        ((ok = false ∧ h'.mem = mem') ∨ (ok = true ∧ h'.mem =
          Function.update mem' a (setPaddr maxPhysAddr (mem' a) (q * 4096) ||| info.noPageFlags)))) := by
  obtain ⟨⟨h₁, ptr⟩, halloc, hrest⟩ := Option.bind_eq_some_iff.mp hcall
  obtain ⟨hgood₁, ⟨rfl, -, rfl⟩ | ⟨q, rfl, hclear, hset, hmem⟩⟩ :=
    allocateEptPagingStructure_frames hgood halloc
  · obtain ⟨rfl, rfl⟩ := Prod.mk.inj (Option.some.inj hrest)
    exact ⟨hgood₁, Or.inl ⟨rfl, rfl⟩⟩
  · by_cases h0 : q * 4096 = 0
    · simp only [h0, if_true, Option.pure_def, Option.some.injEq, Prod.mk.injEq] at hrest
      obtain ⟨rfl, rfl⟩ := hrest
      exact ⟨hgood₁, Or.inr ⟨q, hclear, hset, _, rfl, Or.inl ⟨rfl, hmem⟩⟩⟩
    · simp only [h0, if_false, Option.pure_def, Option.some.injEq, Prod.mk.injEq] at hrest
      obtain ⟨rfl, rfl⟩ := hrest
      refine ⟨hgood₁, Or.inr ⟨q, hclear, hset, _, rfl, Or.inr ⟨rfl, ?_⟩⟩⟩
      rw [← hmem]
      rfl

theorem eptGrow_kept (hgood : GoodAlloc mm md h.alloc) {ok : Bool}
    (hcall : eptGrow maxPhysAddr info h a = some (h', ok)) :
    GoodAlloc mm md h'.alloc ∧ FramesKept h.alloc h'.alloc := by
  obtain ⟨hgood', ⟨-, rfl⟩ | ⟨q, -, hset, -⟩⟩ := eptGrow_cases hgood hcall
  · exact ⟨hgood', fun _ hq => hq⟩
  · exact ⟨hgood', fun q' hq' => (hset q').mpr (Or.inl hq')⟩

theorem eptGrow_defined {F : Format} {I : EptHeap → Prop}
    (hI : ∀ h, I h → GoodAlloc mm md h.alloc) : GrowDefined F (eptGrow maxPhysAddr info) I := by
  intro h a hh _
  obtain ⟨h', ptr, halloc⟩ := allocateEptPagingStructure_defined (hI h hh)
  rw [eptGrow, initTableEntry, halloc]
  by_cases hptr : ptr = 0
  · exact ⟨h', false, by simp [hptr]⟩
  · exact ⟨_, true, by simp only [Option.bind_eq_bind, Option.bind_some, if_neg hptr]; rfl⟩

/-- The word that a link to the table in frame `q` consists of. -/
theorem linkEntry_eq (hf : FlagsOk info) (hbits : bits ≤ 52) {q : ℕ} (hq : q * 4096 < 2 ^ bits) :
    setPaddr (2 ^ bits - 1) 0 (q * 4096) ||| info.noPageFlags = q * 4096 + info.noPageFlags ∧
      q < 2 ^ 40 := by
  have h52 : 2 ^ bits ≤ 2 ^ 52 := Nat.pow_le_pow_right (by norm_num) hbits
  have hq40 : q < 2 ^ 40 := by omega
  have hdiv : q * 4096 / 4096 = q := Nat.mul_div_cancel _ (by norm_num)
  rw [setPaddr_zero (by omega), hdiv, Nat.mod_eq_of_lt hq40]
  exact ⟨or_flags _ hf.link_lt, hq40⟩

theorem linkEntry_format (hf : FlagsOk info) {q : ℕ} (hq : q < 2 ^ 40) :
    isEptEntryPresent (q * 4096 + info.noPageFlags) = true ∧
      eptEntryMapsPage (q * 4096 + info.noPageFlags) = false ∧
      paddrField (q * 4096 + info.noPageFlags) = q := by
  refine ⟨isEptEntryPresent_of_flags _ hf.link_present, ?_, paddrField_of_flags hq hf.link_lt⟩
  rw [eptEntryMapsPage_of_flags, hf.link_table]
  rfl

theorem eptFormat_leaf_of_maps {d e : ℕ} (hd : d ≤ 2) (h : eptEntryMapsPage e = false) :
    eptFormat.leaf d e = false := by
  interval_cases d
  · rfl
  · exact h
  · exact h

theorem eptRead_eq : ReadsTables eptFormat TableInUse eptRead := by
  rintro a e ⟨-, hlow⟩
  obtain ⟨p, hp, hpfn⟩ := physToVirt_frame (show paddrField e < 2 ^ 52 by unfold paddrField; omega)
  rw [eptFormat_next, hp, Nat.mul_div_cancel _ (by norm_num), hpfn] at hlow
  rw [eptRead, readPaddr_of_lt hlow, eptFormat_next]

/-- The allocator is a source of fresh pages for the tables, as long as it gives frames below
`2 ^ 40`. -/
theorem growSpec (hf : FlagsOk info) (hbits : bits ≤ 52) (hram : RamBelow mm bits) (a₀ : PfAlloc) :
    GrowSpec eptFormat (eptGrow (2 ^ bits - 1) info)
      (fun a => GoodAlloc mm md a ∧ FramesKept a₀ a) TableInUse (TakenBelow a₀) where
  keep := by
    rintro h a h' ok ⟨hgood, hkept⟩ hcall
    obtain ⟨hgood', hkept'⟩ := eptGrow_kept hgood hcall
    exact ⟨⟨hgood', hkept.trans hkept'⟩, fun hlow => hlow.first hkept'⟩
  link := by
    rintro h a h' ok ⟨hgood, hkept⟩ huse hz hcall hlow
    have hkept' := (eptGrow_kept hgood hcall).2
    refine ⟨fun p hp => hp.mono hkept', ?_⟩
    obtain ⟨-, ⟨rfl, rfl⟩ | ⟨q, hclear, hset, mem', rfl, hcases⟩⟩ := eptGrow_cases hgood hcall
    · exact ⟨fun _ _ _ => rfl, fun hok => absurd hok Bool.false_ne_true⟩
    have hq : q * 4096 < 2 ^ 40 := hlow q ⟨hkept.clear hclear, (hset q).mpr (Or.inr rfl)⟩
    obtain ⟨p, hp, hpfn⟩ := physToVirt_frame (show q < 2 ^ 52 by omega)
    have hfresh : ¬ TableInUse h.alloc p := by
      rintro ⟨hset, -⟩
      rw [PageInUse, hpfn, hclear] at hset
      cases hset
    have hin : ∀ b, b / 4096 = p → memsetZero h.mem (physToVirt (q * 4096)) pageSize b = 0 := by
      intro b hb
      rw [memsetZero, hp, if_pos]
      simp only [pageSize]
      omega
    have hout : ∀ b, TableInUse h.alloc (b / 4096) →
        memsetZero h.mem (physToVirt (q * 4096)) pageSize b = h.mem b := by
      intro b hb
      have hne : b / 4096 ≠ p := fun heq => hfresh (heq ▸ hb)
      rw [memsetZero, hp, if_neg]
      simp only [pageSize]
      omega
    rcases hcases with ⟨rfl, hmem⟩ | ⟨rfl, hmem⟩
    · exact ⟨fun _ b hb => by rw [hmem, hout b hb], fun hok => absurd hok Bool.false_ne_true⟩
    refine ⟨fun hok => absurd hok.symm Bool.false_ne_true, fun _ => ⟨p, hfresh, ?_, ?_⟩⟩
    · refine ⟨?_, by omega⟩
      rw [PageInUse, hpfn]
      exact (hset q).mpr (Or.inr rfl)
    obtain ⟨hlink, hq40⟩ := linkEntry_eq hf hbits (hram q (usable_of_clear hgood hclear))
    obtain ⟨hpres, hmaps, hfield⟩ := linkEntry_format hf hq40
    rw [hout a huse, hz, hlink] at hmem
    have hself : h'.mem a = q * 4096 + info.noPageFlags := by rw [hmem, Function.update_self]
    rw [hself]
    refine ⟨hpres, fun d hd => eptFormat_leaf_of_maps hd hmaps, ?_, ?_, ?_⟩
    · rw [eptFormat_next, hfield, hp]
    · intro b hb
      have hne : b ≠ a := by
        rintro rfl
        exact hfresh (hb ▸ huse)
      rw [hmem, Function.update_of_ne hne, hin b hb]
    · intro b hb hne
      rw [hmem, Function.update_of_ne hne, hout b hb]

end Tables

/-! ### Calls of `do_ept_pml4_mapping` -/

/-- What a mapping does to the tables under `root`. -/
abbrev EptMapped (mm : List LimineMemmapEntry) (md : ℕ × ℕ) (maxPhysAddr : ℕ)
    (info : EptMappingInfo) (root first last : ℕ) (h h' : EptHeap) (r : EptError) : Prop :=
  Mapped eptFormat eptCodes (eptScheme maxPhysAddr info) (GoodAlloc mm md) TableInUse root 4 0 first
    last h h' r

/-- The tables under `root` are well formed and lie below `2 ^ 40`. -/
abbrev EptRep (mm : List LimineMemmapEntry) (md : ℕ × ℕ) (h : EptHeap) (root : ℕ) : Prop :=
  Rep eptFormat (GoodAlloc mm md) TableInUse h root

section Calls

variable {h h' : EptHeap} {root first last : ℕ} {r : EptError}

/-- The mapping functions take frames from the allocator and give none back, whatever the tables
are. -/
theorem kept_mapInv (mm : List LimineMemmapEntry) (md : ℕ × ℕ) (a₀ : PfAlloc) (maxPhysAddr : ℕ)
    (info : EptMappingInfo) :
    MapInv (eptFormat.reading eptRead) (eptScheme maxPhysAddr info) (eptGrow maxPhysAddr info)
      (fun h => GoodAlloc mm md h.alloc ∧ FramesKept a₀ h.alloc) fun _ _ _ => True where
  next := fun _ _ _ _ _ _ _ _ _ => trivial
  leaf := fun _ _ _ _ _ _ hI _ _ _ _ => ⟨hI, fun _ _ _ => trivial⟩
  grow := by
    rintro h d t i h' ok ⟨hgood, hkept⟩ - - - hcall
    obtain ⟨hgood', hkept'⟩ := eptGrow_kept hgood hcall
    exact ⟨⟨⟨hgood', hkept.trans hkept'⟩, fun _ _ _ => trivial⟩, fun _ => trivial⟩

theorem doEptPml4Mapping_kept (hgood : GoodAlloc mm md h.alloc)
    (hcall : doEptPml4Mapping maxPhysAddr info h root first last = some (h', r)) :
    GoodAlloc mm md h'.alloc ∧ FramesKept h.alloc h'.alloc := by
  rw [doEptPml4Mapping_eq] at hcall
  exact (mapRange_inv (kept_mapInv mm md h.alloc maxPhysAddr info) ⟨hgood, fun _ hq => hq⟩ trivial
    hcall).1

theorem addEptMapping_kept (hgood : GoodAlloc mm md h.alloc) {eptp : ℕ}
    (hcall : addEptMapping maxPhysAddr eptp info h = some (h', r)) :
    GoodAlloc mm md h'.alloc ∧ FramesKept h.alloc h'.alloc :=
  doEptPml4Mapping_kept hgood hcall

theorem doEptPml4Mapping_defined (maxPhysAddr : ℕ) (info : EptMappingInfo) (root first : ℕ)
    (hgood : GoodAlloc mm md h.alloc) (hlast : last + 1 < 2 ^ 64) :
    ∃ h' r, doEptPml4Mapping maxPhysAddr info h root first last = some (h', r) := by
  rw [doEptPml4Mapping_eq]
  exact mapRange_defined (kept_mapInv mm md h.alloc maxPhysAddr info)
    (eptGrow_defined fun _ hI => hI.1) (fun _ _ => rfl) rfl ⟨hgood, fun _ hq => hq⟩ trivial hlast

/-- What `do_ept_pml4_mapping` does to the tables, if all frames that it takes lie below `2 ^ 40`. -/
theorem doEptPml4Mapping_spec (hf : FlagsOk info) (hbits : bits ≤ 52) (hram : RamBelow mm bits)
    (rep : EptRep mm md h root) (hlast : last + 1 < 2 ^ 64) (hle : first ≤ last)
    (hcall : doEptPml4Mapping (2 ^ bits - 1) info h root first last = some (h', r))
    (hlow : TakenBelow h.alloc h'.alloc) :
    EptMapped mm md (2 ^ bits - 1) info root first last h h' r := by
  have hgood := (doEptPml4Mapping_kept rep.good hcall).1
  have hrep : Rep eptFormat (fun a => GoodAlloc mm md a ∧ FramesKept h.alloc a) TableInUse h root :=
    rep.with_good ⟨rep.good, fun _ hq => hq⟩
  rw [doEptPml4Mapping_eq] at hcall
  exact (mapRange_spec eptCodes_ok (eptScheme_ok hf) eptRead_eq (growSpec hf hbits hram h.alloc)
    (by norm_num) hrep hlast hle (fun _ _ _ => rfl) hcall hlow).with_good hgood

end Calls

theorem rep_of_empty {h : EptHeap} {p : ℕ} (hgood : GoodAlloc mm md h.alloc)
    (huse : TableInUse h.alloc p) (hzero : ∀ b, b / 4096 = p → h.mem b = 0) :
    EptRep mm md h (p * 4096) ∧ ∀ d g e, d ≤ 3 → entry eptFormat h.mem (p * 4096) d g = some e →
      isEptEntryPresent e = false :=
  Rep.of_empty rfl hgood huse hzero

/-! ### Where a leaf leads -/

theorem shouldDoMapping_iff {enabled : Bool} {size s e : ℕ} :
    shouldDoMapping enabled size s e info = true ↔
      enabled = true ∧ size ≤ u64 (u64Sub e s + 1) ∧ s % size = 0 ∧ u64 (s + info.offset) % size = 0 := by
  unfold shouldDoMapping
  cases enabled <;> simp

theorem shouldDoGbMapping_iff {s e : ℕ} : shouldDoGbMapping s e info = true ↔
    info.useGbMappings = true ∧ 2 ^ 30 ≤ u64 (u64Sub e s + 1) ∧ s % 2 ^ 30 = 0 ∧
      u64 (s + info.offset) % 2 ^ 30 = 0 := by
  rw [shouldDoGbMapping, shouldDoMapping_iff]

theorem shouldDoMbMapping_iff {s e : ℕ} : shouldDoMbMapping s e info = true ↔
    info.useMbMappings = true ∧ 2 ^ 20 ≤ u64 (u64Sub e s + 1) ∧ s % 2 ^ 20 = 0 ∧
      u64 (s + info.offset) % 2 ^ 20 = 0 := by
  rw [shouldDoMbMapping, shouldDoMapping_iff]

theorem leafTarget_gb (hf : FlagsOk info) (hbits : bits ≤ 52) {cs : ℕ} (gpa : ℕ)
    (hp : u64 (cs + info.offset) < 2 ^ bits) (halign : u64 (cs + info.offset) % 2 ^ 30 = 0) :
    leafTarget gpa (1, (eptScheme (2 ^ bits - 1) info).leafEntry 1 0 cs) =
      u64 (cs + info.offset) + gpa % 2 ^ 30 := by
  obtain ⟨hset, hlt⟩ := eptPdpteSetPfPaddr_zero hbits hp
  have hor := or_flags (u64 (cs + info.offset) / 2 ^ 30 * 2 ^ 18) hf.leaf_lt
  have hflags := hf.leaf_lt
  have hentry : (eptScheme (2 ^ bits - 1) info).leafEntry 1 0 cs =
      u64 (cs + info.offset) + info.pageMapFlags := by
    simp only [eptScheme, if_true, hset]
    rw [show u64 (cs + info.offset) / 2 ^ 30 * 2 ^ 30 =
      u64 (cs + info.offset) / 2 ^ 30 * 2 ^ 18 * 4096 by omega, hor]
    omega
  rw [hentry]
  simp only [leafTarget, shift]
  norm_num at *
  omega

theorem leafTarget_mb (hf : FlagsOk info) (hbits : bits ≤ 52) {cs : ℕ} (gpa : ℕ)
    (hp : u64 (cs + info.offset) < 2 ^ bits) :
    leafTarget gpa (2, (eptScheme (2 ^ bits - 1) info).leafEntry 2 0 cs) =
      u64 (cs + info.offset) / 2 ^ 20 % 2 ^ 31 * 2 ^ 21 + gpa % 2 ^ 21 := by
  have hset := eptPdeSetPfPaddr_zero hbits hp
  have hor := or_flags (u64 (cs + info.offset) / 2 ^ 20 % 2 ^ 31 * 2 ^ 9) hf.leaf_lt
  have hflags := hf.leaf_lt
  have hentry : (eptScheme (2 ^ bits - 1) info).leafEntry 2 0 cs =
      u64 (cs + info.offset) / 2 ^ 20 % 2 ^ 31 * 2 ^ 21 + info.pageMapFlags := by
    simp only [eptScheme, if_true, hset]
    rw [show u64 (cs + info.offset) / 2 ^ 20 % 2 ^ 31 * 2 ^ 21 =
      u64 (cs + info.offset) / 2 ^ 20 % 2 ^ 31 * 2 ^ 9 * 4096 by omega, ← hor]
    simp
  rw [hentry]
  simp only [leafTarget, shift]
  norm_num at *
  omega

/-- A 4 KiB leaf leads to its target, as far as that is below `2 ^ 52`. -/
theorem leafTarget_page (hf : FlagsOk info) {cs : ℕ} (gpa : ℕ)
    (hp : u64 (cs + info.offset) / 4096 < 2 ^ bits) (halign : u64 (cs + info.offset) % 4096 = 0) :
    leafTarget gpa (3, (eptScheme (2 ^ bits - 1) info).leafEntry 3 0 cs) =
      u64 (cs + info.offset) % 2 ^ 52 + gpa % 4096 := by
  have hset := setPaddr_zero hp
  have hor := or_flags (u64 (cs + info.offset) / 4096 % 2 ^ 40) hf.leaf_lt
  have hflags := hf.leaf_lt
  have hentry : (eptScheme (2 ^ bits - 1) info).leafEntry 3 0 cs =
      u64 (cs + info.offset) / 4096 % 2 ^ 40 * 4096 + info.pageMapFlags := by
    simp only [eptScheme, eptPteSetPaddr, hset]
    simpa using hor
  rw [hentry]
  simp only [leafTarget, shift]
  norm_num at *
  omega

/-! ### The leaf of an address in the range -/

/-- The first and the last address of the range in the 1 GiB block of `gpa`. -/
def gbPiece (first last gpa : ℕ) : ℕ × ℕ := (chunkStart 1 first gpa, chunkEnd 1 last gpa)

/-- The first and the last address of the range in the 2 MiB block of `gpa`. -/
def mbPiece (first last gpa : ℕ) : ℕ × ℕ := (chunkStart 2 first gpa, chunkEnd 2 last gpa)

/-- `gpa` is mapped by a 1 GiB leaf. -/
def takesGbLeaf (info : EptMappingInfo) (first last gpa : ℕ) : Bool :=
  shouldDoGbMapping (gbPiece first last gpa).1 (gbPiece first last gpa).2 info

/-- `gpa` is mapped by a 2 MiB leaf. -/
def takesMbLeaf (info : EptMappingInfo) (first last gpa : ℕ) : Bool :=
  !takesGbLeaf info first last gpa &&
    shouldDoMbMapping (mbPiece first last gpa).1 (mbPiece first last gpa).2 info

theorem takesMbLeaf_iff {first last gpa : ℕ} : takesMbLeaf info first last gpa = true ↔
    takesGbLeaf info first last gpa = false ∧
      shouldDoMbMapping (mbPiece first last gpa).1 (mbPiece first last gpa).2 info = true := by
  simp [takesMbLeaf]

theorem newLeaf_of_mem {first last gpa : ℕ} (halign : first % 4096 = 0) (h1 : first ≤ gpa)
    (h2 : gpa ≤ last) :
    newLeaf (eptScheme maxPhysAddr info) 4 0 first last gpa = some (
      if takesGbLeaf info first last gpa then
        (1, (eptScheme maxPhysAddr info).leafEntry 1 0 (gbPiece first last gpa).1)
      else if takesMbLeaf info first last gpa then
        (2, (eptScheme maxPhysAddr info).leafEntry 2 0 (mbPiece first last gpa).1)
      else (3, (eptScheme maxPhysAddr info).leafEntry 3 0 (gpa / 4096 * 4096))) := by
  have hne : ∀ d, chunkStart d first gpa ≤ chunkEnd d last gpa := fun d =>
    (chunk_nonempty_iff (h1.trans h2)).mpr ⟨Nat.div_le_div_right h1, Nat.div_le_div_right h2⟩
  have hpage : chunkStart 3 first gpa = gpa / 4096 * 4096 := by
    simp only [chunkStart, shift]
    norm_num
    omega
  have hlast : newLeaf (eptScheme maxPhysAddr info) 1 3 first last gpa =
      some (3, (eptScheme maxPhysAddr info).leafEntry 3 0 (gpa / 4096 * 4096)) := by
    rw [newLeaf, if_pos (hne 3), eptScheme_wants_pt, if_pos rfl, hpage]
  rw [newLeaf_succ (by norm_num), if_pos (hne 0), eptScheme_wants_pml4, if_neg Bool.false_ne_true,
    newLeaf_succ (by norm_num), if_pos (hne 1), eptScheme_wants_pdpt,
    newLeaf_succ (by norm_num), if_pos (hne 2), eptScheme_wants_pd, hlast]
  by_cases hg : shouldDoGbMapping (chunkStart 1 first gpa) (chunkEnd 1 last gpa) info = true
  · simp [takesGbLeaf, gbPiece, hg]
  · by_cases hm : shouldDoMbMapping (chunkStart 2 first gpa) (chunkEnd 2 last gpa) info = true
    · simp [takesGbLeaf, takesMbLeaf, gbPiece, mbPiece, hg, hm]
    · simp [takesGbLeaf, takesMbLeaf, gbPiece, mbPiece, hg, hm]

/-- A piece of the range keeps its distance to the addresses behind it. -/
theorem target_add {start cs gpa : ℕ} (hoff : info.offset % 4096 = 0)
    (hbits : bits ≤ 52) (htarget : ∀ x, start ≤ x → x ≤ gpa → u64 (x + info.offset) < 2 ^ bits)
    (hstart : start / 4096 * 4096 ≤ cs) (hs : start ≤ gpa) (hcs : cs ≤ gpa) (hgpa : gpa < 2 ^ 48) :
    u64 (cs + info.offset) < 2 ^ bits ∧
      u64 (gpa + info.offset) = u64 (cs + info.offset) + (gpa - cs) := by
  have h52 : 2 ^ bits ≤ 2 ^ 52 := Nat.pow_le_pow_right (by norm_num) hbits
  have h1 := htarget gpa hs (le_refl _)
  rcases Nat.lt_or_ge cs start with hlt | hge
  · have h2 := htarget start (le_refl _) hs
    simp only [u64] at *
    omega
  · have h2 := htarget cs hge hcs
    simp only [u64] at *
    omega

theorem gbPiece_fst {first gpa : ℕ} (last : ℕ) (h1 : first ≤ gpa) :
    gpa / 2 ^ 30 * 2 ^ 30 ≤ (gbPiece first last gpa).1 ∧ first ≤ (gbPiece first last gpa).1 ∧
      (gbPiece first last gpa).1 ≤ gpa := by
  simp only [gbPiece, chunkStart, shift]
  norm_num
  omega

theorem mbPiece_fst {first gpa : ℕ} (last : ℕ) (h1 : first ≤ gpa) :
    gpa / 2 ^ 21 * 2 ^ 21 ≤ (mbPiece first last gpa).1 ∧ first ≤ (mbPiece first last gpa).1 ∧
      (mbPiece first last gpa).1 ≤ gpa := by
  simp only [mbPiece, chunkStart, shift]
  norm_num
  omega

/-- The targets for which doubling the address of a 2 MiB leaf does no harm. -/
def MbTargetExact (info : EptMappingInfo) (cs : ℕ) : Prop :=
  (cs % 2 ^ 21 = 0 ∧ u64 (cs + info.offset) = 0) ∨
    (cs % 2 ^ 21 = 2 ^ 20 ∧ u64 (cs + info.offset) = 2 ^ 52 - 2 ^ 20)

/-- The leaf of an address leads to the address plus the offset, unless it is a 2 MiB leaf. -/
theorem leafTarget_iff (hf : FlagsOk info) (hbits : bits ≤ 52) {start last gpa : ℕ}
    (hoff : info.offset % 4096 = 0)
    (htarget : ∀ x, start ≤ x → x ≤ gpa → u64 (x + info.offset) < 2 ^ bits)
    (hs : start ≤ gpa) (hl : gpa ≤ last) (hgpa : gpa < 2 ^ 48) :
    (newLeaf (eptScheme (2 ^ bits - 1) info) 4 0 (start / 4096 * 4096) last gpa).map
        (leafTarget gpa) = some (u64 (gpa + info.offset)) ↔
      (takesMbLeaf info (start / 4096 * 4096) last gpa = true →
        MbTargetExact info (mbPiece (start / 4096 * 4096) last gpa).1) := by
  have hfirst : start / 4096 * 4096 ≤ gpa := by omega
  have h52 : 2 ^ bits ≤ 2 ^ 52 := Nat.pow_le_pow_right (by norm_num) hbits
  have hadd := fun cs (h1 : start / 4096 * 4096 ≤ cs) (h2 : cs ≤ gpa) =>
    target_add hoff hbits htarget h1 hs h2 hgpa
  rw [newLeaf_of_mem (by omega) hfirst hl, Option.map_some, Option.some.injEq]
  by_cases hg : takesGbLeaf info (start / 4096 * 4096) last gpa = true
  · obtain ⟨h1, h2, h3⟩ := gbPiece_fst last hfirst
    obtain ⟨hp, hsum⟩ := hadd _ h2 h3
    obtain ⟨-, -, hcs, halign⟩ := shouldDoGbMapping_iff.mp hg
    rw [if_pos hg, leafTarget_gb hf hbits gpa hp halign, hsum]
    have hnot : takesMbLeaf info (start / 4096 * 4096) last gpa = false := by
      simp [takesMbLeaf, hg]
    simp only [hnot, Bool.false_eq_true, false_imp_iff, iff_true]
    omega
  · rw [if_neg hg]
    by_cases hm : takesMbLeaf info (start / 4096 * 4096) last gpa = true
    · obtain ⟨h1, h2, h3⟩ := mbPiece_fst last hfirst
      obtain ⟨hp, hsum⟩ := hadd _ h2 h3
      obtain ⟨-, -, hcs, halign⟩ := shouldDoMbMapping_iff.mp (takesMbLeaf_iff.mp hm).2
      rw [if_pos hm, leafTarget_mb hf hbits gpa hp, hsum]
      simp only [hm, true_imp_iff, MbTargetExact]
      generalize u64 ((mbPiece (start / 4096 * 4096) last gpa).1 + info.offset) = p at *
      generalize (mbPiece (start / 4096 * 4096) last gpa).1 = cs at *
      omega
    · have hpage : start / 4096 * 4096 ≤ gpa / 4096 * 4096 := by omega
      obtain ⟨hp, hsum⟩ := hadd (gpa / 4096 * 4096) hpage (Nat.div_mul_le_self _ _)
      have halign : u64 (gpa / 4096 * 4096 + info.offset) % 4096 = 0 := by
        simp only [u64]
        omega
      rw [if_neg hm, leafTarget_page hf gpa (by omega) halign, hsum, Nat.mod_eq_of_lt (by omega)]
      simp only [hm, Bool.false_eq_true, false_imp_iff, iff_true]
      omega

/-! ### A mapping in empty tables -/

section Fresh

variable {h h' : EptHeap} {root first last : ℕ} {r : EptError}

/-- The table that `eptp` points to. -/
abbrev rootOf (eptp : ℕ) : ℕ := physToVirt (paddrField eptp * 4096)

/-- Nothing is mapped under `root`. -/
def EmptyTables (h : EptHeap) (root : ℕ) : Prop :=
  ∀ d g e, d ≤ 3 → entry eptFormat h.mem root d g = some e → isEptEntryPresent e = false

theorem done_of_empty (m : EptMapped mm md maxPhysAddr info root first last h h' r)
    (hempty : EmptyTables h root) (hle : first ≤ last) (h48 : last < 2 ^ 48) (hr : r ≠ .error) :
    r = .success := by
  have hno : ¬ (r = .rangeAlreadyMapped ∨ r = .partsOfRangeAlreadyMapped) := by
    intro hrefused
    obtain ⟨x, -, -, d', v, -, hd', hv, hp⟩ := m.refused hrefused (by
      rw [Nat.div_eq_of_lt h48, Nat.div_eq_of_lt (by omega)])
    have := hempty d' x v hd' hv
    rw [eptFormat_present, this] at hp
    cases hp
  rcases m.code with h | h | h | h
  · exact h
  · exact absurd (Or.inl h) hno
  · exact absurd (Or.inr h) hno
  · exact absurd h hr

theorem newLeaf_isSome (maxPhysAddr : ℕ) (info : EptMappingInfo) {gpa : ℕ}
    (halign : first % 4096 = 0) (h1 : first ≤ gpa) (h2 : gpa ≤ last) :
    (newLeaf (eptScheme maxPhysAddr info) 4 0 first last gpa).isSome := by
  rw [newLeaf_of_mem halign h1 h2]
  rfl

/-- A mapping of a range in empty tables, all allocations succeeding with frames below `2 ^ 40`.  The
end of the range may be the first address that four levels cannot reach; the page there wraps around
to page `0`, which disturbs nothing. -/
theorem lookup_of_empty (hf : FlagsOk info) (hbits : bits ≤ 52) (hram : RamBelow mm bits)
    (rep : EptRep mm md h root) (hempty : EmptyTables h root) (halign : first % 4096 = 0)
    (hlast : last ≤ 2 ^ 48)
    (hcall : doEptPml4Mapping (2 ^ bits - 1) info h root first last = some (h', r))
    (hlow : TakenBelow h.alloc h'.alloc) (hr : r ≠ .error) {gpa : ℕ} (h1 : first ≤ gpa)
    (h2 : gpa ≤ last) (h3 : gpa < 2 ^ 48) :
    lookup eptFormat h'.mem root gpa =
      newLeaf (eptScheme (2 ^ bits - 1) info) 4 0 first last gpa := by
  rcases Nat.lt_or_ge last (2 ^ 48) with hlt | hge
  · have m := doEptPml4Mapping_spec hf hbits hram rep (show last + 1 < 2 ^ 64 by omega)
      (h1.trans h2) hcall hlow
    exact (m.done (done_of_empty m hempty (h1.trans h2) hlt hr) gpa
      (newLeaf_isSome _ _ halign h1 h2)).2
  · obtain rfl : last = 2 ^ 48 := by omega
    have hblock : blockEnd 39 (2 ^ 48 - 1) = 2 ^ 48 - 1 := by rw [blockEnd_eq]; norm_num
    rw [doEptPml4Mapping, overBlocks_split (by norm_num) (show 2 ^ 48 - 1 < 2 ^ 48 by norm_num)
      hblock (by omega)] at hcall
    change ((doEptPml4Mapping (2 ^ bits - 1) info h root first (2 ^ 48 - 1)).bind fun p =>
      if p.2 = .success then
        doEptPml4Mapping (2 ^ bits - 1) info p.1 root (2 ^ 48 - 1 + 1) (2 ^ 48)
      else some (p.1, p.2)) = some (h', r) at hcall
    obtain ⟨⟨h₁, r₁⟩, hcall₁, hrest⟩ := Option.bind_eq_some_iff.mp hcall
    obtain ⟨hgood₁, hkept₁⟩ := doEptPml4Mapping_kept rep.good hcall₁
    have hlast₁ : 2 ^ 48 - 1 + 1 < 2 ^ 64 := by norm_num
    have hspec₁ := fun hlow₁ =>
      doEptPml4Mapping_spec hf hbits hram rep hlast₁ (show first ≤ 2 ^ 48 - 1 by omega) hcall₁ hlow₁
    have hr₁ : r₁ = .success := by
      by_contra hne
      simp only [if_neg hne] at hrest
      obtain ⟨rfl, rfl⟩ := Prod.mk.inj (Option.some.inj hrest)
      exact hne (done_of_empty (hspec₁ hlow) hempty (by omega) (by norm_num) hr)
    simp only [if_pos hr₁] at hrest
    have m₁ := hspec₁ (hlow.first (doEptPml4Mapping_kept hgood₁ hrest).2)
    have m₂ := doEptPml4Mapping_spec hf hbits hram m₁.rep (show 2 ^ 48 + 1 < 2 ^ 64 by norm_num)
      (show 2 ^ 48 - 1 + 1 ≤ 2 ^ 48 by norm_num) hrest (hlow.rest hkept₁)
    have hsome := newLeaf_isSome (2 ^ bits - 1) info halign h1
      (show gpa ≤ 2 ^ 48 - 1 by omega)
    have hfound := (m₁.done hr₁ gpa hsome).2
    have hleft : newLeaf (eptScheme (2 ^ bits - 1) info) 4 0 first (2 ^ 48) gpa =
        newLeaf (eptScheme (2 ^ bits - 1) info) 4 0 first (2 ^ 48 - 1) gpa :=
      newLeaf_left (by norm_num) hblock (Nat.div_le_div_right (by omega))
    rw [hleft, ← hfound]
    rcases m₂.new gpa with h | ⟨h, -⟩
    · exact h
    · rw [← hfound, h] at hsome
      cases hsome

theorem lookupFrom_of_empty (hempty : EmptyTables h root) {n d : ℕ} (hdn : d + n ≤ 4) (g : ℕ) :
    lookupFrom eptFormat h.mem root n d g = none := by
  cases n with
  | zero => rfl
  | succ n =>
      rw [lookupFrom_succ]
      cases he : entry eptFormat h.mem root d g with
      | none => rfl
      | some e =>
          have hnot := hempty d g e (by omega) he
          simp [hnot]

/-- Addresses with the same path differ by a multiple of `2 ^ 48`, up to the offset in the page. -/
theorem leafTarget_alias {x gpa : ℕ} (hp : path 4 x = path 4 gpa) (leaf : ℕ × ℕ) :
    leafTarget (x / 4096 * 4096 + gpa % 4096) leaf = leafTarget gpa leaf := by
  have h48 : (x / 4096 * 4096 + gpa % 4096) % 2 ^ 48 = gpa % 2 ^ 48 := by
    unfold path at hp
    norm_num at hp
    omega
  have hdvd : 2 ^ shift leaf.1 ∣ 2 ^ 48 := Nat.pow_dvd_pow 2 (by unfold shift; omega)
  have hmod : (x / 4096 * 4096 + gpa % 4096) % 2 ^ shift leaf.1 = gpa % 2 ^ shift leaf.1 := by
    rw [← Nat.mod_mod_of_dvd _ hdvd, h48, Nat.mod_mod_of_dvd _ hdvd]
  simp only [leafTarget, hmod]

theorem newLeaf_page {S : Scheme} {leaf : ℕ × ℕ} {x y : ℕ} (hle : first ≤ last)
    (h : newLeaf S 4 0 first last x = some leaf) (hxy : y / 4096 = x / 4096) :
    newLeaf S 4 0 first last y = some leaf := by
  obtain ⟨-, hd, -, -, hsame⟩ := newLeaf_block (by norm_num) hle (h.trans (by rfl))
  apply hsame
  apply le_antisymm
  · exact div_mono_depth hd (le_refl 3) hxy.le
  · exact div_mono_depth hd (le_refl 3) hxy.ge

theorem walk_kept {eptp gpa host : ℕ}
    (m : EptMapped mm md maxPhysAddr info (rootOf eptp) first last h h' r)
    (hwalk : eptWalk h.mem eptp gpa = some host) : eptWalk h'.mem eptp gpa = some host := by
  unfold eptWalk at hwalk ⊢
  rcases m.new gpa with hsame | ⟨hnone, -⟩
  · rwa [lookup, hsame]
  · rw [lookup, hnone, Option.map_none, ite_self] at hwalk
    cases hwalk

/-- A successful mapping translates its range, which was not translated before. -/
theorem walk_done {eptp gpa : ℕ}
    (m : EptMapped mm md maxPhysAddr info (rootOf eptp) first last h h' .success)
    (hgpa : gpa < 2 ^ 48)
    (hsome : (newLeaf (eptScheme maxPhysAddr info) 4 0 first last gpa).isSome) :
    eptWalk h.mem eptp gpa = none ∧ eptWalk h'.mem eptp gpa =
      (newLeaf (eptScheme maxPhysAddr info) 4 0 first last gpa).map (leafTarget gpa) := by
  obtain ⟨hnone, hfound⟩ := m.done rfl gpa hsome
  unfold eptWalk
  rw [if_pos hgpa, if_pos hgpa, lookup, lookup, hnone, hfound]
  exact ⟨rfl, rfl⟩

/-- What is translated after a mapping was so before, or has a leaf of the range. -/
theorem walk_new {eptp gpa host : ℕ}
    (m : EptMapped mm md maxPhysAddr info (rootOf eptp) first last h h' r) (hle : first ≤ last)
    (hwalk : eptWalk h'.mem eptp gpa = some host) :
    eptWalk h.mem eptp gpa = some host ∨ ∃ x, x % 2 ^ 48 = gpa ∧
      (newLeaf (eptScheme maxPhysAddr info) 4 0 first last x).map (leafTarget x) = some host := by
  rcases m.new gpa with hsame | ⟨-, x, hpath, -, hnew⟩
  · apply Or.inl
    unfold eptWalk at hwalk ⊢
    rwa [lookup, ← hsame]
  · unfold eptWalk at hwalk
    split_ifs at hwalk with hgpa
    obtain ⟨leaf, hleaf, htarget⟩ := Option.map_eq_some_iff.mp hwalk
    rw [lookup, hnew] at hleaf
    refine Or.inr ⟨x / 4096 * 4096 + gpa % 4096, ?_, ?_⟩
    · unfold path at hpath
      norm_num at hpath
      omega
    · rw [newLeaf_page hle hleaf (by omega), Option.map_some, leafTarget_alias hpath, htarget]

/-- The host addresses that a successful mapping in empty tables makes reachable. -/
theorem reached_iff {eptp : ℕ}
    (m : EptMapped mm md maxPhysAddr info (rootOf eptp) first last h h' .success)
    (hempty : EmptyTables h (rootOf eptp)) (hle : first ≤ last) (host : ℕ) :
    (∃ gpa, eptWalk h'.mem eptp gpa = some host) ↔
      ∃ x, (newLeaf (eptScheme maxPhysAddr info) 4 0 first last x).map (leafTarget x) =
        some host := by
  constructor
  · rintro ⟨gpa, hwalk⟩
    rcases walk_new m hle hwalk with hold | ⟨x, -, hx⟩
    · rw [eptWalk, lookup, lookupFrom_of_empty hempty (by norm_num), Option.map_none,
        ite_self] at hold
      cases hold
    · exact ⟨x, hx⟩
  · rintro ⟨x, hx⟩
    obtain ⟨leaf, hleaf, htarget⟩ := Option.map_eq_some_iff.mp hx
    have hpath : path 4 x = path 4 (x % 2 ^ 48) := by
      unfold path
      omega
    have hfound := (m.done rfl x (by rw [hleaf]; rfl)).2
    refine ⟨x % 2 ^ 48, ?_⟩
    rw [eptWalk, if_pos (Nat.mod_lt _ (by norm_num)), lookup,
      lookupFrom_congr (by norm_num) hpath.symm, hfound, hleaf, Option.map_some,
      ← leafTarget_alias hpath, ← htarget, show x / 4096 * 4096 + x % 2 ^ 48 % 4096 = x by omega]

theorem eptpSetPaddr_init {q : ℕ} (hbits : bits ≤ 52) (hlim : q * 4096 < 2 ^ bits) :
    eptpSetPaddr (2 ^ bits - 1) eptpInit (q * 4096) = q * 4096 + eptpInit ∧
      paddrField (q * 4096 + eptpInit) = q := by
  have h52 : 2 ^ bits ≤ 2 ^ 52 := Nat.pow_le_pow_right (by norm_num) hbits
  have hq : (q * 4096) >>> pageShift = q := by
    rw [Nat.shiftRight_eq_div_pow]
    exact Nat.mul_div_cancel q (show 0 < 4096 by norm_num)
  rw [eptpSetPaddr, setPaddr, hq, Nat.and_two_pow_sub_one_of_lt_two_pow (by omega)]
  unfold setPaddrField paddrField eptpInit
  omega

/-- `create_ept_mapping` takes and empties a root table and runs the mapping from where it reads its
address. -/
theorem createEptMapping_cases (hbits : bits ≤ 52) (hram : RamBelow mm bits)
    (hgood : GoodAlloc mm md h.alloc) {eptp : ℕ}
    (hcall : createEptMapping (2 ^ bits - 1) info h = some (h', eptp, r)) (hr : r ≠ .error)
    (hlast : info.guestPaddrStart + info.reqBytes < 2 ^ 64) :
    ∃ h₁ q, GoodAlloc mm md h₁.alloc ∧ q ≠ 0 ∧ bitSet h.alloc.bitmap q = false ∧
      (∀ q', bitSet h₁.alloc.bitmap q' = true ↔ bitSet h.alloc.bitmap q' = true ∨ q' = q) ∧
      h₁.mem = memsetZero h.mem (physToVirt (q * 4096)) pageSize ∧ paddrField eptp = q ∧
      doEptPml4Mapping (2 ^ bits - 1) info h₁ (physToVirt (readPaddr eptp))
        (info.guestPaddrStart / 4096 * 4096) (info.guestPaddrStart + info.reqBytes) = some (h', r) := by
  obtain ⟨⟨h₁, ptr⟩, halloc, hrest⟩ := Option.bind_eq_some_iff.mp hcall
  obtain ⟨hgood₁, ⟨rfl, -, rfl⟩ | ⟨q, rfl, hclear, hset, hmem⟩⟩ :=
    allocateEptPagingStructure_frames hgood halloc
  · simp only [if_true, Option.pure_def, Option.some.injEq, Prod.mk.injEq] at hrest
    exact absurd hrest.2.2.symm hr
  by_cases h0 : q * 4096 = 0
  · simp only [h0, if_true, Option.pure_def, Option.some.injEq, Prod.mk.injEq] at hrest
    exact absurd hrest.2.2.symm hr
  simp only [h0, if_false] at hrest
  obtain ⟨⟨h₂, r₂⟩, hadd, hret⟩ := Option.bind_eq_some_iff.mp hrest
  obtain ⟨rfl, heq⟩ := Prod.mk.inj (Option.some.inj hret)
  obtain ⟨rfl, rfl⟩ := Prod.mk.inj heq
  obtain ⟨heptp, hfield⟩ := eptpSetPaddr_init hbits (hram q (usable_of_clear hgood hclear))
  refine ⟨h₁, q, hgood₁, by omega, hclear, hset, hmem, by rw [heptp, hfield], ?_⟩
  rw [← hadd, addEptMapping, pageAlign_eq, u64_of_lt hlast]
  rfl

theorem createEptMapping_defined (maxPhysAddr : ℕ) (hgood : GoodAlloc mm md h.alloc)
    (hlast : info.guestPaddrStart + info.reqBytes + 1 < 2 ^ 64) :
    ∃ h' eptp r, createEptMapping maxPhysAddr info h = some (h', eptp, r) := by
  obtain ⟨h₁, ptr, halloc⟩ := allocateEptPagingStructure_defined hgood
  have hgood₁ := (allocateEptPagingStructure_frames hgood halloc).1
  by_cases h0 : ptr = 0
  · exact ⟨h₁, eptpInit, .error, by simp [createEptMapping, halloc, h0]⟩
  · obtain ⟨h', r, hmap⟩ := doEptPml4Mapping_defined maxPhysAddr info
      (physToVirt (eptpReadPaddr (eptpSetPaddr maxPhysAddr eptpInit ptr)))
      (pageAlign info.guestPaddrStart) hgood₁ hlast
    refine ⟨h', eptpSetPaddr maxPhysAddr eptpInit ptr, r, ?_⟩
    have hadd : addEptMapping maxPhysAddr (eptpSetPaddr maxPhysAddr eptpInit ptr) info h₁ =
        some (h', r) := by rw [addEptMapping, u64_of_lt (by omega), hmap]
    simp [createEptMapping, halloc, h0, hadd]

/-- If all frames that `create_ept_mapping` takes lie below `2 ^ 40`, it runs the mapping in a new,
empty root table. -/
theorem createEptMapping_spec (hbits : bits ≤ 52) (hram : RamBelow mm bits)
    (hgood : GoodAlloc mm md h.alloc) {eptp : ℕ}
    (hcall : createEptMapping (2 ^ bits - 1) info h = some (h', eptp, r)) (hr : r ≠ .error)
    (hlast : info.guestPaddrStart + info.reqBytes < 2 ^ 64) (hlow : TakenBelow h.alloc h'.alloc) :
    ∃ h₁, EptRep mm md h₁ (rootOf eptp) ∧ EmptyTables h₁ (rootOf eptp) ∧
      FramesKept h.alloc h₁.alloc ∧
      TakenBelow h₁.alloc h'.alloc ∧
      doEptPml4Mapping (2 ^ bits - 1) info h₁ (rootOf eptp) (info.guestPaddrStart / 4096 * 4096)
        (info.guestPaddrStart + info.reqBytes) = some (h', r) := by
  obtain ⟨h₁, q, hgood₁, -, hclear, hset, hmem, hfield, hmap⟩ :=
    createEptMapping_cases hbits hram hgood hcall hr hlast
  have hkept : FramesKept h.alloc h₁.alloc := fun q' hq' => (hset q').mpr (Or.inl hq')
  have hq₁ : bitSet h₁.alloc.bitmap q = true := (hset q).mpr (Or.inr rfl)
  have hq : q * 4096 < 2 ^ 40 := hlow q ⟨hclear, (doEptPml4Mapping_kept hgood₁ hmap).2 q hq₁⟩
  obtain ⟨p, hp, hpfn⟩ := physToVirt_frame (show q < 2 ^ 52 by omega)
  have hinUse : PageInUse h₁.alloc p := by
    rw [PageInUse, hpfn]
    exact hq₁
  have hq28 : q < 2 ^ 28 := by omega
  have huse : TableInUse h₁.alloc p := by
    refine ⟨hinUse, ?_⟩
    rw [hpfn]
    exact hq28
  have hzero : ∀ b, b / 4096 = p → h₁.mem b = 0 := by
    intro b hb
    rw [hmem, memsetZero, hp, if_pos]
    simp only [pageSize]
    omega
  have hroot : rootOf eptp = p * 4096 := by rw [rootOf, hfield, hp]
  obtain ⟨rep, hempty⟩ := rep_of_empty hgood₁ huse hzero
  rw [readPaddr_of_lt (hfield.trans_lt hq28), hfield, hp] at hmap
  rw [hroot]
  exact ⟨h₁, rep, hempty, hkept, hlow.rest hkept, hmap⟩

/-! ### Tables above 1 TiB -/

/-- The address lies in the page of the frame `q`. -/
def InFrame (q b : ℕ) : Prop := physToVirt (q * 4096) ≤ b ∧ b < physToVirt (q * 4096) + pageSize

/-- The frames from `2 ^ 40` on that were taken since `a₀` are empty: no link to them is read right, so
that nothing is ever written there. -/
structure HighEmpty (mm : List LimineMemmapEntry) (md : ℕ × ℕ) (a₀ : PfAlloc) (h : EptHeap) : Prop where
  good : GoodAlloc mm md h.alloc
  kept : FramesKept a₀ h.alloc
  empty : ∀ q b, OwnFrame a₀ h.alloc q → 2 ^ 40 ≤ q * 4096 → InFrame q b → h.mem b = 0

/-- Where the mapping functions look for tables. -/
def LowTable (t : ℕ) : Prop := ∃ q < 2 ^ 28, physToVirt (q * 4096) = t

theorem lowTable_read (raw : ℕ) : LowTable (physToVirt (readPaddr raw)) :=
  ⟨paddrField raw % 2 ^ 28, Nat.mod_lt _ (by norm_num), by rw [readPaddr_eq]⟩

theorem inFrame_unique {q q' b : ℕ} (hq : q < 2 ^ 40) (hq' : q' < 2 ^ 40) (h : InFrame q b)
    (h' : InFrame q' b) : q = q' := by
  unfold InFrame at h h'
  simp only [physToVirt, physToVirtAt, u64, hypervisorDirectMappingOffset, pageSize] at h h'
  omega

theorem inFrame_entry (q : ℕ) {i : ℕ} (hi : i < 512) : InFrame q (physToVirt (q * 4096) + 8 * i) := by
  unfold InFrame pageSize
  omega

section High

variable {a₀ : PfAlloc}

theorem OwnFrame.lt {a : PfAlloc} (hbits : bits ≤ 52) (hram : RamBelow mm bits)
    (hgood : GoodAlloc mm md a₀) {q : ℕ} (hq : OwnFrame a₀ a q) : q < 2 ^ 40 := by
  have hlim := hram q (usable_of_clear hgood hq.1)
  have h52 : 2 ^ bits ≤ 2 ^ 52 := Nat.pow_le_pow_right (by norm_num) hbits
  omega

theorem HighEmpty.update (hgood₀ : GoodAlloc mm md a₀) (hbits : bits ≤ 52) (hram : RamBelow mm bits)
    (high : HighEmpty mm md a₀ h) {t i : ℕ} (ht : LowTable t) (hi : i < 512) (e : ℕ) :
    HighEmpty mm md a₀ (h.write (t + 8 * i) e) := by
  obtain ⟨q', hq', rfl⟩ := ht
  refine ⟨high.good, high.kept, fun q b hq hge hb => ?_⟩
  have hne : b ≠ physToVirt (q' * 4096) + 8 * i := by
    rintro rfl
    have := inFrame_unique (hq.lt hbits hram hgood₀) (by omega) hb (inFrame_entry q' hi)
    omega
  exact (Function.update_of_ne hne _ _).trans (high.empty q b hq hge hb)

theorem HighEmpty.alloc (high : HighEmpty mm md a₀ h) {q : ℕ} (hgood' : GoodAlloc mm md h'.alloc)
    (hset : ∀ q', bitSet h'.alloc.bitmap q' = true ↔ bitSet h.alloc.bitmap q' = true ∨ q' = q)
    (hmem : h'.mem = memsetZero h.mem (physToVirt (q * 4096)) pageSize) : HighEmpty mm md a₀ h' := by
  refine ⟨hgood', fun q' hq' => (hset q').mpr (Or.inl (high.kept q' hq')), fun q' b hq' hge hb => ?_⟩
  rw [hmem, memsetZero]
  split_ifs with hin
  · rfl
  · rcases (hset q').mp hq'.2 with hold | rfl
    · exact high.empty q' b ⟨hq'.1, hold⟩ hge hb
    · exact absurd hb hin

theorem high_mapInv (hgood₀ : GoodAlloc mm md a₀) (hbits : bits ≤ 52) (hram : RamBelow mm bits)
    (maxPhysAddr : ℕ) (info : EptMappingInfo) :
    MapInv (eptFormat.reading eptRead) (eptScheme maxPhysAddr info) (eptGrow maxPhysAddr info)
      (HighEmpty mm md a₀) fun _ _ t => LowTable t where
  next := fun _ _ _ _ _ _ _ _ _ => lowTable_read _
  leaf := fun _ _ _ _ _ _ high ht hi _ _ =>
    ⟨high.update hgood₀ hbits hram ht hi _, fun _ _ ht => ht⟩
  grow := by
    intro h d t i h' ok high ht hi _ hcall
    refine ⟨⟨?_, fun _ _ ht => ht⟩, fun _ => lowTable_read _⟩
    obtain ⟨hgood', ⟨-, rfl⟩ | ⟨q, -, hset, mem', hmem', hcases⟩⟩ := eptGrow_cases high.good hcall
    · exact high
    have high' : HighEmpty mm md a₀ ⟨h'.alloc, mem'⟩ := high.alloc hgood' hset hmem'
    rcases hcases with ⟨-, hmem⟩ | ⟨-, hmem⟩
    · exact ⟨hgood', high'.kept, hmem ▸ high'.empty⟩
    · have hwrite := high'.update hgood₀ hbits hram ht hi
        (setPaddr maxPhysAddr (mem' (t + 8 * i)) (q * 4096) ||| info.noPageFlags)
      exact ⟨hgood', hwrite.kept, hmem ▸ hwrite.empty⟩

/-- An address whose walk comes to a table at or above `2 ^ 40` is not translated. -/
theorem eptWalk_none_of_high (high : HighEmpty mm md a₀ h) {eptp gpa d q : ℕ} (hd : d ≤ 3)
    (ht : table eptFormat h.mem (rootOf eptp) d gpa = some (physToVirt (q * 4096)))
    (hq : OwnFrame a₀ h.alloc q) (hge : 2 ^ 40 ≤ q * 4096) : eptWalk h.mem eptp gpa = none := by
  have hzero := high.empty q _ hq hge (inFrame_entry q (index_lt d gpa))
  have hnone : lookup eptFormat h.mem (rootOf eptp) gpa = none := by
    refine lookup_none_of_table hd ht ?_
    rw [hzero]
    rfl
  rw [eptWalk, hnone, Option.map_none, ite_self]

end High

/-- No 2 MiB leaf is chosen for the range, but for targets that doubling does not change. -/
def MbLeavesExact (info : EptMappingInfo) : Prop :=
  ∀ gpa, info.guestPaddrStart ≤ gpa → gpa < info.guestPaddrStart + info.reqBytes →
    takesMbLeaf info (pageAlign info.guestPaddrStart) (info.guestPaddrStart + info.reqBytes) gpa →
    MbTargetExact info
      (mbPiece (pageAlign info.guestPaddrStart) (info.guestPaddrStart + info.reqBytes) gpa).1

/-- After `create_ept_mapping` the tables above `2 ^ 40` are empty. -/
theorem createEptMapping_high (hbits : bits ≤ 52) (hram : RamBelow mm bits)
    (hgood : GoodAlloc mm md h.alloc) {eptp : ℕ}
    (hcall : createEptMapping (2 ^ bits - 1) info h = some (h', eptp, r)) (hr : r ≠ .error)
    (hlast : info.guestPaddrStart + info.reqBytes < 2 ^ 64) : HighEmpty mm md h.alloc h' := by
  obtain ⟨h₁, q, hgood₁, -, -, hset, hmem, -, hmap⟩ :=
    createEptMapping_cases hbits hram hgood hcall hr hlast
  have high : HighEmpty mm md h.alloc h :=
    ⟨hgood, fun _ hq => hq, fun _ _ hq => absurd (hq.1.symm.trans hq.2) (by decide)⟩
  rw [doEptPml4Mapping_eq] at hmap
  exact (mapRange_inv (high_mapInv hgood hbits hram _ info) (high.alloc hgood₁ hset hmem)
    (lowTable_read eptp) hmap).1

/-- **Which mappings translate as requested.**  In every state of the allocator, `create_ept_mapping`
returns.  If no table allocation failed and all tables were taken below 1 TiB, every address of the
range is translated to itself plus the offset iff no 2 MiB leaf is chosen (but for two targets).  An
address whose walk comes to a table above 1 TiB is not translated. -/
theorem createEptMapping_translates_iff (hf : FlagsOk info) (hbits : bits ≤ 52)
    (hram : RamBelow mm bits) (hgood : GoodAlloc mm md h.alloc)
    (hrange : info.guestPaddrStart + info.reqBytes ≤ 2 ^ 48) (hoff : info.offset % 4096 = 0)
    (htarget : ∀ gpa, info.guestPaddrStart ≤ gpa → gpa < info.guestPaddrStart + info.reqBytes →
      u64 (gpa + info.offset) < 2 ^ bits) :
    ∃ h' eptp r, createEptMapping (2 ^ bits - 1) info h = some (h', eptp, r) ∧
      (r ≠ .error → TakenBelow h.alloc h'.alloc →
        ((∀ gpa, info.guestPaddrStart ≤ gpa → gpa < info.guestPaddrStart + info.reqBytes →
          eptWalk h'.mem eptp gpa = some (u64 (gpa + info.offset))) ↔ MbLeavesExact info)) ∧
      (r ≠ .error → ∀ gpa d q, d ≤ 3 →
        table eptFormat h'.mem (rootOf eptp) d gpa = some (physToVirt (q * 4096)) →
        OwnFrame h.alloc h'.alloc q → 2 ^ 40 ≤ q * 4096 → eptWalk h'.mem eptp gpa = none) := by
  obtain ⟨h', eptp, r, hcall⟩ := createEptMapping_defined (2 ^ bits - 1) hgood
    (show info.guestPaddrStart + info.reqBytes + 1 < 2 ^ 64 by omega)
  refine ⟨h', eptp, r, hcall, fun hr hlow => ?_, fun hr gpa d q hd ht hq hge =>
    eptWalk_none_of_high (createEptMapping_high hbits hram hgood hcall hr (by omega)) hd ht hq hge⟩
  obtain ⟨h₁, rep, hempty, -, hlow₁, hmap⟩ :=
    createEptMapping_spec hbits hram hgood hcall hr (by omega) hlow
  unfold MbLeavesExact
  rw [pageAlign_eq]
  refine forall_congr' fun gpa => imp_congr_right fun h1 => imp_congr_right fun h2 => ?_
  have hlook := lookup_of_empty hf hbits hram rep hempty (by omega) hrange hmap hlow₁ hr
    (show info.guestPaddrStart / 4096 * 4096 ≤ gpa by omega) h2.le (by omega)
  rw [eptWalk, if_pos (by omega), hlook]
  exact leafTarget_iff hf hbits hoff (fun x hx1 hx2 => htarget x hx1 (by omega)) h1 h2.le (by omega)

end Fresh

/-- A map with a single usable entry of sixteen frames. -/
def sixteenFrames : List LimineMemmapEntry := [⟨0, 65536, .usable⟩]

/-- The machine after initialisation on `sixteenFrames`, with empty memory. -/
def sixteenFramesInit : EptHeap := ⟨⟨[0x80#8, 0#8], 2, 0, 0, 15, 1⟩, fun _ => 0⟩

theorem sixteenFrames_ok : PfAlloc.MemmapOk sixteenFrames where
  aligned := by simp [sixteenFrames]
  whole := by simp [sixteenFrames]
  fits := by simp [sixteenFrames]
  disjoint := List.pairwise_singleton _ _

theorem sixteenFrames_good :
    GoodAlloc sixteenFrames
      (PfAlloc.metadataRange (initSystemMemoryInfo (getBootMemInfo sixteenFrames)) sixteenFrames)
      sixteenFramesInit.alloc :=
  ⟨[], PfAlloc.inv_run sixteenFrames_ok (show PfAlloc.earlyInitPageFrameAllocator _ _ 0 =
    some (some sixteenFramesInit.alloc) from rfl) (Run.nil _)⟩

theorem sixteenFrames_below : RamBelow sixteenFrames 40 := by
  rintro q ⟨e, he, -, -, h⟩
  obtain rfl := List.mem_singleton.mp he
  exact h.trans (by norm_num)

/-- One page of guest memory at 2 MiB. -/
def onePage : EptMappingInfo := ⟨0, 4096, 2 ^ 21, eptRwx, eptMapsPage ||| eptRwx, false, false⟩

/-- The page of `onePage` is mapped to 2 MiB. -/
theorem createEptMapping_translates_iff_one_page :
    ∃ h' eptp, createEptMapping (2 ^ 40 - 1) onePage sixteenFramesInit = some (h', eptp, .success) ∧
      ∀ gpa < 4096, eptWalk h'.mem eptp gpa = some (gpa + 2 ^ 21) := by
  have hflags : FlagsOk onePage := by constructor <;> decide
  have hmb : MbLeavesExact onePage := by
    intro gpa _ _ h
    simp [takesMbLeaf, shouldDoMbMapping, shouldDoMapping, onePage] at h
  have hsucc : (createEptMapping (2 ^ 40 - 1) onePage sixteenFramesInit).map (fun x => x.2.2) =
      some .success := rfl
  obtain ⟨h', eptp, r, hcall, hiff, -⟩ := createEptMapping_translates_iff hflags (by norm_num)
    sixteenFrames_below sixteenFrames_good (by decide) (by decide) fun gpa _ h => by
      simp only [onePage, u64] at *
      omega
  rw [hcall] at hsucc
  obtain rfl : r = .success := Option.some.inj hsucc
  refine ⟨h', eptp, hcall, fun gpa hgpa => ?_⟩
  have hwalk := (hiff (by decide) (.of_ram sixteenFrames_below sixteenFrames_good)).mpr hmb gpa (Nat.zero_le _)
    (by simpa [onePage] using hgpa)
  rw [hwalk, u64_of_lt (by simp only [onePage]; omega)]
  rfl

/-- One MiB of guest memory at 2 MiB, with large pages. -/
def oneMib : EptMappingInfo := ⟨0, 2 ^ 20, 2 ^ 21, eptRwx, eptMapsPage ||| eptRwx, false, true⟩

/-- The 2 MiB leaf of `oneMib` leads to 4 MiB. -/
theorem oneMib_at_wrong_address :
    (createEptMapping (2 ^ 40 - 1) oneMib sixteenFramesInit).map
        (fun x => (x.2.2, eptWalk x.1.mem x.2.1 0)) = some (.success, some (2 ^ 22)) ∧
      u64 (0 + oneMib.offset) = 2 ^ 21 :=
  ⟨rfl, rfl⟩

end HyveMind.Ept
