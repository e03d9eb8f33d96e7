import HyveMind.EptMapping

/-! # Tearing the extended page tables down

`destroy_ept_mapping` against the calls that built the tables: one `create_ept_mapping` and any
number of `add_ept_mapping`.

`OwnTables` is what every such sequence leaves behind, whatever it maps and wherever it stops: every
entry of a frame that it took from the allocator is empty, a leaf, or a link to such a frame.
The destroyer moves a pointer to 8-byte entries by the byte offset of the entry, so that it reads
eight pages where there is one, and takes the frame number of a link for a byte address shifted by
12.  `tornDown_iff` says when it gives back what was taken: only when nothing was. -/

namespace HyveMind.Ept

open Lib Lib.PageTable

variable {mm : List LimineMemmapEntry} {md : ℕ × ℕ} {bits : ℕ} {info : EptMappingInfo}
variable {a a' a₀ : PfAlloc} {h h' : EptHeap}

/-! ### The calls -/

/-- A sequence of `add_ept_mapping` calls, which goes on after a call that failed. -/
def addEptMappings (maxPhysAddr eptp : ℕ) (h : EptHeap) (infos : List EptMappingInfo) :
    Option EptHeap :=
  infos.foldlM (fun h info => (addEptMapping maxPhysAddr eptp info h).map Prod.fst) h

/-- The address of an entry in one of these frames. -/
def OwnEntry (a₀ a : PfAlloc) (b : ℕ) : Prop :=
  ∃ q i, OwnFrame a₀ a q ∧ i < 512 ∧ b = physToVirt (q * 4096) + 8 * i

/-- Where `destroy_ept_table` reads in round `i`. -/
def readAt (tablePtr i : ℕ) : ℕ := u64 (tablePtr + 8 * scaleBlockIndex i)

/-- The calls of `destroy_ept_table` that a call on `root` leads to. -/
inductive Visits (mem : ℕ → ℕ) (root : ℕ) : ℕ → Prop
  | root : Visits mem root root
  | child {t i : ℕ} : Visits mem root t → i < 512 → isEptEntryPresent (mem (readAt t i)) = true →
      eptEntryMapsPage (mem (readAt t i)) = false →
      Visits mem root (physToVirt (paddrField (mem (readAt t i)) >>> 12))

/-- The destroyer returns and gives back what was taken since `h`, and it reads nothing else. -/
structure TornDown (maxPhysAddr : ℕ) (h : EptHeap) (eptp : ℕ) (h₂ : EptHeap) : Prop where
  returns : ∃ fuel h₃ eptp', destroyEptMapping maxPhysAddr fuel eptp h₂ = some (h₃, eptp') ∧
    h₃.alloc.bitmap = h.alloc.bitmap ∧
    h₃.alloc.allocatableFrames = h.alloc.allocatableFrames ∧
    h₃.alloc.allocatedPageFrames = h.alloc.allocatedPageFrames ∧ paddrField eptp' = 0
  reads : eptpReadPaddr eptp ≠ 0 → ∀ t i,
    Visits h₂.mem (physToVirt (eptpReadPaddr eptp)) t → i < 512 →
    OwnEntry h.alloc h₂.alloc (readAt t i)

/-! ### One page from the allocator -/

/-- `get_page_raw` refuses when it counts no free frame or the bitmap has none. -/
theorem getPageRaw_refuses_iff (hgood : GoodAlloc mm md a) :
    a.getPageRaw = some (a, none) ↔ a.freeFrames = 0 ∨ ∀ q, bitSet a.bitmap q = true := by
  obtain ⟨live, inv⟩ := hgood
  obtain ⟨r, hr, hfound, hmissing⟩ := PfAlloc.search_spec inv.hintOk (show 0 < 1 by norm_num)
  obtain ⟨a', res, hcall, hnone, hsome⟩ := inv.getPagesImpl 1
  by_cases hpre : a.freeFrames = 0
  · have hlt : 1 = 0 ∨ a.freeFrames < 1 := Or.inr (by omega)
    simp only [hpre, true_or, iff_true]
    rw [PfAlloc.getPageRaw, PfAlloc.getPagesImpl, if_pos hlt]
  · have hge : ¬ (1 = 0 ∨ a.freeFrames < 1) := by omega
    simp only [hpre, false_or]
    constructor
    · intro hrefuse q
      rw [PfAlloc.getPageRaw, PfAlloc.getPagesImpl, if_neg hge, hr] at hrefuse
      cases r with
      | none =>
          by_contra hq
          rw [Bool.not_eq_true] at hq
          refine hmissing rfl q fun b h1 h2 => ?_
          rwa [show b = q by omega]
      | some start =>
          simp only [Option.bind_eq_bind, Option.pure_def] at hrefuse
          obtain ⟨_, _, h⟩ := Option.bind_eq_some_iff.mp hrefuse
          simp at h
    · intro hfull
      cases res with
      | none =>
          obtain rfl := hnone rfl
          exact hcall
      | some addr =>
          obtain ⟨q, -, -, hfree, -⟩ := hsome addr rfl
          have hq := hfree q (le_refl q) (by omega)
          rw [hfull q] at hq
          cases hq

/-- What every call of `get_page_raw` keeps, `add_ept_mapping` keeps. -/
theorem addEptMapping_alloc {P : PfAlloc → Prop}
    (hP : ∀ a a' res, P a → a.getPageRaw = some (a', res) → P a') {maxPhysAddr eptp : ℕ}
    {r : EptError} (hh : P h.alloc)
    (hcall : addEptMapping maxPhysAddr eptp info h = some (h', r)) : P h'.alloc := by
  rw [addEptMapping, doEptPml4Mapping_eq] at hcall
  have hinv : MapInv (eptFormat.reading eptRead) (eptScheme maxPhysAddr info) (eptGrow maxPhysAddr info)
      (fun h : EptHeap => P h.alloc) fun _ _ _ => True := by
    constructor
    · exact fun _ _ _ _ _ _ _ _ _ => trivial
    · exact fun _ _ _ _ _ _ hI _ _ _ _ => ⟨hI, fun _ _ _ => trivial⟩
    · intro h d t i h' ok hI _ _ _ hgrow
      refine ⟨⟨?_, fun _ _ _ => trivial⟩, fun _ => trivial⟩
      rw [eptGrow, initTableEntry, allocateEptPagingStructure] at hgrow
      obtain ⟨⟨h₁, ptr⟩, halloc, hrest⟩ := Option.bind_eq_some_iff.mp hgrow
      obtain ⟨⟨a₁, res⟩, hpage, hpair⟩ := Option.bind_eq_some_iff.mp halloc
      have h₁P : P h₁.alloc := by
        cases res <;> obtain ⟨rfl, -⟩ := Prod.mk.inj (Option.some.inj hpair) <;>
          exact hP _ _ _ hI hpage
      simp only at hrest
      split_ifs at hrest <;> obtain ⟨rfl, -⟩ := Prod.mk.inj (Option.some.inj hrest) <;> exact h₁P
  exact (mapRange_inv hinv hh trivial hcall).1

/-! ### What the calls leave behind -/

/-- A word of a table: empty, a leaf, or a link to a frame that was taken from the allocator. -/
def OwnWord (a₀ a : PfAlloc) (e : ℕ) : Prop :=
  e = 0 ∨ (isEptEntryPresent e = true ∧ eptEntryMapsPage e = true) ∨
    (isEptEntryPresent e = true ∧ eptEntryMapsPage e = false ∧ OwnFrame a₀ a (paddrField e))

/-- The tables that were built from the state `a₀` on. -/
structure OwnTables (mm : List LimineMemmapEntry) (md : ℕ × ℕ) (a₀ : PfAlloc) (h : EptHeap) :
    Prop where
  good : GoodAlloc mm md h.alloc
  kept : FramesKept a₀ h.alloc
  words : ∀ q i, OwnFrame a₀ h.alloc q → i < 512 →
    OwnWord a₀ h.alloc (h.mem (physToVirt (q * 4096) + 8 * i))

theorem OwnWord.mono (hkept : FramesKept a a') {e : ℕ} (hw : OwnWord a₀ a e) : OwnWord a₀ a' e := by
  rcases hw with hz | hleaf | ⟨hp, hm, hown⟩
  · exact Or.inl hz
  · exact Or.inr (Or.inl hleaf)
  · exact Or.inr (Or.inr ⟨hp, hm, hown.1, hkept _ hown.2⟩)

theorem OwnWord.eq_zero {e : ℕ} (hw : OwnWord a₀ a e) (hp : isEptEntryPresent e = false) :
    e = 0 := by
  rcases hw with hz | ⟨hp', -⟩ | ⟨hp', -⟩
  · exact hz
  · rw [hp] at hp'
    cases hp'
  · rw [hp] at hp'
    cases hp'

/-- Different words of two frames lie at different addresses. -/
theorem word_inj {q q' i i' : ℕ} (hq : q < 2 ^ 40) (hq' : q' < 2 ^ 40) (hi : i < 512)
    (hi' : i' < 512) (heq : physToVirt (q * 4096) + 8 * i = physToVirt (q' * 4096) + 8 * i') :
    q = q' ∧ i = i' := by
  simp only [physToVirt, physToVirtAt, u64, hypervisorDirectMappingOffset] at heq
  omega

theorem memsetZero_word (mem : ℕ → ℕ) {q q' i : ℕ} (hq : q < 2 ^ 40) (hq' : q' < 2 ^ 40)
    (hi : i < 512) :
    memsetZero mem (physToVirt (q * 4096)) pageSize (physToVirt (q' * 4096) + 8 * i) =
      if q' = q then 0 else mem (physToVirt (q' * 4096) + 8 * i) := by
  have hiff : (physToVirt (q * 4096) ≤ physToVirt (q' * 4096) + 8 * i ∧
      physToVirt (q' * 4096) + 8 * i < physToVirt (q * 4096) + pageSize) ↔ q' = q := by
    simp only [physToVirt, physToVirtAt, u64, hypervisorDirectMappingOffset, pageSize]
    omega
  simp only [memsetZero, hiff]

section Keep

variable (hbits : bits ≤ 52) (hram : RamBelow mm bits) (hgood : GoodAlloc mm md a₀)

include hbits hram hgood

theorem OwnTables.alloc {q : ℕ} (own : OwnTables mm md a₀ h) (hgood' : GoodAlloc mm md h'.alloc)
    (hclear : bitSet h.alloc.bitmap q = false)
    (hset : ∀ q', bitSet h'.alloc.bitmap q' = true ↔ bitSet h.alloc.bitmap q' = true ∨ q' = q)
    (hmem : h'.mem = memsetZero h.mem (physToVirt (q * 4096)) pageSize) :
    OwnTables mm md a₀ h' ∧ OwnFrame a₀ h'.alloc q := by
  have hkept : FramesKept h.alloc h'.alloc := fun q' hq' => (hset q').mpr (Or.inl hq')
  have hq : OwnFrame a₀ h'.alloc q := ⟨own.kept.clear hclear, (hset q).mpr (Or.inr rfl)⟩
  refine ⟨⟨hgood', own.kept.trans hkept, fun q' i hq' hi => ?_⟩, hq⟩
  rw [hmem, memsetZero_word _ (hq.lt hbits hram hgood) (hq'.lt hbits hram hgood) hi]
  split_ifs with hqq
  · exact Or.inl rfl
  · have hq'' : OwnFrame a₀ h.alloc q' := ⟨hq'.1, ((hset q').mp hq'.2).resolve_right hqq⟩
    exact (own.words q' i hq'' hi).mono hkept

/-- Writing a word that is allowed where the page is a table of these keeps the invariant. -/
theorem OwnTables.write {q i e : ℕ} (own : OwnTables mm md a₀ h) (hq : q < 2 ^ 40) (hi : i < 512)
    (hw : OwnFrame a₀ h.alloc q → OwnWord a₀ h.alloc e) :
    OwnTables mm md a₀ (h.write (physToVirt (q * 4096) + 8 * i) e) := by
  refine ⟨own.good, own.kept, fun q' j hq' hj => ?_⟩
  by_cases heq : physToVirt (q' * 4096) + 8 * j = physToVirt (q * 4096) + 8 * i
  · obtain ⟨rfl, rfl⟩ := word_inj (hq'.lt hbits hram hgood) hq hj hi heq
    simp only [Heap.write, Function.update_self]
    exact hw hq'
  · simp only [Heap.write, Function.update_of_ne heq]
    exact own.words q' j hq' hj

/-- A new table below an empty entry of any page below `2 ^ 40`. -/
theorem OwnTables.grow (hf : FlagsOk info) {q i : ℕ} {ok : Bool} (own : OwnTables mm md a₀ h)
    (hq : q < 2 ^ 28) (hi : i < 512)
    (hp : isEptEntryPresent (h.mem (physToVirt (q * 4096) + 8 * i)) = false)
    (hcall : eptGrow (2 ^ bits - 1) info h (physToVirt (q * 4096) + 8 * i) = some (h', ok)) :
    OwnTables mm md a₀ h' := by
  obtain ⟨hgood', ⟨-, rfl⟩ | ⟨p, hclear, hset, mem', hmem', hcases⟩⟩ := eptGrow_cases own.good hcall
  · exact own
  have hq40 : q < 2 ^ 40 := by omega
  obtain ⟨own', hown⟩ : OwnTables mm md a₀ ⟨h'.alloc, mem'⟩ ∧ OwnFrame a₀ h'.alloc p :=
    own.alloc hbits hram hgood hgood' hclear hset hmem'
  rcases hcases with ⟨-, hmem⟩ | ⟨-, hmem⟩
  · exact ⟨hgood', own'.kept, hmem ▸ own'.words⟩
  have hzero : OwnFrame a₀ h'.alloc q → mem' (physToVirt (q * 4096) + 8 * i) = 0 := by
    intro hqown
    refine (own'.words q i hqown hi).eq_zero ?_
    simp only [hmem', memsetZero_word _ (hown.lt hbits hram hgood) hq40 hi]
    split_ifs
    · rfl
    · exact hp
  obtain ⟨hlink, hp40⟩ := linkEntry_eq hf hbits (hram p (usable_of_clear own.good hclear))
  obtain ⟨hpres, hmaps, hfield⟩ := linkEntry_format hf hp40
  have hwrite := own'.write (e := setPaddr (2 ^ bits - 1) (mem' (physToVirt (q * 4096) + 8 * i))
    (p * 4096) ||| info.noPageFlags) hbits hram hgood hq40 hi fun hqown => by
      rw [hzero hqown, hlink]
      exact Or.inr (Or.inr ⟨hpres, hmaps, hfield.symm ▸ hown⟩)
  exact ⟨hgood', hwrite.kept, hmem ▸ hwrite.words⟩

/-- The steps of the mapper keep the invariant, whatever pages it takes for tables. -/
theorem ownTables_mapInv (hf : FlagsOk info) :
    MapInv (eptFormat.reading eptRead) (eptScheme (2 ^ bits - 1) info) (eptGrow (2 ^ bits - 1) info)
      (OwnTables mm md a₀) fun _ _ t => LowTable t where
  next := fun _ _ _ _ _ _ _ _ _ => lowTable_read _
  leaf := by
    rintro h d t i cs ce own ⟨q, hq, rfl⟩ hi hp -
    refine ⟨own.write hbits hram hgood (by omega) hi fun hqown => ?_, fun _ _ ht => ht⟩
    rw [(own.words q i hqown hi).eq_zero hp]
    obtain ⟨p, hleaf⟩ := leafEntry_eq (2 ^ bits - 1) hf d cs
    refine hleaf ▸ Or.inr (Or.inl ⟨isEptEntryPresent_of_flags p hf.leaf_present, ?_⟩)
    rw [eptEntryMapsPage_of_flags, hf.leaf_maps]
    rfl
  grow := by
    rintro h d t i h' ok own ⟨q, hq, rfl⟩ hi hp hcall
    exact ⟨⟨own.grow hbits hram hgood hf hq hi hp hcall, fun _ _ ht => ht⟩, fun _ => lowTable_read _⟩

theorem OwnTables.add (hf : FlagsOk info) {eptp : ℕ} {res : EptError} (own : OwnTables mm md a₀ h)
    (hcall : addEptMapping (2 ^ bits - 1) eptp info h = some (h', res)) :
    OwnTables mm md a₀ h' := by
  rw [addEptMapping, doEptPml4Mapping_eq] at hcall
  exact (mapRange_inv (ownTables_mapInv hbits hram hgood hf) own (lowTable_read eptp) hcall).1

end Keep

/-- What every `add_ept_mapping` of the sequence keeps, the sequence keeps. -/
theorem addEptMappings_inv {J : EptHeap → Prop} {maxPhysAddr eptp : ℕ} {infos : List EptMappingInfo}
    (hstep : ∀ info ∈ infos, ∀ h h' r, J h →
      addEptMapping maxPhysAddr eptp info h = some (h', r) → J h')
    (hJ : J h) (hcall : addEptMappings maxPhysAddr eptp h infos = some h') : J h' := by
  refine foldlM_inv (fun h info h' hmem hJ hadd => ?_) hJ hcall
  obtain ⟨⟨h₁, r⟩, hadd₁, rfl⟩ := Option.map_eq_some_iff.mp hadd
  exact hstep info hmem h h₁ r hJ hadd₁

/-! ### What the destroyer frees -/

theorem freePage_bits {addr : ℕ} (hcall : a.freePage addr = some a') (q : ℕ) :
    bitSet a'.bitmap q =
      if q = physToPfn (virtToPhys addr) then false else bitSet a.bitmap q := by
  have haddr : u64 (virtToPhys addr + 0 * pageSize) = virtToPhys addr := by
    rw [Nat.zero_mul, Nat.add_zero]
    exact u64_of_lt (u64_lt _)
  obtain ⟨a₁, hentry, hfreed⟩ := Option.bind_eq_some_iff.mp hcall
  simp only [PfAlloc.clearBitmapRegion, PfAlloc.bitmapRegion, Option.bind_eq_bind,
    Option.bind_some, haddr] at hentry
  obtain ⟨bm, hwrite, -, hbm⟩ := PfAlloc.updateBitmapEntry_spec writesBit_and_not a (virtToPhys addr) (by
    by_contra hge
    have hnone : a.bitmap[physToPfn (virtToPhys addr) >>> 3]? = none := by
      rw [List.getElem?_eq_none_iff, Nat.shiftRight_eq_div_pow]
      omega
    rw [PfAlloc.clearBitmapEntry, PfAlloc.updateBitmapEntry] at hentry
    simp only [hnone] at hentry
    cases hentry)
  obtain rfl := Option.some.inj (hentry.symm.trans hwrite)
  obtain rfl := Option.some.inj hfreed
  exact hbm q

/-- The destroyer leaves the memory alone, and a frame that it clears is the page of a table that it
visits. -/
theorem destroyEptTable_frees {root fuel t : ℕ} (hcall : destroyEptTable fuel t h = some h')
    (hv : Visits h.mem root t) :
    h'.mem = h.mem ∧ ∀ q, bitSet h'.alloc.bitmap q = false → bitSet h.alloc.bitmap q = false ∨
      ∃ t', Visits h.mem root t' ∧ q = physToPfn (virtToPhys t') := by
  induction fuel generalizing t h h' with
  | zero => cases hcall
  | succ fuel ih =>
      rw [destroyEptTable] at hcall
      obtain ⟨h₁, hloop, hfree⟩ := Option.bind_eq_some_iff.mp hcall
      obtain ⟨a₂, hpage, hend⟩ := Option.bind_eq_some_iff.mp hfree
      cases hend
      have hinv : h₁.mem = h.mem ∧ ∀ q, bitSet h₁.alloc.bitmap q = false →
          bitSet h.alloc.bitmap q = false ∨
            ∃ t', Visits h.mem root t' ∧ q = physToPfn (virtToPhys t') := by
        refine foldlM_inv (I := fun h₁ : EptHeap => h₁.mem = h.mem ∧ ∀ q,
          bitSet h₁.alloc.bitmap q = false → bitSet h.alloc.bitmap q = false ∨
            ∃ t', Visits h.mem root t' ∧ q = physToPfn (virtToPhys t')) ?_ ⟨rfl, fun _ => Or.inl⟩ hloop
        rintro h₀ i h₂ hi ⟨hmem, hold⟩ hentry
        simp only [hmem] at hentry
        split_ifs at hentry with hc
        · rw [Bool.and_eq_true, Bool.not_eq_true'] at hc
          have hchild := ih hentry
            (by rw [hmem]; exact Visits.child hv (List.mem_range.mp hi) hc.1 hc.2)
          rw [hmem] at hchild
          exact ⟨hchild.1, fun q hq => (hchild.2 q hq).elim (hold q) Or.inr⟩
        · cases hentry
          exact ⟨hmem, hold⟩
      refine ⟨hinv.1, fun q hq => ?_⟩
      simp only [freePage_bits hpage] at hq
      split_ifs at hq with hqt
      · exact Or.inr ⟨t, hv, hqt⟩
      · exact hinv.2 q hq

/-! ### When the destroyer gives back what was taken -/

/-- A root from `2 ^ 40` on is looked for at another address and never freed: no link leads the
destroyer to a frame that high. -/
theorem not_tornDown_of_high {maxPhysAddr r eptp : ℕ} (hroot : paddrField eptp = r)
    (hown : OwnFrame h.alloc h'.alloc r) (hhigh : 2 ^ 28 ≤ r) : ¬ TornDown maxPhysAddr h eptp h' := by
  rintro ⟨⟨fuel, h₃, eptp', hdestroy, hbitmap, -⟩, -⟩
  have hptr : eptpReadPaddr eptp = r % 2 ^ 28 * 4096 := by rw [eptpReadPaddr, readPaddr_eq, hroot]
  have hclear : bitSet h₃.alloc.bitmap r = false := by rw [hbitmap, hown.1]
  rw [destroyEptMapping, hptr] at hdestroy
  split_ifs at hdestroy
  · obtain ⟨rfl, -⟩ := Prod.mk.inj (Option.some.inj hdestroy)
    rw [hown.2] at hclear
    cases hclear
  · obtain ⟨h₄, htable, hend⟩ := Option.bind_eq_some_iff.mp hdestroy
    obtain ⟨rfl, -⟩ := Prod.mk.inj (Option.some.inj hend)
    rcases (destroyEptTable_frees htable Visits.root).2 r hclear with hclear' | ⟨t, hv, hrt⟩
    · rw [hown.2] at hclear'
      cases hclear'
    · have hmod : r % 2 ^ 28 < 2 ^ 28 := Nat.mod_lt _ (by norm_num)
      cases hv with
      | root =>
          rw [virtToPhys_physToVirt (by omega), physToPfn_eq] at hrt
          omega
      | @child t i =>
          have hfield := paddrField_lt (h'.mem (readAt t i))
          rw [Nat.shiftRight_eq_div_pow, virtToPhys_physToVirt (by omega), physToPfn_eq] at hrt
          omega

/-- Four levels with at least one table: the destroyer does not give them back. -/
theorem OwnTables.not_tornDown (hbits : bits ≤ 52) (hram : RamBelow mm bits)
    (hgood : GoodAlloc mm md h.alloc) {r eptp : ℕ} (hr : r ≠ 0) (hroot : paddrField eptp = r)
    (hown : OwnFrame h.alloc h'.alloc r) (own : OwnTables mm md h.alloc h') :
    ¬ TornDown (2 ^ bits - 1) h eptp h' := by
  rcases Nat.lt_or_ge r (2 ^ 28) with hlow | hhigh
  swap
  · exact not_tornDown_of_high hroot hown hhigh
  rintro ⟨⟨fuel, h₃, eptp', hdestroy, hbitmap, -⟩, hreads⟩
  have hptr : eptpReadPaddr eptp = r * 4096 := by
    rw [eptpReadPaddr, readPaddr_of_lt (hroot.trans_lt hlow), hroot]
  have hne : eptpReadPaddr eptp ≠ 0 := by omega
  have hlt : ∀ q, OwnFrame h.alloc h'.alloc q → q < 2 ^ 40 := fun q hq => hq.lt hbits hram hgood
  replace hreads := hreads hne
  rw [hptr] at hreads
  have hnext : OwnFrame h.alloc h'.alloc (r + 1) := by
    obtain ⟨q, i, hq, hi, haddr⟩ := hreads _ 64 Visits.root (by norm_num)
    have hq40 := hlt q hq
    have hqr : q = r + 1 := by
      simp only [readAt, scaleBlockIndex_eq, physToVirt, physToVirtAt, u64,
        hypervisorDirectMappingOffset] at haddr
      omega
    exact hqr ▸ hq
  obtain ⟨m, hm, hmax⟩ : ∃ m, OwnFrame h.alloc h'.alloc m ∧
      ∀ q, OwnFrame h.alloc h'.alloc q → q ≤ m := by
    classical
    refine ⟨Nat.findGreatest (OwnFrame h.alloc h'.alloc) (2 ^ 40), ?_, ?_⟩
    · exact Nat.findGreatest_spec (hlt _ hnext).le hnext
    · exact fun q hq => Nat.le_findGreatest (hlt q hq).le hq
  have hrm := hmax _ hnext
  have hm40 := hlt m hm
  rw [destroyEptMapping, if_neg hne, hptr] at hdestroy
  obtain ⟨h₄, htable, hend⟩ := Option.bind_eq_some_iff.mp hdestroy
  obtain ⟨rfl, -⟩ := Prod.mk.inj (Option.some.inj hend)
  obtain ⟨-, hfreed⟩ := destroyEptTable_frees htable Visits.root
  rcases hfreed m (by rw [hbitmap]; exact hm.1) with hclear | ⟨t, hv, hmt⟩
  · rw [hm.2] at hclear
    cases hclear
  · cases hv with
    | root =>
        rw [virtToPhys_physToVirt (by omega), physToPfn_eq] at hmt
        omega
    | @child t i hv hi hp hmaps =>
        obtain ⟨q, j, hq, hj, haddr⟩ := hreads t i hv hi
        rw [haddr] at hp hmaps hmt
        rcases own.words q j hq hj with hz | ⟨-, hm'⟩ | ⟨-, -, hlink⟩
        · rw [hz] at hp
          cases hp
        · rw [hmaps] at hm'
          cases hm'
        · have hle := hmax _ hlink
          rw [Nat.shiftRight_eq_div_pow, virtToPhys_physToVirt (by omega), physToPfn_eq] at hmt
          omega

/-- When the allocator refuses the root, nothing is taken and there is nothing to give back. -/
theorem tornDown_of_refused {maxPhysAddr : ℕ} {h₁ h₂ : EptHeap} {eptp : ℕ} {res : EptError}
    {infos : List EptMappingInfo} (hrefuse : h.alloc.getPageRaw = some (h.alloc, none))
    (hcreate : createEptMapping maxPhysAddr info h = some (h₁, eptp, res))
    (hadds : addEptMappings maxPhysAddr eptp h₁ infos = some h₂) :
    TornDown maxPhysAddr h eptp h₂ := by
  have halloc : allocateEptPagingStructure h = some (h, 0) := by
    rw [allocateEptPagingStructure, hrefuse]
    rfl
  rw [createEptMapping, halloc] at hcreate
  obtain ⟨rfl, rfl, -⟩ : h = h₁ ∧ eptpInit = eptp ∧ EptError.error = res := by
    simpa using hcreate
  have hsame : h₂.alloc = h.alloc := by
    refine addEptMappings_inv (J := fun h' => h'.alloc = h.alloc) ?_ rfl hadds
    intro info _ h' h'' r hh' hadd
    refine addEptMapping_alloc (P := fun a => a = h.alloc) ?_ hh' hadd
    rintro a a' res rfl hpage
    rw [hrefuse] at hpage
    cases hpage
    rfl
  have hzero : eptpReadPaddr eptpInit = 0 := by decide
  exact ⟨⟨0, h₂, eptpInit, by rw [destroyEptMapping, if_pos hzero], by rw [hsame], by rw [hsame],
    by rw [hsame], by decide⟩, fun hne => absurd hzero hne⟩

/-- A root in frame `0` is taken for a failure: the frame stays allocated and no one knows it. -/
theorem not_tornDown_of_frame_zero {maxPhysAddr : ℕ} {h₁ h₂ : EptHeap} {infos : List EptMappingInfo}
    (hgood : GoodAlloc mm md h₁.alloc) (hclear : bitSet h.alloc.bitmap 0 = false)
    (hset : bitSet h₁.alloc.bitmap 0 = true)
    (hadds : addEptMappings maxPhysAddr eptpInit h₁ infos = some h₂) :
    ¬ TornDown maxPhysAddr h eptpInit h₂ := by
  have hset₂ : GoodAlloc mm md h₂.alloc ∧ bitSet h₂.alloc.bitmap 0 = true := by
    refine addEptMappings_inv
      (J := fun h' => GoodAlloc mm md h'.alloc ∧ bitSet h'.alloc.bitmap 0 = true) ?_ ⟨hgood, hset⟩ hadds
    intro info _ h' h'' r hh' hadd
    obtain ⟨hgood', hkept⟩ := addEptMapping_kept hh'.1 hadd
    exact ⟨hgood', hkept 0 hh'.2⟩
  rintro ⟨⟨fuel, h₃, eptp', hdestroy, hbitmap, -⟩, -⟩
  have hzero : eptpReadPaddr eptpInit = 0 := by decide
  rw [destroyEptMapping, if_pos hzero] at hdestroy
  obtain ⟨rfl, -⟩ := Prod.mk.inj (Option.some.inj hdestroy)
  rw [hbitmap, hclear] at hset₂
  cases hset₂.2

/-- Before the first frame is taken there is no word to speak of. -/
theorem ownTables_refl (hgood : GoodAlloc mm md h.alloc) : OwnTables mm md h.alloc h :=
  ⟨hgood, fun _ hq => hq, fun _ _ hq => absurd (hq.1.symm.trans hq.2) (by decide)⟩

/-- A sequence of calls whose root was served is not undone. -/
theorem not_tornDown_of_served (hbits : bits ≤ 52) (hram : RamBelow mm bits)
    (hgood : GoodAlloc mm md h.alloc) {infos : List EptMappingInfo} {h₁ h₂ : EptHeap} {eptp : ℕ}
    {res : EptError} (hf : FlagsOk info) (hfs : ∀ i ∈ infos, FlagsOk i)
    (hcreate : createEptMapping (2 ^ bits - 1) info h = some (h₁, eptp, res))
    (hadds : addEptMappings (2 ^ bits - 1) eptp h₁ infos = some h₂)
    (hserved : h.alloc.getPageRaw ≠ some (h.alloc, none)) : ¬ TornDown (2 ^ bits - 1) h eptp h₂ := by
  obtain ⟨⟨h₀, ptr⟩, halloc, hrest⟩ := Option.bind_eq_some_iff.mp hcreate
  obtain ⟨hgood₀, ⟨-, hrefuse, -⟩ | ⟨q, rfl, hclear, hset, hmem⟩⟩ :=
    allocateEptPagingStructure_frames hgood halloc
  · exact absurd hrefuse hserved
  by_cases h0 : q = 0
  · subst h0
    simp only [Nat.zero_mul, if_true, Option.pure_def, Option.some.injEq, Prod.mk.injEq] at hrest
    obtain ⟨rfl, rfl, -⟩ := hrest
    exact not_tornDown_of_frame_zero hgood₀ hclear ((hset 0).mpr (Or.inr rfl)) hadds
  · have hne : ¬ q * 4096 = 0 := by omega
    simp only [hne, if_false] at hrest
    obtain ⟨⟨h₁', res'⟩, hadd, hend⟩ := Option.bind_eq_some_iff.mp hrest
    simp only [Option.pure_def, Option.some.injEq, Prod.mk.injEq] at hend
    obtain ⟨rfl, rfl, rfl⟩ := hend
    have hlim := hram q (usable_of_clear hgood hclear)
    obtain ⟨heptp, hfield⟩ := eptpSetPaddr_init hbits hlim
    have hroot : paddrField (eptpSetPaddr (2 ^ bits - 1) eptpInit (q * 4096)) = q := by
      rw [heptp, hfield]
    obtain ⟨own, hq⟩ := (ownTables_refl hgood).alloc hbits hram hgood hgood₀ hclear hset hmem
    have own₁ := own.add hbits hram hgood hf hadd
    have hown₁ : OwnTables mm md h.alloc h₁' ∧ OwnFrame h.alloc h₁'.alloc q :=
      ⟨own₁, hq.1, (addEptMapping_kept hgood₀ hadd).2 q hq.2⟩
    obtain ⟨own₂, hq₂⟩ := addEptMappings_inv
      (J := fun h' => OwnTables mm md h.alloc h' ∧ OwnFrame h.alloc h'.alloc q)
      (fun i hi _ _ _ hJ hcall => ⟨hJ.1.add hbits hram hgood (hfs i hi) hcall, hJ.2.1,
        (addEptMapping_kept hJ.1.good hcall).2 q hJ.2.2⟩) hown₁ hadds
    exact own₂.not_tornDown hbits hram hgood h0 hroot hq₂

/-- **When teardown is the inverse of construction.**  In every state of the allocator, after one
`create_ept_mapping` and any number of `add_ept_mapping` calls, `destroy_ept_mapping` gives back what
was taken iff nothing was: the allocator counts no free frame, or there is none. -/
theorem tornDown_iff (hbits : bits ≤ 52) (hram : RamBelow mm bits)
    (hgood : GoodAlloc mm md h.alloc) {infos : List EptMappingInfo} {h₁ h₂ : EptHeap} {eptp : ℕ}
    {res : EptError} (hf : ∀ i ∈ info :: infos, FlagsOk i)
    (hcreate : createEptMapping (2 ^ bits - 1) info h = some (h₁, eptp, res))
    (hadds : addEptMappings (2 ^ bits - 1) eptp h₁ infos = some h₂) :
    TornDown (2 ^ bits - 1) h eptp h₂ ↔
      h.alloc.freeFrames = 0 ∨ ∀ q, bitSet h.alloc.bitmap q = true := by
  rw [← getPageRaw_refuses_iff hgood]
  constructor
  · intro htorn
    by_contra hserved
    exact not_tornDown_of_served hbits hram hgood (hf info (List.mem_cons_self ..))
      (fun i hi => hf i (List.mem_cons_of_mem _ hi)) hcreate hadds hserved htorn
  · exact fun hrefuse => tornDown_of_refused hrefuse hcreate hadds

/-- Two calls that map `onePage`, of which the second is refused. -/
theorem onePage_twice : ∃ h₁ eptp h₂,
    createEptMapping (2 ^ 40 - 1) onePage sixteenFramesInit = some (h₁, eptp, .success) ∧
      addEptMappings (2 ^ 40 - 1) eptp h₁ [onePage] = some h₂ := by
  have hrun : ((createEptMapping (2 ^ 40 - 1) onePage sixteenFramesInit).bind fun x =>
      (addEptMappings (2 ^ 40 - 1) x.2.1 x.1 [onePage]).map fun _ => x.2.2) = some .success := rfl
  obtain ⟨⟨h₁, eptp, r⟩, hcreate, hrest⟩ := Option.bind_eq_some_iff.mp hrun
  obtain ⟨h₂, hadds, rfl⟩ := Option.map_eq_some_iff.mp hrest
  exact ⟨h₁, eptp, h₂, hcreate, hadds⟩

theorem onePage_flags : FlagsOk onePage := by constructor <;> decide

/-- With fourteen free frames for `onePage` the condition fails on both sides. -/
theorem tornDown_iff_one_page : ∃ h₁ eptp h₂,
    createEptMapping (2 ^ 40 - 1) onePage sixteenFramesInit = some (h₁, eptp, .success) ∧
      addEptMappings (2 ^ 40 - 1) eptp h₁ [onePage] = some h₂ ∧
      (TornDown (2 ^ 40 - 1) sixteenFramesInit eptp h₂ ↔
        sixteenFramesInit.alloc.freeFrames = 0 ∨
          ∀ q, bitSet sixteenFramesInit.alloc.bitmap q = true) := by
  obtain ⟨h₁, eptp, h₂, hcreate, hadds⟩ := onePage_twice
  exact ⟨h₁, eptp, h₂, hcreate, hadds, tornDown_iff (by norm_num) sixteenFrames_below
    sixteenFrames_good (by simp [onePage_flags]) hcreate hadds⟩

/-- The tables for `onePage` are not given back. -/
theorem onePage_is_not_torn_down : ∃ h₁ eptp h₂,
    createEptMapping (2 ^ 40 - 1) onePage sixteenFramesInit = some (h₁, eptp, .success) ∧
      addEptMappings (2 ^ 40 - 1) eptp h₁ [onePage] = some h₂ ∧
      ¬ TornDown (2 ^ 40 - 1) sixteenFramesInit eptp h₂ := by
  obtain ⟨h₁, eptp, h₂, hcreate, hadds⟩ := onePage_twice
  refine ⟨h₁, eptp, h₂, hcreate, hadds, not_tornDown_of_served (by norm_num) sixteenFrames_below
    sixteenFrames_good onePage_flags (by simp [onePage_flags]) hcreate hadds ?_⟩
  intro hrefuse
  have hserved : (sixteenFramesInit.alloc.getPageRaw).map Prod.snd = some (some 4096) := rfl
  rw [hrefuse] at hserved
  cases hserved

end HyveMind.Ept
