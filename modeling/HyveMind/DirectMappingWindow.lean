import HyveMind.DirectMappingExact

/-! # The window of the direct mapping

`setup_direct_mapping_from_memmap` refuses a memory map whose usable memory does not fit into the
window `[HYPERVISOR_DIRECT_MAPPING_START, HYPERVISOR_DIRECT_MAPPING_END]`.  It compares sizes, but the
mapping is by addresses: memory behind a hole can lie outside of the window however small it is.

`direct_mapping_window` says which memory maps stay inside, as long as the tables lie below `2 ^ 40`.
Addresses are compared as the processor sees them: of the sum of a physical address and the offset only
the lower 48 bits are translated. -/

namespace HyveMind.DirectMapping

open Lib Lib.PageTable

variable {σ : Type*} {getPageRaw : σ → Option (σ × Option ℕ)} {info : MappingInfo}

/-- `HYPERVISOR_DIRECT_MAPPING_START`. -/
abbrev hypervisorDirectMappingStart : ℕ := 0xFFFF800000000000

/-- `HYPERVISOR_DIRECT_MAPPING_END`. -/
abbrev hypervisorDirectMappingEnd : ℕ := 0xFFFFF80000000000 - 1

/-- `phys_memory_fits`. -/
def physMemoryFits (sysMemInfo : SysMemInfo) : Bool :=
  let roundedRange := alignForward sysMemInfo.totalUsableMemory pageSize
  let directMappingVaddrRange :=
    u64 (u64Sub hypervisorDirectMappingEnd hypervisorDirectMappingStart + 1)
  roundedRange ≤ directMappingVaddrRange

/-- `setup_direct_mapping_from_memmap`; `sysMemInfo` is the result of `get_system_memory_info`. -/
def setupDirectMappingFromMemmap (getPageRaw : σ → Option (σ × Option ℕ)) (info : MappingInfo)
    (sysMemInfo : SysMemInfo) (memMap : List MemmapEntry) (s : Heap σ × ℕ) :
    Option ((Heap σ × ℕ) × Bool) :=
  if !physMemoryFits sysMemInfo then some (s, false)
  else rawSetupDirectMappingFromMemmap getPageRaw info memMap s

/-! ### Translated addresses -/

variable {Good : σ → Prop} {InUse : σ → ℕ → Prop}

/-- The address is translated. -/
def Translated (s : Heap σ × ℕ) (v : ℕ) : Prop := (pageWalk s.1.mem s.2 v).isSome

/-- A page of the range `start, …, stop` is put where `v` is looked up.  A range whose virtual addresses
wrap around is skipped. -/
def Reached (info : MappingInfo) (start stop v : ℕ) : Prop :=
  let first := physToVirtAt (pageAlign start) info.targetOffset
  let last := physToVirtAt stop info.targetOffset
  first ≤ last ∧ ∃ x, first / 4096 ≤ x / 4096 ∧ x / 4096 ≤ last / 4096 ∧ path 4 x = path 4 v

/-- The address space has well-formed tables, or will get a root with the next call. -/
def Ready (Good : σ → Prop) (InUse : σ → ℕ → Prop) (s : Heap σ × ℕ) : Prop :=
  AddrSpace Good InUse s ∨ readPaddrFromCr3 s.2 = 0 ∧ Good s.1.alloc

theorem Ready.good {s : Heap σ × ℕ} (hs : Ready Good InUse s) : Good s.1.alloc :=
  hs.elim (fun space => space.rep.good) And.right

section OneCall

variable {h h' : Heap σ} {cr3 first last v : ℕ} {ok : Bool} {s s' : Heap σ × ℕ} {start stop : ℕ}

theorem translated_iff : Translated (h, cr3) v ↔
    isPagingCanonical v = true ∧ (lookup pgFormat h.mem (rootTable cr3) v).isSome := by
  unfold Translated pageWalk
  cases hv : isPagingCanonical v <;> simp

theorem translated_of_filled (hle : first ≤ last)
    (hf : DmFilled info Good InUse (rootTable cr3) first last h h' ok)
    (hv : Translated (h', cr3) v) :
    Translated (h, cr3) v ∨
      ∃ x, first / 4096 ≤ x / 4096 ∧ x / 4096 ≤ last / 4096 ∧ path 4 x = path 4 v := by
  rw [translated_iff] at hv ⊢
  obtain ⟨hcanon, hsome⟩ := hv
  rcases hf.kept.new v with hsame | ⟨-, x, hpath, hleaf, -⟩
  · refine Or.inl ⟨hcanon, ?_⟩
    rw [lookup, ← hsame]
    exact hsome
  · rw [newLeaf_small hle] at hleaf
    split_ifs at hleaf with hx
    · exact Or.inr ⟨x, hx.1, hx.2, hpath⟩
    · cases hleaf

theorem filled_translated (hle : first ≤ last)
    (hf : DmFilled info Good InUse (rootTable cr3) first last h h' true)
    (hcanon : isPagingCanonical v = true)
    (hx : ∃ x, first / 4096 ≤ x / 4096 ∧ x / 4096 ≤ last / 4096 ∧ path 4 x = path 4 v) :
    Translated (h', cr3) v := by
  obtain ⟨x, h1, h2, hpath⟩ := hx
  have hleaf : (newLeaf (smallScheme (dmLeaf info)) 4 0 first last x).isSome := by
    rw [newLeaf_small hle, if_pos ⟨h1, h2⟩]
    rfl
  refine translated_iff.mpr ⟨hcanon, ?_⟩
  rw [lookup, ← lookupFrom_congr (by norm_num) hpath]
  exact hf.done rfl x hleaf

theorem directlyMapPhysRange_translated (fresh : FreshFrames getPageRaw Good InUse)
    (hflags : LinkFlagsOk info) (hs : Ready Good InUse s)
    (hcall : directlyMapPhysRange getPageRaw info s start stop = some (s', ok))
    (hlow : FramesBelow InUse s.1.alloc s'.1.alloc) :
    Ready Good InUse s' ∧ ∀ v, Translated s' v → Translated s v ∨ Reached info start stop v := by
  rcases hs with space | ⟨hcr3, hgood⟩
  · obtain ⟨hcr3, space', hf⟩ := directlyMapPhysRange_spec fresh hflags space hcall hlow
    refine ⟨Or.inl space', fun v hv => ?_⟩
    split_ifs at hf with hle
    · have hv' : Translated (s'.1, s.2) v := by rwa [← hcr3]
      exact (translated_of_filled hle hf.1 hv').imp_right fun hx => ⟨hle, hx⟩
    · exact Or.inl (hf ▸ hv)
  · obtain ⟨h, cr3⟩ := s
    simp only at hcr3
    simp only [directlyMapPhysRange, hcr3, if_true, Option.bind_eq_bind] at hcall
    obtain ⟨⟨⟨h₁, cr3₁⟩, ok₁⟩, hinit, hrest⟩ := Option.bind_eq_some_iff.mp hcall
    have later₁ : Later Good InUse h.alloc h₁.alloc := initCr3_later fresh hgood hinit
    cases ok₁ with
    | false =>
        cases hrest
        have htables := initCr3_tables fresh hgood hinit hlow
        cases htables
        exact ⟨Or.inr ⟨hcr3, hgood⟩, fun v hv => Or.inl hv⟩
    | true =>
        obtain ⟨⟨h₂, ok₂⟩, hfill, hret⟩ := Option.bind_eq_some_iff.mp hrest
        obtain ⟨rfl, rfl⟩ := Prod.mk.inj (Option.some.inj hret)
        have htables := initCr3_tables fresh hgood hinit
          (hlow.first (pml4MapRange_later fresh later₁.good hfill))
        rw [if_pos rfl] at htables
        obtain ⟨-, rep, small, hempty⟩ := htables
        obtain ⟨rep', small', hf⟩ :=
          pml4MapRange_spec fresh hflags rep small hfill (hlow.rest later₁)
        have hnone : ∀ v, ¬ Translated (h₁, cr3₁) v := by
          intro v hv
          rw [Translated, hempty v] at hv
          cases hv
        refine ⟨?_, fun v hv => Or.inr ?_⟩
        · by_cases hroot : readPaddrFromCr3 cr3₁ = 0
          · exact Or.inr ⟨hroot, rep'.good⟩
          · exact Or.inl ⟨hroot, rep', small'⟩
        · split_ifs at hf with hle
          · exact ⟨hle, (translated_of_filled hle hf.1 hv).resolve_left (hnone v)⟩
          · obtain rfl : h₂ = h₁ := hf
            exact absurd hv (hnone v)

theorem directlyMapPhysRange_reaches (fresh : FreshFrames getPageRaw Good InUse)
    (hflags : LinkFlagsOk info) (space : AddrSpace Good InUse s)
    (hcall : directlyMapPhysRange getPageRaw info s start stop = some (s', true))
    (hlow : FramesBelow InUse s.1.alloc s'.1.alloc)
    (hcanon : isPagingCanonical v = true) (hv : Reached info start stop v) : Translated s' v := by
  obtain ⟨hcr3, -, hf⟩ := directlyMapPhysRange_spec fresh hflags space hcall hlow
  obtain ⟨hle, hx⟩ := hv
  rw [if_pos hle] at hf
  have hv' := filled_translated hle hf.1 hcanon hx
  rwa [← hcr3] at hv'

end OneCall

/-! ### The setup -/

section Setup

variable {memMap : List MemmapEntry} {s s' : Heap σ × ℕ} {ok : Bool}

theorem setup_translated (fresh : FreshFrames getPageRaw Good InUse) (hflags : LinkFlagsOk info)
    (hs : Ready Good InUse s)
    (hcall : rawSetupDirectMappingFromMemmap getPageRaw info memMap s = some (s', ok))
    (hlow : FramesBelow InUse s.1.alloc s'.1.alloc) {v : ℕ} (hv : Translated s' v) :
    Translated s v ∨ ∃ e ∈ memMap, isMappedType e.type = true ∧ Reached info e.start e.stop v := by
  induction memMap generalizing s with
  | nil =>
      cases hcall
      exact Or.inl hv
  | cons e memMap ih =>
      cases htype : isMappedType e.type with
      | false =>
          rw [setup_cons_of_skipped htype] at hcall
          refine (ih hs hcall hlow).imp_right ?_
          rintro ⟨e', he', hrest⟩
          exact ⟨e', List.mem_cons_of_mem _ he', hrest⟩
      | true =>
          have hhere : ∀ s₁ ok₁, directlyMapPhysRange getPageRaw info s e.start e.stop =
              some (s₁, ok₁) → FramesBelow InUse s.1.alloc s₁.1.alloc → Translated s₁ v →
                Translated s v ∨
                  ∃ e' ∈ e :: memMap, isMappedType e'.type = true ∧ Reached info e'.start e'.stop v := by
            intro s₁ ok₁ hmap hlow₁ hv₁
            refine ((directlyMapPhysRange_translated fresh hflags hs hmap hlow₁).2 v hv₁).imp_right ?_
            exact fun hreach => ⟨e, List.mem_cons_self .., htype, hreach⟩
          obtain ⟨s₁, ⟨hmap, hnext⟩ | ⟨hmap, rfl, -⟩⟩ := (setup_cons_of_mapped htype).mp hcall
          · have later₁ := directlyMapPhysRange_later fresh hs.good hmap
            have hlow₁ := hlow.first (setup_later fresh later₁.good hnext)
            rcases ih (directlyMapPhysRange_translated fresh hflags hs hmap hlow₁).1 hnext
              (hlow.rest later₁) with hv₁ | ⟨e', he', hrest⟩
            · exact hhere _ _ hmap hlow₁ hv₁
            · exact Or.inr ⟨e', List.mem_cons_of_mem _ he', hrest⟩
          · exact hhere _ _ hmap hlow hv

/-- A successful setup of an address space with a root translates what its entries reach, and changes
nothing else. -/
theorem setup_reaches (fresh : FreshFrames getPageRaw Good InUse) (hflags : LinkFlagsOk info)
    (space : AddrSpace Good InUse s)
    (hcall : rawSetupDirectMappingFromMemmap getPageRaw info memMap s = some (s', true))
    (hlow : FramesBelow InUse s.1.alloc s'.1.alloc) :
    (∀ v, Translated s v → Translated s' v) ∧ ∀ e ∈ memMap, isMappedType e.type = true →
      ∀ v, isPagingCanonical v = true → Reached info e.start e.stop v → Translated s' v := by
  induction memMap generalizing s with
  | nil =>
      cases hcall
      exact ⟨fun _ hv => hv, fun e he => absurd he List.not_mem_nil⟩
  | cons e memMap ih =>
      cases htype : isMappedType e.type with
      | false =>
          rw [setup_cons_of_skipped htype] at hcall
          obtain ⟨hkept, hreach⟩ := ih space hcall hlow
          refine ⟨hkept, fun e' he' htype' => ?_⟩
          rcases List.mem_cons.mp he' with rfl | he'
          · rw [htype] at htype'
            cases htype'
          · exact hreach e' he' htype'
      | true =>
          obtain ⟨s₁, ⟨hmap, hnext⟩ | ⟨-, -, hfail⟩⟩ := (setup_cons_of_mapped htype).mp hcall
          · have later₁ := directlyMapPhysRange_later fresh space.rep.good hmap
            have hlow₁ := hlow.first (setup_later fresh later₁.good hnext)
            obtain ⟨space₁, hone⟩ := directlyMapPhysRange_kept fresh hflags space hmap hlow₁
            obtain ⟨hkept, hreach⟩ := ih space₁ hnext (hlow.rest later₁)
            refine ⟨fun v hv => hkept v ?_, fun e' he' htype' v hcanon hv => ?_⟩
            · obtain ⟨r, hr⟩ := Option.isSome_iff_exists.mp hv
              exact Option.isSome_iff_exists.mpr ⟨r, hone v r hr⟩
            · rcases List.mem_cons.mp he' with rfl | he'
              · exact hkept v (directlyMapPhysRange_reaches fresh hflags space hmap hlow₁ hcanon hv)
              · exact hreach e' he' htype' v hcanon hv
          · cases hfail

end Setup

/-! ### The window -/

/-- The address is in the window. -/
def InWindow (v : ℕ) : Prop := hypervisorDirectMappingStart ≤ v ∧ v ≤ hypervisorDirectMappingEnd

/-- Every address that is translated after a call and was not before is in the window. -/
def MapsInWindow (s s' : Heap σ × ℕ) : Prop := ∀ v, Translated s' v → ¬ Translated s v → InWindow v

/-- The entry contains the boundary at `2 ^ 47`, in which case it is skipped, or it lies in the first
120 TiB behind a multiple of `2 ^ 48`. -/
def FitsWindow (e : MemmapEntry) : Prop :=
  e.start < 2 ^ 47 ∧ 2 ^ 47 ≤ e.stop ∨
    e.start / 2 ^ 48 = e.stop / 2 ^ 48 ∧ e.stop % 2 ^ 48 < 0x780000000000

instance (e : MemmapEntry) : Decidable (FitsWindow e) := inferInstanceAs (Decidable (_ ∨ _))

section Window

variable {e : MemmapEntry} {v : ℕ}

/-- The virtual range of an entry that is not skipped: in the higher half, or behind the end of the
address space. -/
theorem physToVirtAt_le_iff (hle : e.start ≤ e.stop) (hlt : e.stop < 2 ^ 52) :
    physToVirtAt (pageAlign e.start) hypervisorDirectMappingOffset ≤
        physToVirtAt e.stop hypervisorDirectMappingOffset ↔
      ¬ (e.start < 2 ^ 47 ∧ 2 ^ 47 ≤ e.stop) := by
  rw [pageAlign_eq]
  unfold physToVirtAt u64 hypervisorDirectMappingOffset
  omega

/-- Two addresses are looked up at the same place iff they agree in the page number of their lower 48
bits. -/
theorem path_four_eq_iff {x y : ℕ} : path 4 x = path 4 y ↔ x / 4096 % 2 ^ 36 = y / 4096 % 2 ^ 36 := by
  unfold path
  norm_num
  omega

theorem inWindow_iff : InWindow v ↔ 0xFFFF800000000000 ≤ v ∧ v < 0xFFFFF80000000000 := by
  unfold InWindow hypervisorDirectMappingStart hypervisorDirectMappingEnd
  omega

theorem inWindow_of_reached (hoff : info.targetOffset = hypervisorDirectMappingOffset)
    (hle : e.start ≤ e.stop) (hlt : e.stop < 2 ^ 52) (hfits : FitsWindow e)
    (hcanon : isPagingCanonical v = true) (hv : Reached info e.start e.stop v) : InWindow v := by
  obtain ⟨hwrap, x, h1, h2, hpath⟩ := hv
  rw [hoff] at hwrap h1 h2
  have hskip := (physToVirtAt_le_iff hle hlt).mp hwrap
  obtain ⟨hblock, hend⟩ := hfits.resolve_left hskip
  rw [isPagingCanonical_iff] at hcanon
  rw [path_four_eq_iff] at hpath
  rw [pageAlign_eq] at h1
  unfold physToVirtAt u64 hypervisorDirectMappingOffset at h1 h2
  rw [inWindow_iff]
  omega

/-- An entry that does not fit reaches an address outside of the window: the last page of its first
block if it leaves that, and its own last page otherwise. -/
theorem exists_reached_outside (hoff : info.targetOffset = hypervisorDirectMappingOffset)
    (hle : e.start ≤ e.stop) (hlt : e.stop < 2 ^ 52) (hfits : ¬ FitsWindow e) :
    ∃ v, isPagingCanonical v = true ∧ Reached info e.start e.stop v ∧ ¬ InWindow v := by
  obtain ⟨hskip, hblock⟩ := not_or.mp hfits
  have hwrap := (physToVirtAt_le_iff hle hlt).mpr hskip
  unfold Reached
  rw [hoff]
  simp only [isPagingCanonical_iff, path_four_eq_iff]
  by_cases hsame : e.start / 2 ^ 48 = e.stop / 2 ^ 48
  · have hend : ¬ e.stop % 2 ^ 48 < 0x780000000000 := fun h => hblock ⟨hsame, h⟩
    rcases Nat.lt_or_ge (e.stop % 2 ^ 48) (2 ^ 47) with hhalf | hhalf
    · refine ⟨e.stop % 2 ^ 48 + (2 ^ 64 - 2 ^ 47), by omega, ⟨hwrap,
        physToVirtAt e.stop hypervisorDirectMappingOffset, ?_⟩, ?_⟩
      · refine ⟨Nat.div_le_div_right hwrap, le_refl _, ?_⟩
        unfold physToVirtAt u64 hypervisorDirectMappingOffset
        omega
      · rw [inWindow_iff]
        omega
    · refine ⟨e.stop % 2 ^ 48 - 2 ^ 47, by omega, ⟨hwrap,
        physToVirtAt e.stop hypervisorDirectMappingOffset, ?_⟩, ?_⟩
      · refine ⟨Nat.div_le_div_right hwrap, le_refl _, ?_⟩
        unfold physToVirtAt u64 hypervisorDirectMappingOffset
        omega
      · rw [inWindow_iff]
        omega
  · refine ⟨2 ^ 47 - 4096, by omega, ⟨hwrap, (e.start / 2 ^ 48 + 1) * 2 ^ 48 - 2 ^ 47 - 4096, ?_⟩, ?_⟩
    · rw [pageAlign_eq]
      unfold physToVirtAt u64 hypervisorDirectMappingOffset
      refine ⟨by omega, by omega, by omega⟩
    · rw [inWindow_iff]
      omega

end Window

/-- Nothing is translated, and the root is not put in frame `0`. -/
structure Blank (getPageRaw : σ → Option (σ × Option ℕ)) (s : Heap σ × ℕ) : Prop where
  empty : ∀ v, ¬ Translated s v
  root : readPaddrFromCr3 s.2 = 0 → ∀ a paddr, getPageRaw s.1.alloc = some (a, some paddr) → paddr ≠ 0

/-- A successful setup of a blank address space translates what its entries reach. -/
theorem setup_reaches_of_blank (fresh : FreshFrames getPageRaw Good InUse) (hflags : LinkFlagsOk info)
    {memMap : List MemmapEntry} {s s' : Heap σ × ℕ} (hs : Ready Good InUse s)
    (hblank : Blank getPageRaw s)
    (hcall : rawSetupDirectMappingFromMemmap getPageRaw info memMap s = some (s', true))
    (hlow : FramesBelow InUse s.1.alloc s'.1.alloc) :
    ∀ e ∈ memMap, isMappedType e.type = true →
      ∀ v, isPagingCanonical v = true → Reached info e.start e.stop v → Translated s' v := by
  rcases hs with space | ⟨hcr3, hgood⟩
  · exact (setup_reaches fresh hflags space hcall hlow).2
  · rcases setup_root fresh hgood hcr3 (hblank.root hcr3) hcall hlow with
      ⟨-, hskipped⟩ | ⟨s₁, later₁, space, -, hcall₁⟩
    · intro e he htype
      rw [hskipped e he] at htype
      cases htype
    · exact (setup_reaches fresh hflags space hcall₁ (hlow.rest later₁)).2

/-- **When the direct mapping stays in its window.**  For every memory map below `2 ^ 52` that the setup
does not reject, with the tables below 1 TiB: if all mapped entries fit, then whatever the setup
translates is in the window, whether it succeeds or runs out of memory; and if it succeeds on a blank
address space, only then. -/
theorem direct_mapping_window (fresh : FreshFrames getPageRaw Good InUse) (hflags : LinkFlagsOk info)
    (hoff : info.targetOffset = hypervisorDirectMappingOffset) {memMap : List MemmapEntry}
    (hmap : ∀ e ∈ memMap, e.start ≤ e.stop ∧ e.stop < 2 ^ 52) {s s' : Heap σ × ℕ} {ok : Bool}
    (hs : Ready Good InUse s)
    (hcall : setupDirectMappingFromMemmap getPageRaw info (initSystemMemoryInfo memMap) memMap s =
      some (s', ok))
    (hlow : FramesBelow InUse s.1.alloc s'.1.alloc) :
    ((∀ e ∈ memMap, isMappedType e.type = true → FitsWindow e) → MapsInWindow s s') ∧
    (ok = true → Blank getPageRaw s → MapsInWindow s s' →
      ∀ e ∈ memMap, isMappedType e.type = true → FitsWindow e) := by
  unfold setupDirectMappingFromMemmap at hcall
  split_ifs at hcall
  · cases hcall
    exact ⟨fun _ v hv hnot => absurd hv hnot, fun hok => by cases hok⟩
  · constructor
    · intro hfits v hv hnot
      rcases setup_translated fresh hflags hs hcall hlow hv with hv₀ | ⟨e, he, htype, hreach⟩
      · exact absurd hv₀ hnot
      · obtain ⟨hle, hlt⟩ := hmap e he
        exact inWindow_of_reached hoff hle hlt (hfits e he htype) (translated_iff.mp hv).1 hreach
    · rintro rfl hblank hwindow e he htype
      obtain ⟨hle, hlt⟩ := hmap e he
      by_contra hfits
      obtain ⟨v, hcanon, hreach, hout⟩ := exists_reached_outside hoff hle hlt hfits
      have hv := setup_reaches_of_blank fresh hflags hs hblank hcall hlow e he htype v hcanon hreach
      exact hout (hwindow v hv (hblank.empty v))

/-- The page of `secondPage` is mapped into the window. -/
theorem direct_mapping_window_second_page :
    ∃ s, setupDirectMappingFromMemmap PfAlloc.getPageRaw highHalf (initSystemMemoryInfo [secondPage])
        [secondPage] (Ept.sixteenFramesInit, 0) = some (s, true) ∧
      MapsInWindow (Ept.sixteenFramesInit, 0) s := by
  have hrun : (setupDirectMappingFromMemmap PfAlloc.getPageRaw highHalf
      (initSystemMemoryInfo [secondPage]) [secondPage] (Ept.sixteenFramesInit, 0)).map Prod.snd =
        some true := rfl
  obtain ⟨⟨s, ok⟩, hcall, rfl⟩ := Option.map_eq_some_iff.mp hrun
  have hram : Ept.RamBelow Ept.sixteenFrames 52 := fun q hq =>
    (Ept.sixteenFrames_below q hq).trans (by norm_num)
  have hready : Ready _ FrameInUse (Ept.sixteenFramesInit, 0) := Or.inr ⟨rfl, Ept.sixteenFrames_good⟩
  have hflags : LinkFlagsOk highHalf := rfl
  refine ⟨s, hcall, (direct_mapping_window (pfAlloc_freshFrames hram) hflags rfl ?_ hready hcall
    (framesBelow_of_ram Ept.sixteenFrames_below Ept.sixteenFrames_good)).1 ?_⟩
  · simp only [List.forall_mem_singleton]
    decide
  · simp only [List.forall_mem_singleton]
    decide

/-- An allocator of the first sixteen frames, in order. -/
def nextFrame (n : ℕ) : Option (ℕ × Option ℕ) :=
  if n < 16 then some (n + 1, some (n * 4096)) else some (n, none)

theorem nextFrame_freshFrames : FreshFrames nextFrame (fun _ => True) (fun n p => p < n) where
  returns := by
    intro n _
    by_cases hn : n < 16
    · refine ⟨n + 1, some (n * 4096), if_pos hn, trivial, fun p hp => Nat.lt_succ_of_lt hp, ?_⟩
      intro hno
      cases hno
    · exact ⟨n, none, if_neg hn, trivial, fun p hp => hp, fun _ => rfl⟩
  fresh := by
    intro n n' paddr _ hcall
    unfold nextFrame at hcall
    split_ifs at hcall with hn
    · obtain ⟨rfl, hpaddr⟩ := Prod.mk.inj (Option.some.inj hcall)
      obtain rfl := Option.some.inj hpaddr
      omega
    · cases (Prod.mk.inj (Option.some.inj hcall)).2

/-- 32 KiB of memory, and one page behind a hole of almost 120 TiB. -/
def behindHole : List MemmapEntry :=
  [⟨0, 0x7FFF, 0x8000, .usable⟩, ⟨0x780000000000, 0x780000000FFF, 0x1000, .usable⟩]

/-- **A page behind a hole is mapped outside of the window**, to the address behind its end.  The sizes
fit, and the setup returns `0`. -/
theorem page_behind_hole_leaves_window :
    FreshFrames nextFrame (fun _ => True) (fun n p => p < n) ∧
    (∀ e ∈ behindHole, e.start ≤ e.stop ∧ e.stop < 2 ^ 52) ∧
    physMemoryFits (initSystemMemoryInfo behindHole) = true ∧
    Ready (fun _ => True) (fun n p => p < n) ((⟨1, fun _ => 0⟩, 0) : Heap ℕ × ℕ) ∧
    ∃ s, setupDirectMappingFromMemmap nextFrame highHalf (initSystemMemoryInfo behindHole) behindHole
        (⟨1, fun _ => 0⟩, 0) = some (s, true) ∧
      Translated s 0xFFFFF80000000000 ∧ ¬ MapsInWindow (⟨1, fun _ => 0⟩, 0) s := by
  have hrun : (setupDirectMappingFromMemmap nextFrame highHalf (initSystemMemoryInfo behindHole)
      behindHole (⟨1, fun _ => 0⟩, 0)).map
        (fun r => (r.2, (pageWalk r.1.1.mem r.1.2 0xFFFFF80000000000).isSome)) =
          some (true, true) := rfl
  obtain ⟨⟨s, ok⟩, hcall, hout⟩ := Option.map_eq_some_iff.mp hrun
  obtain ⟨rfl, hsome⟩ := Prod.mk.inj hout
  have hempty : ¬ Translated ((⟨1, fun _ => 0⟩, 0) : Heap ℕ × ℕ) 0xFFFFF80000000000 := by
    rw [Translated, pageWalk_zero]
    decide
  refine ⟨nextFrame_freshFrames, ?_, rfl, Or.inr ⟨rfl, trivial⟩, s, hcall, hsome, fun hwindow => ?_⟩
  · simp only [behindHole, List.forall_mem_cons]
    decide
  · have hin := (hwindow _ hsome hempty).2
    exact absurd hin (by decide)

end HyveMind.DirectMapping
