import HyveMind.HallocRun

/-! # What the heap allocator gives back

`large_block_returned_iff`: `hfree` returns the pages of a large block iff their number fits into
`contig_allocated`, which is one byte; the largest request that `hmalloc` accepts has 256 pages.

`heap_usable_iff`: a call of `hmalloc_align` gives the lock back, and changes nothing if it returns
`NULL`, unless it finds an empty bin and no pages to fill it. -/

namespace HyveMind.Halloc

open Lib PfAlloc

/-! ### Large blocks -/

section Large

variable {mm : List LimineMemmapEntry} {md : ℕ × ℕ} {nrPfns : ℕ} {s h₁ : Halloc} {g : Ghost}
  {n p ptr : ℕ} {pf' : PfAlloc}

/-- The pages of the block at `ptr` are free again, and their flags are clear. -/
structure Returned (h h₂ : Halloc) (ptr nrPages : ℕ) : Prop where
  bitmap : h₂.pf.bitmap = h.pf.bitmap
  allocatable : h₂.pf.allocatableFrames = h.pf.allocatableFrames
  allocated : h₂.pf.allocatedPageFrames = h.pf.allocatedPageFrames
  flags : ∀ k < nrPages, h₂.hallocFlags (physToPfn (virtToPhys ptr) + k) = hallocFlagsClear

/-- The state after a fallback to the page-frame allocator that gives the `nr` frames from `p` on. -/
def afterFallback (s : Halloc) (pf' : PfAlloc) (p nr : ℕ) : Halloc :=
  spinlockRelease ((setContigAllocated { s with pf := pf', lock := true } p nr).setHallocFlags p
    (hallocFlagsPageGranularity ||| hallocFlagsManaged))

theorem afterFallback_flags (s : Halloc) (pf' : PfAlloc) (p nr : ℕ) :
    (s.afterFallback pf' p nr).hallocFlags p = 48 := Function.update_self ..

theorem afterFallback_contig (s : Halloc) (pf' : PfAlloc) (p nr : ℕ) :
    (s.afterFallback pf' p nr).contigAllocated p = nr % 256 := by
  have hne : s.allocPageAddr p + 1 ≠ s.allocPageAddr p := Nat.succ_ne_self _
  exact (Function.update_of_ne hne ..).trans (Function.update_self ..)

theorem HeapOk.hmalloc_large (ram : RamOk mm nrPfns) (ok : HeapOk mm md nrPfns s g)
    (hlarge : 2048 < n) (hmax : n ≤ maxSupportedAllocationSize)
    (hcall : s.hmalloc n = some (h₁, ptr)) (hptr : ptr ≠ 0) :
    ∃ p pf', ptr = frameAddr p ∧ 0 < (n + 4095) / 4096 ∧ p + (n + 4095) / 4096 ≤ 2 ^ 35 ∧
      PfAlloc.Inv mm md pf' ((p, (n + 4095) / 4096) :: g.live) ∧
      pf'.bitmapSize = s.pf.bitmapSize ∧ h₁ = s.afterFallback pf' p ((n + 4095) / 4096) := by
  have hbin : sizeToBinIndex n = invalidBinIndex := by
    unfold sizeToBinIndex
    repeat rw [if_neg (by omega)]
  have hmaxeq : max n hallocDefaultAlignment = n := max_eq_left (le_trans (by norm_num) hlarge.le)
  have hgood : ¬ (n = 0 ∨ isPowerOfTwo hallocDefaultAlignment = false) :=
    not_or.mpr ⟨by omega, by decide⟩
  simp only [hmalloc, Halloc.hmallocAlign, if_neg hgood, hmaxeq, hbin, if_true,
    if_neg (not_lt.mpr hmax)] at hcall
  unfold Halloc.pfFallbackAllocation at hcall
  rw [roundUp_page hmax] at hcall
  obtain ⟨pf', res, hget, -, hsome⟩ := ok.getPages ram ((n + 4095) / 4096)
  have hsize : pf'.bitmapSize = s.pf.bitmapSize := by
    obtain ⟨x, himpl, hx⟩ := Option.bind_eq_some_iff.mp hget
    obtain ⟨rfl, -⟩ := Prod.mk.inj (Option.some.inj hx)
    exact getPagesImpl_bitmapSize himpl
  simp only [hget, Option.bind_eq_bind, Option.bind_some, Option.pure_def] at hcall
  cases res with
  | none =>
      obtain ⟨-, rfl⟩ := Prod.mk.inj (Option.some.inj hcall)
      exact absurd rfl hptr
  | some v =>
      obtain ⟨p, rfl, hpos, hlt, -, ok'⟩ := hsome v rfl
      obtain ⟨s₁, hacq, hcall⟩ := Option.bind_eq_some_iff.mp hcall
      obtain ⟨hres, rfl⟩ := Prod.mk.inj (Option.some.inj hcall)
      unfold spinlockAcquire at hacq
      split_ifs at hacq
      obtain rfl := Option.some.inj hacq
      have hpfn : physToPfn (virtToPhys (frameAddr p)) = p :=
        pfn_of_frameAddr (k := 0) (by omega) (by norm_num)
      rw [hpfn] at hres
      exact ⟨p, pf', rfl, hpos, hlt, ok'.pf, hsize, hres.symm⟩

/-- `hfree` returns the pages if there are at most 255 of them, and otherwise none. -/
theorem hfree_afterFallback {nr : ℕ} {live : List (ℕ × ℕ)} (inv : PfAlloc.Inv mm md s.pf live)
    (inv' : PfAlloc.Inv mm md pf' ((p, nr) :: live)) (hsize : pf'.bitmapSize = s.pf.bitmapSize)
    (hpos : 0 < nr) (hle : nr ≤ 256) (hlt : p + nr ≤ 2 ^ 35) :
    ∃ h₂, (s.afterFallback pf' p nr).hfree (frameAddr p) = some h₂ ∧
      (Returned s h₂ (frameAddr p) nr ↔ nr ≤ 255) := by
  have hpfn : physToPfn (virtToPhys (frameAddr p)) = p :=
    pfn_of_frameAddr (k := 0) (by omega) (by norm_num)
  have hphys := virtToPhys_frameAddr (q := p) (k := 0) (by omega)
  rw [Nat.add_zero, Nat.add_zero] at hphys
  have hflags := s.afterFallback_flags pf' p nr
  have hcontig := s.afterFallback_contig pf' p nr
  set h' : Halloc := { s.afterFallback pf' p nr with lock := true } with hh'
  have hacq : (s.afterFallback pf' p nr).spinlockAcquire = some h' := rfl
  have hflags' : h'.hallocFlags p = 48 := hflags
  have hcontig' : h'.contigAllocated p = nr % 256 := hcontig
  have hpf : h'.pf = pf' := rfl
  by_cases hsmall : nr ≤ 255
  · rw [Nat.mod_eq_of_lt (by omega)] at hcontig'
    obtain ⟨mem', hset, hclear, -⟩ := setPageRangeHallocFlags_spec h' p nr hallocFlagsClear hlt
    obtain ⟨pf'', hfree, inv''⟩ := inv'.freePagesRaw (List.mem_cons_self ..)
    rw [List.erase_cons_head] at inv''
    have hfree' : pf'.freePages nr (frameAddr p) = some pf'' := by
      rw [PfAlloc.freePages, hphys]
      exact hfree
    obtain ⟨hbm, hable, hated⟩ :=
      inv.restored inv'' ((freePagesRaw_bitmapSize hfree).trans hsize)
    refine ⟨spinlockRelease { h' with mem := mem', pf := pf'' }, ?_, ?_⟩
    · simp only [Halloc.hfree, hacq, Option.bind_eq_bind, Option.bind_some, hpfn, hflags', hcontig',
        hset, hpf, hfree', Option.pure_def]
      rfl
    · refine iff_of_true ⟨hbm, hable, hated, fun k hk => ?_⟩ hsmall
      rw [hpfn]
      exact hclear k hk
  · obtain rfl : nr = 256 := by omega
    have hfree : pf'.freePages 0 (frameAddr p) = some pf' := freePages_zero inv' _
    refine ⟨spinlockRelease h', ?_, ?_⟩
    · simp only [Halloc.hfree, hacq, Option.bind_eq_bind, Option.bind_some, hpfn, hflags', hcontig',
        Nat.mod_self, hpf, hfree, Option.pure_def, setPageRangeHallocFlags, List.range_zero,
        List.foldl_nil]
      rfl
    · refine iff_of_false (fun hret => ?_) hsmall
      have hzero := hret.flags 0 (by norm_num)
      rw [hpfn] at hzero
      have hstill : (spinlockRelease h').hallocFlags p = 48 := hflags
      rw [Nat.add_zero, hstill] at hzero
      cases hzero

/-- A large block that is allocated and released. -/
theorem HeapOk.large_block_iff (ram : RamOk mm nrPfns) (ok : HeapOk mm md nrPfns s g)
    (hlarge : 2048 < n) (hmax : n ≤ maxSupportedAllocationSize)
    (hcall : s.hmalloc n = some (h₁, ptr)) (hptr : ptr ≠ 0) :
    ∃ h₂, h₁.hfree ptr = some h₂ ∧ (Returned s h₂ ptr ((n + 4095) / 4096) ↔ n ≤ 255 * 4096) := by
  obtain ⟨p, pf', rfl, hpos, hlt, inv', hsize, rfl⟩ := ok.hmalloc_large ram hlarge hmax hcall hptr
  simp only [maxSupportedAllocationSize, Nat.one_shiftLeft] at hmax
  obtain ⟨h₂, hfree, hiff⟩ := hfree_afterFallback ok.pf inv' hsize hpos (by omega) hlt
  exact ⟨h₂, hfree, hiff.trans (by omega)⟩

end Large

section Runs

variable {mm : List LimineMemmapEntry} {offset : ℕ} {a pf : PfAlloc} {calls : List Call}
  {others : List (ℕ × ℕ)} {mem : ℕ → ℕ} {h h₁ : Halloc} {ops : List Op} {s : Sys} {n ptr : ℕ}

/-- **When large blocks are returned.**  In every reachable state, for every request that is served by
whole pages: `hfree` returns these pages iff there are at most 255 of them. -/
theorem large_block_returned_iff (hmm : MemmapOk mm)
    (hmapped : ∀ q, UsableFrame mm q → q < 2 ^ 35)
    (hboot : earlyInitPageFrameAllocator (initSystemMemoryInfo (getBootMemInfo mm)) mm offset =
      some (some a))
    (hearly : Run PfAlloc.Sys.Step ⟨a, []⟩ calls ⟨pf, others⟩)
    (hinit : initHalloc (initSystemMemoryInfo (getBootMemInfo mm)) pf mem = some (h, true))
    (hrun : Run Sys.Step ⟨h, [], others⟩ ops s)
    (hlarge : 2048 < n) (hmax : n ≤ maxSupportedAllocationSize)
    (hcall : s.heap.hmalloc n = some (h₁, ptr)) (hptr : ptr ≠ 0) :
    ∃ h₂, h₁.hfree ptr = some h₂ ∧
      (Returned s.heap h₂ ptr ((n + 4095) / 4096) ↔ n ≤ 255 * 4096) := by
  obtain ⟨g, ok, -, -⟩ := (Sys.inv_run hmm hmapped hboot hearly hinit hrun).heap
  exact ok.large_block_iff (ramOk_memmap hmm hmapped) hlarge hmax hcall hptr

end Runs

/-- A block of two pages. -/
theorem large_block_returned_two_pages :
    ∃ h h₁ h₂ ptr, initHalloc (initSystemMemoryInfo (getBootMemInfo sixtyFourFrames)) sixtyFourInit
        (fun _ => 170) = some (h, true) ∧ h.hmalloc 5000 = some (h₁, ptr) ∧ ptr ≠ 0 ∧
      h₁.hfree ptr = some h₂ ∧ Returned h h₂ ptr 2 := by
  have hrun : (initHalloc (initSystemMemoryInfo (getBootMemInfo sixtyFourFrames)) sixtyFourInit
      fun _ => 170).map (fun x => (x.2, (x.1.hmalloc 5000).map fun y => decide (y.2 = 0))) =
      some (true, some false) := by
    decide +kernel
  obtain ⟨⟨h, ok⟩, hinit, hres⟩ := Option.map_eq_some_iff.mp hrun
  obtain ⟨rfl, hres⟩ := Prod.mk.inj hres
  obtain ⟨⟨h₁, ptr⟩, hcall, hptr⟩ := Option.map_eq_some_iff.mp hres
  have hptr : ptr ≠ 0 := of_decide_eq_false hptr
  obtain ⟨h₂, hfree, hiff⟩ := large_block_returned_iff sixtyFourFrames_ok mapped_sixtyFourFrames
    sixtyFourFrames_boot (Run.nil _) hinit (Run.nil _) (by norm_num) (by decide) hcall hptr
  exact ⟨h, h₁, h₂, ptr, hinit, hcall, hptr, hfree, hiff.mpr (by norm_num)⟩

/-- A map with a single usable entry of 320 frames. -/
def manyFrames : List LimineMemmapEntry := [⟨0, 1310720, .usable⟩]

theorem manyFrames_ok : MemmapOk manyFrames where
  aligned := by simp [manyFrames]
  whole := by simp [manyFrames]
  fits := by simp [manyFrames]
  disjoint := List.pairwise_singleton _ _

theorem mapped_manyFrames : ∀ q, UsableFrame manyFrames q → q < 2 ^ 35 := by
  rintro q ⟨e, he, -, -, h⟩
  obtain rfl := List.mem_singleton.mp he
  simp only at h
  omega

/-- The page-frame allocator after initialisation on `manyFrames`. -/
def manyFramesInit : PfAlloc := ⟨0x80#8 :: List.replicate 39 0#8, 40, 0, 0, 319, 1⟩

/-- One MiB is allocated and not returned. -/
theorem mebibyte_is_not_returned :
    ∃ h h₁ h₂ ptr, earlyInitPageFrameAllocator (initSystemMemoryInfo (getBootMemInfo manyFrames))
        manyFrames 0 = some (some manyFramesInit) ∧
      initHalloc (initSystemMemoryInfo (getBootMemInfo manyFrames)) manyFramesInit
        (fun _ => 0) = some (h, true) ∧ h.hmalloc (2 ^ 20) = some (h₁, ptr) ∧ ptr ≠ 0 ∧
      h₁.hfree ptr = some h₂ ∧ ¬ Returned h h₂ ptr 256 := by
  have hboot : earlyInitPageFrameAllocator (initSystemMemoryInfo (getBootMemInfo manyFrames))
      manyFrames 0 = some (some manyFramesInit) := by decide +kernel
  have hrun : (initHalloc (initSystemMemoryInfo (getBootMemInfo manyFrames)) manyFramesInit
      fun _ => 0).map (fun x => (x.2, (x.1.hmalloc (2 ^ 20)).map fun y => decide (y.2 = 0))) =
      some (true, some false) := by
    decide +kernel
  obtain ⟨⟨h, ok⟩, hinit, hres⟩ := Option.map_eq_some_iff.mp hrun
  obtain ⟨rfl, hres⟩ := Prod.mk.inj hres
  obtain ⟨⟨h₁, ptr⟩, hcall, hptr⟩ := Option.map_eq_some_iff.mp hres
  have hptr : ptr ≠ 0 := of_decide_eq_false hptr
  obtain ⟨g, ok, -, -⟩ := (Sys.inv_run manyFrames_ok mapped_manyFrames hboot (Run.nil _) hinit
    (Run.nil _)).heap
  obtain ⟨h₂, hfree, hiff⟩ := ok.large_block_iff (ramOk_memmap manyFrames_ok mapped_manyFrames)
    (by norm_num) (by decide) hcall hptr
  exact ⟨h, h₁, h₂, ptr, hboot, hinit, hcall, hptr, hfree, fun hret => absurd (hiff.mp hret)
    (by norm_num)⟩

/-! ### The lock -/

/-- The page-frame allocator has `nr` frames for a request. -/
def CanServe (pf : PfAlloc) (nr : ℕ) : Prop :=
  nr ≤ pf.freeFrames ∧ ∃ p, FreeRun (bitSet pf.bitmap) p nr

/-- The request is for a chunk of an empty bin, and there are no pages to fill it. -/
def Starved (h : Halloc) (req alignment : ℕ) : Prop :=
  req ≠ 0 ∧ isPowerOfTwo alignment = true ∧
    sizeToBinIndex (max req alignment) ≠ invalidBinIndex ∧
    h.bins (sizeToBinIndex (max req alignment)) = 0 ∧
    ¬ CanServe h.pf
      (binConfigs.getD (sizeToBinIndex (max req alignment)) default).repopulateNrPages

/-- The lock is free, and nothing has changed if the result is `NULL`. -/
structure LeftUsable (h h' : Halloc) (ptr : ℕ) : Prop where
  lock : h'.lock = false
  unchanged : ptr = 0 → h'.bins = h.bins ∧ (∀ pfn, h'.hallocFlags pfn = h.hallocFlags pfn) ∧
    h'.pf = h.pf

theorem LeftUsable.same {h : Halloc} (hlock : h.lock = false) (ptr : ℕ) : LeftUsable h h ptr :=
  ⟨hlock, fun _ => ⟨rfl, fun _ => rfl, rfl⟩⟩

section Lock

variable {mm : List LimineMemmapEntry} {md : ℕ × ℕ} {nrPfns : ℕ} {s s' : Halloc} {g : Ghost}
  {req alignment : ℕ}

theorem HeapOk.getPages_none_iff (ok : HeapOk mm md nrPfns s g) {nr : ℕ} (hnr : 0 < nr) :
    s.pf.getPages nr = some (s.pf, none) ↔ ¬ CanServe s.pf nr := by
  rw [CanServe, ← ok.pf.getPagesImpl_none_iff hnr, PfAlloc.getPages]
  cases himpl : s.pf.getPagesImpl nr with
  | none => simp
  | some x =>
      obtain ⟨pf', res⟩ := x
      simp

theorem HeapOk.populateBin_false_iff (ok : HeapOk mm md nrPfns s g) {i shift nr : ℕ} (hnr : 0 < nr)
    {success : Bool} (hcall : s.populateBin i shift nr = some (s', success)) :
    success = false ↔ ¬ CanServe s.pf nr := by
  rw [← ok.getPages_none_iff hnr]
  unfold Halloc.populateBin at hcall
  obtain ⟨⟨pf', res⟩, hget, hcall⟩ := Option.bind_eq_some_iff.mp hcall
  rw [hget]
  cases res with
  | none =>
      obtain ⟨-, rfl⟩ := Prod.mk.inj (Option.some.inj hcall)
      obtain ⟨a', res', himpl, hsame, -⟩ := ok.pf.getPagesImpl nr
      rw [PfAlloc.getPages, himpl] at hget
      obtain ⟨rfl, hnone⟩ := Prod.mk.inj (Option.some.inj hget)
      simp [hsame (Option.map_eq_none_iff.mp hnone)]
  | some v =>
      obtain ⟨x, -, hcall⟩ := Option.bind_eq_some_iff.mp hcall
      obtain ⟨-, rfl⟩ := Prod.mk.inj (Option.some.inj hcall)
      simp

theorem pfFallbackAllocation_lock {ptr : ℕ} (hlock : s.lock = false)
    (hcall : s.pfFallbackAllocation req = some (s', ptr)) : s'.lock = false := by
  obtain ⟨⟨pf', res⟩, -, hcall⟩ := Option.bind_eq_some_iff.mp hcall
  cases res with
  | none =>
      obtain ⟨rfl, -⟩ := Prod.mk.inj (Option.some.inj hcall)
      exact hlock
  | some v =>
      obtain ⟨s₁, -, hcall⟩ := Option.bind_eq_some_iff.mp hcall
      obtain ⟨rfl, -⟩ := Prod.mk.inj (Option.some.inj hcall)
      rfl

theorem HeapOk.takeChunk_usable (ok : HeapOk mm md nrPfns s g) {i : ℕ}
    (hi : i ≤ 6) (hfree : g.free i ≠ []) {h : Halloc} :
    LeftUsable h (s.takeChunk i (binConfigs.getD i default)).1
      (s.takeChunk i (binConfigs.getD i default)).2 := by
  obtain ⟨c, cs, hcs⟩ := List.exists_cons_of_ne_nil hfree
  have hlist := ok.list i hi
  rw [hcs] at hlist
  obtain ⟨hhead, hne, -⟩ := hlist
  refine ⟨rfl, fun hnull => absurd ?_ hne⟩
  exact hhead.symm.trans hnull

/-- A request that finds no pages returns `NULL` and keeps the lock. -/
theorem HeapOk.hmallocAlign_starved (ram : RamOk mm nrPfns) (ok : HeapOk mm md nrPfns s g)
    (hlock : s.lock = false) (hstarved : Starved s req alignment) :
    s.hmallocAlign req alignment = some ({ s with lock := true }, 0) := by
  obtain ⟨hreq, halign, hbin, hempty, hpages⟩ := hstarved
  obtain ⟨hi, -⟩ := sizeToBinIndex_le hbin
  obtain ⟨-, hnr⟩ := binConfig_spec hi
  have hpasses := ok.passes ram req alignment
  generalize s.hmallocAlign req alignment = r at hpasses ⊢
  cases hpasses with
  | refused hbad => simp [hreq, halign, hbin] at hbad
  | fallback _ _ hbin' _ => exact absurd hbin' hbin
  | waits htaken =>
      rw [hlock] at htaken
      cases htaken
  | starved _ _ _ _ _ => rfl
  | served _ _ _ _ hpopulate _ _ _ =>
      have hfailed := ((ok.setLock true).populateBin_false_iff hnr (hpopulate hempty)).mpr hpages
      cases hfailed

theorem HeapOk.hmallocAlign_served (ram : RamOk mm nrPfns) (ok : HeapOk mm md nrPfns s g)
    (hlock : s.lock = false) (hserved : ¬ Starved s req alignment) :
    ∃ s' ptr, s.hmallocAlign req alignment = some (s', ptr) ∧ LeftUsable s s' ptr := by
  have hpasses := ok.passes ram req alignment
  generalize s.hmallocAlign req alignment = r at hpasses ⊢
  cases hpasses with
  | refused _ => exact ⟨s, 0, rfl, .same hlock 0⟩
  | fallback hreq halign hbin hmax =>
      rcases ok.pfFallbackAllocation ram hreq halign hbin hmax with
        ⟨htaken, -⟩ | ⟨s', ptr, hcall, hnull, -⟩
      · rw [hlock] at htaken
        cases htaken
      · refine ⟨s', ptr, hcall, pfFallbackAllocation_lock hlock hcall, fun h0 => ?_⟩
        rw [hnull h0]
        exact ⟨rfl, fun _ => rfl, rfl⟩
  | waits htaken =>
      rw [hlock] at htaken
      cases htaken
  | starved hempty hpopulate hreq halign hbin =>
      obtain ⟨hi, -⟩ := sizeToBinIndex_le hbin
      obtain ⟨-, hpos⟩ := binConfig_spec hi
      have hpages := ((ok.setLock true).populateBin_false_iff hpos hpopulate).mp rfl
      exact absurd ⟨hreq, halign, hbin, hempty, hpages⟩ hserved
  | served ok' _ _ hfree _ _ _ hbin =>
      exact ⟨_, _, rfl, ok'.takeChunk_usable (sizeToBinIndex_le hbin).1 hfree⟩

theorem hfree_lock {ptr : ℕ} (hcall : s.hfree ptr = some s') : s'.lock = false := by
  obtain ⟨s₁, -, hcall⟩ := Option.bind_eq_some_iff.mp hcall
  simp only at hcall
  split_ifs at hcall
  · obtain rfl := Option.some.inj hcall
    rfl
  · obtain ⟨pf', -, hcall⟩ := Option.bind_eq_some_iff.mp hcall
    obtain rfl := Option.some.inj hcall
    rfl
  · obtain rfl := Option.some.inj hcall
    rfl

/-- `hfree` of a pointer into a page that the heap does not manage does nothing. -/
theorem hfree_unmanaged {ptr : ℕ} (hlock : s.lock = false)
    (hflags : s.hallocFlags (physToPfn (virtToPhys ptr)) &&& hallocFlagsManaged = 0) :
    s.hfree ptr = some s := by
  have hflags' : hallocFlags { s with lock := true } (physToPfn (virtToPhys ptr)) &&&
      hallocFlagsManaged = 0 := hflags
  simp only [hfree, spinlockAcquire, hlock, Bool.false_eq_true, if_false, Option.bind_eq_bind,
    Option.bind_some, if_pos hflags', spinlockRelease, Option.pure_def]
  rw [← hlock]

end Lock

section Runs

variable {mm : List LimineMemmapEntry} {offset : ℕ} {a pf : PfAlloc} {calls : List Call}
  {others : List (ℕ × ℕ)} {mem : ℕ → ℕ} {h : Halloc} {ops : List Op} {s : Sys}

/-- **When the heap stays usable.**  In every reachable state with a free lock: a call of
`hmalloc_align` leaves the heap usable iff it does not need pages that the page-frame allocator does
not have, and every call of `hfree` gives the lock back. -/
theorem heap_usable_iff (hmm : MemmapOk mm) (hmapped : ∀ q, UsableFrame mm q → q < 2 ^ 35)
    (hboot : earlyInitPageFrameAllocator (initSystemMemoryInfo (getBootMemInfo mm)) mm offset =
      some (some a))
    (hearly : Run PfAlloc.Sys.Step ⟨a, []⟩ calls ⟨pf, others⟩)
    (hinit : initHalloc (initSystemMemoryInfo (getBootMemInfo mm)) pf mem = some (h, true))
    (hrun : Run Sys.Step ⟨h, [], others⟩ ops s) (hlock : s.heap.lock = false) :
    (∀ req alignment, ∃ h' ptr, s.heap.hmallocAlign req alignment = some (h', ptr) ∧
      (LeftUsable s.heap h' ptr ↔ ¬ Starved s.heap req alignment)) ∧
    (∀ ptr h', s.heap.hfree ptr = some h' → h'.lock = false) ∧
    (∀ b ∈ s.blocks, ∃ h', s.heap.hfree b.ptr = some h') ∧
    ∀ ptr, s.heap.hallocFlags (physToPfn (virtToPhys ptr)) &&& hallocFlagsManaged = 0 →
      s.heap.hfree ptr = some s.heap := by
  have ram := ramOk_memmap hmm hmapped
  obtain ⟨g, ok, hblocks, -⟩ := (Sys.inv_run hmm hmapped hboot hearly hinit hrun).heap
  refine ⟨fun req alignment => ?_, fun _ _ => hfree_lock, fun b hb => ?_,
    fun ptr => hfree_unmanaged hlock⟩
  · by_cases hstarved : Starved s.heap req alignment
    · refine ⟨_, _, ok.hmallocAlign_starved ram hlock hstarved, ?_⟩
      refine iff_of_false (fun husable => ?_) (not_not_intro hstarved)
      have := husable.lock
      cases this
    · obtain ⟨h', ptr, hcall, husable⟩ := ok.hmallocAlign_served ram hlock hstarved
      exact ⟨h', ptr, hcall, iff_of_true husable hstarved⟩
  · rcases ok.hfree ram (hblocks ▸ hb : b ∈ g.blocks) with ⟨htaken, -⟩ | ⟨h', -, hcall, -⟩
    · rw [hlock] at htaken
      cases htaken
    · exact ⟨h', hcall⟩

end Runs

/-- Thirteen pages and then eight blocks of 512 bytes are taken. -/
def takeEight : List Op := .getPages 13 :: List.replicate 8 (.hmalloc 512)

theorem run_takeEight {s s' : Sys} (h : takeEight.foldlM Sys.call s = some s') :
    Run Sys.Step s takeEight s' := by
  refine Run.of_foldlM _ (fun s op s' hop hcall => ⟨?_, hcall⟩) h
  rcases List.mem_cons.mp hop with rfl | hop
  · trivial
  · obtain rfl := List.eq_of_mem_replicate hop
    norm_num [Sys.Allowed]

/-- The heap on `sixtyFourFrames` after `takeEight`: the bin of 512 bytes is empty, and the count of
free frames is zero. -/
theorem takeEight_spec :
    ∃ h s, initHalloc (initSystemMemoryInfo (getBootMemInfo sixtyFourFrames)) sixtyFourInit
        (fun _ => 170) = some (h, true) ∧ Run Sys.Step ⟨h, [], []⟩ takeEight s ∧
      s.heap.lock = false ∧ s.heap.bins 4 = 0 ∧ s.heap.bins 3 ≠ 0 ∧ s.heap.pf.freeFrames = 0 := by
  have hrun : (initHalloc (initSystemMemoryInfo (getBootMemInfo sixtyFourFrames)) sixtyFourInit
      fun _ => 170).map (fun x => (x.2, (takeEight.foldlM Sys.call ⟨x.1, [], []⟩).map fun s =>
        (s.heap.lock, s.heap.bins 4, decide (s.heap.bins 3 = 0), s.heap.pf.freeFrames))) =
      some (true, some (false, 0, false, 0)) := by
    decide +kernel
  obtain ⟨⟨h, ok⟩, hinit, hres⟩ := Option.map_eq_some_iff.mp hrun
  obtain ⟨rfl, hres⟩ := Prod.mk.inj hres
  obtain ⟨s, hs, hobs⟩ := Option.map_eq_some_iff.mp hres
  simp only [Prod.mk.injEq, decide_eq_false_iff_not] at hobs
  obtain ⟨hlock, hempty, hother, hcount⟩ := hobs
  exact ⟨h, s, hinit, run_takeEight hs, hlock, hempty, hother, hcount⟩

/-- A block of 256 bytes can still be taken. -/
theorem heap_usable_other_bin :
    ∃ h s h' ptr, initHalloc (initSystemMemoryInfo (getBootMemInfo sixtyFourFrames)) sixtyFourInit
        (fun _ => 170) = some (h, true) ∧ Run Sys.Step ⟨h, [], []⟩ takeEight s ∧
      s.heap.lock = false ∧ s.heap.hmallocAlign 256 8 = some (h', ptr) ∧
      LeftUsable s.heap h' ptr := by
  obtain ⟨h, s, hinit, hrun, hlock, -, hother, -⟩ := takeEight_spec
  obtain ⟨hmalloc, -⟩ := heap_usable_iff sixtyFourFrames_ok mapped_sixtyFourFrames
    sixtyFourFrames_boot (Run.nil _) hinit hrun hlock
  obtain ⟨h', ptr, hcall, hiff⟩ := hmalloc 256 8
  exact ⟨h, s, h', ptr, hinit, hrun, hlock, hcall, hiff.mpr fun hstarved => hother hstarved.2.2.2.1⟩

/-- The ninth block of 512 bytes is refused and the lock stays taken. -/
theorem ninth_block_keeps_lock :
    ∃ h s, initHalloc (initSystemMemoryInfo (getBootMemInfo sixtyFourFrames)) sixtyFourInit
        (fun _ => 170) = some (h, true) ∧ Run Sys.Step ⟨h, [], []⟩ takeEight s ∧
      s.heap.lock = false ∧ s.heap.hmallocAlign 512 8 = some ({ s.heap with lock := true }, 0) ∧
      ¬ LeftUsable s.heap { s.heap with lock := true } 0 := by
  obtain ⟨h, s, hinit, hrun, hlock, hempty, -, hcount⟩ := takeEight_spec
  obtain ⟨g, ok, -, -⟩ := (Sys.inv_run sixtyFourFrames_ok mapped_sixtyFourFrames
    sixtyFourFrames_boot (Run.nil _) hinit hrun).heap
  have hstarved : Starved s.heap 512 8 := by
    refine ⟨by norm_num, by decide, by decide, hempty, fun hserve => ?_⟩
    have hle := hserve.1
    rw [hcount] at hle
    revert hle
    decide
  refine ⟨h, s, hinit, hrun, hlock, ok.hmallocAlign_starved
    (ramOk_memmap sixtyFourFrames_ok mapped_sixtyFourFrames) hlock hstarved, fun husable => ?_⟩
  have := husable.lock
  cases this

end HyveMind.Halloc
