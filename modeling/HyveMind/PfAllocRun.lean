import HyveMind.PfAllocScan
import HyveMind.Lib.Run

/-! # The page-frame allocator over whole runs

`Inv mm md a live` is the representation invariant of the allocator: `mm` is the boot memory map,
`md` the range of frames that hold the allocator's own metadata and `live` the ranges handed out
and not yet returned.  `early_init_page_frame_allocator` establishes it (`inv_init`),
`__get_pages` extends `live` by the range it returns (`Inv.getPagesImpl`) and `free_pages_raw` of a
live range removes it (`Inv.freePagesRaw`); hence it holds along every run (`inv_run`). -/

namespace HyveMind.PfAlloc

open Lib

/-- The frames of a range given by its first frame and its length. -/
def frames (r : ℕ × ℕ) : Finset ℕ := Finset.Ico r.1 (r.1 + r.2)

theorem mem_frames {r : ℕ × ℕ} {q : ℕ} : q ∈ frames r ↔ r.1 ≤ q ∧ q < r.1 + r.2 :=
  Finset.mem_Ico

theorem card_frames (r : ℕ × ℕ) : (frames r).card = r.2 := by simp [frames]

/-- Frame `pfn` belongs to the usable entry `e`. -/
def EntryFrame (e : LimineMemmapEntry) (pfn : ℕ) : Prop :=
  e.type = .usable ∧ e.base ≤ pfn * 4096 ∧ pfn * 4096 < e.base + e.length

/-- Frame `pfn` belongs to a usable entry of the memory map. -/
def UsableFrame (mm : List LimineMemmapEntry) (pfn : ℕ) : Prop := ∃ e ∈ mm, EntryFrame e pfn

/-- The bootloader's guarantee for usable entries: page-aligned, whole pages, inside the address
space and not overlapping. -/
structure MemmapOk (mm : List LimineMemmapEntry) : Prop where
  aligned : ∀ e ∈ mm, e.type = .usable → e.base % 4096 = 0
  whole : ∀ e ∈ mm, e.type = .usable → e.length % 4096 = 0
  fits : ∀ e ∈ mm, e.type = .usable → e.base + e.length ≤ 2 ^ 64
  disjoint : mm.Pairwise fun d e => d.type = .usable → e.type = .usable →
    Disjoint (Finset.Ico d.base (d.base + d.length)) (Finset.Ico e.base (e.base + e.length))

/-- The size of the metadata: the allocator struct and one bit per frame of the map. -/
def metadataSize (memInfo : SysMemInfo) : ℕ := pfAllocStructSize + bitmapSizeOf memInfo.nrOfPfns

/-- The entry the metadata is placed in: the first usable one larger than `size`. -/
def metadataEntry (mm : List LimineMemmapEntry) (size : ℕ) : Option LimineMemmapEntry :=
  mm.find? fun e => e.type = .usable ∧ size < e.length

/-- The frames that hold the allocator struct and its bitmap: the first pages of that entry. -/
def metadataRange (memInfo : SysMemInfo) (mm : List LimineMemmapEntry) : ℕ × ℕ :=
  match metadataEntry mm (metadataSize memInfo) with
  | none => (0, 0)
  | some e => (e.base / 4096, byteLenToPages (metadataSize memInfo))

/-- The frames whose bit is clear. -/
def clearFrames (bm : List (BitVec 8)) : Finset ℕ :=
  (Finset.range (8 * bm.length)).filter fun q => bitSet bm q = false

theorem mem_clearFrames {bm : List (BitVec 8)} {q : ℕ} :
    q ∈ clearFrames bm ↔ bitSet bm q = false := by
  simp only [clearFrames, Finset.mem_filter, Finset.mem_range, and_iff_right_iff_imp]
  exact lt_of_bitSet_eq_false

theorem card_clearFrames_le (bm : List (BitVec 8)) : (clearFrames bm).card ≤ 8 * bm.length := by
  have := Finset.card_filter_le (Finset.range (8 * bm.length)) (fun q => bitSet bm q = false)
  simpa [clearFrames] using this

/-- Setting the bits of a clear range removes it from the clear frames. -/
theorem card_clearFrames_set {bm bm' : List (BitVec 8)} {p nr : ℕ}
    (hbits : ∀ q, bitSet bm' q = if p ≤ q ∧ q < p + nr then true else bitSet bm q)
    (hfree : FreeRun (bitSet bm) p nr) :
    (clearFrames bm').card + nr = (clearFrames bm).card := by
  have e : clearFrames bm' = clearFrames bm \ frames (p, nr) := by
    ext q
    simp only [Finset.mem_sdiff, mem_clearFrames, mem_frames, hbits]
    split_ifs with h <;> simp [h]
  have hsub : frames (p, nr) ⊆ clearFrames bm := by
    intro q hq
    rw [mem_frames] at hq
    exact mem_clearFrames.mpr (hfree q hq.1 hq.2)
  have hle := Finset.card_le_card hsub
  rw [e, Finset.card_sdiff_of_subset hsub, card_frames] at *
  omega

/-- Clearing the bits of a used range adds it to the clear frames. -/
theorem card_clearFrames_clear {bm bm' : List (BitVec 8)} {p nr : ℕ}
    (hbits : ∀ q, bitSet bm' q = if p ≤ q ∧ q < p + nr then false else bitSet bm q)
    (hused : ∀ q, p ≤ q → q < p + nr → bitSet bm q = true) :
    (clearFrames bm').card = (clearFrames bm).card + nr := by
  have e : clearFrames bm' = clearFrames bm ∪ frames (p, nr) := by
    ext q
    simp only [Finset.mem_union, mem_clearFrames, mem_frames, hbits]
    split_ifs with h <;> simp [h]
  have hdisj : Disjoint (clearFrames bm) (frames (p, nr)) := by
    rw [Finset.disjoint_left]
    intro q hq hr
    rw [mem_frames] at hr
    rw [mem_clearFrames, hused q hr.1 hr.2] at hq
    cases hq
  rw [e, Finset.card_union_of_disjoint hdisj, card_frames]

/-- The representation invariant of the allocator. -/
structure Inv (mm : List LimineMemmapEntry) (md : ℕ × ℕ) (a : PfAlloc) (live : List (ℕ × ℕ)) :
    Prop where
  hintOk : a.HintOk
  size_le : a.bitmapSize ≤ 2 ^ 49
  usable_lt : ∀ q, UsableFrame mm q → q < 8 * a.bitmapSize
  bits : ∀ q, bitSet a.bitmap q = false ↔
    UsableFrame mm q ∧ q ∉ frames md ∧ ∀ r ∈ live, q ∉ frames r
  liveUsable : ∀ r ∈ live, 0 < r.2 ∧ ∀ q ∈ frames r, UsableFrame mm q ∧ q ∉ frames md
  liveDisjoint : live.Pairwise fun r t => Disjoint (frames r) (frames t)
  allocatable : a.allocatableFrames = (clearFrames a.bitmap).card
  allocated : a.allocatedPageFrames = md.2 + (live.map Prod.snd).sum
  total_le : a.allocatableFrames + a.allocatedPageFrames ≤ 2 ^ 52

variable {mm : List LimineMemmapEntry} {md : ℕ × ℕ} {a : PfAlloc} {live : List (ℕ × ℕ)}

/-! ### One allocation -/

theorem setBitmapRegion_spec (a : PfAlloc) {p nr : ℕ} (h : p + nr ≤ 8 * a.bitmap.length)
    (h52 : p + nr ≤ 2 ^ 52) :
    ∃ bm, a.setBitmapRegion (p * 4096) nr = some { a with bitmap := bm } ∧
      bm.length = a.bitmap.length ∧
      ∀ q, bitSet bm q = if p ≤ q ∧ q < p + nr then true else bitSet a.bitmap q :=
  bitmapRegion_spec writesBit_or a h h52

theorem clearBitmapRegion_spec (a : PfAlloc) {p nr : ℕ} (h : p + nr ≤ 8 * a.bitmap.length)
    (h52 : p + nr ≤ 2 ^ 52) :
    ∃ bm, a.clearBitmapRegion (p * 4096) nr = some { a with bitmap := bm } ∧
      bm.length = a.bitmap.length ∧
      ∀ q, bitSet bm q = if p ≤ q ∧ q < p + nr then false else bitSet a.bitmap q :=
  bitmapRegion_spec writesBit_and_not a h h52

/-- Handing out a range of clear frames keeps the invariant. -/
theorem Inv.insertRange (inv : Inv mm md a live) {p nr : ℕ} (hnr : 0 < nr)
    (hfree : FreeRun (bitSet a.bitmap) p nr) {a' : PfAlloc} (hhint : a'.HintOk)
    (hsize : a'.bitmapSize = a.bitmapSize)
    (hbits : ∀ q, bitSet a'.bitmap q = if p ≤ q ∧ q < p + nr then true else bitSet a.bitmap q)
    (hfrees : a'.allocatableFrames + nr = a.allocatableFrames)
    (hallocs : a'.allocatedPageFrames = a.allocatedPageFrames + nr) :
    Inv mm md a' ((p, nr) :: live) := by
  have hnew : ∀ q, p ≤ q ∧ q < p + nr → UsableFrame mm q ∧ q ∉ frames md ∧
      ∀ r ∈ live, q ∉ frames r := fun q hq => (inv.bits q).mp (hfree q hq.1 hq.2)
  have htot := inv.total_le
  constructor
  · exact hhint
  · rw [hsize]; exact inv.size_le
  · rw [hsize]; exact inv.usable_lt
  · intro q
    have hm : q ∈ frames (p, nr) ↔ p ≤ q ∧ q < p + nr := mem_frames
    rw [hbits, List.forall_mem_cons, hm]
    split_ifs with h
    · simp [h]
    · rw [inv.bits q]
      simp only [h, not_false_iff, true_and]
  · intro r hr
    rcases List.mem_cons.mp hr with rfl | hr
    · exact ⟨hnr, fun q hq =>
        ⟨(hnew q (mem_frames.mp hq)).1, (hnew q (mem_frames.mp hq)).2.1⟩⟩
    · exact inv.liveUsable r hr
  · rw [List.pairwise_cons]
    refine ⟨fun r hr => ?_, inv.liveDisjoint⟩
    rw [Finset.disjoint_left]
    exact fun q hq => (hnew q (mem_frames.mp hq)).2.2 r hr
  · have := card_clearFrames_set hbits hfree
    have := inv.allocatable
    omega
  · rw [hallocs, inv.allocated, List.map_cons, List.sum_cons]
    omega
  · omega

/-- **One call of `__get_pages`.**  It is always defined; a failure changes nothing, and a success
returns a range of clear frames that joins the live ranges. -/
theorem Inv.getPagesImpl (inv : Inv mm md a live) (nr : ℕ) :
    ∃ a' res, a.getPagesImpl nr = some (a', res) ∧ (res = none → a' = a) ∧
      ∀ addr, res = some addr → ∃ p, addr = p * 4096 ∧ p + nr ≤ 8 * a.bitmapSize ∧
        FreeRun (bitSet a.bitmap) p nr ∧ Inv mm md a' ((p, nr) :: live) := by
  unfold PfAlloc.getPagesImpl
  by_cases hpre : nr = 0 ∨ a.freeFrames < nr
  · rw [if_pos hpre]
    exact ⟨a, none, rfl, fun _ => rfl, fun _ h => by cases h⟩
  · rw [if_neg hpre]
    have hnr : 0 < nr := Nat.pos_of_ne_zero fun h => hpre (Or.inl h)
    obtain ⟨r, hr, hfound, -⟩ := search_spec inv.hintOk hnr
    rw [hr]
    cases r with
    | none => exact ⟨a, none, rfl, fun _ => rfl, fun _ h => by cases h⟩
    | some p =>
        have hfree := hfound p rfl
        have hle := FreeRun.lt_bits hnr hfree
        have hsize := inv.size_le
        have hlen := inv.hintOk.length
        have hp : (p >>> 3) <<< 3 + p % 8 = p := by
          simp only [Nat.shiftRight_eq_div_pow, Nat.shiftLeft_eq]
          omega
        have hphys : pfnToPhys p = p * 4096 := pfnToPhys_eq (by omega)
        obtain ⟨bm, hset, hlen', hbits⟩ := setBitmapRegion_spec a hle (by omega)
        have hcard := card_clearFrames_set hbits hfree
        have htot := inv.total_le
        have hall := inv.allocatable
        have hbyte := inv.hintOk.byte_lt
        simp only [hp, hphys, hset]
        refine ⟨_, _, rfl, fun h => (by cases h), ?_⟩
        rintro addr ⟨⟩
        refine ⟨p, rfl, by omega, hfree, inv.insertRange hnr hfree ⟨?_, ?_, ?_⟩ rfl hbits ?_ ?_⟩
        · exact hlen'.trans hlen
        · simp only [storeHint, allocatedNrFrames]
          split_ifs <;> exact Nat.mod_lt _ (by omega)
        · exact Nat.mod_lt _ (by norm_num)
        · simp only [storeHint, allocatedNrFrames]
          rw [u64Sub_of_le (by omega) (by omega)]
          omega
        · simp only [storeHint, allocatedNrFrames]
          rw [u64_of_lt (by omega)]

/-! ### One release -/

theorem Inv.live_le (inv : Inv mm md a live) {r : ℕ × ℕ} (hr : r ∈ live) :
    r.1 + r.2 ≤ 8 * a.bitmapSize := by
  obtain ⟨hpos, hu⟩ := inv.liveUsable r hr
  have := inv.usable_lt (r.1 + r.2 - 1) (hu _ (mem_frames.mpr (by omega))).1
  omega

theorem Inv.nodup (inv : Inv mm md a live) : live.Nodup := by
  refine inv.liveDisjoint.imp_of_mem ?_
  rintro r t hr - hdisj rfl
  have hpos := (inv.liveUsable r hr).1
  have hmem : r.1 ∈ frames r := mem_frames.mpr (by omega)
  exact Finset.disjoint_left.mp hdisj hmem hmem

theorem Inv.eq_of_mem (inv : Inv mm md a live) {r t : ℕ × ℕ} (hr : r ∈ live) (ht : t ∈ live)
    {q : ℕ} (hqr : q ∈ frames r) (hqt : q ∈ frames t) : r = t := by
  by_contra hne
  have : Std.Symm fun r t : ℕ × ℕ => Disjoint (frames r) (frames t) := ⟨fun _ _ h => h.symm⟩
  exact Finset.disjoint_left.mp (inv.liveDisjoint.forall hr ht hne) hqr hqt

/-- **One call of `free_pages_raw`** on a live range: it is defined and returns the range. -/
theorem Inv.freePagesRaw (inv : Inv mm md a live) {r : ℕ × ℕ} (hr : r ∈ live) :
    ∃ a', a.freePagesRaw r.2 (r.1 * 4096) = some a' ∧ Inv mm md a' (live.erase r) := by
  have hle := inv.live_le hr
  have hsize := inv.size_le
  have hlen := inv.hintOk.length
  obtain ⟨bm, hclear, hlen', hbits⟩ :=
    clearBitmapRegion_spec a (show r.1 + r.2 ≤ 8 * a.bitmap.length by omega) (by omega)
  have hused : ∀ q, r.1 ≤ q → q < r.1 + r.2 → bitSet a.bitmap q = true := by
    intro q h1 h2
    by_contra hne
    exact ((inv.bits q).mp (by simpa using hne)).2.2 r hr (mem_frames.mpr ⟨h1, h2⟩)
  have hcard := card_clearFrames_clear hbits hused
  have hall := inv.allocatable
  have htot := inv.total_le
  have hsum : r.2 + ((live.erase r).map Prod.snd).sum = (live.map Prod.snd).sum := by
    have := ((List.perm_cons_erase hr).map Prod.snd).sum_eq
    simpa using this.symm
  have halloc := inv.allocated
  have hmem : ∀ t, t ∈ live.erase r ↔ t ≠ r ∧ t ∈ live := fun t => inv.nodup.mem_erase_iff
  refine ⟨{ a with bitmap := bm }.freedNrFrames r.2, by simp [PfAlloc.freePagesRaw, hclear], ?_⟩
  constructor
  · exact ⟨hlen'.trans hlen, inv.hintOk.byte_lt, inv.hintOk.bit_lt⟩
  · exact inv.size_le
  · exact inv.usable_lt
  · intro q
    simp only [freedNrFrames, hbits]
    by_cases hq : r.1 ≤ q ∧ q < r.1 + r.2
    · have hqr : q ∈ frames r := mem_frames.mpr hq
      have hu := (inv.liveUsable r hr).2 q hqr
      simp only [hq, and_self, if_true, true_iff]
      refine ⟨hu.1, hu.2, fun t ht hqt => ?_⟩
      exact ((hmem t).mp ht).1 (inv.eq_of_mem ((hmem t).mp ht).2 hr hqt hqr)
    · rw [if_neg hq, inv.bits q]
      have hqr : q ∉ frames r := fun h => hq (mem_frames.mp h)
      refine and_congr_right fun _ => and_congr_right fun _ => ⟨fun h t ht => ?_, fun h t ht => ?_⟩
      · exact h t ((hmem t).mp ht).2
      · by_cases e : t = r
        · rw [e]; exact hqr
        · exact h t ((hmem t).mpr ⟨e, ht⟩)
  · intro t ht
    exact inv.liveUsable t ((hmem t).mp ht).2
  · exact inv.liveDisjoint.sublist List.erase_sublist
  · simp only [freedNrFrames]
    rw [u64_of_lt (by omega)]
    omega
  · simp only [freedNrFrames]
    rw [u64Sub_of_le (by omega) (by omega)]
    omega
  · simp only [freedNrFrames]
    rw [u64_of_lt (by omega), u64Sub_of_le (by omega) (by omega)]
    omega

/-! ### What the invariant determines -/

theorem bitmapRegion_bitmapSize {f : BitVec 8 → BitVec 8 → BitVec 8} {a a' : PfAlloc} {addr nr : ℕ}
    (h : bitmapRegion (updateBitmapEntry f) a addr nr = some a') : a'.bitmapSize = a.bitmapSize := by
  induction nr generalizing a' with
  | zero =>
      obtain rfl := Option.some.inj h
      rfl
  | succ nr ih =>
      obtain ⟨a₁, h₁, h⟩ := Option.bind_eq_some_iff.mp h
      refine Eq.trans ?_ (ih h₁)
      simp only [updateBitmapEntry] at h
      split at h
      · cases h
      · obtain rfl := Option.some.inj h
        rfl

theorem getPagesImpl_bitmapSize {a a' : PfAlloc} {nr : ℕ} {res : Option ℕ}
    (h : a.getPagesImpl nr = some (a', res)) : a'.bitmapSize = a.bitmapSize := by
  unfold PfAlloc.getPagesImpl at h
  split_ifs at h with hpre
  · obtain ⟨rfl, -⟩ := Prod.mk.inj (Option.some.inj h)
    rfl
  · split at h
    · cases h
    · obtain ⟨rfl, -⟩ := Prod.mk.inj (Option.some.inj h)
      rfl
    · obtain ⟨a₁, h₁, h⟩ := Option.bind_eq_some_iff.mp h
      obtain ⟨rfl, -⟩ := Prod.mk.inj (Option.some.inj h)
      have hsize : a₁.bitmapSize = a.bitmapSize := bitmapRegion_bitmapSize h₁
      exact hsize

theorem freePagesRaw_bitmapSize {a a' : PfAlloc} {nr addr : ℕ}
    (h : a.freePagesRaw nr addr = some a') : a'.bitmapSize = a.bitmapSize := by
  obtain ⟨a₁, h₁, h⟩ := Option.bind_eq_some_iff.mp h
  obtain rfl := Option.some.inj h
  have hsize : a₁.bitmapSize = a.bitmapSize := bitmapRegion_bitmapSize h₁
  exact hsize

theorem Inv.restored {a' : PfAlloc} (inv : Inv mm md a live) (inv' : Inv mm md a' live)
    (hsize : a'.bitmapSize = a.bitmapSize) : a'.bitmap = a.bitmap ∧
      a'.allocatableFrames = a.allocatableFrames ∧ a'.allocatedPageFrames = a.allocatedPageFrames := by
  have hbitmap : a'.bitmap = a.bitmap := by
    refine bitmap_ext (by rw [inv'.hintOk.length, inv.hintOk.length, hsize]) fun q => ?_
    have h : bitSet a'.bitmap q = false ↔ bitSet a.bitmap q = false :=
      (inv'.bits q).trans (inv.bits q).symm
    cases hq : bitSet a.bitmap q with
    | false => exact h.mpr hq
    | true =>
        rw [hq] at h
        simpa using h
  refine ⟨hbitmap, ?_, ?_⟩
  · rw [inv'.allocatable, inv.allocatable, hbitmap]
  · rw [inv'.allocated, inv.allocated]

/-- `__get_pages` fails iff the count of free frames is too low or there is no free run. -/
theorem Inv.getPagesImpl_none_iff (inv : Inv mm md a live) {nr : ℕ} (hnr : 0 < nr) :
    a.getPagesImpl nr = some (a, none) ↔
      ¬ (nr ≤ a.freeFrames ∧ ∃ p, FreeRun (bitSet a.bitmap) p nr) := by
  obtain ⟨r, hr, hfound, hnone⟩ := search_spec inv.hintOk hnr
  obtain ⟨a', res, hcall, hsame, hsome⟩ := inv.getPagesImpl nr
  constructor
  · rintro hfail ⟨hcount, p, hp⟩
    rw [PfAlloc.getPagesImpl, if_neg (by omega), hr] at hfail
    cases r with
    | none => exact hnone rfl p hp
    | some start =>
        simp only [Option.bind_eq_bind, Option.pure_def] at hfail
        obtain ⟨_, _, h⟩ := Option.bind_eq_some_iff.mp hfail
        simp at h
  · intro hno
    cases res with
    | none => rw [hcall, hsame rfl]
    | some addr =>
        obtain ⟨p, -, -, hfree, -⟩ := hsome addr rfl
        refine absurd ⟨?_, p, hfree⟩ hno
        by_contra hcount
        rw [PfAlloc.getPagesImpl, if_pos (by omega)] at hcall
        cases hcall

/-! ### Initialisation -/

theorem byteLenToPages_of_whole {len : ℕ} (h : len % 4096 = 0) : byteLenToPages len = len / 4096 := by
  simp [byteLenToPages, pageSize, h]

theorem entryFrame_iff {e : LimineMemmapEntry} (ht : e.type = .usable) (hb : e.base % 4096 = 0)
    (hl : e.length % 4096 = 0) (q : ℕ) :
    EntryFrame e q ↔ e.base / 4096 ≤ q ∧ q < e.base / 4096 + e.length / 4096 := by
  unfold EntryFrame
  constructor
  · rintro ⟨_, h1, h2⟩
    omega
  · rintro ⟨h1, h2⟩
    exact ⟨ht, by omega, by omega⟩

theorem usableFrame_cons {e : LimineMemmapEntry} {q : ℕ} :
    UsableFrame (e :: mm) q ↔ EntryFrame e q ∨ UsableFrame mm q := by
  simp [UsableFrame]

theorem MemmapOk.tail {e : LimineMemmapEntry} (h : MemmapOk (e :: mm)) : MemmapOk mm where
  aligned := fun d hd => h.aligned d (by simp [hd])
  whole := fun d hd => h.whole d (by simp [hd])
  fits := fun d hd => h.fits d (by simp [hd])
  disjoint := (List.pairwise_cons.mp h.disjoint).2

theorem MemmapOk.head_disjoint {e : LimineMemmapEntry} (h : MemmapOk (e :: mm)) {q : ℕ}
    (hq : EntryFrame e q) : ¬ UsableFrame mm q := by
  rintro ⟨d, hd, hqd⟩
  have hdisj := (List.pairwise_cons.mp h.disjoint).1 d hd hq.1 hqd.1
  exact Finset.disjoint_left.mp hdisj (Finset.mem_Ico.mpr hq.2) (Finset.mem_Ico.mpr hqd.2)

/-- The loop over the memory map clears exactly the usable frames and counts them. -/
theorem clearUsableRegions_spec (hmm : MemmapOk mm) (a : PfAlloc)
    (hsize : a.bitmap.length ≤ 2 ^ 49)
    (hin : ∀ q, UsableFrame mm q → q < 8 * a.bitmap.length)
    (hused : ∀ q, UsableFrame mm q → bitSet a.bitmap q = true)
    (hcount : a.allocatableFrames = (clearFrames a.bitmap).card) :
    ∃ bm, clearUsableRegions a mm =
        some { a with bitmap := bm, allocatableFrames := (clearFrames bm).card } ∧
      bm.length = a.bitmap.length ∧
      ∀ q, bitSet bm q = false ↔ bitSet a.bitmap q = false ∨ UsableFrame mm q := by
  induction mm generalizing a with
  | nil =>
      refine ⟨a.bitmap, by simp [clearUsableRegions, ← hcount], rfl, fun q => ?_⟩
      simp [UsableFrame]
  | cons e mm ih =>
      by_cases ht : e.type = .usable
      · have hb := hmm.aligned e (by simp) ht
        have hl := hmm.whole e (by simp) ht
        have hfit := hmm.fits e (by simp) ht
        have hframe := entryFrame_iff ht hb hl
        have hpages := byteLenToPages_of_whole hl
        have hbase : e.base = e.base / 4096 * 4096 := by omega
        have hle : e.base / 4096 + e.length / 4096 ≤ 8 * a.bitmap.length ∨ e.length / 4096 = 0 := by
          by_cases hz : e.length / 4096 = 0
          · exact Or.inr hz
          · left
            have := hin (e.base / 4096 + e.length / 4096 - 1)
              (usableFrame_cons.mpr (Or.inl ((hframe _).mpr (by omega))))
            omega
        have hclear : ∃ bm, a.clearBitmapRegion e.base (byteLenToPages e.length) =
              some { a with bitmap := bm } ∧ bm.length = a.bitmap.length ∧
            ∀ q, bitSet bm q = if e.base / 4096 ≤ q ∧ q < e.base / 4096 + e.length / 4096 then false
              else bitSet a.bitmap q := by
          rw [hpages]
          rcases hle with hle | hz
          · rw [hbase]
            have := clearBitmapRegion_spec a hle (by omega)
            simpa using this
          · rw [hz]
            refine ⟨a.bitmap, rfl, rfl, fun q => ?_⟩
            rw [if_neg (by omega)]
        obtain ⟨bm, hset, hlen, hbits⟩ := hclear
        have hcard := card_clearFrames_clear hbits fun q h1 h2 =>
          hused q (usableFrame_cons.mpr (Or.inl ((hframe q).mpr ⟨h1, h2⟩)))
        have hcardle := card_clearFrames_le bm
        obtain ⟨bm', hrest, hlen', hbits'⟩ := ih hmm.tail
          { a with
            bitmap := bm
            allocatableFrames := u64 (a.allocatableFrames + byteLenToPages e.length) }
          (by simp only [hlen]; exact hsize)
          (fun q hq => by simp only [hlen]; exact hin q (usableFrame_cons.mpr (Or.inr hq)))
          (fun q hq => by
            rw [hbits, if_neg fun h => hmm.head_disjoint ((hframe q).mpr h) hq]
            exact hused q (usableFrame_cons.mpr (Or.inr hq)))
          (by simp only [hpages, hcount]; rw [u64_of_lt (by omega)]; omega)
        refine ⟨bm', ?_, hlen'.trans hlen, fun q => ?_⟩
        · simp only [clearUsableRegions, ht, ne_eq, not_true_eq_false, if_false, hset]
          exact hrest
        · rw [hbits', hbits, usableFrame_cons, hframe q]
          split_ifs with h <;> simp [h]
      · obtain ⟨bm, hrest, hlen, hbits⟩ := ih hmm.tail a hsize
          (fun q hq => hin q (usableFrame_cons.mpr (Or.inr hq)))
          (fun q hq => hused q (usableFrame_cons.mpr (Or.inr hq))) hcount
        refine ⟨bm, ?_, hlen, fun q => ?_⟩
        · simp only [clearUsableRegions, ht, ne_eq, not_false_iff, if_true]
          exact hrest
        · rw [hbits, usableFrame_cons]
          have : ¬ EntryFrame e q := fun h => ht h.1
          simp [this]

theorem findContiguousMemoryRegion_eq (mm : List LimineMemmapEntry) (offset size : ℕ) :
    findContiguousMemoryRegion mm offset size =
      (metadataEntry mm size).map fun e => physToVirtAt e.base offset := by
  unfold metadataEntry
  induction mm with
  | nil => rfl
  | cons e mm ih =>
      simp only [findContiguousMemoryRegion, List.find?_cons]
      by_cases ht : e.type = .usable <;> by_cases hs : size < e.length <;> simp [ht, hs, ih]

theorem bitmapSizeOf_bounds {n : ℕ} (h1 : 1 ≤ n) (h2 : n ≤ 2 ^ 52) :
    n ≤ 8 * bitmapSizeOf n ∧ bitmapSizeOf n ≤ 2 ^ 49 ∧ 1 ≤ bitmapSizeOf n := by
  have : bitmapSizeOf n = n / 8 + (if n % 8 ≠ 0 then 1 else 0) := by
    simp [bitmapSizeOf, Nat.shiftRight_eq_div_pow]
  rw [this]
  split_ifs <;> omega

theorem clearUsableRegions_init (hmm : MemmapOk mm) {size : ℕ} (hsize : size ≤ 2 ^ 49)
    (hin : ∀ q, UsableFrame mm q → q < 8 * size) :
    ∃ bm, clearUsableRegions (initPfAllocatorMetadata size) mm =
        some ⟨bm, size, 0, 0, (clearFrames bm).card, 0⟩ ∧
      bm.length = size ∧ ∀ q, bitSet bm q = false ↔ UsableFrame mm q := by
  have hempty : (clearFrames (List.replicate size 0xFF#8)).card = 0 := by
    rw [Finset.card_eq_zero, Finset.eq_empty_iff_forall_notMem]
    intro q hq
    rw [mem_clearFrames, bitSet_replicate] at hq
    cases hq
  obtain ⟨bm, hclear, hlen, hbits⟩ := clearUsableRegions_spec hmm (initPfAllocatorMetadata size)
    (by simpa [initPfAllocatorMetadata] using hsize)
    (by simpa [initPfAllocatorMetadata] using hin)
    (fun q _ => bitSet_replicate _ q) hempty.symm
  refine ⟨bm, hclear, by simpa [initPfAllocatorMetadata] using hlen, fun q => ?_⟩
  simpa [initPfAllocatorMetadata, bitSet_replicate] using hbits q

/-- `early_initialize_pf_bitmap`, with the metadata placed at the start of the usable entry `e`. -/
theorem inv_earlyInitializePfBitmap (hmm : MemmapOk mm) {size : ℕ} (hsize : size ≤ 2 ^ 49)
    (hpos : 1 ≤ size) (hin : ∀ q, UsableFrame mm q → q < 8 * size) {e : LimineMemmapEntry}
    (hmem : e ∈ mm) (ht : e.type = .usable) (hlong : pfAllocStructSize + size < e.length)
    (offset : ℕ) :
    ∃ a, earlyInitializePfBitmap (initPfAllocatorMetadata size) mm (physToVirtAt e.base offset)
        offset = some a ∧ a.bitmapSize = size ∧
      Inv mm (e.base / 4096, byteLenToPages (pfAllocStructSize + size)) a [] := by
  have hb := hmm.aligned e hmem ht
  have hl := hmm.whole e hmem ht
  have hfit := hmm.fits e hmem ht
  have hframe := entryFrame_iff ht hb hl
  have hphys : virtToPhysAt (physToVirtAt e.base offset) offset = e.base :=
    virtToPhysAt_physToVirtAt (by omega)
  obtain ⟨bm, hclear, hlen, hbits⟩ := clearUsableRegions_init hmm hsize hin
  set m := byteLenToPages (pfAllocStructSize + size) with hm
  have hmle : 0 < m ∧ m ≤ e.length / 4096 := by
    rw [hm]
    simp only [byteLenToPages, pageSize, pfAllocStructSize] at hlong ⊢
    split_ifs <;> omega
  have hfree : FreeRun (bitSet bm) (e.base / 4096) m := by
    intro q h1 h2
    exact (hbits q).mpr ⟨e, hmem, (hframe q).mpr ⟨h1, by omega⟩⟩
  have hle := FreeRun.lt_bits hmle.1 hfree
  obtain ⟨bm', hset, hlen', hbits'⟩ := setBitmapRegion_spec
    ⟨bm, size, 0, 0, (clearFrames bm).card, 0⟩ hle (by omega)
  dsimp only at hset hlen' hbits'
  have hcard := card_clearFrames_set hbits' hfree
  have hcardle := card_clearFrames_le bm
  rw [show e.base / 4096 * 4096 = e.base by omega] at hset
  refine ⟨allocatedNrFrames ⟨bm', size, 0, 0, (clearFrames bm).card, 0⟩ m, ?_, rfl, ?_⟩
  · simp [earlyInitializePfBitmap, hclear, hphys, ← hm, hset]
  constructor
  · exact ⟨hlen'.trans hlen, hpos, Nat.zero_lt_succ 7⟩
  · exact hsize
  · exact hin
  · intro q
    have hmem : q ∈ frames (e.base / 4096, m) ↔
        e.base / 4096 ≤ q ∧ q < e.base / 4096 + m := mem_frames
    simp only [allocatedNrFrames, hbits', List.not_mem_nil, false_implies, implies_true, and_true,
      hmem]
    split_ifs with h
    · simp [h]
    · simp [h, hbits q]
  · intro r hr
    cases hr
  · exact List.Pairwise.nil
  · simp only [allocatedNrFrames]
    rw [u64Sub_of_le (by omega) (by omega)]
    omega
  · simp only [allocatedNrFrames, List.map_nil, List.sum_nil]
    rw [u64_of_lt (by omega)]
    omega
  · simp only [allocatedNrFrames]
    rw [u64_of_lt (by omega), u64Sub_of_le (by omega) (by omega)]
    omega

/-- **Initialisation.**  On a well-formed memory map, with `memInfo` covering its frames,
`early_init_page_frame_allocator` stays inside the bitmap, and if it succeeds the invariant holds
with no live range. -/
theorem inv_init (hmm : MemmapOk mm) {memInfo : SysMemInfo} (h1 : 1 ≤ memInfo.nrOfPfns)
    (h2 : memInfo.nrOfPfns ≤ 2 ^ 52) (hpfn : ∀ q, UsableFrame mm q → q < memInfo.nrOfPfns)
    (offset : ℕ) :
    ∃ res, earlyInitPageFrameAllocator memInfo mm offset = some res ∧
      ∀ a, res = some a → Inv mm (metadataRange memInfo mm) a [] := by
  obtain ⟨hbs1, hbs2, hbs3⟩ := bitmapSizeOf_bounds h1 h2
  simp only [earlyInitPageFrameAllocator, findContiguousMemoryRegion_eq, metadataRange]
  rw [show pfAllocStructSize + bitmapSizeOf memInfo.nrOfPfns = metadataSize memInfo from rfl]
  cases hfind : metadataEntry mm (metadataSize memInfo) with
  | none => exact ⟨none, rfl, fun a h => by cases h⟩
  | some e =>
      have hmem : e ∈ mm := List.mem_of_find?_eq_some hfind
      have he := List.find?_some hfind
      simp only [decide_eq_true_eq] at he
      obtain ⟨a, ha, -, hinv⟩ := inv_earlyInitializePfBitmap hmm hbs2 hbs3
        (fun q hq => (hpfn q hq).trans_le hbs1) hmem he.1 he.2 offset
      refine ⟨some a, ?_, ?_⟩
      · simp only [Option.map_some, ha]
      · rintro _ ⟨⟩
        exact hinv

/-- The summary `init_system_memory_info` computes from the same map covers its frames. -/
theorem usableFrame_lt_nrOfPfns (hmm : MemmapOk mm) {q : ℕ} (hq : UsableFrame mm q) :
    q < (initSystemMemoryInfo (getBootMemInfo mm)).nrOfPfns := by
  obtain ⟨e, he, ht, h1, h2⟩ := hq
  have := pfn_lt_nrOfPfns he (hmm.fits e he ht) h1 h2
  rwa [physToPfn_eq, Nat.mul_div_cancel _ (by norm_num)] at this

/-- Frame `pfn` holds a byte of the allocator struct or of the bitmap, which begin at `base`. -/
def MetadataFrame (base : ℕ) (a : PfAlloc) (pfn : ℕ) : Prop :=
  ∃ b < pfAllocStructSize + a.bitmap.length, (base + b) / 4096 = pfn

/-- The bitmap describes the usable memory: the metadata is in the usable entry `e`, and all other
usable frames are free. -/
structure MarksUsable (mm : List LimineMemmapEntry) (offset : ℕ) (a : PfAlloc)
    (e : LimineMemmapEntry) : Prop where
  entry : e ∈ mm ∧ e.type = .usable
  placed : findContiguousMemoryRegion mm offset (pfAllocStructSize + a.bitmap.length) =
    some (physToVirtAt e.base offset)
  inside : ∀ q, MetadataFrame e.base a q → e.base ≤ q * 4096 ∧ (q + 1) * 4096 ≤ e.base + e.length
  bits : ∀ q, bitSet a.bitmap q = false ↔ UsableFrame mm q ∧ ¬ MetadataFrame e.base a q
  counted : a.allocatableFrames = (clearFrames a.bitmap).card

theorem metadataFrame_iff {base q : ℕ} (hbase : base % 4096 = 0) (a : PfAlloc) :
    MetadataFrame base a q ↔
      q ∈ frames (base / 4096, byteLenToPages (pfAllocStructSize + a.bitmap.length)) := by
  rw [mem_frames]
  simp only [MetadataFrame, byteLenToPages, pageSize, pfAllocStructSize]
  constructor
  · rintro ⟨b, hb, rfl⟩
    split_ifs <;> omega
  · rintro ⟨h1, h2⟩
    refine ⟨(q - base / 4096) * 4096, ?_, by omega⟩
    split_ifs at h2 <;> omega

/-- **Early initialisation.**  On every well-formed memory map
`early_init_page_frame_allocator` stays inside the bitmap, and if it succeeds the bitmap describes
the usable memory. -/
theorem early_init_marks_usable (hmm : MemmapOk mm) (offset : ℕ) :
    ∃ res, earlyInitPageFrameAllocator (initSystemMemoryInfo (getBootMemInfo mm)) mm offset = some res ∧
      ∀ a, res = some a → ∃ e, MarksUsable mm offset a e := by
  obtain ⟨h1, h2⟩ := nrOfPfns_bounds mm
  obtain ⟨hbs1, hbs2, hbs3⟩ := bitmapSizeOf_bounds h1 h2
  set memInfo := initSystemMemoryInfo (getBootMemInfo mm) with hinfo
  simp only [earlyInitPageFrameAllocator]
  cases hfind : metadataEntry mm (pfAllocStructSize + bitmapSizeOf memInfo.nrOfPfns) with
  | none =>
      refine ⟨none, ?_, fun a h => by cases h⟩
      rw [findContiguousMemoryRegion_eq, hfind]
      rfl
  | some e =>
      have hmem : e ∈ mm := List.mem_of_find?_eq_some hfind
      have he := List.find?_some hfind
      simp only [decide_eq_true_eq] at he
      obtain ⟨a, ha, hsize, inv⟩ := inv_earlyInitializePfBitmap hmm hbs2 hbs3
        (fun q hq => (usableFrame_lt_nrOfPfns hmm hq).trans_le hbs1) hmem he.1 he.2 offset
      have hregion : findContiguousMemoryRegion mm offset
          (pfAllocStructSize + bitmapSizeOf memInfo.nrOfPfns) = some (physToVirtAt e.base offset) := by
        rw [findContiguousMemoryRegion_eq, hfind]
        rfl
      refine ⟨some a, by simp only [hregion, ha, Option.map_some], ?_⟩
      rintro _ ⟨⟩
      have hbase := hmm.aligned e hmem he.1
      have hwhole := hmm.whole e hmem he.1
      have hlen : a.bitmap.length = bitmapSizeOf memInfo.nrOfPfns := inv.hintOk.length.trans hsize
      have hframes := fun q => metadataFrame_iff (q := q) hbase a
      refine ⟨e, ⟨hmem, he.1⟩, by rw [hlen, hregion], fun q hq => ?_, fun q => ?_, inv.allocatable⟩
      · obtain ⟨b, hb, rfl⟩ := hq
        have hlong := he.2
        rw [hlen] at hb
        omega
      · rw [inv.bits q, hframes q, hlen]
        simp

/-! ### Whole runs -/

/-- The calls of the allocator's interface. -/
inductive Call where
  | getPagesRaw (nr : ℕ)
  | getPages (nr : ℕ)
  | freePagesRaw (nr addr : ℕ)
  | freePages (nr addr : ℕ)
deriving DecidableEq, Repr

/-- The allocator together with the ranges its callers hold. -/
structure Sys where
  alloc : PfAlloc
  live : List (ℕ × ℕ)
deriving DecidableEq, Repr

/-- The caller's bookkeeping after a request for `nr` frames; `addr` is the physical address it was
given. -/
def Sys.handOut (live : List (ℕ × ℕ)) (nr : ℕ) (addr : Option ℕ) : List (ℕ × ℕ) :=
  match addr with
  | none => live
  | some addr => (physToPfn addr, nr) :: live

/-- One call. -/
def Sys.call (s : Sys) : Call → Option Sys
  | .getPagesRaw nr => do
      let (a, addr) ← s.alloc.getPagesRaw nr
      return ⟨a, handOut s.live nr addr⟩
  | .getPages nr => do
      let (a, vaddr) ← s.alloc.getPages nr
      return ⟨a, handOut s.live nr (vaddr.map virtToPhys)⟩
  | .freePagesRaw nr addr => do
      let a ← s.alloc.freePagesRaw nr addr
      return ⟨a, s.live.erase (physToPfn addr, nr)⟩
  | .freePages nr vaddr => do
      let a ← s.alloc.freePages nr vaddr
      return ⟨a, s.live.erase (physToPfn (virtToPhys vaddr), nr)⟩

/-- The callers' side of the contract: a release returns exactly one live range. -/
def Sys.Allowed (s : Sys) : Call → Prop
  | .getPagesRaw _ => True
  | .getPages _ => True
  | .freePagesRaw nr addr => ∃ p, (p, nr) ∈ s.live ∧ addr = pfnToPhys p
  | .freePages nr vaddr => ∃ p, (p, nr) ∈ s.live ∧ vaddr = physToVirt (pfnToPhys p)

/-- One step of a run: an allowed call and its effect. -/
def Sys.Step (s : Sys) (c : Call) (s' : Sys) : Prop := s.Allowed c ∧ s.call c = some s'

theorem inv_call {s : Sys} (inv : Inv mm md s.alloc s.live) {c : Call} (hc : s.Allowed c) :
    ∃ s', s.call c = some s' ∧ Inv mm md s'.alloc s'.live := by
  have hsize := inv.size_le
  have hget : ∀ nr, ∃ a res, s.alloc.getPagesImpl nr = some (a, res) ∧
      Inv mm md a (Sys.handOut s.live nr res) ∧ ∀ addr ∈ res, addr < 2 ^ 64 := by
    intro nr
    obtain ⟨a, res, hcall, hfail, hok⟩ := inv.getPagesImpl nr
    refine ⟨a, res, hcall, ?_, ?_⟩
    · cases res with
      | none => rw [hfail rfl]; exact inv
      | some addr =>
          obtain ⟨p, rfl, -, -, hinv⟩ := hok addr rfl
          simpa [Sys.handOut, physToPfn_eq] using hinv
    · rintro addr rfl
      obtain ⟨p, rfl, hle, hfree, hinv⟩ := hok addr rfl
      have := (hinv.liveUsable (p, nr) (by simp)).1
      simp only at this
      omega
  have hfree : ∀ p nr, (p, nr) ∈ s.live → ∃ a, s.alloc.freePagesRaw nr (pfnToPhys p) = some a ∧
      Inv mm md a (s.live.erase (physToPfn (pfnToPhys p), nr)) ∧ pfnToPhys p < 2 ^ 64 := by
    intro p nr hp
    obtain ⟨a, hcall, hinv⟩ := inv.freePagesRaw hp
    have hle := inv.live_le hp
    have hpos := (inv.liveUsable _ hp).1
    simp only at hle hpos
    have hlt : p < 2 ^ 52 := by omega
    refine ⟨a, by rw [pfnToPhys_eq hlt]; exact hcall, by rw [physToPfn_pfnToPhys hlt]; exact hinv, ?_⟩
    rw [pfnToPhys_eq hlt]
    omega
  cases c with
  | getPagesRaw nr =>
      obtain ⟨a, res, hcall, hinv, -⟩ := hget nr
      exact ⟨⟨a, Sys.handOut s.live nr res⟩, by simp [Sys.call, getPagesRaw, hcall], hinv⟩
  | getPages nr =>
      obtain ⟨a, res, hcall, hinv, hlt⟩ := hget nr
      refine ⟨⟨a, Sys.handOut s.live nr res⟩, ?_, hinv⟩
      have hres : (res.map physToVirt).map virtToPhys = res := by
        cases res with
        | none => rfl
        | some addr => simp [virtToPhys_physToVirt (hlt addr rfl)]
      simp only [Sys.call, getPages, hcall, Option.bind_eq_bind, Option.bind_some, Option.pure_def,
        hres]
  | freePagesRaw nr addr =>
      obtain ⟨p, hp, haddr⟩ := hc
      obtain ⟨a, hcall, hinv, -⟩ := hfree p nr hp
      rw [← haddr] at hcall hinv
      exact ⟨⟨a, s.live.erase (physToPfn addr, nr)⟩, by simp [Sys.call, hcall], hinv⟩
  | freePages nr vaddr =>
      obtain ⟨p, hp, haddr⟩ := hc
      obtain ⟨a, hcall, hinv, hlt⟩ := hfree p nr hp
      have hphys : virtToPhys vaddr = pfnToPhys p := by rw [haddr]; exact virtToPhys_physToVirt hlt
      rw [← hphys] at hcall hinv
      exact ⟨⟨a, s.live.erase (physToPfn (virtToPhys vaddr), nr)⟩,
        by simp [Sys.call, freePages, hcall], hinv⟩

/-- The invariant holds after every run from a freshly initialised allocator. -/
theorem inv_run (hmm : MemmapOk mm) {offset : ℕ} {a : PfAlloc}
    (hinit : earlyInitPageFrameAllocator (initSystemMemoryInfo (getBootMemInfo mm)) mm offset =
      some (some a))
    {calls : List Call} {s : Sys} (hrun : Run Sys.Step ⟨a, []⟩ calls s) :
    Inv mm (metadataRange (initSystemMemoryInfo (getBootMemInfo mm)) mm) s.alloc s.live := by
  obtain ⟨h1, h2⟩ := nrOfPfns_bounds mm
  obtain ⟨res, hres, hinv⟩ := inv_init hmm h1 h2 (fun q => usableFrame_lt_nrOfPfns hmm) offset
  rw [hinit] at hres
  refine hrun.invariant
    (I := fun s => Inv mm (metadataRange (initSystemMemoryInfo (getBootMemInfo mm)) mm) s.alloc s.live)
    ?_ (hinv a (Option.some.inj hres).symm)
  rintro s c s' hs ⟨hc, hcall⟩
  obtain ⟨s'', hcall', hinv'⟩ := inv_call hs hc
  rw [hcall] at hcall'
  rw [Option.some.inj hcall']
  exact hinv'

/-- **The allocator over whole runs.**  After any sequence of requests and of releases of live
ranges: the live ranges are disjoint and consist of usable frames outside the metadata; a bit is
set iff its frame is not usable, metadata or live; the counters count the clear bits and the frames
in use; the hint points into the bitmap; a failing request changes nothing; and every allowed call
is defined, so the bitmap is never accessed out of bounds and no search runs forever. -/
theorem run_invariant (hmm : MemmapOk mm) {offset : ℕ} {a : PfAlloc}
    (hinit : earlyInitPageFrameAllocator (initSystemMemoryInfo (getBootMemInfo mm)) mm offset =
      some (some a))
    {calls : List Call} {s : Sys} (hrun : Run Sys.Step ⟨a, []⟩ calls s) :
    let md := metadataRange (initSystemMemoryInfo (getBootMemInfo mm)) mm
    (s.live.Pairwise (fun r t => Disjoint (frames r) (frames t)) ∧
      ∀ r ∈ s.live, ∀ q ∈ frames r, UsableFrame mm q ∧ q ∉ frames md) ∧
    (∀ q, q < 8 * s.alloc.bitmapSize → (bitSet s.alloc.bitmap q = true ↔
      ¬ UsableFrame mm q ∨ q ∈ frames md ∨ ∃ r ∈ s.live, q ∈ frames r)) ∧
    (s.alloc.allocatableFrames = (clearFrames s.alloc.bitmap).card ∧
      s.alloc.allocatedPageFrames = md.2 + (s.live.map Prod.snd).sum) ∧
    (s.alloc.lastAllocByteHint < s.alloc.bitmapSize ∧ s.alloc.lastAllocBitHint < 8) ∧
    (∀ nr a', s.alloc.getPagesRaw nr = some (a', none) ∨ s.alloc.getPages nr = some (a', none) →
      a' = s.alloc) ∧
    ∀ c, s.Allowed c → ∃ s', s.call c = some s' := by
  intro md
  have inv := inv_run hmm hinit hrun
  refine ⟨⟨inv.liveDisjoint, fun r hr => (inv.liveUsable r hr).2⟩, fun q _ => ?_,
    ⟨inv.allocatable, inv.allocated⟩, ⟨inv.hintOk.byte_lt, inv.hintOk.bit_lt⟩, fun nr a' h => ?_,
    fun c hc => (inv_call inv hc).imp fun _ h => h.1⟩
  · rw [← Bool.not_eq_false, inv.bits q]
    simp only [not_and_or, not_not, not_forall, exists_prop]
    exact Iff.rfl
  · obtain ⟨b, res, hcall, hfail, -⟩ := inv.getPagesImpl nr
    simp only [getPagesRaw, getPages, hcall, Option.bind_eq_bind, Option.bind_some,
      Option.pure_def, Option.some.injEq, Prod.mk.injEq] at h
    rcases h with ⟨rfl, h⟩ | ⟨rfl, h⟩
    · exact hfail h
    · exact hfail (by simpa using h)

/-- A map with a single usable entry of four frames. -/
def fourFrames : List LimineMemmapEntry := [⟨0, 16384, .usable⟩]

theorem fourFrames_ok : MemmapOk fourFrames where
  aligned := by simp [fourFrames]
  whole := by simp [fourFrames]
  fits := by simp [fourFrames]
  disjoint := List.pairwise_singleton _ _

/-- The allocator after initialisation on `fourFrames`: frame `0` holds the metadata. -/
def fourFramesInit : PfAlloc := ⟨[0x8F#8], 1, 0, 0, 3, 1⟩

theorem fourFrames_init :
    earlyInitPageFrameAllocator (initSystemMemoryInfo (getBootMemInfo fourFrames)) fourFrames 0 =
      some (some fourFramesInit) := rfl

/-- The metadata is in the first of the four frames. -/
theorem early_init_marks_usable_four_frames :
    ∃ e, MarksUsable fourFrames 0 fourFramesInit e := by
  obtain ⟨res, hres, hmarks⟩ := early_init_marks_usable fourFrames_ok 0
  rw [fourFrames_init] at hres
  exact hmarks _ (Option.some.inj hres).symm

/-- Taking two frames and giving them back. -/
theorem run_invariant_two_frames :
    Run Sys.Step ⟨fourFramesInit, []⟩ [.getPagesRaw 2, .freePagesRaw 2 4096]
        ⟨⟨[0x8F#8], 1, 0, 3, 3, 1⟩, []⟩ ∧
      (clearFrames [0x8F#8]).card = 3 := by
  have hrun : Run Sys.Step ⟨fourFramesInit, []⟩ ([] ++ [.getPagesRaw 2] ++ [.freePagesRaw 2 4096])
      ⟨⟨[0x8F#8], 1, 0, 3, 3, 1⟩, []⟩ :=
    Run.snoc (Run.snoc (Run.nil _) ⟨trivial, rfl⟩)
      ⟨⟨1, by decide, by rw [pfnToPhys_eq (by norm_num)]⟩, rfl⟩
  have h := run_invariant fourFrames_ok fourFrames_init hrun
  exact ⟨hrun, h.2.2.1.1.symm⟩

/-- **When `__get_pages` is complete.**  In every reachable state and for every `nr ≥ 1`: a request
for which there are `nr` contiguous free frames is served iff the frames in use (metadata and live)
outnumber the free ones (the subtraction wraps around), or leave at least `nr` of them after being
subtracted.  The pre-check of `__get_pages` takes the frames in use off the free frames, although
`allocatable_frames` already excludes them. -/
theorem getPages_complete_iff (hmm : MemmapOk mm) {offset : ℕ} {a : PfAlloc}
    (hinit : earlyInitPageFrameAllocator (initSystemMemoryInfo (getBootMemInfo mm)) mm offset =
      some (some a))
    {calls : List Call} {s : Sys} (hrun : Run Sys.Step ⟨a, []⟩ calls s) {nr : ℕ} (hnr : 1 ≤ nr) :
    let used := (metadataRange (initSystemMemoryInfo (getBootMemInfo mm)) mm).2 +
      (s.live.map Prod.snd).sum
    let free := (clearFrames s.alloc.bitmap).card
    ((∃ p, FreeRun (bitSet s.alloc.bitmap) p nr) →
        ∃ a' addr, s.alloc.getPagesImpl nr = some (a', some addr)) ↔
      ((∃ p, FreeRun (bitSet s.alloc.bitmap) p nr) → free < used ∨ used + nr ≤ free) := by
  intro used free
  have inv := inv_run hmm hinit hrun
  have hfree : s.alloc.allocatableFrames = free := inv.allocatable
  have hused : s.alloc.allocatedPageFrames = used := inv.allocated
  have htot := inv.total_le
  have hsize := inv.size_le
  refine imp_congr_right fun hrunEx => ?_
  obtain ⟨p, hp⟩ := hrunEx
  have hlt := FreeRun.lt_bits hnr hp
  rw [inv.hintOk.length] at hlt
  have hpre : (nr = 0 ∨ s.alloc.freeFrames < nr) ↔ ¬ (free < used ∨ used + nr ≤ free) := by
    unfold freeFrames
    rw [hfree, hused]
    by_cases h : used ≤ free
    · rw [u64Sub_of_le (by omega) h]; omega
    · rw [u64Sub_of_lt (by omega) (by omega)]; omega
  have hiff := inv.getPagesImpl_none_iff hnr
  constructor
  · rintro ⟨a', addr, h⟩
    by_contra hc
    rw [PfAlloc.getPagesImpl, if_pos (hpre.mpr hc)] at h
    simp at h
  · intro hc
    obtain ⟨a', res, hcall, hsame, -⟩ := inv.getPagesImpl nr
    cases res with
    | some addr => exact ⟨a', addr, hcall⟩
    | none =>
        rw [hsame rfl] at hcall
        have hcount : ¬ (nr = 0 ∨ s.alloc.freeFrames < nr) := fun h => hpre.mp h hc
        exact absurd ⟨by omega, p, hp⟩ (hiff.mp hcall)

/-- Right after initialisation two of the three free frames are handed out. -/
theorem getPages_complete_iff_two_frames :
    ∃ a' addr, fourFramesInit.getPagesImpl 2 = some (a', some addr) := by
  have hfree : FreeRun (bitSet fourFramesInit.bitmap) 1 2 := by decide
  have hcard : (clearFrames fourFramesInit.bitmap).card = 3 := by decide
  refine (getPages_complete_iff fourFrames_ok fourFrames_init (Run.nil _) (by norm_num)).mpr ?_
    ⟨1, hfree⟩
  intro _
  exact Or.inr (by rw [hcard]; decide)

/-- Right after initialisation frames `1`, `2`, `3` are free, but a request for three frames is
refused. -/
theorem getPages_three_frames_refused :
    MemmapOk fourFrames ∧
      earlyInitPageFrameAllocator (initSystemMemoryInfo (getBootMemInfo fourFrames)) fourFrames 0 =
        some (some fourFramesInit) ∧
      Run Sys.Step ⟨fourFramesInit, []⟩ [] ⟨fourFramesInit, []⟩ ∧
      FreeRun (bitSet fourFramesInit.bitmap) 1 3 ∧
      fourFramesInit.getPagesImpl 3 = some (fourFramesInit, none) :=
  ⟨fourFrames_ok, fourFrames_init, Run.nil _, by decide, rfl⟩

end HyveMind.PfAlloc
