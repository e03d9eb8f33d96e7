import HyveMind.Halloc
import HyveMind.PfAllocRun

/-! # Who owns which bytes of the heap

Every page range that the page-frame allocator has handed out has at most one use in the heap
allocator: it holds `alloc_pages_array`, it is cut into the chunks of one bin, or it is a block of
its own.  `HeapOk` ties these uses to the flags, the free lists and the blocks of the clients.

The operations of `halloc.c` are sequences of a few moves: a range comes or goes, it gets a use or
loses it, bytes change that nothing depends on, a free list is exchanged, a block is added or
removed.  Each move keeps `HeapOk`. -/

namespace HyveMind.Halloc

open Lib PfAlloc

/-! ### Pages of the direct mapping -/

/-- Where page frame `q` begins in the direct mapping. -/
def frameAddr (q : ℕ) : ℕ := hypervisorDirectMappingOffset + q * 4096

theorem frameAddr_eq (q : ℕ) : frameAddr q = 2 ^ 64 - 2 ^ 47 + q * 4096 := by
  simp only [frameAddr, hypervisorDirectMappingOffset]
  norm_num

theorem physToVirt_eq_frameAddr {q : ℕ} (hq : q < 2 ^ 35) : physToVirt (q * 4096) = frameAddr q := by
  simp only [physToVirt, physToVirtAt, u64, frameAddr, hypervisorDirectMappingOffset]
  omega

theorem virtToPhys_frameAddr {q k : ℕ} (hq : q * 4096 + k < 2 ^ 47) :
    virtToPhys (frameAddr q + k) = q * 4096 + k := by
  simp only [virtToPhys, virtToPhysAt, u64Sub, u64, frameAddr, hypervisorDirectMappingOffset]
  omega

theorem pfn_of_frameAddr {q k : ℕ} (hq : q < 2 ^ 35) (hk : k < 4096) :
    physToPfn (virtToPhys (frameAddr q + k)) = q := by
  rw [virtToPhys_frameAddr (by omega), physToPfn_eq]
  omega

/-- The bytes from `a` on, `len` of them, lie in the page range `r`. -/
def Within (r : ℕ × ℕ) (a len : ℕ) : Prop := frameAddr r.1 ≤ a ∧ a + len ≤ frameAddr (r.1 + r.2)

/-- Two pieces of memory do not overlap. -/
def Apart (a len b len' : ℕ) : Prop := a + len ≤ b ∨ b + len' ≤ a

instance (a len b len' : ℕ) : Decidable (Apart a len b len') :=
  inferInstanceAs (Decidable (_ ∨ _))

theorem apart_of_within {r t : ℕ × ℕ} {a len b len' : ℕ} (ha : Within r a len)
    (hb : Within t b len') (h : r.1 + r.2 ≤ t.1 ∨ t.1 + t.2 ≤ r.1) : Apart a len b len' := by
  unfold Within frameAddr at *
  unfold Apart
  omega

/-! ### Uses of page ranges -/

/-- What the heap allocator does with a page range. -/
inductive Use
  | array
  | bin (i : ℕ)
  | block
deriving DecidableEq, Repr

/-- A block in the hands of a client. -/
structure Block where
  ptr : ℕ
  req : ℕ
  alignment : ℕ
deriving DecidableEq, Repr

namespace Block

/-- `actual_req`. -/
def actualReq (b : Block) : ℕ := max b.req b.alignment

/-- The bin that the block comes from. -/
def binIndex (b : Block) : ℕ := sizeToBinIndex b.actualReq

/-- The number of pages of a block that comes from no bin. -/
def nrPages (b : Block) : ℕ := roundUp b.actualReq pageSize

/-- The size of the block. -/
def size (b : Block) : ℕ := if b.binIndex = invalidBinIndex then b.nrPages * 4096 else 2 ^ (5 + b.binIndex)

theorem size_of_bin {b : Block} (h : b.binIndex ≠ invalidBinIndex) :
    b.size = 2 ^ (5 + b.binIndex) := if_neg h

end Block

/-- The page ranges that are in use and what for, the free chunks of every bin, the blocks of the
clients, and the ranges of other users of the page-frame allocator. -/
structure Ghost where
  live : List (ℕ × ℕ)
  use : ℕ × ℕ → Option Use
  free : ℕ → List ℕ
  blocks : List Block
  others : List (ℕ × ℕ)

/-- A chunk of bin `i`, which is `2 ^ (5 + i)` bytes large. -/
def IsChunk (use : ℕ × ℕ → Option Use) (i c : ℕ) : Prop :=
  ∃ r, use r = some (.bin i) ∧ Within r c (2 ^ (5 + i)) ∧ c % 2 ^ (5 + i) = 0

/-- A block of the clients: a chunk that is not free, or a page range of its own that is recorded
in `alloc_pages_array`. -/
def BlockOk (s : Halloc) (g : Ghost) (b : Block) : Prop :=
  if b.binIndex = invalidBinIndex then
    ∃ p, g.use (p, b.nrPages) = some .block ∧ b.ptr = frameAddr p ∧ b.nrPages ≤ 256 ∧
      s.hallocFlags p = 48 ∧ s.contigAllocated p = b.nrPages % 256
  else IsChunk g.use b.binIndex b.ptr ∧ b.ptr ∉ g.free b.binIndex

/-- The bytes that the invariant reads: the records of the frames in use and the links of the free
chunks. -/
def Guarded (s : Halloc) (g : Ghost) (a : ℕ) : Prop :=
  (∃ r u q, g.use r = some u ∧ q ∈ frames r ∧ (a = s.allocPageAddr q ∨ a = s.allocPageAddr q + 1)) ∨
    ∃ i c, i ≤ 6 ∧ c ∈ g.free i ∧ c ≤ a ∧ a < c + 8

/-- The invariant of the heap allocator.  `nrPfns` is the number of records. -/
structure HeapOk (mm : List LimineMemmapEntry) (md : ℕ × ℕ) (nrPfns : ℕ) (s : Halloc) (g : Ghost) :
    Prop where
  pf : PfAlloc.Inv mm md s.pf g.live
  used : ∀ r u, g.use r = some u → r ∈ g.live
  array : ∃ r, g.use r = some .array ∧ s.allocPagesArray = frameAddr r.1 ∧ 2 * nrPfns ≤ r.2 * 4096
  binLe : ∀ r i, g.use r = some (.bin i) → i ≤ 6
  flags : ∀ r i, g.use r = some (.bin i) → ∀ q ∈ frames r, s.hallocFlags q = 32 + i
  list : ∀ i ≤ 6, LinkedFrom s.mem (s.bins i) (g.free i)
  chunk : ∀ i ≤ 6, ∀ c ∈ g.free i, IsChunk g.use i c
  nodup : ∀ i ≤ 6, (g.free i).Nodup
  block : ∀ b ∈ g.blocks, BlockOk s g b
  distinct : g.blocks.Pairwise fun b b' => b.ptr ≠ b'.ptr
  other : ∀ r ∈ g.others, r ∈ g.live ∧ g.use r = none

/-- All usable memory has a record, and all of it lies in the direct mapping. -/
structure RamOk (mm : List LimineMemmapEntry) (nrPfns : ℕ) : Prop where
  recorded : ∀ q, UsableFrame mm q → q < nrPfns
  mapped : ∀ q, UsableFrame mm q → q < 2 ^ 35

section Own

variable {mm : List LimineMemmapEntry} {md : ℕ × ℕ} {nrPfns : ℕ} {s : Halloc} {g : Ghost}

/-! ### Ranges -/

theorem range_lt (ram : RamOk mm nrPfns) {a : PfAlloc} {live : List (ℕ × ℕ)}
    (inv : PfAlloc.Inv mm md a live) {r : ℕ × ℕ} (hr : r ∈ live) :
    0 < r.2 ∧ r.1 + r.2 ≤ nrPfns ∧ r.1 + r.2 ≤ 2 ^ 35 := by
  obtain ⟨hpos, hu⟩ := inv.liveUsable r hr
  have hlast := (hu (r.1 + r.2 - 1) (mem_frames.mpr (by omega))).1
  have := ram.recorded _ hlast
  have := ram.mapped _ hlast
  omega

theorem ranges_apart {a : PfAlloc} {live : List (ℕ × ℕ)} (inv : PfAlloc.Inv mm md a live)
    {r t : ℕ × ℕ} (hr : r ∈ live) (ht : t ∈ live) (hne : r ≠ t) :
    r.1 + r.2 ≤ t.1 ∨ t.1 + t.2 ≤ r.1 := by
  by_contra hover
  have h1 := (inv.liveUsable r hr).1
  have h2 := (inv.liveUsable t ht).1
  exact hne (inv.eq_of_mem hr ht (q := max r.1 t.1) (mem_frames.mpr (by omega))
    (mem_frames.mpr (by omega)))

theorem HeapOk.apart (ok : HeapOk mm md nrPfns s g) {r t : ℕ × ℕ} {a len b len' : ℕ}
    (hr : r ∈ g.live) (ht : t ∈ g.live) (hne : r ≠ t) (ha : Within r a len)
    (hb : Within t b len') : Apart a len b len' :=
  apart_of_within ha hb (ranges_apart ok.pf hr ht hne)

/-- The records of the frames of a live range lie in the array. -/
theorem HeapOk.record_within (ram : RamOk mm nrPfns) (ok : HeapOk mm md nrPfns s g) {r : ℕ × ℕ}
    (hr : r ∈ g.live) {q : ℕ} (hq : q ∈ frames r) :
    ∃ t, g.use t = some .array ∧ Within t (s.allocPageAddr q) 2 := by
  obtain ⟨t, ht, harr, hsize⟩ := ok.array
  have hlt := (range_lt ram ok.pf hr).2.1
  rw [mem_frames] at hq
  refine ⟨t, ht, ?_⟩
  unfold Within allocPageAddr frameAddr at *
  simp only [allocPageSize]
  omega

theorem IsChunk.live (ok : HeapOk mm md nrPfns s g) {i c : ℕ} (hc : IsChunk g.use i c) :
    ∃ r ∈ g.live, g.use r = some (.bin i) ∧ Within r c (2 ^ (5 + i)) ∧ c % 2 ^ (5 + i) = 0 := by
  obtain ⟨r, hr, h⟩ := hc
  exact ⟨r, ok.used r _ hr, hr, h⟩

theorem HeapOk.chunks_apart (ok : HeapOk mm md nrPfns s g) {i j c d : ℕ} (hc : IsChunk g.use i c)
    (hd : IsChunk g.use j d) (hne : i = j → c ≠ d) :
    Apart c (2 ^ (5 + i)) d (2 ^ (5 + j)) := by
  obtain ⟨r, hr, hur, hwr, hmr⟩ := hc.live ok
  obtain ⟨t, ht, hut, hwt, hmt⟩ := hd.live ok
  by_cases hrt : r = t
  · subst hrt
    obtain rfl : i = j := by
      rw [hur] at hut
      simpa using hut
    obtain ⟨k, rfl⟩ := Nat.dvd_of_mod_eq_zero hmr
    obtain ⟨l, rfl⟩ := Nat.dvd_of_mod_eq_zero hmt
    have hkl : k ≠ l := fun h => hne rfl (by rw [h])
    unfold Apart
    rcases Nat.lt_or_gt_of_ne hkl with h | h
    · left
      calc 2 ^ (5 + i) * k + 2 ^ (5 + i) = 2 ^ (5 + i) * (k + 1) := by ring
        _ ≤ 2 ^ (5 + i) * l := Nat.mul_le_mul_left _ h
    · right
      calc 2 ^ (5 + i) * l + 2 ^ (5 + i) = 2 ^ (5 + i) * (l + 1) := by ring
        _ ≤ 2 ^ (5 + i) * k := Nat.mul_le_mul_left _ h
  · exact ok.apart hr ht hrt hwr hwt

/-- The frame of an address in a range is one of the range's frames. -/
theorem pfn_mem_frames (ram : RamOk mm nrPfns) (ok : HeapOk mm md nrPfns s g) {r : ℕ × ℕ}
    (hr : r ∈ g.live) {c len : ℕ} (hlen : 0 < len) (hw : Within r c len) :
    physToPfn (virtToPhys c) ∈ frames r := by
  have hlt := (range_lt ram ok.pf hr).2.2
  unfold Within at hw
  simp only [frameAddr_eq] at hw
  have hphys := virtToPhys_frameAddr (q := r.1) (k := c - frameAddr r.1) (by
    rw [frameAddr_eq]
    omega)
  rw [Nat.add_sub_cancel' (by rw [frameAddr_eq]; omega)] at hphys
  rw [hphys, physToPfn_eq, mem_frames, frameAddr_eq]
  omega

/-! ### Moves -/

theorem HeapOk.setMem (ok : HeapOk mm md nrPfns s g) (mem' : ℕ → ℕ)
    (hag : ∀ a, Guarded s g a → mem' a = s.mem a) : HeapOk mm md nrPfns { s with mem := mem' } g := by
  have hrec : ∀ r u q, g.use r = some u → q ∈ frames r →
      mem' (s.allocPageAddr q) = s.mem (s.allocPageAddr q) ∧
        mem' (s.allocPageAddr q + 1) = s.mem (s.allocPageAddr q + 1) := fun r u q hr hq =>
    ⟨hag _ (.inl ⟨r, u, q, hr, hq, .inl rfl⟩), hag _ (.inl ⟨r, u, q, hr, hq, .inr rfl⟩)⟩
  constructor
  · exact ok.pf
  · exact ok.used
  · exact ok.array
  · exact ok.binLe
  · intro r i hr q hq
    exact (hrec r _ q hr hq).1.trans (ok.flags r i hr q hq)
  · intro i hi
    apply (ok.list i hi).congr
    exact fun c hc b h1 h2 => hag b (.inr ⟨i, c, hi, hc, h1, h2⟩)
  · exact ok.chunk
  · exact ok.nodup
  · intro b hb
    have hold := ok.block b hb
    unfold BlockOk at hold ⊢
    split_ifs at hold ⊢ with hbig
    · obtain ⟨p, hp, hptr, hle, hflags, hcontig⟩ := hold
      have hpos := (ok.pf.liveUsable _ (ok.used _ _ hp)).1
      have hq : p ∈ frames (p, b.nrPages) := mem_frames.mpr ⟨le_refl _, Nat.lt_add_of_pos_right hpos⟩
      exact ⟨p, hp, hptr, hle, (hrec _ _ p hp hq).1.trans hflags,
        (hrec _ _ p hp hq).2.trans hcontig⟩
    · exact hold
  · exact ok.distinct
  · exact ok.other

theorem HeapOk.grant (ok : HeapOk mm md nrPfns s g) {pf' : PfAlloc} {r : ℕ × ℕ}
    (hpf : PfAlloc.Inv mm md pf' (r :: g.live)) :
    HeapOk mm md nrPfns { s with pf := pf' } { g with live := r :: g.live } where
  pf := hpf
  used := fun t u ht => List.mem_cons_of_mem _ (ok.used t u ht)
  array := ok.array
  binLe := ok.binLe
  flags := ok.flags
  list := ok.list
  chunk := ok.chunk
  nodup := ok.nodup
  block := ok.block
  distinct := ok.distinct
  other := fun t ht => ⟨List.mem_cons_of_mem _ (ok.other t ht).1, (ok.other t ht).2⟩

theorem HeapOk.release (ok : HeapOk mm md nrPfns s g) {pf' : PfAlloc} {r : ℕ × ℕ}
    (hpf : PfAlloc.Inv mm md pf' (g.live.erase r)) (huse : g.use r = none) (hother : r ∉ g.others) :
    HeapOk mm md nrPfns { s with pf := pf' } { g with live := g.live.erase r } where
  pf := hpf
  used := fun t u ht => (List.mem_erase_of_ne fun h => by
    rw [h, huse] at ht
    cases ht).mpr (ok.used t u ht)
  array := ok.array
  binLe := ok.binLe
  flags := ok.flags
  list := ok.list
  chunk := ok.chunk
  nodup := ok.nodup
  block := ok.block
  distinct := ok.distinct
  other := fun t ht => by
    have hne : t ≠ r := fun h => hother (h ▸ ht)
    exact ⟨(List.mem_erase_of_ne hne).mpr (ok.other t ht).1, (ok.other t ht).2⟩

theorem HeapOk.setUse (ok : HeapOk mm md nrPfns s g) {r : ℕ × ℕ} {u : Use} (hr : r ∈ g.live)
    (hnone : g.use r = none) (hother : r ∉ g.others)
    (hbin : ∀ i, u = .bin i → i ≤ 6 ∧ ∀ q ∈ frames r, s.hallocFlags q = 32 + i) :
    HeapOk mm md nrPfns s { g with use := Function.update g.use r (some u) } := by
  have hkeep : ∀ t v, g.use t = some v → Function.update g.use r (some u) t = some v := by
    intro t v ht
    rw [Function.update_of_ne, ht]
    rintro rfl
    rw [hnone] at ht
    cases ht
  have hcases : ∀ t v, Function.update g.use r (some u) t = some v →
      t = r ∧ v = u ∨ g.use t = some v := by
    intro t v ht
    by_cases htr : t = r
    · rw [htr, Function.update_self, Option.some.injEq] at ht
      exact .inl ⟨htr, ht.symm⟩
    · rw [Function.update_of_ne htr] at ht
      exact .inr ht
  have hchunk : ∀ i c, IsChunk g.use i c → IsChunk (Function.update g.use r (some u)) i c := by
    rintro i c ⟨t, ht, h⟩
    exact ⟨t, hkeep t _ ht, h⟩
  constructor
  · exact ok.pf
  · intro t v ht
    rcases hcases t v ht with ⟨rfl, -⟩ | ht
    · exact hr
    · exact ok.used t v ht
  · obtain ⟨t, ht, h⟩ := ok.array
    exact ⟨t, hkeep t _ ht, h⟩
  · intro t i ht
    rcases hcases t _ ht with ⟨-, hu⟩ | ht
    · exact (hbin i hu.symm).1
    · exact ok.binLe t i ht
  · intro t i ht
    rcases hcases t _ ht with ⟨rfl, hu⟩ | ht
    · exact (hbin i hu.symm).2
    · exact ok.flags t i ht
  · exact ok.list
  · exact fun i hi c hc => hchunk i c (ok.chunk i hi c hc)
  · exact ok.nodup
  · intro b hb
    have hold := ok.block b hb
    unfold BlockOk at hold ⊢
    split_ifs at hold ⊢ with hbig
    · obtain ⟨p, hp, h⟩ := hold
      exact ⟨p, hkeep _ _ hp, h⟩
    · exact ⟨hchunk _ _ hold.1, hold.2⟩
  · exact ok.distinct
  · intro t ht
    obtain ⟨h1, h2⟩ := ok.other t ht
    have hne : t ≠ r := fun h => hother (h ▸ ht)
    exact ⟨h1, by simpa [hne] using h2⟩

/-- The range of a block that has been given up loses its use. -/
theorem HeapOk.clearUse (ok : HeapOk mm md nrPfns s g) {r : ℕ × ℕ} (hr : g.use r = some .block)
    (hfree : ∀ b ∈ g.blocks, b.binIndex = invalidBinIndex → b.ptr ≠ frameAddr r.1) :
    HeapOk mm md nrPfns s { g with use := Function.update g.use r none } := by
  have hkeep : ∀ t v, t ≠ r → g.use t = some v → Function.update g.use r none t = some v := by
    intro t v hne ht
    rw [Function.update_of_ne hne, ht]
  have hold : ∀ t v, Function.update g.use r none t = some v → g.use t = some v := by
    intro t v ht
    by_cases htr : t = r
    · rw [htr, Function.update_self] at ht
      cases ht
    · rwa [Function.update_of_ne htr] at ht
  have hchunk : ∀ i c, IsChunk g.use i c → IsChunk (Function.update g.use r none) i c := by
    rintro i c ⟨t, ht, h⟩
    refine ⟨t, hkeep t _ ?_ ht, h⟩
    rintro rfl
    rw [hr] at ht
    cases ht
  constructor
  · exact ok.pf
  · exact fun t v ht => ok.used t v (hold t v ht)
  · obtain ⟨t, ht, h⟩ := ok.array
    refine ⟨t, hkeep t _ ?_ ht, h⟩
    rintro rfl
    rw [hr] at ht
    cases ht
  · exact fun t i ht => ok.binLe t i (hold t _ ht)
  · exact fun t i ht => ok.flags t i (hold t _ ht)
  · exact ok.list
  · exact fun i hi c hc => hchunk i c (ok.chunk i hi c hc)
  · exact ok.nodup
  · intro b hb
    have hbo := ok.block b hb
    unfold BlockOk at hbo ⊢
    split_ifs at hbo ⊢ with hbig
    · obtain ⟨p, hp, hptr, h⟩ := hbo
      refine ⟨p, hkeep _ _ ?_ hp, hptr, h⟩
      intro hpr
      exact hfree b hb hbig (by rw [hptr, ← hpr])
    · exact ⟨hchunk _ _ hbo.1, hbo.2⟩
  · exact ok.distinct
  · intro t ht
    obtain ⟨h1, h2⟩ := ok.other t ht
    refine ⟨h1, ?_⟩
    change Function.update g.use r none t = none
    by_cases htr : t = r
    · rw [htr, Function.update_self]
    · rw [Function.update_of_ne htr, h2]

theorem HeapOk.setList (ok : HeapOk mm md nrPfns s g) {i head : ℕ} {xs : List ℕ}
    (hlist : LinkedFrom s.mem head xs) (hchunk : ∀ c ∈ xs, IsChunk g.use i c) (hnodup : xs.Nodup)
    (hblocks : ∀ b ∈ g.blocks, b.binIndex = i → b.ptr ∉ xs) :
    HeapOk mm md nrPfns { s with bins := Function.update s.bins i head }
      { g with free := Function.update g.free i xs } := by
  constructor
  · exact ok.pf
  · exact ok.used
  · exact ok.array
  · exact ok.binLe
  · exact ok.flags
  · intro j hj
    by_cases hji : j = i
    · subst hji
      simpa using hlist
    · simpa [hji] using ok.list j hj
  · intro j hj
    by_cases hji : j = i
    · subst hji
      simpa using hchunk
    · simpa [hji] using ok.chunk j hj
  · intro j hj
    by_cases hji : j = i
    · subst hji
      simpa using hnodup
    · simpa [hji] using ok.nodup j hj
  · intro b hb
    have hbo := ok.block b hb
    unfold BlockOk at hbo ⊢
    split_ifs at hbo ⊢ with hbig
    · exact hbo
    · refine ⟨hbo.1, ?_⟩
      by_cases hbi : b.binIndex = i
      · simpa [hbi] using hblocks b hb hbi
      · simpa [hbi] using hbo.2
  · exact ok.distinct
  · exact ok.other

theorem HeapOk.addBlock (ok : HeapOk mm md nrPfns s g) {b : Block} (hb : BlockOk s g b)
    (hnew : ∀ b' ∈ g.blocks, b.ptr ≠ b'.ptr) :
    HeapOk mm md nrPfns s { g with blocks := b :: g.blocks } :=
  { ok with
    block := fun b' hb' => by
      rcases List.mem_cons.mp hb' with rfl | hb'
      · exact hb
      · exact ok.block b' hb'
    distinct := List.pairwise_cons.mpr ⟨hnew, ok.distinct⟩ }

theorem HeapOk.removeBlock (ok : HeapOk mm md nrPfns s g) (b : Block) :
    HeapOk mm md nrPfns s { g with blocks := g.blocks.erase b } :=
  { ok with
    block := fun b' hb' => ok.block b' (List.mem_of_mem_erase hb')
    distinct := ok.distinct.sublist List.erase_sublist }

theorem HeapOk.setLock (ok : HeapOk mm md nrPfns s g) (lock : Bool) :
    HeapOk mm md nrPfns { s with lock := lock } g :=
  ⟨ok.pf, ok.used, ok.array, ok.binLe, ok.flags, ok.list, ok.chunk, ok.nodup, ok.block, ok.distinct,
    ok.other⟩

/-! ### Bytes that nothing depends on -/

/-- Bytes of a range that holds neither the array nor free chunks. -/
theorem HeapOk.not_guarded (ram : RamOk mm nrPfns) (ok : HeapOk mm md nrPfns s g) {r : ℕ × ℕ}
    (hr : r ∈ g.live) (harr : g.use r ≠ some .array) {a : ℕ} (ha : Within r a 1)
    (hfree : ∀ i c, i ≤ 6 → c ∈ g.free i → Apart a 1 c 8) : ¬ Guarded s g a := by
  rintro (⟨t, u, q, ht, hq, haq⟩ | ⟨i, c, hi, hc, h1, h2⟩)
  · obtain ⟨t', ht', hw⟩ := ok.record_within ram (ok.used t u ht) hq
    have hne : r ≠ t' := fun h => harr (h ▸ ht')
    have := ok.apart hr (ok.used _ _ ht') hne ha hw
    unfold Apart at this
    omega
  · have := hfree i c hi hc
    unfold Apart at this
    omega

theorem HeapOk.apart_of_use (ok : HeapOk mm md nrPfns s g) {r : ℕ × ℕ} (hr : r ∈ g.live)
    (huse : ∀ i, g.use r ≠ some (.bin i)) {a len : ℕ} (ha : Within r a len) {i c : ℕ}
    (hc : IsChunk g.use i c) : Apart a len c (2 ^ (5 + i)) := by
  obtain ⟨t, ht, hut, hw, -⟩ := hc.live ok
  exact ok.apart hr ht (fun h => huse i (h ▸ hut)) ha hw

theorem eight_le_chunk (i : ℕ) : 8 ≤ 2 ^ (5 + i) := by
  calc 8 ≤ 2 ^ 5 := by norm_num
    _ ≤ 2 ^ (5 + i) := Nat.pow_le_pow_right (by norm_num) (Nat.le_add_right _ _)

theorem HeapOk.record_not_guarded (ram : RamOk mm nrPfns) (ok : HeapOk mm md nrPfns s g)
    {r : ℕ × ℕ} (hr : r ∈ g.live) (hnone : g.use r = none) {q a : ℕ} (hq : q ∈ frames r)
    (ha : a = s.allocPageAddr q ∨ a = s.allocPageAddr q + 1) : ¬ Guarded s g a := by
  obtain ⟨t, ht, hw⟩ := ok.record_within ram hr hq
  rintro (⟨t', u, q', ht', hq', haq⟩ | ⟨i, c, hi, hc, h1, h2⟩)
  · have hqq : q = q' := by
      unfold allocPageAddr at ha haq
      simp only [allocPageSize] at ha haq
      omega
    have := ok.pf.eq_of_mem hr (ok.used t' u ht') hq (hqq ▸ hq')
    rw [this, ht'] at hnone
    cases hnone
  · have hchunk := ok.apart_of_use (ok.used t _ ht) (fun i => by rw [ht]; simp) hw (ok.chunk i hi c hc)
    have := eight_le_chunk i
    unfold Apart at hchunk
    omega

end Own

end HyveMind.Halloc
