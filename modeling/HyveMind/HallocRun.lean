import HyveMind.HallocOps
import HyveMind.Lib.Run

/-! # The heap allocator over whole runs

`heap_safety`: after `init_halloc`, whatever the clients allocate, release and write, every block is
large enough, aligned and disjoint from all other blocks, from the free chunks and from
`alloc_pages_array`; new blocks of up to 2048 bytes are zeroed; and every free list is a finite list
of chunks of its own bin, in pages that are marked with that bin. -/

namespace HyveMind.Halloc

open Lib PfAlloc

/-! ### Runs -/

/-- The calls of the clients, their writes, and the calls of other users of the page-frame
allocator. -/
inductive Op
  | hmallocAlign (req alignment : ℕ)
  | hmalloc (req : ℕ)
  | hfree (b : Block)
  | write (addr val : ℕ)
  | getPages (nr : ℕ)
  | freePages (r : ℕ × ℕ)
deriving DecidableEq, Repr

/-- The heap, the blocks of its clients, and the page ranges of the other users. -/
structure Sys where
  heap : Halloc
  blocks : List Block
  others : List (ℕ × ℕ)

namespace Sys

/-- The clients' bookkeeping. -/
def handOut (blocks : List Block) (b : Block) : List Block := if b.ptr = 0 then blocks else b :: blocks

/-- One call. -/
def call (s : Sys) : Op → Option Sys
  | .hmallocAlign req alignment => do
      let (h, ptr) ← s.heap.hmallocAlign req alignment
      return { s with heap := h, blocks := handOut s.blocks ⟨ptr, req, alignment⟩ }
  | .hmalloc req => do
      let (h, ptr) ← s.heap.hmalloc req
      return { s with heap := h, blocks := handOut s.blocks ⟨ptr, req, hallocDefaultAlignment⟩ }
  | .hfree b => do
      let h ← s.heap.hfree b.ptr
      return { s with heap := h, blocks := s.blocks.erase b }
  | .write addr val =>
      some { s with heap := { s.heap with mem := Function.update s.heap.mem addr val } }
  | .getPages nr => do
      let (pf, addr) ← s.heap.pf.getPages nr
      return { s with
        heap := { s.heap with pf := pf }
        others := PfAlloc.Sys.handOut s.others nr (addr.map virtToPhys) }
  | .freePages r => do
      let pf ← s.heap.pf.freePages r.2 (physToVirt (pfnToPhys r.1))
      return { s with heap := { s.heap with pf := pf }, others := s.others.erase r }

/-- The clients release live blocks and write to their own memory only; an alignment is one byte. -/
def Allowed (s : Sys) : Op → Prop
  | .hmallocAlign req alignment => req < 2 ^ 64 ∧ alignment < 2 ^ 8
  | .hmalloc req => req < 2 ^ 64
  | .hfree b => b ∈ s.blocks
  | .write addr _ => (∃ b ∈ s.blocks, b.ptr ≤ addr ∧ addr < b.ptr + b.size) ∨
      ∃ r ∈ s.others, Within r addr 1
  | .getPages _ => True
  | .freePages r => r ∈ s.others

/-- One step of a run. -/
def Step (s : Sys) (op : Op) (s' : Sys) : Prop := s.Allowed op ∧ s.call op = some s'

/-- The invariant of runs. -/
structure Inv (mm : List LimineMemmapEntry) (md : ℕ × ℕ) (nrPfns : ℕ) (s : Sys) : Prop where
  heap : ∃ g, HeapOk mm md nrPfns s.heap g ∧ g.blocks = s.blocks ∧ g.others = s.others
  block : ∀ b ∈ s.blocks, b.ptr ≠ 0 ∧ b.actualReq ≤ maxSupportedAllocationSize ∧ b.alignment < 2 ^ 8
  others : s.others.Nodup

variable {mm : List LimineMemmapEntry} {md : ℕ × ℕ} {nrPfns : ℕ} {s s' : Sys}

theorem inv_allocated {g : Ghost} {h : Halloc} {b : Block} (hs : Inv mm md nrPfns s)
    (hblocks : g.blocks = s.blocks) (hothers : g.others = s.others) (halign : b.alignment < 2 ^ 8)
    (hres : Allocated mm md nrPfns h g b) :
    Inv mm md nrPfns { s with heap := h, blocks := handOut s.blocks b } := by
  unfold handOut
  rcases hres with ⟨hptr, ok⟩ | ⟨hptr, -, -, -, hmax, -, g', ok, hb, ho⟩
  · rw [if_pos hptr]
    exact ⟨⟨g, ok, hblocks, hothers⟩, hs.block, hs.others⟩
  · rw [if_neg hptr]
    refine ⟨⟨g', ok, hb.trans (by rw [hblocks]), ho.trans hothers⟩, fun b' hb' => ?_, hs.others⟩
    rcases List.mem_cons.mp hb' with rfl | hb'
    · exact ⟨hptr, hmax, halign⟩
    · exact hs.block b' hb'

/-- Writing to memory of the clients changes no byte that the invariant reads. -/
theorem not_guarded_of_allowed (ram : RamOk mm nrPfns) {g : Ghost} (ok : HeapOk mm md nrPfns s.heap g)
    (hblocks : g.blocks = s.blocks) (hothers : g.others = s.others) {addr val : ℕ}
    (hal : s.Allowed (.write addr val)) : ¬ Guarded s.heap g addr := by
  rcases hal with ⟨b, hb, h1, h2⟩ | ⟨r, hr, hw⟩
  · rw [← hblocks] at hb
    obtain ⟨r, u, hr, hu, hw, -⟩ := ok.block_home hb
    apply ok.not_guarded ram (ok.used _ _ hr)
    · rw [hr]
      exact fun h => hu (Option.some.inj h)
    · unfold Within at hw ⊢
      omega
    · intro i c hi hc
      have hap := ok.block_apart_chunk hb hi hc
      have := eight_le_chunk i
      unfold Apart at hap ⊢
      omega
  · rw [← hothers] at hr
    obtain ⟨hlive, hnone⟩ := ok.other r hr
    apply ok.not_guarded ram hlive (by rw [hnone]; simp) hw
    intro i c hi hc
    have hap := ok.apart_of_use hlive (fun i => by rw [hnone]; simp) hw (ok.chunk i hi c hc)
    have := eight_le_chunk i
    unfold Apart at hap ⊢
    omega

/-- **One step.**  An allowed call keeps the invariant; it has no result only if it finds the lock
taken. -/
theorem inv_call (ram : RamOk mm nrPfns) (hs : Inv mm md nrPfns s) {op : Op} (hal : s.Allowed op) :
    (s.heap.lock = true ∧ s.call op = none) ∨
      ∃ s', s.call op = some s' ∧ Inv mm md nrPfns s' := by
  obtain ⟨g, ok, hblocks, hothers⟩ := hs.heap
  cases op with
  | hmallocAlign req alignment =>
      rcases ok.hmallocAlign ram req alignment with ⟨hlock, hnone⟩ | ⟨h, ptr, hcall, hres⟩
      · exact .inl ⟨hlock, by simp [call, hnone]⟩
      · exact .inr ⟨_, by simp only [call, hcall]; rfl, inv_allocated hs hblocks hothers hal.2 hres⟩
  | hmalloc req =>
      rcases ok.hmallocAlign ram req hallocDefaultAlignment with ⟨hlock, hnone⟩ | ⟨h, ptr, hcall, hres⟩
      · exact .inl ⟨hlock, by simp [call, hmalloc, hnone]⟩
      · exact .inr ⟨_, by simp only [call, hmalloc, hcall]; rfl,
          inv_allocated hs hblocks hothers (by norm_num) hres⟩
  | hfree b =>
      rcases ok.hfree ram (hblocks ▸ hal : b ∈ g.blocks) with
        ⟨hlock, hnone⟩ | ⟨h, g', hcall, -, ok', hb, ho⟩
      · exact .inl ⟨hlock, by simp [call, hnone]⟩
      · refine .inr ⟨{ s with heap := h, blocks := s.blocks.erase b }, by simp [call, hcall], ?_, ?_,
          hs.others⟩
        · exact ⟨g', ok', by rw [hb, hblocks], ho.trans hothers⟩
        · exact fun b' hb' => hs.block b' (List.mem_of_mem_erase hb')
  | write addr val =>
      refine .inr ⟨_, rfl, ⟨g, ok.setMem _ fun a ha => ?_, hblocks, hothers⟩, hs.block, hs.others⟩
      apply Function.update_of_ne
      rintro rfl
      exact not_guarded_of_allowed ram ok hblocks hothers hal ha
  | getPages nr =>
      obtain ⟨pf', res, hcall, hnone, hsome⟩ := ok.getPages ram nr
      cases res with
      | none =>
          refine .inr ⟨s, ?_, hs⟩
          simp [call, hcall, hnone rfl, PfAlloc.Sys.handOut]
      | some v =>
          obtain ⟨p, rfl, hpos, hlt, hfresh, ok'⟩ := hsome v rfl
          have hphys := virtToPhys_frameAddr (q := p) (k := 0) (by omega)
          rw [Nat.add_zero, Nat.add_zero] at hphys
          refine .inr ⟨⟨{ s.heap with pf := pf' }, s.blocks, (p, nr) :: s.others⟩, ?_, ⟨{ g with
            live := (p, nr) :: g.live
            others := (p, nr) :: g.others }, { ok' with other := ?_ }, hblocks, ?_⟩, hs.block, ?_⟩
          · simp [call, hcall, PfAlloc.Sys.handOut, hphys, physToPfn_eq]
          · intro r hr
            rcases List.mem_cons.mp hr with rfl | hr
            · exact ⟨List.mem_cons_self .., ok.use_eq_none hfresh⟩
            · exact ok'.other r hr
          · simp only [hothers]
          · exact List.nodup_cons.mpr ⟨fun h => hfresh (ok.other _ (hothers ▸ h)).1, hs.others⟩
  | freePages r =>
      obtain ⟨hlive, hnone⟩ := ok.other r (hothers ▸ hal : r ∈ g.others)
      obtain ⟨pf', hfree, inv'⟩ := ok.pf.freePagesRaw hlive
      obtain ⟨hpos, -, hlt⟩ := range_lt ram ok.pf hlive
      have hcall : s.heap.pf.freePages r.2 (physToVirt (pfnToPhys r.1)) = some pf' := by
        rw [PfAlloc.freePages, pfnToPhys_eq (by omega), virtToPhys_physToVirt (by omega)]
        exact hfree
      have ok₁ : HeapOk mm md nrPfns s.heap { g with others := g.others.erase r } :=
        { ok with other := fun t ht => ok.other t (List.mem_of_mem_erase ht) }
      have ok₂ := ok₁.release inv' hnone (by
        rw [hothers]
        exact hs.others.not_mem_erase)
      refine .inr ⟨⟨{ s.heap with pf := pf' }, s.blocks, s.others.erase r⟩, by simp [call, hcall],
        ⟨_, ok₂, hblocks, ?_⟩, hs.block, hs.others.erase r⟩
      simp only [hothers]

/-! ### Safety -/

/-- What the clients may rely on.  `free i` are the chunks on the free list of bin `i`. -/
structure Safe (nrPfns : ℕ) (s : Sys) (free : ℕ → List ℕ) : Prop where
  large : ∀ b ∈ s.blocks, b.ptr ≠ 0 ∧ b.req ≤ b.size
  aligned : ∀ b ∈ s.blocks, ∀ k, b.alignment = 2 ^ k → b.ptr % 2 ^ k = 0
  blocks : s.blocks.Pairwise fun b b' => Apart b.ptr b.size b'.ptr b'.size
  chunks : ∀ b ∈ s.blocks, ∀ i ≤ 6, ∀ c ∈ free i, Apart b.ptr b.size c (2 ^ (5 + i))
  array : ∀ b ∈ s.blocks, Apart b.ptr b.size s.heap.allocPagesArray (allocPageSize * nrPfns)
  list : ∀ i ≤ 6, LinkedFrom s.heap.mem (s.heap.bins i) (free i) ∧ (free i).Nodup
  chunkAligned : ∀ i ≤ 6, ∀ c ∈ free i, c % 2 ^ (5 + i) = 0
  marked : ∀ i ≤ 6, ∀ c ∈ free i, ∀ k < 2 ^ (5 + i),
    s.heap.hallocFlags (physToPfn (virtToPhys (c + k))) = hallocFlagsManaged ||| i
  chunksApart : ∀ i ≤ 6, ∀ j ≤ 6, ∀ c ∈ free i, ∀ d ∈ free j, (i = j → c ≠ d) →
    Apart c (2 ^ (5 + i)) d (2 ^ (5 + j))
  chunksArray : ∀ i ≤ 6, ∀ c ∈ free i,
    Apart c (2 ^ (5 + i)) s.heap.allocPagesArray (allocPageSize * nrPfns)

theorem two_pow_dvd_of_le {k n : ℕ} (h : 2 ^ k ≤ 2 ^ n) : 2 ^ k ∣ 2 ^ n :=
  Nat.pow_dvd_pow 2 ((Nat.pow_le_pow_iff_right (by norm_num)).mp h)

theorem Block.req_le_size {b : Block} (h : b.actualReq ≤ maxSupportedAllocationSize) :
    b.actualReq ≤ b.size := by
  unfold Block.size
  split_ifs with hbin
  · rw [Block.nrPages, roundUp_page h]
    omega
  · exact (sizeToBinIndex_le hbin).2

theorem ptr_aligned {g : Ghost} {h : Halloc} (ok : HeapOk mm md nrPfns h g) {b : Block}
    (hb : b ∈ g.blocks) (halign : b.alignment < 2 ^ 8) {k : ℕ} (hk : b.alignment = 2 ^ k) :
    b.ptr % 2 ^ k = 0 := by
  apply Nat.mod_eq_zero_of_dvd
  have hbo := ok.block b hb
  unfold BlockOk at hbo
  split_ifs at hbo with hbin
  · obtain ⟨p, -, hptr, -⟩ := hbo
    rw [hptr]
    apply (two_pow_dvd_of_le (n := 8) (by omega)).trans
    exact (Nat.pow_dvd_pow 2 (by norm_num)).trans (chunk_dvd_frameAddr (i := 6) (le_refl _) p)
  · obtain ⟨r, -, -, hmod⟩ := hbo.1
    have hle : b.alignment ≤ 2 ^ (5 + b.binIndex) :=
      (le_max_right _ _).trans (sizeToBinIndex_le hbin).2
    exact (two_pow_dvd_of_le (hk ▸ hle)).trans (Nat.dvd_of_mod_eq_zero hmod)

theorem Inv.safe (ram : RamOk mm nrPfns) (hs : Inv mm md nrPfns s) : ∃ free, Safe nrPfns s free := by
  obtain ⟨g, ok, hblocks, -⟩ := hs.heap
  obtain ⟨t, ht, harr, hsize⟩ := ok.array
  have hwarr : Within t s.heap.allocPagesArray (allocPageSize * nrPfns) := by
    rw [harr]
    unfold Within frameAddr
    simp only [allocPageSize]
    omega
  refine ⟨g.free, ?_⟩
  constructor
  · intro b hb
    obtain ⟨hptr, hmax, -⟩ := hs.block b hb
    exact ⟨hptr, (le_max_left _ _).trans (Block.req_le_size hmax)⟩
  · intro b hb k hk
    exact ptr_aligned ok (hblocks ▸ hb) (hs.block b hb).2.2 hk
  · rw [← hblocks]
    exact ok.distinct.imp_of_mem fun hb hb' hne => ok.blocks_apart hb hb' hne
  · intro b hb i hi c hc
    exact ok.block_apart_chunk (hblocks ▸ hb) hi hc
  · intro b hb
    obtain ⟨r, u, hr, hu, hw, -⟩ := ok.block_home (hblocks ▸ hb : b ∈ g.blocks)
    apply ok.apart (ok.used _ _ hr) (ok.used _ _ ht) _ hw hwarr
    rintro rfl
    exact hu (Option.some.inj (hr.symm.trans ht))
  · exact fun i hi => ⟨ok.list i hi, ok.nodup i hi⟩
  · intro i hi c hc
    obtain ⟨r, -, -, hmod⟩ := ok.chunk i hi c hc
    exact hmod
  · intro i hi c hc k hk
    obtain ⟨r, hr, hur, hw, -⟩ := (ok.chunk i hi c hc).live ok
    have hw' : Within r (c + k) 1 := by
      unfold Within at hw ⊢
      omega
    rw [ok.flags r i hur _ (pfn_mem_frames ram ok hr one_pos hw'), ← or_managed hi,
      Nat.mod_eq_of_lt]
    exact Nat.or_lt_two_pow (n := 8) (by norm_num) (by omega)
  · exact fun i hi j hj c hc d hd hne => ok.chunks_apart (ok.chunk i hi c hc) (ok.chunk j hj d hd) hne
  · intro i hi c hc
    have hap := ok.apart_of_use (ok.used _ _ ht) (fun i => by rw [ht]; simp) hwarr (ok.chunk i hi c hc)
    exact hap.symm

end Sys

section Runs

variable {mm : List LimineMemmapEntry} {offset : ℕ} {a pf : PfAlloc} {calls : List Call}
  {others : List (ℕ × ℕ)} {mem : ℕ → ℕ} {h : Halloc} {ops : List Op} {s : Sys}

theorem ramOk_memmap (hmm : MemmapOk mm) (hmapped : ∀ q, UsableFrame mm q → q < 2 ^ 35) :
    RamOk mm (initSystemMemoryInfo (getBootMemInfo mm)).nrOfPfns :=
  ⟨fun _ hq => usableFrame_lt_nrOfPfns hmm hq, hmapped⟩

/-- The invariant holds in every state that is reached after `init_halloc`. -/
theorem Sys.inv_run (hmm : MemmapOk mm) (hmapped : ∀ q, UsableFrame mm q → q < 2 ^ 35)
    (hboot : earlyInitPageFrameAllocator (initSystemMemoryInfo (getBootMemInfo mm)) mm offset =
      some (some a))
    (hearly : Run PfAlloc.Sys.Step ⟨a, []⟩ calls ⟨pf, others⟩)
    (hinit : initHalloc (initSystemMemoryInfo (getBootMemInfo mm)) pf mem = some (h, true))
    (hrun : Run Sys.Step ⟨h, [], others⟩ ops s) :
    Sys.Inv mm (metadataRange (initSystemMemoryInfo (getBootMemInfo mm)) mm)
      (initSystemMemoryInfo (getBootMemInfo mm)).nrOfPfns s := by
  obtain ⟨-, hpfns⟩ := nrOfPfns_bounds mm
  have ram := ramOk_memmap hmm hmapped
  have inv := PfAlloc.inv_run hmm hboot hearly
  obtain ⟨g, ok, hblocks, hothers⟩ := heapOk_init ram hpfns inv hinit
  have hstart : Sys.Inv mm _ _ ⟨h, [], others⟩ :=
    ⟨⟨g, ok, hblocks, hothers⟩, fun b hb => absurd hb List.not_mem_nil, inv.nodup⟩
  exact hrun.invariant (fun s op s' hs ⟨hal, hcall⟩ => by
    rcases Sys.inv_call ram hs hal with ⟨-, hnone⟩ | ⟨s'', hcall', hs''⟩
    · rw [hnone] at hcall
      cases hcall
    · rwa [Option.some.inj (hcall.symm.trans hcall')]) hstart

end Runs

/-- **The heap allocator over whole runs.**  After `init_halloc`, on any memory contents and any state
of the page-frame allocator, and after any calls of the clients and of other users of the page-frame
allocator: all that `Safe` says holds, new blocks of up to 2048 bytes are zeroed, and as long as the
lock is free every call has a result. -/
theorem heap_safety {mm : List LimineMemmapEntry} (hmm : MemmapOk mm)
    (hmapped : ∀ q, UsableFrame mm q → q < 2 ^ 35) {offset : ℕ} {a pf : PfAlloc}
    (hboot : earlyInitPageFrameAllocator (initSystemMemoryInfo (getBootMemInfo mm)) mm offset =
      some (some a))
    {calls : List Call} {others : List (ℕ × ℕ)}
    (hearly : Run PfAlloc.Sys.Step ⟨a, []⟩ calls ⟨pf, others⟩) {mem : ℕ → ℕ} {h : Halloc}
    (hinit : initHalloc (initSystemMemoryInfo (getBootMemInfo mm)) pf mem = some (h, true))
    {ops : List Op} {s : Sys} (hrun : Run Sys.Step ⟨h, [], others⟩ ops s) :
    (∃ free, Sys.Safe (initSystemMemoryInfo (getBootMemInfo mm)).nrOfPfns s free) ∧
    (∀ req alignment h' ptr, s.heap.hmallocAlign req alignment = some (h', ptr) → ptr ≠ 0 →
      max req alignment ≤ 2048 → ∀ k < (Block.mk ptr req alignment).size, h'.mem (ptr + k) = 0) ∧
    (s.heap.lock = false → ∀ op, s.Allowed op → ∃ s', s.call op = some s') := by
  have ram := ramOk_memmap hmm hmapped
  have hs := Sys.inv_run hmm hmapped hboot hearly hinit hrun
  refine ⟨hs.safe ram, ?_, ?_⟩
  · intro req alignment h' ptr hcall hptr hle
    obtain ⟨g, ok, -⟩ := hs.heap
    rcases ok.hmallocAlign ram req alignment with ⟨-, hnone⟩ | ⟨h'', ptr', hcall', hres⟩
    · rw [hnone] at hcall
      cases hcall
    · obtain ⟨rfl, rfl⟩ := Prod.mk.inj (Option.some.inj (hcall.symm.trans hcall'))
      rcases hres with ⟨h0, -⟩ | ⟨-, -, -, -, -, hzero, -⟩
      · exact absurd h0 hptr
      · apply hzero
        change sizeToBinIndex (max req alignment) ≠ invalidBinIndex
        unfold sizeToBinIndex
        split_ifs <;> simp only [invalidBinIndex] <;> omega
  · intro hlock op hal
    rcases Sys.inv_call ram hs hal with ⟨htaken, -⟩ | ⟨s', hcall, -⟩
    · rw [hlock] at htaken
      cases htaken
    · exact ⟨s', hcall⟩

/-- A map with a single usable entry of 64 frames. -/
def sixtyFourFrames : List LimineMemmapEntry := [⟨0, 262144, .usable⟩]

theorem sixtyFourFrames_ok : MemmapOk sixtyFourFrames where
  aligned := by simp [sixtyFourFrames]
  whole := by simp [sixtyFourFrames]
  fits := by simp [sixtyFourFrames]
  disjoint := List.pairwise_singleton _ _

theorem mapped_sixtyFourFrames : ∀ q, UsableFrame sixtyFourFrames q → q < 2 ^ 35 := by
  rintro q ⟨e, he, -, -, h⟩
  obtain rfl := List.mem_singleton.mp he
  simp only at h
  omega

/-- The page-frame allocator after initialisation on `sixtyFourFrames`. -/
def sixtyFourInit : PfAlloc := ⟨[0x80#8, 0#8, 0#8, 0#8, 0#8, 0#8, 0#8, 0#8], 8, 0, 0, 63, 1⟩

theorem sixtyFourFrames_boot :
    earlyInitPageFrameAllocator (initSystemMemoryInfo (getBootMemInfo sixtyFourFrames))
      sixtyFourFrames 0 = some (some sixtyFourInit) := rfl

/-- On a machine with 64 frames a first block of 100 bytes is safe. -/
theorem heap_safety_first_block :
    ∃ h s, initHalloc (initSystemMemoryInfo (getBootMemInfo sixtyFourFrames)) sixtyFourInit
        (fun _ => 170) = some (h, true) ∧
      Run Sys.Step ⟨h, [], []⟩ [.hmalloc 100] s ∧ s.blocks ≠ [] ∧ ∃ free, Sys.Safe 64 s free := by
  have hrun : (initHalloc (initSystemMemoryInfo (getBootMemInfo sixtyFourFrames)) sixtyFourInit
      fun _ => 170).map (fun x => (x.2, (x.1.hmalloc 100).map fun y => decide (y.2 = 0))) =
      some (true, some false) := by
    decide +kernel
  obtain ⟨⟨h, ok⟩, hinit, hres⟩ := Option.map_eq_some_iff.mp hrun
  obtain ⟨rfl, hres⟩ := Prod.mk.inj hres
  obtain ⟨⟨h', ptr⟩, hcall, hptr⟩ := Option.map_eq_some_iff.mp hres
  have hptr : ptr ≠ 0 := of_decide_eq_false hptr
  have hstep : Sys.Step ⟨h, [], []⟩ (.hmalloc 100)
      ⟨h', Sys.handOut [] ⟨ptr, 100, hallocDefaultAlignment⟩, []⟩ :=
    ⟨by norm_num [Sys.Allowed], by simp [Sys.call, hcall]⟩
  have hsteps := Run.cons hstep (Run.nil _)
  refine ⟨h, _, hinit, hsteps, by simp [Sys.handOut, hptr], ?_⟩
  exact (heap_safety sixtyFourFrames_ok mapped_sixtyFourFrames sixtyFourFrames_boot (Run.nil _) hinit hsteps).1

end HyveMind.Halloc
