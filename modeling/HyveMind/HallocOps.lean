import HyveMind.HallocOwner

/-! # The operations of the heap allocator

What each operation of `halloc.c` does to the ownership of the heap, put together from the moves:
`populate_bin` cuts a new range into chunks, `hmalloc_align` hands out a chunk or a range of its own,
`hfree` takes it back.  Every operation has a result unless it finds the lock taken, and keeps the
invariant. -/

namespace HyveMind.Halloc

open Lib PfAlloc

section Steps

variable {mm : List LimineMemmapEntry} {md : ℕ × ℕ} {nrPfns : ℕ} {s s' : Halloc} {g : Ghost}

/-! ### The loops -/

theorem setPageRangeHallocFlags_spec (s : Halloc) (p nr flags : ℕ) (hp : p + nr ≤ 2 ^ 35) :
    ∃ mem', s.setPageRangeHallocFlags (frameAddr p) nr flags = { s with mem := mem' } ∧
      (∀ k < nr, mem' (s.allocPageAddr (p + k)) = flags % 256) ∧
      ∀ a, (∀ k < nr, a ≠ s.allocPageAddr (p + k)) → mem' a = s.mem a := by
  induction nr with
  | zero => exact ⟨s.mem, rfl, fun k hk => absurd hk (Nat.not_lt_zero k), fun _ _ => rfl⟩
  | succ n ih =>
      obtain ⟨mem', heq, hset, hkeep⟩ := ih (by omega)
      have haddr : u64 (frameAddr p + n * pageSize) = frameAddr (p + n) + 0 := by
        rw [u64_of_lt (by simp only [frameAddr_eq, pageSize]; omega)]
        simp only [frameAddr, pageSize]
        ring
      refine ⟨Function.update mem' (s.allocPageAddr (p + n)) (flags % 256), ?_, ?_, ?_⟩
      · rw [setPageRangeHallocFlags] at heq ⊢
        rw [List.range_succ, List.foldl_append, heq, List.foldl_cons, List.foldl_nil, haddr,
          pfn_of_frameAddr (by omega) (by norm_num)]
        rfl
      · intro k hk
        rcases Nat.lt_succ_iff_lt_or_eq.mp hk with hlt | rfl
        · rw [Function.update_of_ne, hset k hlt]
          unfold allocPageAddr
          simp only [allocPageSize]
          omega
        · rw [Function.update_self]
      · intro a ha
        rw [Function.update_of_ne (ha n (Nat.lt_succ_self n))]
        exact hkeep a fun k hk => ha k (Nat.lt_succ_of_lt hk)

/-- The loop links `j` chunks in front of the list that it is given. -/
theorem populateLoop_spec {v c : ℕ} (h8 : 8 ≤ c) (hcv : c ≤ v) {j fuel : ℕ} (hfuel : j < fuel)
    (hend : v + j * c ≤ 2 ^ 64) (mem : ℕ → ℕ) {next : ℕ} {xs : List ℕ} (hnext : next < 2 ^ 64)
    (hxs : LinkedFrom mem next xs) (hbehind : ∀ x ∈ xs, v + j * c ≤ x) :
    ∃ mem' head, populateLoop v c fuel mem next (v + j * c - c) = some (mem', head) ∧
      LinkedFrom mem' head ((List.range j).map (fun k => v + k * c) ++ xs) ∧
      ∀ b, b < v ∨ v + j * c ≤ b → mem' b = mem b := by
  induction j generalizing fuel mem next xs with
  | zero =>
      obtain ⟨fuel, rfl⟩ := Nat.exists_eq_add_one_of_ne_zero (Nat.ne_of_gt hfuel)
      refine ⟨mem, next, ?_, by simpa using hxs, fun _ _ => rfl⟩
      rw [populateLoop, if_neg (by omega)]
  | succ j ih =>
      obtain ⟨fuel, rfl⟩ := Nat.exists_eq_add_one_of_ne_zero (Nat.ne_of_gt (Nat.zero_lt_of_lt hfuel))
      have hmul : v + (j + 1) * c = v + j * c + c := by ring
      rw [hmul] at hend hbehind
      have hpos : v + (j + 1) * c - c = v + j * c := by omega
      have hsub : u64Sub (v + j * c) c = v + j * c - c := u64Sub_of_le (by omega) (by omega)
      obtain ⟨mem', head, hloop, hlinked, hkeep⟩ := ih (show j < fuel by omega) (by omega) _
        (show v + j * c < 2 ^ 64 by omega)
        (hxs.push (show v + j * c ≠ 0 by omega) hnext fun y hy => .inr (by
          have := hbehind y hy
          omega))
        (fun x hx => by
          rcases List.mem_cons.mp hx with rfl | hx
          · exact le_refl _
          · have := hbehind x hx
            omega)
      refine ⟨mem', head, ?_, ?_, ?_⟩
      · rw [populateLoop, hpos, if_pos (by omega), hsub, hloop]
      · rw [List.range_succ, List.map_append, List.append_assoc]
        exact hlinked
      · intro b hb
        rw [hkeep b (by omega)]
        exact store64_of_notMem (by omega)

/-! ### Pages from the page-frame allocator -/

/-- One request for pages: on success a new range of the direct mapping. -/
theorem HeapOk.getPages (ram : RamOk mm nrPfns) (ok : HeapOk mm md nrPfns s g) (nr : ℕ) :
    ∃ pf' res, s.pf.getPages nr = some (pf', res) ∧ (res = none → pf' = s.pf) ∧
      ∀ v, res = some v → ∃ p, v = frameAddr p ∧ 0 < nr ∧ p + nr ≤ 2 ^ 35 ∧ (p, nr) ∉ g.live ∧
        HeapOk mm md nrPfns { s with pf := pf' } { g with live := (p, nr) :: g.live } := by
  obtain ⟨pf', res, hcall, hnone, hsome⟩ := ok.pf.getPagesImpl nr
  refine ⟨pf', res.map physToVirt, by simp [PfAlloc.getPages, hcall], ?_, ?_⟩
  · intro h
    exact hnone (Option.map_eq_none_iff.mp h)
  · intro v hv
    obtain ⟨addr, rfl, rfl⟩ := Option.map_eq_some_iff.mp hv
    obtain ⟨p, rfl, -, -, inv⟩ := hsome addr rfl
    obtain ⟨hpos, -, hlt⟩ := range_lt ram inv (List.mem_cons_self ..)
    have hfresh := (List.nodup_cons.mp inv.nodup).1
    exact ⟨p, physToVirt_eq_frameAddr (by simp only at hpos hlt; omega), hpos, hlt, hfresh,
      ok.grant inv⟩

/-! ### Bins -/

theorem chunk_dvd_page {i : ℕ} (hi : i ≤ 6) : 2 ^ (5 + i) ∣ 4096 :=
  Nat.pow_dvd_pow 2 (show 5 + i ≤ 12 by omega)

theorem chunk_dvd_frameAddr {i : ℕ} (hi : i ≤ 6) (q : ℕ) : 2 ^ (5 + i) ∣ frameAddr q := by
  apply (chunk_dvd_page hi).trans
  apply Nat.dvd_add
  · exact ⟨hypervisorDirectMappingOffset / 4096, by norm_num⟩
  · exact Nat.dvd_mul_left _ _

theorem or_managed {i : ℕ} (hi : i ≤ 6) : (hallocFlagsManaged ||| i) % 256 = 32 + i := by
  interval_cases i <;> rfl

theorem binConfig_spec {i : ℕ} (hi : i ≤ 6) :
    (binConfigs.getD i default).chunkShift = 5 + i ∧
      0 < (binConfigs.getD i default).repopulateNrPages := by
  interval_cases i <;> decide

/-- The chunks of a new range of pages. -/
def newChunks (i p nr : ℕ) : List ℕ :=
  (List.range (nr * 4096 / 2 ^ (5 + i))).map fun k => frameAddr p + k * 2 ^ (5 + i)

theorem newChunks_nodup (i p nr : ℕ) : (newChunks i p nr).Nodup := by
  apply List.Nodup.map _ List.nodup_range
  intro k l hkl
  have hpos : 0 < 2 ^ (5 + i) := Nat.two_pow_pos _
  exact Nat.eq_of_mul_eq_mul_right hpos (by simpa using hkl)

theorem newChunks_within {i p nr c : ℕ} (hi : i ≤ 6) (hc : c ∈ newChunks i p nr) :
    Within (p, nr) c (2 ^ (5 + i)) ∧ c % 2 ^ (5 + i) = 0 := by
  obtain ⟨k, hk, rfl⟩ := List.mem_map.mp hc
  have hle : (k + 1) * 2 ^ (5 + i) ≤ nr * 4096 := by
    calc (k + 1) * 2 ^ (5 + i) ≤ nr * 4096 / 2 ^ (5 + i) * 2 ^ (5 + i) :=
          Nat.mul_le_mul_right _ (List.mem_range.mp hk)
      _ ≤ nr * 4096 := Nat.div_mul_le_self _ _
  refine ⟨⟨Nat.le_add_right _ _, ?_⟩, ?_⟩
  · rw [Nat.succ_mul] at hle
    simp only [frameAddr] at *
    omega
  · exact Nat.mod_eq_zero_of_dvd ((chunk_dvd_frameAddr hi p).add (Nat.dvd_mul_left _ _))

theorem newChunks_ne_nil {i p nr : ℕ} (hi : i ≤ 6) (hnr : 0 < nr) : newChunks i p nr ≠ [] := by
  have hle : 2 ^ (5 + i) ≤ 4096 := Nat.le_of_dvd (by norm_num) (chunk_dvd_page hi)
  have hpos : 0 < nr * 4096 / 2 ^ (5 + i) := Nat.div_pos (by omega) (Nat.two_pow_pos _)
  intro h
  rw [newChunks, List.map_eq_nil_iff, List.range_eq_nil] at h
  omega

theorem HeapOk.use_eq_none (ok : HeapOk mm md nrPfns s g) {r : ℕ × ℕ} (hr : r ∉ g.live) :
    g.use r = none := by
  by_contra h
  obtain ⟨u, hu⟩ := Option.ne_none_iff_exists'.mp h
  exact hr (ok.used r u hu)

theorem HeapOk.populate (ram : RamOk mm nrPfns) (ok : HeapOk mm md nrPfns s g) {i p nr : ℕ}
    (hi : i ≤ 6) (hlive : (p, nr) ∈ g.live) (hnone : g.use (p, nr) = none)
    (hother : (p, nr) ∉ g.others) {mem₁ mem₂ : ℕ → ℕ} {head : ℕ}
    (hset : ∀ k < nr, mem₁ (s.allocPageAddr (p + k)) = 32 + i)
    (hkeep₁ : ∀ a, (∀ k < nr, a ≠ s.allocPageAddr (p + k)) → mem₁ a = s.mem a)
    (hlist : LinkedFrom mem₂ head (newChunks i p nr))
    (hkeep₂ : ∀ b, b < frameAddr p ∨ frameAddr (p + nr) ≤ b → mem₂ b = mem₁ b) :
    HeapOk mm md nrPfns { s with mem := mem₂, bins := Function.update s.bins i head }
      { g with
        use := Function.update g.use (p, nr) (some (.bin i))
        free := Function.update g.free i (newChunks i p nr) } := by
  have hrange : ∀ a, Guarded s g a → a < frameAddr p ∨ frameAddr (p + nr) ≤ a := by
    intro a ha
    by_contra hin
    refine ok.not_guarded ram hlive (by rw [hnone]; simp) (a := a) ⟨by simp only; omega, ?_⟩ ?_ ha
    · simp only
      omega
    · intro j c hj hc
      have hw : Within (p, nr) a 1 := ⟨by simp only; omega, by simp only; omega⟩
      have := ok.apart_of_use hlive (fun i => by rw [hnone]; simp) hw (ok.chunk j hj c hc)
      have := eight_le_chunk j
      unfold Apart at *
      omega
  have ok₂ : HeapOk mm md nrPfns { s with mem := mem₂ } g := by
    apply ok.setMem
    intro a ha
    rw [hkeep₂ a (hrange a ha)]
    apply hkeep₁
    intro k hk hak
    exact ok.record_not_guarded ram hlive hnone (mem_frames.mpr ⟨Nat.le_add_right p k, by simp only; omega⟩)
      (.inl hak) ha
  have ok₃ := ok₂.setUse (u := .bin i) hlive hnone hother (by
    rintro j ⟨rfl⟩
    refine ⟨hi, fun q hq => ?_⟩
    obtain ⟨t, ht, hw⟩ := ok.record_within ram hlive hq
    have hne : t ≠ (p, nr) := fun h => by
      rw [h, hnone] at ht
      cases ht
    have hout := ranges_apart ok.pf (ok.used _ _ ht) hlive hne
    rw [mem_frames] at hq
    obtain ⟨k, rfl⟩ : ∃ k, q = p + k := ⟨q - p, by omega⟩
    change mem₂ (s.allocPageAddr (p + k)) = 32 + i
    rw [hkeep₂, hset k (by simp only at hq; omega)]
    unfold Within frameAddr at hw
    simp only [frameAddr] at *
    omega)
  apply ok₃.setList hlist
  · intro c hc
    obtain ⟨hw, hmod⟩ := newChunks_within hi hc
    exact ⟨(p, nr), Function.update_self .., hw, hmod⟩
  · exact newChunks_nodup i p nr
  · intro b hb hbi hmem
    have hbo := ok.block b hb
    unfold BlockOk at hbo
    rw [if_neg (by rw [hbi]; simp only [invalidBinIndex]; omega), hbi] at hbo
    have := ok.apart_of_use hlive (fun i => by rw [hnone]; simp) (newChunks_within hi hmem).1 hbo.1
    have := Nat.two_pow_pos (5 + i)
    unfold Apart at *
    omega

/-- **One call of `populate_bin`.** -/
theorem HeapOk.populateBin (ram : RamOk mm nrPfns) (ok : HeapOk mm md nrPfns s g) {i : ℕ}
    (nr : ℕ) (hi : i ≤ 6) :
    ∃ s' success, s.populateBin i (5 + i) nr = some (s', success) ∧ s'.lock = s.lock ∧
      (success = false → s' = s) ∧
      (success = true → ∃ g', HeapOk mm md nrPfns s' g' ∧ g'.blocks = g.blocks ∧
        g'.others = g.others ∧ g'.free i ≠ []) := by
  obtain ⟨pf', res, hcall, hnone, hsome⟩ := ok.getPages ram nr
  cases res with
  | none =>
      refine ⟨s, false, ?_, rfl, fun _ => rfl, fun h => by cases h⟩
      simp [Halloc.populateBin, hcall, hnone rfl]
  | some v =>
      obtain ⟨p, rfl, hpos, hlt, hfresh, ok₁⟩ := hsome v rfl
      obtain ⟨mem₁, hflags, hset, hkeep₁⟩ := setPageRangeHallocFlags_spec { s with pf := pf' } p nr
        (hallocFlagsManaged ||| i) hlt
      have hdiv : nr * 4096 / 2 ^ (5 + i) * 2 ^ (5 + i) = nr * 4096 :=
        Nat.div_mul_cancel ((chunk_dvd_page hi).mul_left nr)
      have hle : 2 ^ (5 + i) ≤ 4096 := Nat.le_of_dvd (by norm_num) (chunk_dvd_page hi)
      have hshift : nr <<< pageShift = nr * 4096 := Nat.shiftLeft_eq nr 12
      have hend : frameAddr p + nr * 4096 ≤ 2 ^ 64 := by
        rw [frameAddr_eq]
        omega
      have hpos' : u64Sub (u64 (frameAddr p + nr * 4096)) (2 ^ (5 + i)) =
          frameAddr p + nr * 4096 - 2 ^ (5 + i) := by
        have hle' : 2 ^ (5 + i) ≤ frameAddr p + nr * 4096 := by omega
        have hc := Nat.two_pow_pos (5 + i)
        generalize 2 ^ (5 + i) = c at *
        unfold u64Sub u64
        omega
      obtain ⟨mem₂, head, hloop, hlist, hkeep₂⟩ := populateLoop_spec (eight_le_chunk i)
        (show 2 ^ (5 + i) ≤ frameAddr p by rw [frameAddr_eq]; omega)
        (Nat.lt_succ_self (nr * 4096 / 2 ^ (5 + i))) (by rwa [hdiv]) mem₁
        (show 0 < 2 ^ 64 by norm_num) (linkedFrom_nil.mpr rfl) (fun x hx => by cases hx)
      rw [hdiv] at hloop hkeep₂
      rw [List.append_nil] at hlist
      have hframes : frameAddr p + nr * 4096 = frameAddr (p + nr) := by
        simp only [frameAddr]
        ring
      have hnotOther : (p, nr) ∉ g.others := fun h => hfresh (ok.other _ h).1
      have ok₂ := ok₁.populate ram hi (List.mem_cons_self ..) (ok.use_eq_none hfresh) hnotOther
        (fun k hk => (hset k hk).trans (or_managed hi)) hkeep₁ hlist (by rwa [← hframes])
      refine ⟨_, true, ?_, ?_, fun h => (by cases h), fun _ => ⟨_, ok₂, rfl, rfl, ?_⟩⟩
      · simp only [Halloc.populateBin, hcall, Option.bind_eq_bind, Option.bind_some, hflags,
          Nat.one_shiftLeft, hshift, hpos', hloop, Option.pure_def]
      · rfl
      · simpa using newChunks_ne_nil hi hpos

/-! ### Allocation -/

theorem HeapOk.block_home (ok : HeapOk mm md nrPfns s g) {b : Block} (hb : b ∈ g.blocks) :
    ∃ r u, g.use r = some u ∧ u ≠ .array ∧ Within r b.ptr b.size ∧
      (b.binIndex = invalidBinIndex → u = .block ∧ r.2 = b.nrPages ∧ b.ptr = frameAddr r.1) ∧
      (b.binIndex ≠ invalidBinIndex → IsChunk g.use b.binIndex b.ptr ∧ b.ptr ∉ g.free b.binIndex) := by
  have hbo := ok.block b hb
  unfold BlockOk at hbo
  unfold Block.size
  split_ifs at hbo ⊢ with hbig
  · obtain ⟨p, hp, hptr, -⟩ := hbo
    refine ⟨(p, b.nrPages), .block, hp, by simp, ?_, fun _ => ⟨rfl, rfl, hptr⟩, fun h => absurd hbig h⟩
    unfold Within frameAddr at *
    simp only
    omega
  · obtain ⟨r, hr, hw, -⟩ := hbo.1
    exact ⟨r, .bin b.binIndex, hr, by simp, hw, fun h => absurd h hbig, fun _ => hbo⟩

theorem HeapOk.block_size_pos (ok : HeapOk mm md nrPfns s g) {b : Block} (hb : b ∈ g.blocks) :
    0 < b.size := by
  have hbo := ok.block b hb
  unfold BlockOk at hbo
  unfold Block.size
  split_ifs at hbo ⊢ with hbig
  · obtain ⟨p, hp, -⟩ := hbo
    have := (ok.pf.liveUsable _ (ok.used _ _ hp)).1
    simp only at this
    omega
  · exact Nat.two_pow_pos _

theorem HeapOk.block_apart_chunk (ok : HeapOk mm md nrPfns s g) {b : Block} (hb : b ∈ g.blocks)
    {i c : ℕ} (hi : i ≤ 6) (hc : c ∈ g.free i) : Apart b.ptr b.size c (2 ^ (5 + i)) := by
  obtain ⟨r, u, hr, -, hw, hbig, hsmall⟩ := ok.block_home hb
  by_cases h : b.binIndex = invalidBinIndex
  · obtain ⟨rfl, -⟩ := hbig h
    exact ok.apart_of_use (ok.used _ _ hr) (fun i => by rw [hr]; simp) hw (ok.chunk i hi c hc)
  · obtain ⟨hchunk, hnot⟩ := hsmall h
    rw [Block.size_of_bin h]
    apply ok.chunks_apart hchunk (ok.chunk i hi c hc)
    rintro rfl rfl
    exact hnot hc

theorem HeapOk.blocks_apart (ok : HeapOk mm md nrPfns s g) {b b' : Block} (hb : b ∈ g.blocks)
    (hb' : b' ∈ g.blocks) (hne : b.ptr ≠ b'.ptr) : Apart b.ptr b.size b'.ptr b'.size := by
  obtain ⟨r, u, hr, -, hw, hbig, hsmall⟩ := ok.block_home hb
  obtain ⟨t, v, ht, -, hw', hbig', hsmall'⟩ := ok.block_home hb'
  by_cases hrt : r = t
  · subst hrt
    obtain rfl : u = v := Option.some.inj (hr.symm.trans ht)
    by_cases h : b.binIndex = invalidBinIndex
    · obtain ⟨rfl, -, hptr⟩ := hbig h
      by_cases h' : b'.binIndex = invalidBinIndex
      · exact absurd (hptr.trans (hbig' h').2.2.symm) hne
      · obtain ⟨hchunk, -⟩ := hsmall' h'
        rw [Block.size_of_bin h']
        exact ok.apart_of_use (ok.used _ _ hr) (fun i => by rw [hr]; simp) hw hchunk
    · by_cases h' : b'.binIndex = invalidBinIndex
      · obtain ⟨hchunk, -⟩ := hsmall h
        obtain ⟨rfl, -⟩ := hbig' h'
        have := ok.apart_of_use (ok.used _ _ hr) (fun i => by rw [hr]; simp) hw' hchunk
        rw [Block.size_of_bin h]
        exact this.symm
      · rw [Block.size_of_bin h, Block.size_of_bin h']
        exact ok.chunks_apart (hsmall h).1 (hsmall' h').1 fun _ => hne
  · exact ok.apart (ok.used _ _ hr) (ok.used _ _ ht) hrt hw hw'

theorem HeapOk.chunk_ne_ptr (ok : HeapOk mm md nrPfns s g) {i c : ℕ} (hi : i ≤ 6)
    (hc : c ∈ g.free i) {b : Block} (hb : b ∈ g.blocks) : c ≠ b.ptr := by
  have h := ok.block_apart_chunk hb hi hc
  have h1 := ok.block_size_pos hb
  have h2 := Nat.two_pow_pos (5 + i)
  unfold Apart at h
  omega

theorem HeapOk.chunk_not_guarded (ram : RamOk mm nrPfns) (ok : HeapOk mm md nrPfns s g) {i c : ℕ}
    (hc : IsChunk g.use i c) (hnot : c ∉ g.free i) {a : ℕ} (h1 : c ≤ a) (h2 : a < c + 2 ^ (5 + i)) :
    ¬ Guarded s g a := by
  obtain ⟨r, hr, hur, hw, -⟩ := hc.live ok
  apply ok.not_guarded ram hr (by rw [hur]; simp)
  · unfold Within at hw ⊢
    omega
  · intro j d hj hd
    have hap := ok.chunks_apart hc (ok.chunk j hj d hd) (fun h1 h2 => hnot (by rw [h1, h2]; exact hd))
    have := eight_le_chunk j
    unfold Apart at hap ⊢
    omega

theorem HeapOk.takeChunk (ram : RamOk mm nrPfns) (ok : HeapOk mm md nrPfns s g) {i c : ℕ}
    {cs : List ℕ} (hi : i ≤ 6) (hfree : g.free i = c :: cs) {b : Block} (hptr : b.ptr = c)
    (hbin : b.binIndex = i) :
    (s.takeChunk i (binConfigs.getD i default)).2 = c ∧ c ≠ 0 ∧
      HeapOk mm md nrPfns (s.takeChunk i (binConfigs.getD i default)).1
        { g with free := Function.update g.free i cs, blocks := b :: g.blocks } ∧
      ∀ k < 2 ^ (5 + i), (s.takeChunk i (binConfigs.getD i default)).1.mem (c + k) = 0 := by
  have hlist := ok.list i hi
  have hchunks := ok.chunk i hi
  have hnodup := ok.nodup i hi
  rw [hfree] at hlist hchunks hnodup
  obtain ⟨hhead, hne, hrest⟩ := hlist
  obtain ⟨hnot, hnodup⟩ := List.nodup_cons.mp hnodup
  have hc := hchunks c (List.mem_cons_self ..)
  have hmem : c ∈ g.free i := by rw [hfree]; exact List.mem_cons_self ..
  have ok₁ := ok.setList hrest (fun d hd => hchunks d (List.mem_cons_of_mem _ hd)) hnodup
    (fun b' hb' hbi hin => ok.chunk_ne_ptr hi (c := b'.ptr) (by
      rw [hfree]
      exact List.mem_cons_of_mem _ hin) hb' rfl)
  have ok₂ := ok₁.setMem (fillZero s.mem c (2 ^ (5 + i))) (fun a ha => by
    apply fillZero_of_notMem
    by_contra hin
    exact ok₁.chunk_not_guarded ram hc (by simpa using hnot) (by omega) (by omega) ha)
  have ok₃ := (ok₂.addBlock (b := b) (by
    unfold BlockOk
    rw [if_neg (by rw [hbin]; simp only [invalidBinIndex]; omega), hbin, hptr]
    exact ⟨hc, by simpa using hnot⟩) (fun b' hb' => by
      rw [hptr]
      exact ok.chunk_ne_ptr hi hmem hb')).setLock false
  have hshift : 1 <<< (binConfigs.getD i default).chunkShift = 2 ^ (5 + i) := by
    rw [(binConfig_spec hi).1, Nat.one_shiftLeft]
  refine ⟨hhead, hne, ?_, ?_⟩
  · simp only [Halloc.takeChunk, hshift, hhead, spinlockRelease]
    exact ok₃
  · intro k hk
    simp only [Halloc.takeChunk, hshift, hhead, spinlockRelease]
    exact fillZero_of_mem (by omega) (by omega)

theorem HeapOk.pageBlock (ram : RamOk mm nrPfns) (ok : HeapOk mm md nrPfns s g) {p : ℕ} {b : Block}
    (hlive : (p, b.nrPages) ∈ g.live) (hnone : g.use (p, b.nrPages) = none)
    (hother : (p, b.nrPages) ∉ g.others) (hptr : b.ptr = frameAddr p)
    (hbin : b.binIndex = invalidBinIndex) (hle : b.nrPages ≤ 256) :
    HeapOk mm md nrPfns
      ((s.setContigAllocated p b.nrPages).setHallocFlags p
        (hallocFlagsPageGranularity ||| hallocFlagsManaged))
      { g with
        use := Function.update g.use (p, b.nrPages) (some .block)
        blocks := b :: g.blocks } := by
  have hpos := (ok.pf.liveUsable _ hlive).1
  have hp : p ∈ frames (p, b.nrPages) := mem_frames.mpr ⟨le_refl _, Nat.lt_add_of_pos_right hpos⟩
  have ok₁ := (ok.setMem (Function.update (Function.update s.mem (s.allocPageAddr p + 1)
      (b.nrPages % 256)) (s.allocPageAddr p) 48) (fun a ha => by
    have hnot := fun h => ok.record_not_guarded ram hlive hnone hp h ha
    rw [Function.update_of_ne fun h => hnot (.inl h), Function.update_of_ne fun h =>
      hnot (.inr h)])).setUse (u := .block) hlive hnone hother (fun i h => by cases h)
  apply ok₁.addBlock
  · unfold BlockOk
    rw [if_pos hbin]
    refine ⟨p, Function.update_self .., hptr, hle, ?_, ?_⟩
    · exact Function.update_self ..
    · simp only [contigAllocated, allocPageAddr]
      rw [Function.update_of_ne (by omega), Function.update_self]
  · intro b' hb'
    rw [hptr]
    obtain ⟨r, u, hr, -, hw, -⟩ := ok.block_home hb'
    have hne : (p, b.nrPages) ≠ r := by
      rintro rfl
      rw [hnone] at hr
      cases hr
    have hw' : Within (p, b.nrPages) (frameAddr p) 1 := ⟨le_refl _, by
      simp only [frameAddr] at *
      omega⟩
    have hap := ok.apart hlive (ok.used _ _ hr) hne hw' hw
    have := ok.block_size_pos hb'
    unfold Apart at hap
    omega

/-- What a call of `hmalloc_align` that returns `ptr` leaves behind. -/
def Allocated (mm : List LimineMemmapEntry) (md : ℕ × ℕ) (nrPfns : ℕ) (s' : Halloc) (g : Ghost)
    (b : Block) : Prop :=
  (b.ptr = 0 ∧ HeapOk mm md nrPfns s' g) ∨
    (b.ptr ≠ 0 ∧ s'.lock = false ∧ b.req ≠ 0 ∧ isPowerOfTwo b.alignment = true ∧
      b.actualReq ≤ maxSupportedAllocationSize ∧
      (b.binIndex ≠ invalidBinIndex → ∀ k < b.size, s'.mem (b.ptr + k) = 0) ∧
      ∃ g', HeapOk mm md nrPfns s' g' ∧ g'.blocks = b :: g.blocks ∧ g'.others = g.others)

theorem sizeToBinIndex_le {size : ℕ} (h : sizeToBinIndex size ≠ invalidBinIndex) :
    sizeToBinIndex size ≤ 6 ∧ size ≤ 2 ^ (5 + sizeToBinIndex size) := by
  unfold sizeToBinIndex at *
  split_ifs at h ⊢ <;> first | exact absurd rfl h | exact ⟨by norm_num, by norm_num; omega⟩

theorem roundUp_page {req : ℕ} (h : req ≤ maxSupportedAllocationSize) :
    roundUp req pageSize = (req + 4095) / 4096 := by
  simp only [maxSupportedAllocationSize, Nat.one_shiftLeft] at h
  rw [roundUp, u64_of_lt (by simp only [pageSize]; omega)]
  rfl

/-- **One call of `pf_fallback_allocation`.** -/
theorem HeapOk.pfFallbackAllocation (ram : RamOk mm nrPfns) (ok : HeapOk mm md nrPfns s g)
    {req alignment : ℕ} (hreq : req ≠ 0) (halign : isPowerOfTwo alignment = true)
    (hbin : sizeToBinIndex (max req alignment) = invalidBinIndex)
    (hmax : max req alignment ≤ maxSupportedAllocationSize) :
    (s.lock = true ∧ s.pfFallbackAllocation (max req alignment) = none) ∨
      ∃ s' ptr, s.pfFallbackAllocation (max req alignment) = some (s', ptr) ∧
        (ptr = 0 → s' = s) ∧ Allocated mm md nrPfns s' g ⟨ptr, req, alignment⟩ := by
  obtain ⟨pf', res, hcall, hnone, hsome⟩ := ok.getPages ram (roundUp (max req alignment) pageSize)
  cases res with
  | none =>
      refine .inr ⟨s, 0, ?_, fun _ => rfl, .inl ⟨rfl, ok⟩⟩
      simp [Halloc.pfFallbackAllocation, hcall, hnone rfl]
  | some v =>
      obtain ⟨p, rfl, hpos, hlt, hfresh, ok₁⟩ := hsome v rfl
      cases hlock : s.lock with
      | true =>
          refine .inl ⟨rfl, ?_⟩
          simp [Halloc.pfFallbackAllocation, hcall, spinlockAcquire, hlock]
      | false =>
          have hpages := roundUp_page hmax
          simp only [maxSupportedAllocationSize, Nat.one_shiftLeft] at hmax
          have ok₂ := (ok₁.setLock true).pageBlock ram (p := p)
            (b := ⟨frameAddr p, req, alignment⟩) (List.mem_cons_self ..) (ok.use_eq_none hfresh)
            (fun h => hfresh (ok.other _ h).1) rfl hbin (by
              simp only [Block.nrPages, Block.actualReq, hpages]
              omega)
          have hne : frameAddr p ≠ 0 := by
            rw [frameAddr_eq]
            omega
          refine .inr ⟨_, frameAddr p, ?_, fun h => absurd h hne, .inr ⟨hne, rfl, hreq, halign, ?_,
            fun h => absurd hbin h, _, ok₂.setLock false, rfl, rfl⟩⟩
          · have hpfn : physToPfn (virtToPhys (frameAddr p)) = p :=
              pfn_of_frameAddr (k := 0) (by omega) (by norm_num)
            simp only [Halloc.pfFallbackAllocation, hcall, Option.bind_eq_bind, Option.bind_some,
              spinlockAcquire, hlock, Bool.false_eq_true, if_false, hpfn, Option.pure_def]
            rfl
          · simpa [Block.actualReq, Nat.one_shiftLeft] using hmax

theorem HeapOk.takeChunk_of_ne_nil (ram : RamOk mm nrPfns) (ok : HeapOk mm md nrPfns s g)
    {req alignment : ℕ} (hreq : req ≠ 0) (halign : isPowerOfTwo alignment = true)
    (hbin : sizeToBinIndex (max req alignment) ≠ invalidBinIndex)
    (hfree : g.free (sizeToBinIndex (max req alignment)) ≠ []) {g₀ : Ghost}
    (hblocks : g.blocks = g₀.blocks) (hothers : g.others = g₀.others) :
    let i := sizeToBinIndex (max req alignment)
    Allocated mm md nrPfns (s.takeChunk i (binConfigs.getD i default)).1 g₀
      ⟨(s.takeChunk i (binConfigs.getD i default)).2, req, alignment⟩ := by
  intro i
  obtain ⟨hi, hsize⟩ := sizeToBinIndex_le hbin
  obtain ⟨c, cs, hcs⟩ := List.exists_cons_of_ne_nil hfree
  obtain ⟨hptr, hne, ok', hzero⟩ := ok.takeChunk ram hi hcs (b := ⟨c, req, alignment⟩) rfl rfl
  have hlarge : 2 ^ (5 + sizeToBinIndex (max req alignment)) ≤ 2 ^ 20 :=
    Nat.pow_le_pow_right (by norm_num) (by omega)
  rw [hptr]
  refine .inr ⟨hne, rfl, hreq, halign, ?_, fun h => ?_, _, ok', ?_, ?_⟩
  · simp only [Block.actualReq, maxSupportedAllocationSize, Nat.one_shiftLeft]
    exact hsize.trans hlarge
  · rw [Block.size_of_bin h]
    exact hzero
  · rw [← hblocks]
  · rw [← hothers]

/-- The ways through `hmalloc_align`, each with its result. -/
inductive Passes (mm : List LimineMemmapEntry) (md : ℕ × ℕ) (nrPfns : ℕ) (s : Halloc) (g : Ghost)
    (req alignment : ℕ) : Option (Halloc × ℕ) → Prop
  | refused (hbad : req = 0 ∨ isPowerOfTwo alignment = false ∨
        sizeToBinIndex (max req alignment) = invalidBinIndex) :
      Passes mm md nrPfns s g req alignment (some (s, 0))
  | fallback (hreq : req ≠ 0) (halign : isPowerOfTwo alignment = true)
      (hbin : sizeToBinIndex (max req alignment) = invalidBinIndex)
      (hmax : max req alignment ≤ maxSupportedAllocationSize) :
      Passes mm md nrPfns s g req alignment (s.pfFallbackAllocation (max req alignment))
  | waits (hlock : s.lock = true) : Passes mm md nrPfns s g req alignment none
  | starved (hempty : s.bins (sizeToBinIndex (max req alignment)) = 0)
      (hpopulate : { s with lock := true }.populateBin (sizeToBinIndex (max req alignment))
        (5 + sizeToBinIndex (max req alignment))
        (binConfigs.getD (sizeToBinIndex (max req alignment)) default).repopulateNrPages =
          some ({ s with lock := true }, false))
      (hreq : req ≠ 0) (halign : isPowerOfTwo alignment = true)
      (hbin : sizeToBinIndex (max req alignment) ≠ invalidBinIndex) :
      Passes mm md nrPfns s g req alignment (some ({ s with lock := true }, 0))
  | served {s₂ : Halloc} {g' : Ghost} (ok : HeapOk mm md nrPfns s₂ g')
      (hblocks : g'.blocks = g.blocks) (hothers : g'.others = g.others)
      (hfree : g'.free (sizeToBinIndex (max req alignment)) ≠ [])
      (hpopulate : s.bins (sizeToBinIndex (max req alignment)) = 0 →
        { s with lock := true }.populateBin (sizeToBinIndex (max req alignment))
          (5 + sizeToBinIndex (max req alignment))
          (binConfigs.getD (sizeToBinIndex (max req alignment)) default).repopulateNrPages =
            some (s₂, true))
      (hreq : req ≠ 0) (halign : isPowerOfTwo alignment = true)
      (hbin : sizeToBinIndex (max req alignment) ≠ invalidBinIndex) :
      Passes mm md nrPfns s g req alignment
        (some (s₂.takeChunk (sizeToBinIndex (max req alignment))
          (binConfigs.getD (sizeToBinIndex (max req alignment)) default)))

theorem HeapOk.passes (ram : RamOk mm nrPfns) (ok : HeapOk mm md nrPfns s g) (req alignment : ℕ) :
    Passes mm md nrPfns s g req alignment (s.hmallocAlign req alignment) := by
  unfold Halloc.hmallocAlign
  by_cases hbad : req = 0 ∨ isPowerOfTwo alignment = false
  · rw [if_pos hbad]
    exact .refused (hbad.imp_right Or.inl)
  rw [if_neg hbad]
  obtain ⟨hreq, halign⟩ := not_or.mp hbad
  rw [Bool.not_eq_false] at halign
  by_cases hbin : sizeToBinIndex (max req alignment) = invalidBinIndex
  · simp only [hbin, if_true]
    by_cases hmax : maxSupportedAllocationSize < max req alignment
    · rw [if_pos hmax]
      exact .refused (.inr (.inr hbin))
    · rw [if_neg hmax]
      exact .fallback hreq halign hbin (not_lt.mp hmax)
  · simp only [hbin, if_false]
    cases hlock : s.lock with
    | true =>
        simp only [spinlockAcquire, hlock, if_true, Option.bind_eq_bind, Option.bind_none]
        exact .waits hlock
    | false =>
        obtain ⟨hi, -⟩ := sizeToBinIndex_le hbin
        obtain ⟨hshift, -⟩ := binConfig_spec hi
        have ok₁ := ok.setLock true
        simp only [spinlockAcquire, hlock, Bool.false_eq_true, if_false, Option.bind_eq_bind,
          Option.bind_some]
        by_cases hempty : s.bins (sizeToBinIndex (max req alignment)) = 0
        · rw [if_pos hempty, repopulateBin, hshift]
          obtain ⟨s₂, success, hcall, -, hfail, hsucc⟩ := ok₁.populateBin ram
            (binConfigs.getD (sizeToBinIndex (max req alignment)) default).repopulateNrPages hi
          rw [hcall]
          cases success with
          | false =>
              obtain rfl := hfail rfl
              exact .starved hempty hcall hreq halign hbin
          | true =>
              obtain ⟨g', ok', hblocks, hothers, hne⟩ := hsucc rfl
              exact .served ok' hblocks hothers hne (fun _ => hcall) hreq halign hbin
        · rw [if_neg hempty]
          have hne : g.free (sizeToBinIndex (max req alignment)) ≠ [] :=
            fun h => hempty ((ok.list _ hi).eq_nil_iff.mpr h)
          exact .served ok₁ rfl rfl hne (fun h => absurd h hempty) hreq halign hbin

/-- **One call of `hmalloc_align`.**  It has no result only if it finds the lock taken. -/
theorem HeapOk.hmallocAlign (ram : RamOk mm nrPfns) (ok : HeapOk mm md nrPfns s g)
    (req alignment : ℕ) :
    (s.lock = true ∧ s.hmallocAlign req alignment = none) ∨
      ∃ s' ptr, s.hmallocAlign req alignment = some (s', ptr) ∧
        Allocated mm md nrPfns s' g ⟨ptr, req, alignment⟩ := by
  have hpasses := ok.passes ram req alignment
  generalize s.hmallocAlign req alignment = r at hpasses ⊢
  cases hpasses with
  | refused _ => exact .inr ⟨s, 0, rfl, .inl ⟨rfl, ok⟩⟩
  | fallback hreq halign hbin hmax =>
      apply (ok.pfFallbackAllocation ram hreq halign hbin hmax).imp_right
      rintro ⟨s', ptr, hcall, -, hres⟩
      exact ⟨s', ptr, hcall, hres⟩
  | waits hlock => exact .inl ⟨hlock, rfl⟩
  | starved _ _ _ _ _ => exact .inr ⟨_, 0, rfl, .inl ⟨rfl, ok.setLock true⟩⟩
  | served ok' hblocks hothers hfree _ hreq halign hbin =>
      exact .inr ⟨_, _, rfl, ok'.takeChunk_of_ne_nil ram hreq halign hbin hfree hblocks hothers⟩

/-! ### Release -/

theorem HeapOk.head_lt (ram : RamOk mm nrPfns) (ok : HeapOk mm md nrPfns s g) {i : ℕ} (hi : i ≤ 6) :
    s.bins i < 2 ^ 64 := by
  have hlist := ok.list i hi
  cases hfree : g.free i with
  | nil =>
      rw [hfree] at hlist
      rw [hlist]
      norm_num
  | cons c cs =>
      rw [hfree] at hlist
      obtain ⟨r, hr, -, hw, -⟩ := (ok.chunk i hi c (by rw [hfree]; exact List.mem_cons_self ..)).live ok
      have hlt := (range_lt ram ok.pf hr).2.2
      have hpos := Nat.two_pow_pos (5 + i)
      unfold Within at hw
      simp only [frameAddr_eq] at hw
      rw [hlist.1]
      omega

theorem HeapOk.ptr_ne_of_erase (ok : HeapOk mm md nrPfns s g) {b b' : Block} (hb : b ∈ g.blocks)
    (hb' : b' ∈ g.blocks.erase b) : b'.ptr ≠ b.ptr := by
  have hperm := List.perm_cons_erase hb
  have hpair := (hperm.pairwise_iff (fun h => Ne.symm h)).mp ok.distinct
  exact ((List.pairwise_cons.mp hpair).1 b' hb').symm

theorem HeapOk.freeChunk (ram : RamOk mm nrPfns) (ok : HeapOk mm md nrPfns s g) {b : Block}
    (hb : b ∈ g.blocks) (hbin : b.binIndex ≠ invalidBinIndex) :
    HeapOk mm md nrPfns
      { s with
        mem := store64 s.mem b.ptr (s.bins b.binIndex)
        bins := Function.update s.bins b.binIndex b.ptr }
      { g with
        free := Function.update g.free b.binIndex (b.ptr :: g.free b.binIndex)
        blocks := g.blocks.erase b } := by
  have hi : b.binIndex ≤ 6 := (sizeToBinIndex_le hbin).1
  obtain ⟨-, -, -, -, -, -, hsmall⟩ := ok.block_home hb
  obtain ⟨hc, hnot⟩ := hsmall hbin
  have h8 := eight_le_chunk b.binIndex
  have ok₁ := (ok.removeBlock b).setMem (store64 s.mem b.ptr (s.bins b.binIndex))
    (fun a ha => by
      apply store64_of_notMem
      by_contra hin
      exact (ok.removeBlock b).chunk_not_guarded ram hc hnot (by omega) (by omega) ha)
  have hne : b.ptr ≠ 0 := by
    obtain ⟨r, -, -, hw, -⟩ := hc.live ok
    unfold Within at hw
    simp only [frameAddr_eq] at hw
    omega
  apply ok₁.setList
  · apply (ok.list _ hi).push hne (ok.head_lt ram hi)
    intro d hd
    have hap := ok.block_apart_chunk hb hi hd
    rw [Block.size_of_bin hbin] at hap
    unfold Apart at hap
    omega
  · intro c hc'
    rcases List.mem_cons.mp hc' with rfl | hc'
    · exact hc
    · exact ok.chunk _ hi c hc'
  · exact List.nodup_cons.mpr ⟨hnot, ok.nodup _ hi⟩
  · intro b' hb' hbi hmem
    rcases List.mem_cons.mp hmem with heq | hmem
    · exact ok.ptr_ne_of_erase hb hb' heq
    · exact ok.chunk_ne_ptr hi hmem (List.mem_of_mem_erase hb') rfl

theorem freePages_zero {a : PfAlloc} {live : List (ℕ × ℕ)} (inv : PfAlloc.Inv mm md a live)
    (addr : ℕ) : a.freePages 0 addr = some a := by
  have htot := inv.total_le
  simp only [PfAlloc.freePages, PfAlloc.freePagesRaw, PfAlloc.clearBitmapRegion, bitmapRegion,
    Option.pure_def, Option.bind_eq_bind, Option.bind_some, freedNrFrames]
  rw [u64_of_lt (by omega), u64Sub_of_le (by omega) (by omega)]
  simp

/-- A block of pages returns to the page-frame allocator, or, if it has 256 pages, to nobody. -/
theorem HeapOk.freeBlock (ram : RamOk mm nrPfns) (ok : HeapOk mm md nrPfns s g) {b : Block}
    (hb : b ∈ g.blocks) {p : ℕ} (hptr : b.ptr = frameAddr p)
    (huse : g.use (p, b.nrPages) = some .block) (hle : b.nrPages ≤ 256) :
    ∃ mem' pf' g', s.setPageRangeHallocFlags b.ptr (b.nrPages % 256) hallocFlagsClear =
        { s with mem := mem' } ∧ s.pf.freePages (b.nrPages % 256) b.ptr = some pf' ∧
      HeapOk mm md nrPfns { s with mem := mem', pf := pf' } g' ∧ g'.blocks = g.blocks.erase b ∧
      g'.others = g.others := by
  have hlive := ok.used _ _ huse
  obtain ⟨hpos, -, hlt⟩ := range_lt ram ok.pf hlive
  simp only at hpos hlt
  rw [hptr]
  rcases Nat.lt_or_ge b.nrPages 256 with hsmall | hlarge
  · rw [Nat.mod_eq_of_lt hsmall]
    obtain ⟨mem', hset, -, hkeep⟩ := setPageRangeHallocFlags_spec s p b.nrPages hallocFlagsClear hlt
    obtain ⟨pf', hfree, inv'⟩ := ok.pf.freePagesRaw hlive
    have ok₁ := (ok.removeBlock b).clearUse (r := (p, b.nrPages)) huse (fun b' hb' _ => by
      rw [← hptr]
      exact ok.ptr_ne_of_erase hb hb')
    have ok₂ := ok₁.setMem mem' (fun a ha => hkeep a fun k hk hak => by
      refine ok₁.record_not_guarded ram hlive (Function.update_self ..) (mem_frames.mpr
        ⟨Nat.le_add_right p k, ?_⟩) (.inl hak) ha
      simp only
      omega)
    have hother : (p, b.nrPages) ∉ g.others := fun h => by
      rw [(ok.other _ h).2] at huse
      cases huse
    refine ⟨mem', pf', _, hset, ?_, ok₂.release inv' (Function.update_self ..) hother, rfl, rfl⟩
    have hphys := virtToPhys_frameAddr (q := p) (k := 0) (by omega)
    rw [Nat.add_zero, Nat.add_zero] at hphys
    rw [PfAlloc.freePages, hphys]
    exact hfree
  · obtain hnr : b.nrPages = 256 := by omega
    rw [hnr]
    exact ⟨s.mem, s.pf, _, rfl, freePages_zero ok.pf _, ok.removeBlock b, rfl, rfl⟩

theorem managed_flags {i : ℕ} (hi : i ≤ 6) : (32 + i) &&& hallocFlagsManaged ≠ 0 ∧
    (32 + i) &&& hallocFlagsPageGranularity = 0 ∧ (32 + i) &&& hallocFlagsBinIndexMask = i := by
  interval_cases i <;> decide

/-- **One call of `hfree`** on a live block.  It has no result only if it finds the lock taken. -/
theorem HeapOk.hfree (ram : RamOk mm nrPfns) (ok : HeapOk mm md nrPfns s g) {b : Block}
    (hb : b ∈ g.blocks) :
    (s.lock = true ∧ s.hfree b.ptr = none) ∨
      ∃ s' g', s.hfree b.ptr = some s' ∧ s'.lock = false ∧ HeapOk mm md nrPfns s' g' ∧
        g'.blocks = g.blocks.erase b ∧ g'.others = g.others := by
  cases hlock : s.lock with
  | true => exact .inl ⟨rfl, by simp [Halloc.hfree, spinlockAcquire, hlock]⟩
  | false =>
      right
      have ok₁ := ok.setLock true
      have hbo := ok₁.block b hb
      unfold BlockOk at hbo
      by_cases hbin : b.binIndex = invalidBinIndex
      · rw [if_pos hbin] at hbo
        obtain ⟨p, huse, hptr, hle, hflags, hcontig⟩ := hbo
        obtain ⟨mem', pf', g', hset, hfree, ok', hblocks, hothers⟩ :=
          ok₁.freeBlock ram hb hptr huse hle
        have hlt := (range_lt ram ok.pf (ok.used _ _ huse)).2.2
        have hpos := (range_lt ram ok.pf (ok.used _ _ huse)).1
        have hpfn : physToPfn (virtToPhys b.ptr) = p := by
          rw [hptr]
          exact pfn_of_frameAddr (k := 0) (by simp only at hlt hpos; omega) (by norm_num)
        refine ⟨_, g', ?_, rfl, ok'.setLock false, hblocks, hothers⟩
        simp only [Halloc.hfree, spinlockAcquire, hlock, Bool.false_eq_true, if_false,
          Option.bind_eq_bind, Option.bind_some, hpfn, hflags, hcontig, hset, hfree, Option.pure_def]
        rfl
      · rw [if_neg hbin] at hbo
        have hi : b.binIndex ≤ 6 := (sizeToBinIndex_le hbin).1
        obtain ⟨r, hr, hur, hw, -⟩ := hbo.1.live ok₁
        have hflags := ok₁.flags r _ hur _ (pfn_mem_frames ram ok₁ hr (Nat.two_pow_pos _) hw)
        obtain ⟨hm, hg, hbi⟩ := managed_flags hi
        refine ⟨_, _, ?_, rfl, (ok₁.freeChunk ram hb hbin).setLock false, rfl, rfl⟩
        simp only [Halloc.hfree, spinlockAcquire, hlock, Bool.false_eq_true, if_false,
          Option.bind_eq_bind, Option.bind_some, hflags]
        rw [if_neg hm, if_neg (by rw [hg]; simp), hbi]
        rfl

/-! ### Initialisation -/

theorem HeapOk.populateBins (ram : RamOk mm nrPfns) {configs : List BinConfig}
    (hconfigs : ∀ c ∈ configs, c.binIndex ≤ 6 ∧ c.chunkShift = 5 + c.binIndex)
    (ok : HeapOk mm md nrPfns s g) (hcall : populateBins configs s = some (s', true)) :
    ∃ g', HeapOk mm md nrPfns s' g' ∧ g'.blocks = g.blocks ∧ g'.others = g.others ∧
      s'.lock = s.lock := by
  induction configs generalizing s g with
  | nil =>
      obtain ⟨rfl, -⟩ := Prod.mk.inj (Option.some.inj hcall)
      exact ⟨g, ok, rfl, rfl, rfl⟩
  | cons config configs ih =>
      obtain ⟨hi, hshift⟩ := hconfigs config (List.mem_cons_self ..)
      obtain ⟨s₁, success, hpop, hlock, -, hsucc⟩ :=
        ok.populateBin ram config.nrOfInitPages hi
      rw [← hshift] at hpop
      rw [Halloc.populateBins, hpop] at hcall
      cases success with
      | false =>
          obtain ⟨-, h⟩ := Prod.mk.inj (Option.some.inj hcall)
          cases h
      | true =>
          obtain ⟨g₁, ok₁, hblocks, hothers, -⟩ := hsucc rfl
          obtain ⟨g', ok', hb, ho, hl⟩ :=
            ih (fun c hc => hconfigs c (List.mem_cons_of_mem _ hc)) ok₁ hcall
          exact ⟨g', ok', hb.trans hblocks, ho.trans hothers, hl.trans hlock⟩

theorem heapOk_array {pf : PfAlloc} {others : List (ℕ × ℕ)} {p nr : ℕ}
    (inv : PfAlloc.Inv mm md pf ((p, nr) :: others)) (hsize : 2 * nrPfns ≤ nr * 4096)
    (mem : ℕ → ℕ) :
    HeapOk mm md nrPfns ⟨pf, mem, fun _ => 0, frameAddr p, false⟩
      ⟨(p, nr) :: others, Function.update (fun _ => none) (p, nr) (some .array), fun _ => [], [],
        others⟩ := by
  have honly : ∀ r u, Function.update (fun _ => none) (p, nr) (some Use.array) r = some u →
      r = (p, nr) ∧ u = .array := by
    intro r u hr
    by_cases h : r = (p, nr)
    · rw [h, Function.update_self, Option.some.injEq] at hr
      exact ⟨h, hr.symm⟩
    · rw [Function.update_of_ne h] at hr
      cases hr
  constructor
  · exact inv
  · intro r u hr
    rw [(honly r u hr).1]
    exact List.mem_cons_self ..
  · exact ⟨(p, nr), by simp, rfl, hsize⟩
  · intro r i hr
    cases (honly r _ hr).2
  · intro r i hr
    cases (honly r _ hr).2
  · exact fun i _ => rfl
  · exact fun i _ c hc => by cases hc
  · exact fun i _ => List.nodup_nil
  · exact fun b hb => by cases hb
  · exact List.Pairwise.nil
  · intro r hr
    refine ⟨List.mem_cons_of_mem _ hr, ?_⟩
    have hne : r ≠ (p, nr) := fun h => (List.nodup_cons.mp inv.nodup).1 (h ▸ hr)
    simp [hne]

/-- **Initialisation.**  `init_halloc` establishes the invariant. -/
theorem heapOk_init {memInfo : SysMemInfo} (ram : RamOk mm memInfo.nrOfPfns)
    (hpfns : memInfo.nrOfPfns ≤ 2 ^ 52) {pf : PfAlloc} {others : List (ℕ × ℕ)}
    (inv : PfAlloc.Inv mm md pf others) {mem : ℕ → ℕ}
    (hcall : initHalloc memInfo pf mem = some (s, true)) :
    ∃ g, HeapOk mm md memInfo.nrOfPfns s g ∧ g.blocks = [] ∧ g.others = others := by
  obtain ⟨pf', res, hget, -, hsome⟩ := inv.getPagesImpl
    (roundUp (u64 (memInfo.nrOfPfns * allocPageSize)) pageSize)
  unfold initHalloc at hcall
  simp only [PfAlloc.getPages, hget, Option.bind_eq_bind, Option.bind_some, Option.pure_def] at hcall
  cases res with
  | none =>
      obtain ⟨-, h⟩ := Prod.mk.inj (Option.some.inj hcall)
      cases h
  | some addr =>
      obtain ⟨p, rfl, -, -, inv'⟩ := hsome addr rfl
      obtain ⟨hpos, -, hlt⟩ := range_lt ram inv' (List.mem_cons_self ..)
      simp only at hpos hlt
      simp only [Option.map_some, physToVirt_eq_frameAddr (show p < 2 ^ 35 by omega)] at hcall
      obtain ⟨⟨s₁, ok⟩, hpop, hcall⟩ := Option.bind_eq_some_iff.mp hcall
      have hsize : 2 * memInfo.nrOfPfns ≤
          roundUp (u64 (memInfo.nrOfPfns * allocPageSize)) pageSize * 4096 := by
        simp only [roundUp, u64, allocPageSize, pageSize]
        omega
      cases ok with
      | true =>
          obtain ⟨rfl, -⟩ := Prod.mk.inj (Option.some.inj hcall)
          obtain ⟨g, ok, hblocks, hothers, -⟩ := (heapOk_array inv' hsize mem).populateBins ram
            (by decide) hpop
          exact ⟨g, ok, hblocks, hothers⟩
      | false =>
          obtain ⟨pf'', -, h⟩ := Option.bind_eq_some_iff.mp hcall
          obtain ⟨-, h⟩ := Prod.mk.inj (Option.some.inj h)
          cases h

end Steps

end HyveMind.Halloc
