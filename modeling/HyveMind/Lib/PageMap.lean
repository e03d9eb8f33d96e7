import HyveMind.Lib.BlockLoop
import HyveMind.Lib.PageTable

/-! # Mapping an address range into page tables

`mapRange` is the usual recursive range mapper over four-level tables: at each level it loops over
the blocks of the range, takes a large leaf where the `Scheme` wants one, links a new table where
one is missing, and refuses entries that are already in use.  The mapper may read the links of entries
otherwise than the processor does (`Format.reading`).  The pages for new tables come from `grow`, about
which only `GrowSpec` is known: a new page was not in use before, it is empty, and the entry that links
it points to it, if no page was handed out whose address the mapper misreads.

`newLeaf` says, from the range and the scheme alone, by which leaf an address is to be mapped.
`mapRange_spec` is the one theorem about the mapper: existing entries stay, an address that was not
mapped is mapped as `newLeaf` says or not at all, after a successful call all of the range is, and a
refusal has its reason in an entry that was there before (`Mapped`).  `mapRange_inv` and
`mapRange_defined` hold whatever the tables are. -/

namespace HyveMind.Lib.PageTable

/-- The state of the allocator and the memory. -/
structure Heap (σ : Type*) where
  alloc : σ
  mem : ℕ → ℕ

/-- The memory with the word at `a` replaced. -/
def Heap.write {σ : Type*} (h : Heap σ) (a e : ℕ) : Heap σ := { h with mem := Function.update h.mem a e }

/-- The answers of the mapper. -/
structure Codes (ρ : Type*) where
  done : ρ
  mapped : ρ
  partly : ρ
  noMemory : ρ

/-- Where a piece of the range is mapped by a leaf, and by which one.  `leafEntry d old curr` is the
new entry for the piece that starts at `curr`. -/
structure Scheme where
  wants : ℕ → ℕ → ℕ → Bool
  leafEntry : ℕ → ℕ → ℕ → ℕ

section Mapper

variable {σ ρ : Type*} [DecidableEq ρ]
variable (F : Format) (C : Codes ρ) (S : Scheme) (grow : Heap σ → ℕ → Option (Heap σ × Bool))

/-- Maps one piece of the range, which lies in one block of the table `t` of depth `d`. -/
def mapBlock (child : Heap σ → ℕ → ℕ → ℕ → Option (Heap σ × ρ)) (d t : ℕ) (h : Heap σ)
    (curr currEnd : ℕ) : Option (Heap σ × ρ) :=
  let a := t + 8 * index d curr
  if F.present (h.mem a) && F.leaf d (h.mem a) then some (h, C.mapped)
  else if S.wants d curr currEnd then
    if F.present (h.mem a) then some (h, C.partly)
    else some (h.write a (S.leafEntry d (h.mem a) curr), C.done)
  else if F.present (h.mem a) then child h (F.next (h.mem a)) curr currEnd
  else
    (grow h a).bind fun (h', ok) =>
      if ok then child h' (F.next (h'.mem a)) curr currEnd else some (h', C.noMemory)

/-- Maps the range `first, …, last` in the table `t` of depth `d`, with `n` levels left. -/
def mapRange : ℕ → ℕ → Heap σ → ℕ → ℕ → ℕ → Option (Heap σ × ρ)
  | 0, _, _, _, _, _ => none
  | n + 1, d, h, t, first, last =>
      overBlocks C.done (shift d)
        (mapBlock F C S grow (fun h t first last => mapRange n (d + 1) h t first last) d t) h
        first last

end Mapper

/-! ### The leaf of an address -/

/-- The first address of the range in the block of `x`. -/
def chunkStart (d first x : ℕ) : ℕ := max first (x / 2 ^ shift d * 2 ^ shift d)

/-- The last address of the range in the block of `x`. -/
def chunkEnd (d last x : ℕ) : ℕ := min last (blockEnd (shift d) x)

/-- The leaf by which the range mapper maps `x`: its depth and its content. -/
def newLeaf (S : Scheme) : ℕ → ℕ → ℕ → ℕ → ℕ → Option (ℕ × ℕ)
  | 0, _, _, _, _ => none
  | n + 1, d, first, last, x =>
      let cs := chunkStart d first x
      let ce := chunkEnd d last x
      if cs ≤ ce then
        if S.wants d cs ce then some (d, S.leafEntry d 0 cs) else newLeaf S n (d + 1) cs ce x
      else none

section Leaf

variable {S : Scheme} {n d first last x y : ℕ}

/-- The blocks of the next depth refine the blocks of this one. -/
theorem div_mono_block (hd : d ≤ 2) (h : x / 2 ^ shift (d + 1) ≤ y / 2 ^ shift (d + 1)) :
    x / 2 ^ shift d ≤ y / 2 ^ shift d := by
  have hs : shift d = shift (d + 1) + 9 := by unfold shift; omega
  rw [hs, pow_add, ← Nat.div_div_eq_div_mul, ← Nat.div_div_eq_div_mul]
  exact Nat.div_le_div_right h

theorem le_blockEnd_iff (k x y : ℕ) : y ≤ blockEnd k x ↔ y / 2 ^ k ≤ x / 2 ^ k := by
  have hpos : 0 < 2 ^ k := Nat.two_pow_pos k
  rw [blockEnd_eq, ← Nat.lt_succ_iff (m := y / 2 ^ k), Nat.div_lt_iff_lt_mul hpos, Nat.succ_mul]
  omega

theorem blockStart_le_iff (k x y : ℕ) : x / 2 ^ k * 2 ^ k ≤ y ↔ x / 2 ^ k ≤ y / 2 ^ k :=
  (Nat.le_div_iff_mul_le (Nat.two_pow_pos k)).symm

theorem chunk_nonempty_iff (hle : first ≤ last) :
    chunkStart d first x ≤ chunkEnd d last x ↔
      first / 2 ^ shift d ≤ x / 2 ^ shift d ∧ x / 2 ^ shift d ≤ last / 2 ^ shift d := by
  have hx := Nat.div_mul_le_self x (2 ^ shift d)
  have hx' := le_blockEnd (shift d) x
  rw [← le_blockEnd_iff, ← blockStart_le_iff]
  unfold chunkStart chunkEnd
  omega

/-- In the block where the range starts the piece starts with the range. -/
theorem chunkStart_of_eq (h : x / 2 ^ shift d = first / 2 ^ shift d) :
    chunkStart d first x = first := by
  rw [chunkStart, h]
  exact max_eq_left (Nat.div_mul_le_self _ _)

theorem chunkEnd_of_eq (h : x / 2 ^ shift d = last / 2 ^ shift d) : chunkEnd d last x = last := by
  rw [chunkEnd, min_eq_left]
  rw [le_blockEnd_iff, h]

/-- The pieces of the next depth are cut out of the range itself. -/
theorem newLeaf_chunk (hd : d ≤ 2) :
    newLeaf S n (d + 1) (chunkStart d first x) (chunkEnd d last x) x =
      newLeaf S n (d + 1) first last x := by
  cases n with
  | zero => rfl
  | succ n =>
      have h1 : x / 2 ^ shift d * 2 ^ shift d ≤ x / 2 ^ shift (d + 1) * 2 ^ shift (d + 1) :=
        (blockStart_le_iff _ _ _).mpr (div_mono_block hd (by rw [Nat.mul_div_cancel _ (Nat.two_pow_pos _)]))
      have h2 : blockEnd (shift (d + 1)) x ≤ blockEnd (shift d) x :=
        (le_blockEnd_iff _ _ _).mpr (div_mono_block hd ((le_blockEnd_iff _ _ _).mp (le_refl _)))
      have hcs : chunkStart (d + 1) (chunkStart d first x) x = chunkStart (d + 1) first x := by
        unfold chunkStart
        omega
      have hce : chunkEnd (d + 1) (chunkEnd d last x) x = chunkEnd (d + 1) last x := by
        unfold chunkEnd
        omega
      simp only [newLeaf, hcs, hce]

theorem newLeaf_succ (hd : d ≤ 2) : newLeaf S (n + 1) d first last x =
    if chunkStart d first x ≤ chunkEnd d last x then
      if S.wants d (chunkStart d first x) (chunkEnd d last x) then
        some (d, S.leafEntry d 0 (chunkStart d first x))
      else newLeaf S n (d + 1) first last x
    else none := by
  rw [← newLeaf_chunk hd]
  rfl

theorem newLeaf_bounds (hle : first ≤ last) (h : (newLeaf S (n + 1) d first last x).isSome) :
    first / 2 ^ shift d ≤ x / 2 ^ shift d ∧ x / 2 ^ shift d ≤ last / 2 ^ shift d := by
  rw [← chunk_nonempty_iff hle]
  by_contra hn
  simp [newLeaf, hn] at h

theorem newLeaf_of_block (hle : first ≤ last) (hb : last / 2 ^ shift d = first / 2 ^ shift d) :
    newLeaf S (n + 1) d first last x =
      if x / 2 ^ shift d = first / 2 ^ shift d then
        if S.wants d first last then some (d, S.leafEntry d 0 first)
        else newLeaf S n (d + 1) first last x
      else none := by
  simp only [newLeaf, chunk_nonempty_iff hle]
  by_cases hx : x / 2 ^ shift d = first / 2 ^ shift d
  · rw [if_pos (by omega), if_pos hx, chunkStart_of_eq hx, chunkEnd_of_eq (hx.trans hb.symm)]
  · rw [if_neg (by omega), if_neg hx]

theorem div_mono_depth {d' : ℕ} (hd : d ≤ d') (hd' : d' ≤ 3)
    (h : x / 2 ^ shift d' ≤ y / 2 ^ shift d') : x / 2 ^ shift d ≤ y / 2 ^ shift d := by
  induction d' with
  | zero => rwa [Nat.le_zero.mp hd]
  | succ d' ih =>
      rcases Nat.lt_succ_iff_lt_or_eq.mp (Nat.lt_succ_of_le hd) with hlt | rfl
      · exact ih (by omega) (by omega) (div_mono_block (by omega) h)
      · exact h

/-- A leaf reaches into the range, and every address of its block has it. -/
theorem newLeaf_block {d' e : ℕ} (hdn : d + n ≤ 4) (hle : first ≤ last)
    (h : newLeaf S n d first last x = some (d', e)) :
    d ≤ d' ∧ d' ≤ 3 ∧ first / 2 ^ shift d' ≤ x / 2 ^ shift d' ∧
      x / 2 ^ shift d' ≤ last / 2 ^ shift d' ∧
      ∀ y, y / 2 ^ shift d' = x / 2 ^ shift d' → newLeaf S n d first last y = some (d', e) := by
  induction n generalizing d first last with
  | zero => cases h
  | succ n ih =>
      rw [newLeaf] at h
      split_ifs at h with hc hw
      · obtain ⟨rfl, rfl⟩ := Prod.mk.inj (Option.some.inj h)
        obtain ⟨h1, h2⟩ := (chunk_nonempty_iff hle).mp hc
        refine ⟨le_refl _, by omega, h1, h2, fun y hy => ?_⟩
        have hcs : chunkStart d first y = chunkStart d first x := by rw [chunkStart, chunkStart, hy]
        have hce : chunkEnd d last y = chunkEnd d last x := by
          rw [chunkEnd, chunkEnd, blockEnd_eq, blockEnd_eq, hy]
        rw [newLeaf, hcs, hce, if_pos hc, if_pos hw]
      · obtain ⟨h1, h2, h3, h4, h5⟩ := ih (by omega) hc h
        have hfirst : first ≤ chunkStart d first x := le_max_left _ _
        have hlast : chunkEnd d last x ≤ last := min_le_left _ _
        refine ⟨by omega, h2, (Nat.div_le_div_right hfirst).trans h3,
          h4.trans (Nat.div_le_div_right hlast), fun y hy => ?_⟩
        have hyx : y / 2 ^ shift d = x / 2 ^ shift d := le_antisymm
          (div_mono_depth (by omega) h2 hy.le) (div_mono_depth (by omega) h2 hy.ge)
        have hcs : chunkStart d first y = chunkStart d first x := by
          rw [chunkStart, chunkStart, hyx]
        have hce : chunkEnd d last y = chunkEnd d last x := by
          rw [chunkEnd, chunkEnd, blockEnd_eq, blockEnd_eq, hyx]
        rw [newLeaf, hcs, hce, if_pos hc, if_neg hw]
        exact h5 y hy

theorem exists_mem_of_newLeaf {d' e : ℕ} (hdn : d + n ≤ 4) (hle : first ≤ last)
    (h : newLeaf S n d first last x = some (d', e)) :
    ∃ y, first ≤ y ∧ y ≤ last ∧ y / 2 ^ shift d' = x / 2 ^ shift d' ∧
      newLeaf S n d first last y = some (d', e) := by
  obtain ⟨-, -, h1, h2, hsame⟩ := newLeaf_block hdn hle h
  rcases Nat.lt_or_ge x first with hlt | hge
  · have hy := le_antisymm h1 (Nat.div_le_div_right hlt.le)
    exact ⟨first, le_refl _, hle, hy, hsame first hy⟩
  · rcases Nat.le_total x last with hxl | hxl
    · exact ⟨x, hge, hxl, rfl, h⟩
    · have hy := le_antisymm (Nat.div_le_div_right hxl) h2
      exact ⟨last, hle, le_refl _, hy, hsame last hy⟩

variable {mid : ℕ}

/-- Up to the block boundary `mid` the leaves are those of the range that ends there. -/
theorem newLeaf_left (hmid : mid < last) (hb : blockEnd (shift d) mid = mid)
    (hx : x / 2 ^ shift d ≤ mid / 2 ^ shift d) :
    newLeaf S (n + 1) d first last x = newLeaf S (n + 1) d first mid x := by
  have hend : blockEnd (shift d) x ≤ mid := by
    rw [← hb, le_blockEnd_iff, blockEnd_eq, Nat.mul_comm,
      Nat.mul_add_div (Nat.two_pow_pos _), Nat.div_eq_of_lt (Nat.sub_lt (Nat.two_pow_pos _) one_pos)]
    omega
  have hce : chunkEnd d last x = chunkEnd d mid x := by
    unfold chunkEnd
    omega
  simp only [newLeaf, hce]

/-- Behind it they are those of the range that starts there. -/
theorem newLeaf_right (hfirst : first ≤ mid) (hb : blockEnd (shift d) mid = mid)
    (hx : mid / 2 ^ shift d < x / 2 ^ shift d) :
    newLeaf S (n + 1) d first last x = newLeaf S (n + 1) d (mid + 1) last x := by
  have hstart : mid + 1 ≤ x / 2 ^ shift d * 2 ^ shift d := by
    by_contra hlt
    have := (blockStart_le_iff (shift d) x mid).mp (by omega)
    omega
  have hcs : chunkStart d first x = chunkStart d (mid + 1) x := by
    unfold chunkStart
    omega
  simp only [newLeaf, hcs]

theorem div_lt_of_blockEnd {k : ℕ} (hb : blockEnd k mid = mid) : mid / 2 ^ k < (mid + 1) / 2 ^ k := by
  by_contra hge
  have := (le_blockEnd_iff k mid (mid + 1)).mpr (by omega)
  omega

end Leaf

/-! ### What the mapper keeps and what it adds -/

section Spec

variable {σ ρ : Type*} (F : Format) (C : Codes ρ) (S : Scheme)
variable (grow : Heap σ → ℕ → Option (Heap σ × Bool))
variable (Good : σ → Prop) (InUse : σ → ℕ → Prop) (Low : σ → Prop)

/-- The answers can be told apart. -/
structure CodesOk (C : Codes ρ) : Prop where
  done_mapped : C.done ≠ C.mapped
  done_partly : C.done ≠ C.partly
  done_noMemory : C.done ≠ C.noMemory
  noMemory_mapped : C.noMemory ≠ C.mapped
  noMemory_partly : C.noMemory ≠ C.partly

/-- The empty entry is not present, the last level has leaves only, and the scheme writes leaves. -/
structure SchemeOk (F : Format) (S : Scheme) : Prop where
  zero : F.present 0 = false
  leaf_last : ∀ e, F.leaf 3 e = true
  wants_last : ∀ cs ce, S.wants 3 cs ce = true
  leafEntry : ∀ d cs ce, d ≤ 3 → S.wants d cs ce = true →
    F.present (S.leafEntry d 0 cs) = true ∧ F.leaf d (S.leafEntry d 0 cs) = true

/-- The mapper reads the links to pages in use as the processor does. -/
def ReadsTables (read : ℕ → ℕ) : Prop := ∀ a e, InUse a (F.next e / 4096) → read e = F.next e

/-- `grow h a` links a new page in the empty entry at `a`.  `Good` is the invariant of the allocator,
`InUse` says which of the pages that the mapper reads right it has handed out, and `Low` that it has
handed out no others. -/
structure GrowSpec : Prop where
  keep : ∀ h a h' ok, Good h.alloc → grow h a = some (h', ok) →
    Good h'.alloc ∧ (Low h'.alloc → Low h.alloc)
  link : ∀ (h : Heap σ) (a : ℕ) (h' : Heap σ) (ok : Bool), Good h.alloc →
    InUse h.alloc (a / 4096) → h.mem a = 0 → grow h a = some (h', ok) → Low h'.alloc →
    (∀ p, InUse h.alloc p → InUse h'.alloc p) ∧
      (ok = false → ∀ b, InUse h.alloc (b / 4096) → h'.mem b = h.mem b) ∧
      (ok = true → ∃ p, ¬ InUse h.alloc p ∧ InUse h'.alloc p ∧
        F.present (h'.mem a) = true ∧ (∀ d ≤ 2, F.leaf d (h'.mem a) = false) ∧
        F.next (h'.mem a) = p * 4096 ∧ (∀ b, b / 4096 = p → h'.mem b = 0) ∧
        ∀ b, InUse h.alloc (b / 4096) → b ≠ a → h'.mem b = h.mem b)

/-- The tables under `root` are separated, their pages are in use, and entries that are not present
are empty. -/
structure Rep (h : Heap σ) (root : ℕ) : Prop where
  good : Good h.alloc
  sep : Separated F h.mem root
  inUse : ∀ d g t, d ≤ 3 → table F h.mem root d g = some t → InUse h.alloc (t / 4096)
  zero : ∀ d g e, d ≤ 3 → entry F h.mem root d g = some e → F.present e = false → e = 0

/-- What mapping `first, …, last` from depth `d` on, with `n` levels left, does to the tables. -/
structure Mapped (root n d first last : ℕ) (h h' : Heap σ) (r : ρ) : Prop where
  rep : Rep F Good InUse h' root
  mono : ∀ p, InUse h.alloc p → InUse h'.alloc p
  above : ∀ d' g, d' < d → entry F h'.mem root d' g = entry F h.mem root d' g
  old : ∀ d' g v, d' ≤ 3 → (∀ x, first ≤ x → x ≤ last → path (d' + 1) x ≠ path (d' + 1) g) →
    entry F h'.mem root d' g = some v → F.present v = true → entry F h.mem root d' g = some v
  keep : ∀ d' g v, d' ≤ 3 → entry F h.mem root d' g = some v → F.present v = true →
    entry F h'.mem root d' g = some v
  new : ∀ g, lookupFrom F h'.mem root n d g = lookupFrom F h.mem root n d g ∨
    (lookupFrom F h.mem root n d g = none ∧ ∃ x, path 4 x = path 4 g ∧
      (newLeaf S n d first last x).isSome ∧
      lookupFrom F h'.mem root n d g = newLeaf S n d first last x)
  done : r = C.done → ∀ x, (newLeaf S n d first last x).isSome →
    lookupFrom F h.mem root n d x = none ∧
      lookupFrom F h'.mem root n d x = newLeaf S n d first last x
  refused : r = C.mapped ∨ r = C.partly → first / 2 ^ 48 = last / 2 ^ 48 →
    ∃ x, first ≤ x ∧ x ≤ last ∧ ∃ d' v, d ≤ d' ∧ d' ≤ 3 ∧
      entry F h.mem root d' x = some v ∧ F.present v = true
  code : r = C.done ∨ r = C.mapped ∨ r = C.partly ∨ r = C.noMemory

end Spec

section Compose

variable {σ ρ : Type*} {F : Format} {C : Codes ρ} {S : Scheme}
variable {Good : σ → Prop} {InUse : σ → ℕ → Prop}
variable {root n d first last mid : ℕ} {h h₁ h₂ : Heap σ} {r : ρ}

theorem path_succ_of_div (hd : d ≤ 3) {x y : ℕ} (h : x / 2 ^ shift d = y / 2 ^ shift d) :
    path (d + 1) x = path (d + 1) y := by
  unfold path shift at *
  interval_cases d <;> norm_num at * <;> omega

theorem div_of_path_succ (hd : d ≤ 3) {x y : ℕ} (hxy : x / 2 ^ 48 = y / 2 ^ 48)
    (h : path (d + 1) x = path (d + 1) y) : x / 2 ^ shift d = y / 2 ^ shift d := by
  unfold path shift at *
  interval_cases d <;> norm_num at * <;> omega

theorem exists_in_block (hd : d ≤ 3) {g y : ℕ} (h : path (d + 1) g = path (d + 1) y) :
    ∃ x, x / 2 ^ shift d = y / 2 ^ shift d ∧ path 4 x = path 4 g := by
  refine ⟨y / 2 ^ shift d * 2 ^ shift d + g % 2 ^ shift d, ?_, ?_⟩
  · rw [Nat.mul_comm, Nat.mul_add_div (Nat.two_pow_pos _),
      Nat.div_eq_of_lt (Nat.mod_lt _ (Nat.two_pow_pos _)), Nat.add_zero]
  · unfold path shift at *
    interval_cases d <;> norm_num at * <;> omega

/-- The leaves of a range that is mapped block by block, whatever the answers are. -/
theorem Mapped.new_trans {r₁ r₂ : ρ} (hfirst : first ≤ mid) (hmid : mid < last)
    (hb : blockEnd (shift d) mid = mid)
    (m₁ : Mapped F C S Good InUse root (n + 1) d first mid h h₁ r₁)
    (m₂ : Mapped F C S Good InUse root (n + 1) d (mid + 1) last h₁ h₂ r₂) (g : ℕ) :
    lookupFrom F h₂.mem root (n + 1) d g = lookupFrom F h.mem root (n + 1) d g ∨
      (lookupFrom F h.mem root (n + 1) d g = none ∧ ∃ x, path 4 x = path 4 g ∧
        (newLeaf S (n + 1) d first last x).isSome ∧
        lookupFrom F h₂.mem root (n + 1) d g = newLeaf S (n + 1) d first last x) := by
  have hlt := div_lt_of_blockEnd hb
  have hright : ∀ x, (newLeaf S (n + 1) d (mid + 1) last x).isSome →
      newLeaf S (n + 1) d first last x = newLeaf S (n + 1) d (mid + 1) last x := fun x hx =>
    newLeaf_right hfirst hb (hlt.trans_le (newLeaf_bounds (by omega) hx).1)
  have hleft : ∀ x, (newLeaf S (n + 1) d first mid x).isSome →
      newLeaf S (n + 1) d first last x = newLeaf S (n + 1) d first mid x := fun x hx =>
    newLeaf_left hmid hb (newLeaf_bounds hfirst hx).2
  rcases m₂.new g with h2 | ⟨hnone, x, hx, hsome, h2⟩
  · rcases m₁.new g with h1 | ⟨hnone, x, hx, hsome, h1⟩
    · exact Or.inl (h2.trans h1)
    · exact Or.inr ⟨hnone, x, hx, by rwa [hleft x hsome], by rw [hleft x hsome, h2, h1]⟩
  · refine Or.inr ⟨?_, x, hx, by rwa [hright x hsome], by rw [hright x hsome, h2]⟩
    rcases m₁.new g with h1 | ⟨h1, -⟩
    · rw [← h1, hnone]
    · exact h1

theorem Mapped.trans (hd : d ≤ 3) (hfirst : first ≤ mid) (hmid : mid < last)
    (hb : blockEnd (shift d) mid = mid)
    (m₁ : Mapped F C S Good InUse root (n + 1) d first mid h h₁ C.done)
    (m₂ : Mapped F C S Good InUse root (n + 1) d (mid + 1) last h₁ h₂ r) :
    Mapped F C S Good InUse root (n + 1) d first last h h₂ r := by
  have hlt := div_lt_of_blockEnd hb
  constructor
  · exact m₂.rep
  · exact fun p hp => m₂.mono p (m₁.mono p hp)
  · exact fun d' g hd' => (m₂.above d' g hd').trans (m₁.above d' g hd')
  · intro d' g v hd' hx hv hp
    refine m₁.old d' g v hd' (fun x h1 h2 => hx x h1 (by omega)) ?_ hp
    exact m₂.old d' g v hd' (fun x h1 h2 => hx x (by omega) h2) hv hp
  · exact fun d' g v hd' hv hp => m₂.keep d' g v hd' (m₁.keep d' g v hd' hv hp) hp
  · exact Mapped.new_trans hfirst hmid hb m₁ m₂
  · intro hr x hx
    rcases Nat.lt_or_ge (mid / 2 ^ shift d) (x / 2 ^ shift d) with hgt | hle
    · rw [newLeaf_right hfirst hb hgt] at hx ⊢
      obtain ⟨hnone, hnew⟩ := m₂.done hr x hx
      refine ⟨?_, hnew⟩
      rcases m₁.new x with h1 | ⟨h1, -⟩
      · rw [← h1, hnone]
      · exact h1
    · rw [newLeaf_left hmid hb hle] at hx ⊢
      obtain ⟨hnone, hnew⟩ := m₁.done rfl x hx
      refine ⟨hnone, ?_⟩
      rcases m₂.new x with h2 | ⟨h2, -⟩
      · rw [h2, hnew]
      · rw [← hnew, h2] at hx
        simp at hx
  · intro hr h48
    obtain ⟨x, h1, h2, d', v, hdd, hd', hv, hp⟩ := m₂.refused hr (by omega)
    refine ⟨x, by omega, h2, d', v, hdd, hd', m₁.old d' x v hd' (fun y hy1 hy2 hpath => ?_) hv hp, hp⟩
    have hblock := div_of_path_succ hd (by omega) (path_of_le (by omega) (by omega) hpath)
    have h3 := Nat.div_le_div_right hy2 (c := 2 ^ shift d)
    have h4 := Nat.div_le_div_right h1 (c := 2 ^ shift d)
    omega
  · exact m₂.code

theorem Mapped.stop (hfirst : first ≤ mid) (hmid : mid < last) (hb : blockEnd (shift d) mid = mid)
    (hr : r ≠ C.done) (m : Mapped F C S Good InUse root (n + 1) d first mid h h₁ r) :
    Mapped F C S Good InUse root (n + 1) d first last h h₁ r := by
  have hleft : ∀ x, (newLeaf S (n + 1) d first mid x).isSome →
      newLeaf S (n + 1) d first last x = newLeaf S (n + 1) d first mid x := fun x hx =>
    newLeaf_left hmid hb (newLeaf_bounds hfirst hx).2
  refine { m with old := ?_, new := ?_, done := fun h => absurd h hr, refused := ?_ }
  · exact fun d' g v hd' hx => m.old d' g v hd' fun x h1 h2 => hx x h1 (by omega)
  · intro g
    rcases m.new g with h1 | ⟨hnone, x, hx, hsome, h1⟩
    · exact Or.inl h1
    · exact Or.inr ⟨hnone, x, hx, by rwa [hleft x hsome], by rw [hleft x hsome, h1]⟩
  · intro hr h48
    obtain ⟨x, h1, h2, hex⟩ := m.refused hr (by omega)
    exact ⟨x, h1, by omega, hex⟩

end Compose

/-! ### One block -/

section Block

variable {σ ρ : Type*} {F : Format} {C : Codes ρ} {S : Scheme}
variable {Good : σ → Prop} {InUse : σ → ℕ → Prop}
variable {root n d first last t : ℕ} {h h' h₁ h₂ : Heap σ} {r : ρ}

theorem lookupFrom_entry_congr {mem mem' : ℕ → ℕ} {g : ℕ}
    (he : ∀ d', d ≤ d' → d' < d + n → entry F mem' root d' g = entry F mem root d' g) :
    lookupFrom F mem' root n d g = lookupFrom F mem root n d g := by
  induction n generalizing d with
  | zero => rfl
  | succ n ih =>
      simp only [lookupFrom, he d (le_refl d) (by omega),
        ih (d := d + 1) fun d' h1 h2 => he d' (by omega) (by omega)]

theorem table_of_agree {mem mem' : ℕ → ℕ} {g : ℕ} (hd : d ≤ 4)
    (hag : ∀ d g b, d ≤ 3 → slot F mem root d g = some b → mem' b = mem b) :
    table F mem' root d g = table F mem root d g := by
  induction d with
  | zero => rfl
  | succ d ih =>
      rw [table, table, ih (by omega)]
      cases ht : table F mem root d g with
      | none => rfl
      | some t =>
          simp only [Option.bind_some, hag d g _ (by omega) (by rw [slot, ht]; rfl)]

theorem entry_of_agree {mem mem' : ℕ → ℕ} {g : ℕ} (hd : d ≤ 3)
    (hag : ∀ d g b, d ≤ 3 → slot F mem root d g = some b → mem' b = mem b) :
    entry F mem' root d g = entry F mem root d g := by
  rw [entry, slot, table_of_agree (by omega) hag]
  change (slot F mem root d g).map mem' = (slot F mem root d g).map mem
  cases hs : slot F mem root d g with
  | none => rfl
  | some b => rw [Option.map_some, Option.map_some, hag d g b hd hs]

theorem Rep.slot_inUse (rep : Rep F Good InUse h root) (hd : d ≤ 3) {g b : ℕ}
    (hb : slot F h.mem root d g = some b) : InUse h.alloc (b / 4096) := by
  obtain ⟨t, ht, rfl⟩ := Option.map_eq_some_iff.mp hb
  have h1 := rep.sep.aligned d g t hd ht
  have h2 := index_lt d g
  rw [show (t + 8 * index d g) / 4096 = t / 4096 by omega]
  exact rep.inUse d g t hd ht

theorem Rep.of_tables (rep : Rep F Good InUse h root) (hgood : Good h'.alloc)
    (huse : ∀ d g t, d ≤ 3 → table F h.mem root d g = some t → InUse h'.alloc (t / 4096))
    (hag : ∀ d g b, d ≤ 3 → slot F h.mem root d g = some b → h'.mem b = h.mem b) :
    Rep F Good InUse h' root := by
  constructor
  · exact hgood
  · constructor
    · intro d g t hd ht
      rw [table_of_agree (by omega) hag] at ht
      exact rep.sep.aligned d g t hd ht
    · intro d g d' g' t hd hd' ht ht'
      rw [table_of_agree (by omega) hag] at ht ht'
      exact rep.sep.inj d g d' g' t hd hd' ht ht'
  · intro d g t hd ht
    rw [table_of_agree (by omega) hag] at ht
    exact huse d g t hd ht
  · intro d g e hd he
    rw [entry_of_agree hd hag] at he
    exact rep.zero d g e hd he

theorem Rep.with_good (rep : Rep F Good InUse h root) {Good' : σ → Prop} (hgood : Good' h.alloc) :
    Rep F Good' InUse h root := { rep with good := hgood }

theorem Mapped.with_good (m : Mapped F C S Good InUse root n d first last h h' r) {Good' : σ → Prop}
    (hgood : Good' h'.alloc) : Mapped F C S Good' InUse root n d first last h h' r :=
  { m with rep := m.rep.with_good hgood }

theorem Rep.of_empty (hz : F.present 0 = false) {p : ℕ} (hgood : Good h.alloc)
    (huse : InUse h.alloc p) (hzero : ∀ b, b / 4096 = p → h.mem b = 0) :
    Rep F Good InUse h (p * 4096) ∧ ∀ d g e, d ≤ 3 → entry F h.mem (p * 4096) d g = some e →
      F.present e = false := by
  have hread : ∀ g, h.mem (p * 4096 + 8 * index 0 g) = 0 := fun g =>
    hzero _ (by have := index_lt 0 g; omega)
  have htable : ∀ d g, 1 ≤ d → table F h.mem (p * 4096) d g = none := by
    intro d g hd
    induction d with
    | zero => omega
    | succ d ih =>
        cases d with
        | zero => simp [table, hread, not_descends_zero hz]
        | succ d => rw [table, ih (by omega)]; rfl
  have hroot : ∀ d g t, table F h.mem (p * 4096) d g = some t → d = 0 ∧ t = p * 4096 := by
    intro d g t ht
    cases d with
    | zero => exact ⟨rfl, (Option.some.inj ht).symm⟩
    | succ d =>
        rw [htable _ _ (by omega)] at ht
        cases ht
  have hentry : ∀ d g e, entry F h.mem (p * 4096) d g = some e → e = 0 := by
    intro d g e he
    cases d with
    | zero => simpa [entry, slot, table, hread] using he.symm
    | succ d =>
        rw [entry, slot, htable _ _ (by omega)] at he
        cases he
  refine ⟨⟨hgood, ⟨?_, ?_⟩, ?_, ?_⟩, ?_⟩
  · intro d g t _ ht
    rw [(hroot d g t ht).2]
    omega
  · intro d g d' g' t _ _ ht ht'
    obtain ⟨rfl, -⟩ := hroot d g t ht
    obtain ⟨rfl, -⟩ := hroot d' g' t ht'
    exact ⟨rfl, by rw [path_zero, path_zero]⟩
  · intro d g t _ ht
    rw [(hroot d g t ht).2, Nat.mul_div_cancel _ (by norm_num)]
    exact huse
  · exact fun d g e _ he _ => hentry d g e he
  · intro d g e _ he
    rw [hentry d g e he, hz]

theorem Mapped.of_agree (rep : Rep F Good InUse h root) (hgood : Good h'.alloc)
    (hmono : ∀ p, InUse h.alloc p → InUse h'.alloc p)
    (hmem : ∀ b, InUse h.alloc (b / 4096) → h'.mem b = h.mem b) (hdn : d + n ≤ 4)
    (hr : r ≠ C.done) (hcode : r = C.mapped ∨ r = C.partly ∨ r = C.noMemory)
    (hrefused : r = C.mapped ∨ r = C.partly → ∃ x, first ≤ x ∧ x ≤ last ∧ ∃ d' v, d ≤ d' ∧ d' ≤ 3 ∧
      entry F h.mem root d' x = some v ∧ F.present v = true) :
    Mapped F C S Good InUse root n d first last h h' r := by
  have hentry : ∀ d' g, d' ≤ 3 → entry F h'.mem root d' g = entry F h.mem root d' g :=
    fun d' g hd' => entry_of_agree hd' fun d g b hd hb => hmem b (rep.slot_inUse hd hb)
  constructor
  · exact rep.of_tables hgood (fun d g t hd ht => hmono _ (rep.inUse d g t hd ht))
      fun d g b hd hb => hmem b (rep.slot_inUse hd hb)
  · exact hmono
  · exact fun d' g hd' => hentry d' g (by omega)
  · exact fun d' g v hd' _ hv _ => (hentry d' g hd') ▸ hv
  · exact fun d' g v hd' hv _ => (hentry d' g hd').trans hv
  · exact fun g => Or.inl (lookupFrom_entry_congr fun d' _ h2 => hentry d' g (by omega))
  · exact fun h => absurd h hr
  · exact fun h _ => hrefused h
  · exact Or.inr hcode

theorem Rep.write (rep : Rep F Good InUse h root) (hd : d ≤ 3) {g : ℕ}
    (ht : table F h.mem root d g = some t) {e : ℕ} {mem' : ℕ → ℕ}
    (hold : F.present (h.mem (t + 8 * index d g)) = false) (hnew : mem' (t + 8 * index d g) = e)
    (hother : ∀ b, InUse h.alloc (b / 4096) → b ≠ t + 8 * index d g → mem' b = h.mem b) :
    Write F h.mem mem' root d g (t + 8 * index d g) e where
  depth := hd
  at_slot := by rw [slot, ht]; rfl
  old := by simp [Format.descends, hold]
  new := hnew
  other := fun _ _ b hd' hb hne => hother b (rep.slot_inUse hd' hb) hne

theorem Rep.write_leaf (rep : Rep F Good InUse h root) {g a e : ℕ} {h' : Heap σ}
    (w : Write F h.mem h'.mem root d g a e) (halloc : h'.alloc = h.alloc)
    (hpres : F.present e = true) (hleaf : F.leaf d e = true) : Rep F Good InUse h' root := by
  have hdesc : Format.descends F d e = false := by simp [Format.descends, hleaf]
  have htable : ∀ d' g', d' ≤ 3 → table F h'.mem root d' g' = table F h.mem root d' g' :=
    fun d' g' hd' => table_write_leaf w rep.sep hdesc (by omega)
  constructor
  · rw [halloc]
    exact rep.good
  · constructor
    · intro d' g' t hd' ht
      rw [htable d' g' hd'] at ht
      exact rep.sep.aligned d' g' t hd' ht
    · intro d' g' d'' g'' t hd' hd'' ht ht'
      rw [htable _ _ hd'] at ht
      rw [htable _ _ hd''] at ht'
      exact rep.sep.inj d' g' d'' g'' t hd' hd'' ht ht'
  · intro d' g' t hd' ht
    rw [htable d' g' hd'] at ht
    rw [halloc]
    exact rep.inUse d' g' t hd' ht
  · intro d' g' v hd' hv hnp
    rw [entry_write_leaf w rep.sep hdesc hd'] at hv
    split_ifs at hv with hc
    · rw [← Option.some.inj hv, hpres] at hnp
      cases hnp
    · exact rep.zero d' g' v hd' hv hnp

theorem Mapped.of_leaf (codes : CodesOk C) (ok : SchemeOk F S) (rep : Rep F Good InUse h root) (hdn : d + n = 3)
    (hle : first ≤ last) (hb : last / 2 ^ shift d = first / 2 ^ shift d)
    (ht : table F h.mem root d first = some t)
    (hold : F.present (h.mem (t + 8 * index d first)) = false) (hw : S.wants d first last = true) :
    Mapped F C S Good InUse root (n + 1) d first last h
      (h.write (t + 8 * index d first) (S.leafEntry d (h.mem (t + 8 * index d first)) first))
      C.done := by
  have hd : d ≤ 3 := by omega
  have hz : h.mem (t + 8 * index d first) = 0 :=
    rep.zero d first _ hd (by rw [entry, slot, ht]; rfl) hold
  obtain ⟨hpres, hleaf⟩ := ok.leafEntry d first last hd hw
  rw [hz]
  set e := S.leafEntry d 0 first
  set h' := h.write (t + 8 * index d first) e
  have w : Write F h.mem h'.mem root d first (t + 8 * index d first) e :=
    rep.write hd ht hold (Function.update_self ..) fun b _ hne => Function.update_of_ne hne ..
  have hdesc : Format.descends F d e = false := by simp [Format.descends, hleaf]
  have hentry : ∀ d' g, d' ≤ 3 → entry F h'.mem root d' g =
      if d' = d ∧ path (d + 1) g = path (d + 1) first then some e else entry F h.mem root d' g :=
    fun d' g hd' => entry_write_leaf w rep.sep hdesc hd'
  have hslot : entry F h.mem root d first = some 0 := by
    rw [entry, w.at_slot, Option.map_some, hz]
  have hlook : ∀ g, path (d + 1) g = path (d + 1) first →
      lookupFrom F h.mem root (n + 1) d g = none ∧
      lookupFrom F h'.mem root (n + 1) d g = some (d, e) := by
    intro g hp
    have h0 : entry F h.mem root d g = some 0 := by rw [entry_congr hd hp, hslot]
    have h1 : entry F h'.mem root d g = some e := by rw [hentry d g hd, if_pos ⟨rfl, hp⟩]
    exact ⟨by simp [lookupFrom, h0, ok.zero], by simp [lookupFrom, h1, hpres, hleaf]⟩
  have hsame : ∀ g, path (d + 1) g ≠ path (d + 1) first →
      lookupFrom F h'.mem root (n + 1) d g = lookupFrom F h.mem root (n + 1) d g := fun g hp =>
    lookupFrom_entry_congr fun d' _ h2 => by rw [hentry d' g (by omega), if_neg fun hc => hp hc.2]
  have hnew : ∀ x, x / 2 ^ shift d = first / 2 ^ shift d →
      newLeaf S (n + 1) d first last x = some (d, e) := fun x hx => by
    rw [newLeaf_of_block hle hb, if_pos hx, if_pos hw]
  constructor
  · exact rep.write_leaf w rfl hpres hleaf
  · exact fun p hp => hp
  · intro d' g hd'
    rw [hentry d' g (by omega), if_neg (by omega)]
  · intro d' g v hd' hx hv _
    rw [hentry d' g hd'] at hv
    split_ifs at hv with hc
    · exact absurd hc.2.symm (hc.1 ▸ hx first (le_refl _) hle)
    · exact hv
  · intro d' g v hd' hv hp
    rw [hentry d' g hd']
    split_ifs with hc
    · obtain ⟨rfl, hpath⟩ := hc
      rw [entry_congr hd' hpath, hslot] at hv
      rw [← Option.some.inj hv, ok.zero] at hp
      cases hp
    · exact hv
  · intro g
    by_cases hp : path (d + 1) g = path (d + 1) first
    · obtain ⟨x, hx, hx4⟩ := exists_in_block hd hp
      exact Or.inr ⟨(hlook g hp).1, x, hx4, by rw [hnew x hx]; rfl, by rw [hnew x hx, (hlook g hp).2]⟩
    · exact Or.inl (hsame g hp)
  · intro _ x hsome
    obtain ⟨h1, h2⟩ := newLeaf_bounds hle hsome
    have hx : x / 2 ^ shift d = first / 2 ^ shift d := by omega
    rw [hnew x hx]
    exact hlook x (path_succ_of_div hd hx)
  · exact fun hr => absurd hr (not_or.mpr ⟨codes.done_mapped, codes.done_partly⟩)
  · exact Or.inl rfl

/-- From `h` to `h₁` the entry of `first` at depth `d` has become a link to a table (or was one
before), and nothing else of what the walk sees has changed. -/
structure Linked (F : Format) (InUse : σ → ℕ → Prop) (root n d first : ℕ) (h h₁ : Heap σ) :
    Prop where
  mono : ∀ p, InUse h.alloc p → InUse h₁.alloc p
  link : ∃ e, entry F h₁.mem root d first = some e ∧ F.present e = true ∧ F.leaf d e = false
  above : ∀ d' g, d' < d → entry F h₁.mem root d' g = entry F h.mem root d' g
  old : ∀ d' g v, d' ≤ 3 → d' ≠ d ∨ path (d + 1) g ≠ path (d + 1) first →
    entry F h₁.mem root d' g = some v → F.present v = true → entry F h.mem root d' g = some v
  keep : ∀ d' g v, d' ≤ 3 → entry F h.mem root d' g = some v → F.present v = true →
    entry F h₁.mem root d' g = some v
  look : ∀ g, lookupFrom F h₁.mem root (n + 1) d g = lookupFrom F h.mem root (n + 1) d g

theorem Mapped.of_child (l : Linked F InUse root (n + 1) d first h h₁) (hdn : d + n = 2)
    (hle : first ≤ last) (hb : last / 2 ^ shift d = first / 2 ^ shift d)
    (hw : S.wants d first last = false)
    (m : Mapped F C S Good InUse root (n + 1) (d + 1) first last h₁ h₂ r) :
    Mapped F C S Good InUse root (n + 2) d first last h h₂ r := by
  have hd : d ≤ 3 := by omega
  obtain ⟨e, he, hpres, hleaf⟩ := l.link
  have hentry : ∀ g, entry F h₂.mem root d g = entry F h₁.mem root d g := fun g =>
    m.above d g (by omega)
  have hlook : ∀ g, path (d + 1) g = path (d + 1) first →
      lookupFrom F h₁.mem root (n + 2) d g = lookupFrom F h₁.mem root (n + 1) (d + 1) g ∧
      lookupFrom F h₂.mem root (n + 2) d g = lookupFrom F h₂.mem root (n + 1) (d + 1) g := by
    intro g hp
    have h1 : entry F h₁.mem root d g = some e := by rw [entry_congr hd hp, he]
    have h2 : entry F h₂.mem root d g = some e := by rw [hentry, h1]
    constructor
    · rw [lookupFrom, h1]
      simp [hpres, hleaf]
    · rw [lookupFrom, h2]
      simp [hpres, hleaf]
  have hnew : ∀ x, x / 2 ^ shift d = first / 2 ^ shift d →
      newLeaf S (n + 2) d first last x = newLeaf S (n + 1) (d + 1) first last x := fun x hx => by
    rw [newLeaf_of_block hle hb, if_pos hx, hw]
    rfl
  have hblock : ∀ x, (newLeaf S (n + 1) (d + 1) first last x).isSome →
      x / 2 ^ shift d = first / 2 ^ shift d := by
    intro x hx
    obtain ⟨h1, h2⟩ := newLeaf_bounds hle hx
    have h3 := div_mono_block (by omega) h1
    have h4 := div_mono_block (by omega) h2
    omega
  constructor
  · exact m.rep
  · exact fun p hp => m.mono p (l.mono p hp)
  · exact fun d' g hd' => (m.above d' g (by omega)).trans (l.above d' g hd')
  · intro d' g v hd' hx hv hp
    refine l.old d' g v hd' ?_ (m.old d' g v hd' hx hv hp) hp
    by_cases hdd : d' = d
    · exact Or.inr fun heq => hx first (le_refl _) hle (by rw [hdd, heq])
    · exact Or.inl hdd
  · exact fun d' g v hd' hv hp => m.keep d' g v hd' (l.keep d' g v hd' hv hp) hp
  · intro g
    rw [← l.look g]
    by_cases hp : path (d + 1) g = path (d + 1) first
    · rw [(hlook g hp).1, (hlook g hp).2]
      rcases m.new g with h1 | ⟨hnone, x, hx, hsome, h1⟩
      · exact Or.inl h1
      · have hxb := hnew x (hblock x hsome)
        exact Or.inr ⟨hnone, x, hx, by rwa [hxb], by rw [hxb, h1]⟩
    · left
      have hrest : lookupFrom F h₂.mem root (n + 1) (d + 1) g =
          lookupFrom F h₁.mem root (n + 1) (d + 1) g := by
        rcases m.new g with h1 | ⟨-, x, hx, hsome, -⟩
        · exact h1
        · refine absurd ?_ hp
          rw [← path_of_le (by omega) (le_refl _) hx]
          exact path_succ_of_div hd (hblock x hsome)
      rw [lookupFrom_succ (n + 1), lookupFrom_succ (n + 1), hentry, hrest]
  · intro hr x hsome
    obtain ⟨h1, h2⟩ := newLeaf_bounds hle hsome
    have hxb : x / 2 ^ shift d = first / 2 ^ shift d := by omega
    have hp := path_succ_of_div hd hxb
    rw [hnew x hxb] at hsome ⊢
    rw [← l.look x, (hlook x hp).1, (hlook x hp).2]
    exact m.done hr x hsome
  · intro hr h48
    obtain ⟨x, h1, h2, d', v, hdd, hd', hv, hp⟩ := m.refused hr h48
    exact ⟨x, h1, h2, d', v, by omega, hd', l.old d' x v hd' (Or.inl (by omega)) hv hp, hp⟩
  · exact m.code

theorem Linked.refl {e : ℕ} (he : entry F h.mem root d first = some e) (hpres : F.present e = true)
    (hleaf : F.leaf d e = false) : Linked F InUse root n d first h h where
  mono := fun _ hp => hp
  link := ⟨e, he, hpres, hleaf⟩
  above := fun _ _ _ => rfl
  old := fun _ _ _ _ _ hv _ => hv
  keep := fun _ _ _ _ hv _ => hv
  look := fun _ => rfl

/-- The tables after a new one at page `p` was added are still separate. -/
theorem Separated.of_new_table (sep : Separated F h.mem root) {p : ℕ}
    (hnot : ∀ d' g, d' ≤ 3 → table F h.mem root d' g ≠ some (p * 4096))
    (htable : ∀ d' g, d' ≤ 4 → table F h₁.mem root d' g =
      if d' = d + 1 ∧ path (d + 1) g = path (d + 1) first then some (p * 4096)
      else table F h.mem root d' g) :
    Separated F h₁.mem root := by
  constructor
  · intro d' g t hd' ht
    rw [htable d' g (by omega)] at ht
    split_ifs at ht with hc
    · rw [← Option.some.inj ht]
      omega
    · exact sep.aligned d' g t hd' ht
  · intro d' g d'' g' t hd' hd'' ht ht'
    rw [htable _ _ (by omega)] at ht ht'
    split_ifs at ht ht' with hc hc' hc'
    · exact ⟨hc.1.trans hc'.1.symm, by rw [hc.1, hc'.1, hc.2, hc'.2]⟩
    · exact absurd (ht'.trans ht.symm) (hnot d'' g' hd'')
    · exact absurd (ht.trans ht'.symm) (hnot d' g hd')
    · exact sep.inj d' g d'' g' t hd' hd'' ht ht'

/-- The walk after a link to an empty table was written to the empty entry of `first`. -/
theorem Linked.of_new_table (hzero : F.present 0 = false) (hdn : d + n = 2) {e : ℕ}
    (hmono : ∀ p, InUse h.alloc p → InUse h₁.alloc p) (hpres : F.present e = true)
    (hleaf : F.leaf d e = false) (hslot : entry F h.mem root d first = some 0)
    (hbelow : ∀ g, path (d + 1) g = path (d + 1) first → table F h.mem root (d + 1) g = none)
    (hentry : ∀ d' g, d' ≤ 3 → entry F h₁.mem root d' g =
      if d' = d ∧ path (d + 1) g = path (d + 1) first then some e
      else if d' = d + 1 ∧ path (d + 1) g = path (d + 1) first then some 0
      else entry F h.mem root d' g) :
    Linked F InUse root (n + 1) d first h h₁ := by
  have hd : d ≤ 3 := by omega
  refine ⟨hmono, ?_, ?_, ?_, ?_, ?_⟩
  · exact ⟨e, by rw [hentry d first hd, if_pos ⟨rfl, rfl⟩], hpres, hleaf⟩
  · intro d' g hd'
    rw [hentry d' g (by omega), if_neg (by omega), if_neg (by omega)]
  · intro d' g v hd' hne hv hp
    rw [hentry d' g hd'] at hv
    split_ifs at hv with hc hc'
    · rcases hne with h1 | h1
      · exact absurd hc.1 h1
      · exact absurd hc.2 h1
    · rw [← Option.some.inj hv, hzero] at hp
      cases hp
    · exact hv
  · intro d' g v hd' hv hp
    rw [hentry d' g hd']
    split_ifs with hc hc'
    · obtain ⟨rfl, hpath⟩ := hc
      rw [entry_congr hd' hpath, hslot] at hv
      rw [← Option.some.inj hv, hzero] at hp
      cases hp
    · obtain ⟨rfl, hpath⟩ := hc'
      rw [entry, slot, hbelow g hpath] at hv
      cases hv
    · exact hv
  · intro g
    by_cases hp : path (d + 1) g = path (d + 1) first
    · have h0 : entry F h.mem root d g = some 0 := by rw [entry_congr hd hp, hslot]
      have h1 : entry F h₁.mem root d g = some e := by rw [hentry d g hd, if_pos ⟨rfl, hp⟩]
      have h2 : entry F h₁.mem root (d + 1) g = some 0 := by
        rw [hentry _ g (by omega), if_neg (by omega), if_pos ⟨rfl, hp⟩]
      simp [lookupFrom, h0, h1, h2, hzero, hpres, hleaf]
    · refine lookupFrom_entry_congr fun d' _ h2 => ?_
      rw [hentry d' g (by omega), if_neg fun hc => hp hc.2, if_neg fun hc => hp hc.2]

theorem Rep.write_table (ok : SchemeOk F S) (rep : Rep F Good InUse h root) (hdn : d + n = 2)
    {a e p : ℕ} (w : Write F h.mem h₁.mem root d first a e) (hz : h.mem a = 0)
    (hgood : Good h₁.alloc) (hmono : ∀ p, InUse h.alloc p → InUse h₁.alloc p)
    (hfresh : ¬ InUse h.alloc p) (huse : InUse h₁.alloc p) (hpres : F.present e = true)
    (hleaf : F.leaf d e = false) (hnext : F.next e = p * 4096)
    (hzero : ∀ b, b / 4096 = p → h₁.mem b = 0) :
    Rep F Good InUse h₁ root ∧ Linked F InUse root (n + 1) d first h h₁ := by
  have hdesc : Format.descends F d e = true := by simp [Format.descends, hpres, hleaf]
  have hempty : ∀ i < 512, h₁.mem (F.next e + 8 * i) = 0 := fun i hi =>
    hzero _ (by rw [hnext]; omega)
  have htable : ∀ d' g, d' ≤ 4 → table F h₁.mem root d' g =
      if d' = d + 1 ∧ path (d + 1) g = path (d + 1) first then some (p * 4096)
      else table F h.mem root d' g := fun d' g hd' => by
    rw [← hnext]
    exact table_write_table w rep.sep hdesc ok.zero hempty hd'
  have hentry : ∀ d' g, d' ≤ 3 → entry F h₁.mem root d' g =
      if d' = d ∧ path (d + 1) g = path (d + 1) first then some e
      else if d' = d + 1 ∧ path (d + 1) g = path (d + 1) first then some 0
      else entry F h.mem root d' g := fun d' g hd' =>
    entry_write_table w rep.sep hdesc ok.zero hempty hd'
  have hslot : entry F h.mem root d first = some 0 := by
    rw [entry, w.at_slot, Option.map_some, hz]
  have hnot : ∀ d' g, d' ≤ 3 → table F h.mem root d' g ≠ some (p * 4096) := by
    intro d' g hd' ht
    have := rep.inUse d' g _ hd' ht
    rw [Nat.mul_div_cancel _ (by norm_num)] at this
    exact hfresh this
  refine ⟨⟨hgood, rep.sep.of_new_table hnot htable, ?_, ?_⟩,
    .of_new_table ok.zero hdn hmono hpres hleaf hslot
      (fun g hpath => w.table_none hpath (by omega) (by omega)) hentry⟩
  · intro d' g t hd' ht
    rw [htable _ _ (by omega)] at ht
    split_ifs at ht with hc
    · rw [← Option.some.inj ht, Nat.mul_div_cancel _ (by norm_num)]
      exact huse
    · exact hmono _ (rep.inUse d' g t hd' ht)
  · intro d' g v hd' hv hnp
    rw [hentry d' g hd'] at hv
    split_ifs at hv with hc hc'
    · rw [← Option.some.inj hv, hpres] at hnp
      cases hnp
    · exact (Option.some.inj hv).symm
    · exact rep.zero d' g v hd' hv hnp

end Block

/-! ### Invariants of the mapper -/

section Keeps

variable {σ ρ : Type*} [DecidableEq ρ] {F : Format} {C : Codes ρ} {S : Scheme}
variable {grow : Heap σ → ℕ → Option (Heap σ × Bool)}
variable {I : Heap σ → Prop} {Tab : Heap σ → ℕ → ℕ → Prop}

/-- The invariant holds of `h'`, and what was a table of depth `d` still is one. -/
def Keeps (I : Heap σ → Prop) (Tab : Heap σ → ℕ → ℕ → Prop) (h h' : Heap σ) : Prop :=
  I h' ∧ ∀ d t, Tab h d t → Tab h' d t

/-- The three things that the mapper does to tables keep an invariant: it follows an entry, it
writes a leaf into an empty entry, and it links a new table there. -/
structure MapInv (F : Format) (S : Scheme) (grow : Heap σ → ℕ → Option (Heap σ × Bool))
    (I : Heap σ → Prop) (Tab : Heap σ → ℕ → ℕ → Prop) : Prop where
  next : ∀ h d t i, I h → Tab h d t → i < 512 → F.present (h.mem (t + 8 * i)) = true →
    F.leaf d (h.mem (t + 8 * i)) = false → Tab h (d + 1) (F.next (h.mem (t + 8 * i)))
  leaf : ∀ h d t i curr currEnd, I h → Tab h d t → i < 512 →
    F.present (h.mem (t + 8 * i)) = false → S.wants d curr currEnd = true →
    Keeps I Tab h (h.write (t + 8 * i) (S.leafEntry d (h.mem (t + 8 * i)) curr))
  grow : ∀ h d t i h' ok, I h → Tab h d t → i < 512 → F.present (h.mem (t + 8 * i)) = false →
    grow h (t + 8 * i) = some (h', ok) → Keeps I Tab h h' ∧
      (ok = true → Tab h' (d + 1) (F.next (h'.mem (t + 8 * i))))

theorem Keeps.refl {h : Heap σ} (hI : I h) : Keeps I Tab h h := ⟨hI, fun _ _ ht => ht⟩

theorem Keeps.trans {h h₁ h₂ : Heap σ} (k₁ : Keeps I Tab h h₁) (k₂ : Keeps I Tab h₁ h₂) :
    Keeps I Tab h h₂ := ⟨k₂.1, fun d t ht => k₂.2 d t (k₁.2 d t ht)⟩

omit [DecidableEq ρ] in
theorem mapBlock_inv (inv : MapInv F S grow I Tab)
    {child : Heap σ → ℕ → ℕ → ℕ → Option (Heap σ × ρ)} {d t curr currEnd : ℕ} {h h' : Heap σ}
    {r : ρ} (hI : I h) (ht : Tab h d t)
    (hchild : ∀ h t h' r, I h → Tab h (d + 1) t → child h t curr currEnd = some (h', r) →
      Keeps I Tab h h')
    (hcall : mapBlock F C S grow child d t h curr currEnd = some (h', r)) : Keeps I Tab h h' := by
  have hi := index_lt d curr
  unfold mapBlock at hcall
  generalize index d curr = i at hi hcall
  by_cases hp : F.present (h.mem (t + 8 * i)) = true
  · by_cases hl : F.leaf d (h.mem (t + 8 * i)) = true
    · simp only [hp, hl, Bool.and_self, if_true, Option.some.injEq, Prod.mk.injEq] at hcall
      exact hcall.1 ▸ Keeps.refl hI
    · rw [Bool.not_eq_true] at hl
      by_cases hw : S.wants d curr currEnd = true
      · simp only [hp, hl, hw, Bool.and_false, if_true, Bool.false_eq_true, if_false,
          Option.some.injEq, Prod.mk.injEq] at hcall
        exact hcall.1 ▸ Keeps.refl hI
      · simp only [hp, hl, hw, Bool.and_false, if_true, Bool.false_eq_true, if_false] at hcall
        exact hchild _ _ _ _ hI (inv.next h d t i hI ht hi hp hl) hcall
  · rw [Bool.not_eq_true] at hp
    by_cases hw : S.wants d curr currEnd = true
    · simp only [hp, hw, Bool.false_and, if_true, Bool.false_eq_true, if_false, Option.some.injEq,
        Prod.mk.injEq] at hcall
      exact hcall.1 ▸ inv.leaf h d t i curr currEnd hI ht hi hp hw
    · simp only [hp, hw, Bool.false_and, Bool.false_eq_true, if_false] at hcall
      obtain ⟨⟨h₁, ok⟩, hgrow, hrest⟩ := Option.bind_eq_some_iff.mp hcall
      obtain ⟨k₁, htable⟩ := inv.grow h d t i h₁ ok hI ht hi hp hgrow
      cases ok with
      | true => exact k₁.trans (hchild _ _ _ _ k₁.1 (htable rfl) hrest)
      | false =>
          simp only [Bool.false_eq_true, if_false, Option.some.injEq, Prod.mk.injEq] at hrest
          exact hrest.1 ▸ k₁

/-- **The invariant rule of the mapper.**  It asks nothing of the range: the addresses may wrap
around and the call may stop part-way. -/
theorem mapRange_inv (inv : MapInv F S grow I Tab) {n d t first last : ℕ} {h h' : Heap σ} {r : ρ}
    (hI : I h) (ht : Tab h d t)
    (hcall : mapRange F C S grow n d h t first last = some (h', r)) : Keeps I Tab h h' := by
  induction n generalizing d t first last h h' r with
  | zero => cases hcall
  | succ n ih =>
      rw [mapRange] at hcall
      refine overBlocks_inv (J := fun h' => Keeps I Tab h h') ?_ (Keeps.refl hI) hcall
      intro h₁ curr currEnd h₂ r₂ k₁ hblock
      exact k₁.trans (mapBlock_inv inv k₁.1 (k₁.2 d t ht)
        (fun _ _ _ _ hI ht hcall => ih hI ht hcall) hblock)

/-- The source of new pages always answers. -/
def GrowDefined (F : Format) (grow : Heap σ → ℕ → Option (Heap σ × Bool)) (I : Heap σ → Prop) : Prop :=
  ∀ h a, I h → F.present (h.mem a) = false → ∃ h' ok, grow h a = some (h', ok)

omit [DecidableEq ρ] in
theorem mapBlock_defined (inv : MapInv F S grow I Tab) (hgrow : GrowDefined F grow I)
    {child : Heap σ → ℕ → ℕ → ℕ → Option (Heap σ × ρ)} {d t curr currEnd : ℕ} {h : Heap σ} (hI : I h)
    (ht : Tab h d t) (hchild : S.wants d curr currEnd = false → ∀ h t, I h → Tab h (d + 1) t →
      ∃ h' r, child h t curr currEnd = some (h', r)) :
    ∃ h' r, mapBlock F C S grow child d t h curr currEnd = some (h', r) := by
  have hi := index_lt d curr
  unfold mapBlock
  generalize index d curr = i at hi ⊢
  by_cases hp : F.present (h.mem (t + 8 * i)) = true
  · by_cases hl : F.leaf d (h.mem (t + 8 * i)) = true
    · simp only [hp, hl, Bool.and_self, if_true]
      exact ⟨_, _, rfl⟩
    · rw [Bool.not_eq_true] at hl
      by_cases hw : S.wants d curr currEnd = true
      · simp only [hp, hl, hw, Bool.and_false, if_true, Bool.false_eq_true, if_false]
        exact ⟨_, _, rfl⟩
      · simp only [hp, hl, hw, Bool.and_false, if_true, Bool.false_eq_true, if_false]
        exact hchild (Bool.eq_false_of_not_eq_true hw) _ _ hI (inv.next h d t i hI ht hi hp hl)
  · rw [Bool.not_eq_true] at hp
    by_cases hw : S.wants d curr currEnd = true
    · simp only [hp, hw, Bool.false_and, if_true, Bool.false_eq_true, if_false]
      exact ⟨_, _, rfl⟩
    · simp only [hp, hw, Bool.false_and, Bool.false_eq_true, if_false]
      obtain ⟨h₁, ok, hcall⟩ := hgrow h (t + 8 * i) hI hp
      obtain ⟨k₁, htable⟩ := inv.grow h d t i h₁ ok hI ht hi hp hcall
      rw [hcall, Option.bind_some]
      cases ok with
      | true => exact hchild (Bool.eq_false_of_not_eq_true hw) _ _ k₁.1 (htable rfl)
      | false => exact ⟨_, _, rfl⟩

theorem mapLoop_defined (inv : MapInv F S grow I Tab) (hgrow : GrowDefined F grow I)
    {n d t first last : ℕ} {h : Heap σ} (hI : I h) (ht : Tab h d t) (hlast : last + 1 < 2 ^ 64)
    (hchild : ∀ curr currEnd, currEnd ≤ last → S.wants d curr currEnd = false → ∀ h t, I h →
      Tab h (d + 1) t → ∃ h' r, mapRange F C S grow n (d + 1) h t curr currEnd = some (h', r)) :
    ∃ h' r, mapRange F C S grow (n + 1) d h t first last = some (h', r) := by
  rw [mapRange]
  rcases Nat.lt_or_ge last first with hlt | hle
  · exact ⟨_, _, overBlocks_of_lt hlt⟩
  suffices hloop : ∃ h' r, overBlocks C.done (shift d) (mapBlock F C S grow
      (fun h t first last => mapRange F C S grow n (d + 1) h t first last) d t) h first last =
        some (h', r) ∧ True by
    obtain ⟨h', r, hcall, -⟩ := hloop
    exact ⟨h', r, hcall⟩
  refine overBlocks_rule (P := fun h _ => I h ∧ Tab h d t) (Q := fun _ _ _ _ _ => True) hlast ?_
    (fun _ _ _ _ _ _ _ _ _ => trivial) (fun _ _ _ _ _ _ _ _ => trivial) ⟨hI, ht⟩ hle
  rintro h₁ curr ⟨hI, ht⟩ hcurr
  obtain ⟨h₂, r, hcall⟩ := mapBlock_defined (C := C) inv hgrow hI ht
    (hchild curr _ (min_le_left last (blockEnd (shift d) curr)))
  have k := mapBlock_inv inv hI ht (fun _ _ _ _ hI ht => mapRange_inv inv hI ht) hcall
  exact ⟨h₂, r, hcall, trivial, fun _ => ⟨k.1, k.2 d t ht⟩⟩

theorem mapRange_defined (inv : MapInv F S grow I Tab) (hgrow : GrowDefined F grow I)
    (hwants : ∀ cs ce, S.wants 3 cs ce = true) {n d t first last : ℕ} {h : Heap σ} (hdn : d + n = 3)
    (hI : I h) (ht : Tab h d t) (hlast : last + 1 < 2 ^ 64) :
    ∃ h' r, mapRange F C S grow (n + 1) d h t first last = some (h', r) := by
  induction n generalizing d t first last h with
  | zero =>
      obtain rfl : d = 3 := by omega
      exact mapLoop_defined inv hgrow hI ht hlast fun curr currEnd _ hw => by
        rw [hwants] at hw
        cases hw
  | succ n ih =>
      exact mapLoop_defined inv hgrow hI ht hlast fun curr currEnd hend _ h t hI ht =>
        ih (by omega) hI ht (by omega)

end Keeps

/-! ### The whole range -/

section Range

variable {σ ρ : Type*} {F : Format} {C : Codes ρ} {S : Scheme}
variable {grow : Heap σ → ℕ → Option (Heap σ × Bool)} {read : ℕ → ℕ}
variable {Good : σ → Prop} {InUse : σ → ℕ → Prop} {Low : σ → Prop} {root : ℕ}

/-- An attempt to link a new table under the empty entry of `first`. -/
theorem Rep.link_table (ok : SchemeOk F S) (hgrow : GrowSpec F grow Good InUse Low)
    {n d t first : ℕ} {h h₁ : Heap σ} {linked : Bool} (rep : Rep F Good InUse h root)
    (hdn : d + n = 2) (ht : table F h.mem root d first = some t)
    (hp : F.present (h.mem (t + 8 * index d first)) = false)
    (hcall : grow h (t + 8 * index d first) = some (h₁, linked)) (hlow : Low h₁.alloc) :
    Good h₁.alloc ∧ (∀ p, InUse h.alloc p → InUse h₁.alloc p) ∧
      (linked = false → ∀ b, InUse h.alloc (b / 4096) → h₁.mem b = h.mem b) ∧
      (linked = true → Rep F Good InUse h₁ root ∧ Linked F InUse root (n + 1) d first h h₁ ∧
        table F h₁.mem root (d + 1) first = some (F.next (h₁.mem (t + 8 * index d first)))) := by
  set a := t + 8 * index d first with ha
  have hslot : slot F h.mem root d first = some a := by rw [slot, ht]; rfl
  have hentry : entry F h.mem root d first = some (h.mem a) := by rw [entry, hslot]; rfl
  have hz := rep.zero d first _ (by omega) hentry hp
  have hgood := (hgrow.keep h a h₁ linked rep.good hcall).1
  obtain ⟨hmono, hfail, hlink⟩ :=
    hgrow.link h a h₁ linked rep.good (rep.slot_inUse (by omega) hslot) hz hcall hlow
  refine ⟨hgood, hmono, hfail, fun hl => ?_⟩
  obtain ⟨p, hfresh, huse, hpres, hleaf, hnext, hzero, hother⟩ := hlink hl
  have w : Write F h.mem h₁.mem root d first a (h₁.mem a) := rep.write (by omega) ht hp rfl hother
  have hldep := hleaf d (by omega)
  obtain ⟨rep₁, hlinked⟩ := rep.write_table ok hdn w hz hgood hmono hfresh huse hpres hldep hnext hzero
  have hentry₁ : entry F h₁.mem root d first = some (h₁.mem a) := by
    rw [entry_write_table w rep.sep (by simp [Format.descends, hpres, hldep]) ok.zero
      (fun i hi => hzero _ (by rw [hnext]; omega)) (by omega), if_pos ⟨rfl, rfl⟩]
  exact ⟨rep₁, hlinked, table_of_link hentry₁ hpres hldep⟩

/-- The mapper follows the link to a table as the processor does. -/
theorem Rep.read_eq (rep : Rep F Good InUse h root) (hread : ReadsTables F InUse read) {d g e : ℕ}
    (hd : d ≤ 2) (ht : table F h.mem root (d + 1) g = some (F.next e)) : read e = F.next e :=
  hread h.alloc e (rep.inUse (d + 1) g _ (by omega) ht)

/-- What a new page does to the allocator, whatever the tables are. -/
theorem GrowSpec.keeps (hgrow : GrowSpec F grow Good InUse Low) (h₀ h : Heap σ) (a : ℕ) (h' : Heap σ)
    (ok : Bool) (hgood : Good h.alloc ∧ (Low h.alloc → Low h₀.alloc))
    (hcall : grow h a = some (h', ok)) : Good h'.alloc ∧ (Low h'.alloc → Low h₀.alloc) := by
  obtain ⟨hgood', hback⟩ := hgrow.keep h a h' ok hgood.1 hcall
  exact ⟨hgood', fun hlow => hgood.2 (hback hlow)⟩

theorem GrowSpec.mapInv (hgrow : GrowSpec F grow Good InUse Low) (h₀ : Heap σ) :
    MapInv (F.reading read) S grow
      (fun h => Good h.alloc ∧ (Low h.alloc → Low h₀.alloc)) fun _ _ _ => True where
  next := fun _ _ _ _ _ _ _ _ _ => trivial
  leaf := fun _ _ _ _ _ _ hI _ _ _ _ => ⟨hI, fun _ _ _ => trivial⟩
  grow := fun _ _ _ _ _ _ hI _ _ _ hcall =>
    ⟨⟨hgrow.keeps h₀ _ _ _ _ hI hcall, fun _ _ _ => trivial⟩, fun _ => trivial⟩

theorem mapBlock_spec (codes : CodesOk C) (ok : SchemeOk F S) (hread : ReadsTables F InUse read)
    (hgrow : GrowSpec F grow Good InUse Low) {child : Heap σ → ℕ → ℕ → ℕ → Option (Heap σ × ρ)}
    {n d t curr currEnd : ℕ} {h h' : Heap σ} {r : ρ} (hdn : d + n = 3) (rep : Rep F Good InUse h root)
    (hle : curr ≤ currEnd) (hb : currEnd / 2 ^ shift d = curr / 2 ^ shift d)
    (ht : table F h.mem root d curr = some t)
    (hback : ∀ h₁ t₁ h' r, Good h₁.alloc → child h₁ t₁ curr currEnd = some (h', r) →
      Low h'.alloc → Low h₁.alloc)
    (hchild : ∀ m h₁ t₁ h' r, n = m + 1 → Rep F Good InUse h₁ root →
      table F h₁.mem root (d + 1) curr = some t₁ → child h₁ t₁ curr currEnd = some (h', r) →
      Low h'.alloc → Mapped F C S Good InUse root (m + 1) (d + 1) curr currEnd h₁ h' r)
    (hcall : mapBlock (F.reading read) C S grow child d t h curr currEnd = some (h', r))
    (hlow : Low h'.alloc) : Mapped F C S Good InUse root (n + 1) d curr currEnd h h' r := by
  have hd : d ≤ 3 := by omega
  set a := t + 8 * index d curr with ha
  have hslot : slot F h.mem root d curr = some a := by rw [slot, ht]; rfl
  have hentry : entry F h.mem root d curr = some (h.mem a) := by rw [entry, hslot]; rfl
  have hrefuse : ∀ r, r = C.mapped ∨ r = C.partly → F.present (h.mem a) = true →
      Mapped F C S Good InUse root (n + 1) d curr currEnd h h r := by
    intro r hr hp
    refine Mapped.of_agree rep rep.good (fun _ hp => hp) (fun _ _ => rfl) (by omega) ?_
      (hr.imp_right Or.inl) fun _ => ⟨curr, le_refl _, hle, d, h.mem a, le_refl _, hd, hentry, hp⟩
    rcases hr with rfl | rfl
    · exact codes.done_mapped.symm
    · exact codes.done_partly.symm
  unfold mapBlock at hcall
  simp only [← ha, Format.reading_present, Format.reading_leaf, Format.reading_next] at hcall
  by_cases hp : F.present (h.mem a) = true
  · by_cases hl : F.leaf d (h.mem a) = true
    · simp only [hp, hl, Bool.and_self, if_true, Option.some.injEq, Prod.mk.injEq] at hcall
      obtain ⟨rfl, rfl⟩ := hcall
      exact hrefuse _ (Or.inl rfl) hp
    rw [Bool.not_eq_true] at hl
    by_cases hw : S.wants d curr currEnd = true
    · simp only [hp, hl, hw, Bool.and_false, if_true, Bool.false_eq_true, if_false,
        Option.some.injEq, Prod.mk.injEq] at hcall
      obtain ⟨rfl, rfl⟩ := hcall
      exact hrefuse _ (Or.inr rfl) hp
    rw [Bool.not_eq_true] at hw
    obtain ⟨m, rfl⟩ : ∃ m, n = m + 1 := Nat.exists_eq_succ_of_ne_zero fun hn => by
      obtain rfl : d = 3 := by omega
      rw [ok.leaf_last] at hl
      cases hl
    have htable := table_of_link hentry hp hl
    simp only [hp, hl, hw, Bool.and_false, if_true, Bool.false_eq_true, if_false,
      rep.read_eq hread (by omega) htable] at hcall
    have hm := hchild m h _ h' r rfl rep htable hcall hlow
    exact Mapped.of_child (Linked.refl hentry hp hl) (by omega) hle hb hw hm
  · rw [Bool.not_eq_true] at hp
    by_cases hw : S.wants d curr currEnd = true
    · simp only [hp, hw, Bool.false_and, if_true, Bool.false_eq_true, if_false, Option.some.injEq,
        Prod.mk.injEq] at hcall
      obtain ⟨rfl, rfl⟩ := hcall
      exact Mapped.of_leaf codes ok rep hdn hle hb ht hp hw
    rw [Bool.not_eq_true] at hw
    obtain ⟨m, rfl⟩ : ∃ m, n = m + 1 := Nat.exists_eq_succ_of_ne_zero fun hn => by
      obtain rfl : d = 3 := by omega
      rw [ok.wants_last] at hw
      cases hw
    simp only [hp, hw, Bool.false_and, Bool.false_eq_true, if_false] at hcall
    obtain ⟨⟨h₁, linked⟩, hg, hrest⟩ := Option.bind_eq_some_iff.mp hcall
    have hgood₁ := (hgrow.keep h a h₁ linked rep.good hg).1
    have hlow₁ : Low h₁.alloc := by
      cases linked with
      | false =>
          obtain ⟨rfl, -⟩ := Prod.mk.inj (Option.some.inj hrest)
          exact hlow
      | true => exact hback h₁ _ h' r hgood₁ hrest hlow
    obtain ⟨-, hmono, hfail, hlink⟩ :=
      rep.link_table ok hgrow (show d + m = 2 by omega) ht hp hg hlow₁
    cases linked with
    | false =>
        obtain ⟨rfl, rfl⟩ := Prod.mk.inj (Option.some.inj hrest)
        exact Mapped.of_agree rep hgood₁ hmono (hfail rfl) (by omega) codes.done_noMemory.symm
          (Or.inr (Or.inr rfl)) fun hr =>
            absurd hr (not_or.mpr ⟨codes.noMemory_mapped, codes.noMemory_partly⟩)
    | true =>
        obtain ⟨rep₁, hlinked, htable⟩ := hlink rfl
        rw [if_pos rfl, rep₁.read_eq hread (by omega) htable] at hrest
        have hm := hchild m h₁ _ h' r rfl rep₁ htable hrest hlow
        exact Mapped.of_child hlinked (by omega) hle hb hw hm

theorem table_of_above {mem mem' : ℕ → ℕ} {d g : ℕ}
    (he : ∀ d' g, d' < d → entry F mem' root d' g = entry F mem root d' g) :
    table F mem' root d g = table F mem root d g := by
  cases d with
  | zero => rfl
  | succ d => rw [table_succ, table_succ, he d g (by omega)]

theorem blockEnd_blockEnd (k x : ℕ) : blockEnd k (blockEnd k x) = blockEnd k x := by
  unfold blockEnd
  rw [Nat.or_assoc, Nat.or_self]

variable [DecidableEq ρ]

/-- A call hands out pages, so that `Low` may only get lost. -/
theorem mapRange_low (hgrow : GrowSpec F grow Good InUse Low) {n d t first last : ℕ} {h h' : Heap σ}
    {r : ρ} (hgood : Good h.alloc)
    (hcall : mapRange (F.reading read) C S grow n d h t first last = some (h', r)) :
    Good h'.alloc ∧ (Low h'.alloc → Low h.alloc) :=
  (mapRange_inv (hgrow.mapInv h) ⟨hgood, id⟩ trivial hcall).1

theorem mapRange_of_child (codes : CodesOk C) (ok : SchemeOk F S) (hread : ReadsTables F InUse read)
    (hgrow : GrowSpec F grow Good InUse Low) {n d t first last : ℕ} {h h' : Heap σ} {r : ρ}
    (hdn : d + n = 3) (rep : Rep F Good InUse h root) (hlast : last + 1 < 2 ^ 64) (hle : first ≤ last)
    (ht : ∀ x, first ≤ x → x ≤ last → table F h.mem root d x = some t)
    (hchild : ∀ m h₁ t₁ curr currEnd h' r, n = m + 1 → Rep F Good InUse h₁ root → curr ≤ currEnd →
      currEnd ≤ last → currEnd / 2 ^ shift d = curr / 2 ^ shift d →
      table F h₁.mem root (d + 1) curr = some t₁ →
      mapRange (F.reading read) C S grow n (d + 1) h₁ t₁ curr currEnd = some (h', r) →
      Low h'.alloc → Mapped F C S Good InUse root (m + 1) (d + 1) curr currEnd h₁ h' r)
    (hcall : mapRange (F.reading read) C S grow (n + 1) d h t first last = some (h', r))
    (hlow : Low h'.alloc) : Mapped F C S Good InUse root (n + 1) d first last h h' r := by
  rw [mapRange] at hcall
  refine overBlocks_partial (G := fun h : Heap σ => Good h.alloc) (L := fun h : Heap σ => Low h.alloc)
    (P := fun h curr => Rep F Good InUse h root ∧
      ∀ x, curr ≤ x → x ≤ last → table F h.mem root d x = some t)
    (Q := fun curr currEnd h h' r => Mapped F C S Good InUse root (n + 1) d curr currEnd h h' r)
    ?_ ?_ ?_ ?_ rep.good ⟨rep, ht⟩ hle hcall hlow
  · intro h curr currEnd h' r hgood hround
    exact (mapBlock_inv (hgrow.mapInv h) ⟨hgood, id⟩ trivial
      (fun _ _ _ _ hI _ hcall => mapRange_inv (hgrow.mapInv h) hI trivial hcall) hround).1
  · rintro h curr h' r ⟨rep, ht⟩ hcurr hround hlow'
    have hend := le_blockEnd (shift d) curr
    have hmin := min_le_left last (blockEnd (shift d) curr)
    set currEnd := min last (blockEnd (shift d) curr)
    have hb : currEnd / 2 ^ shift d = curr / 2 ^ shift d := by
      have h1 := (le_blockEnd_iff (shift d) curr currEnd).mp (min_le_right _ _)
      have h2 := Nat.div_le_div_right (show curr ≤ currEnd by omega) (c := 2 ^ shift d)
      omega
    have hm := mapBlock_spec codes ok hread hgrow hdn rep (show curr ≤ currEnd by omega) hb
      (ht curr (le_refl _) hcurr) (fun h₁ _ _ _ hgood₁ hcall => (mapRange_low hgrow hgood₁ hcall).2)
      (fun m h₁ t₁ h' r hn rep₁ ht₁ =>
        hchild m h₁ t₁ curr currEnd h' r hn rep₁ (by omega) hmin hb ht₁) hround hlow'
    refine ⟨hm, fun _ => ⟨⟨hm.rep, fun x h1 h2 => ?_⟩, by omega⟩⟩
    rw [table_of_above hm.above]
    exact ht x (by omega) h2
  · rintro h curr h₁ h₂ r hlt - m₁ m₂
    exact m₁.trans (by omega) (le_blockEnd _ _) hlt (blockEnd_blockEnd _ _) m₂
  · rintro h curr h₁ r hlt - hr m
    exact m.stop (le_blockEnd _ _) hlt (blockEnd_blockEnd _ _) hr

/-- **The range mapper.**  On separated tables it does what `Mapped` says, if it was handed out only
pages whose addresses it reads right. -/
theorem mapRange_spec (codes : CodesOk C) (ok : SchemeOk F S) (hread : ReadsTables F InUse read)
    (hgrow : GrowSpec F grow Good InUse Low) {n d t first last : ℕ} {h h' : Heap σ} {r : ρ}
    (hdn : d + n = 3) (rep : Rep F Good InUse h root) (hlast : last + 1 < 2 ^ 64) (hle : first ≤ last)
    (ht : ∀ x, first ≤ x → x ≤ last → table F h.mem root d x = some t)
    (hcall : mapRange (F.reading read) C S grow (n + 1) d h t first last = some (h', r))
    (hlow : Low h'.alloc) : Mapped F C S Good InUse root (n + 1) d first last h h' r := by
  induction n generalizing d t first last h h' r with
  | zero =>
      exact mapRange_of_child codes ok hread hgrow hdn rep hlast hle ht
        (fun m _ _ _ _ _ _ hm => absurd hm (by omega)) hcall hlow
  | succ n ih =>
      refine mapRange_of_child codes ok hread hgrow hdn rep hlast hle ht ?_ hcall hlow
      intro m h₁ t₁ curr currEnd h' r hm rep₁ hcurr hend hb ht₁ hcall₁ hlow₁
      obtain rfl : m = n := by omega
      refine ih (by omega) rep₁ (by omega) hcurr (fun x h1 h2 => ?_) hcall₁ hlow₁
      have hx : x / 2 ^ shift d = curr / 2 ^ shift d := by
        have h3 := Nat.div_le_div_right h1 (c := 2 ^ shift d)
        have h4 := Nat.div_le_div_right h2 (c := 2 ^ shift d)
        omega
      rw [table_congr (by omega) (path_succ_of_div (by omega) hx), ht₁]

end Range

end HyveMind.Lib.PageTable
