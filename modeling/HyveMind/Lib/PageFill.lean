import HyveMind.Lib.PageMap

/-! # Filling an address range with pages

`fillRange` is a range mapper over four-level tables that uses leaves of the last level only and,
unlike `mapRange`, passes over what is already mapped.  `skip` is a test of its own by which it may
recognise a large leaf.

`fillRange_spec`: if there are only leaves of the last level and no page was handed out whose address
the mapper misreads, existing entries stay, an address that was not mapped is mapped as `newLeaf` says
or not at all, and after a successful call all of the range is mapped (`Filled`). -/

namespace HyveMind.Lib.PageTable

/-- Leaves of the last level only. -/
def smallScheme (leafEntry : ℕ → ℕ → ℕ) : Scheme where
  wants := fun d _ _ => d == 3
  leafEntry := fun _ => leafEntry

section Filler

variable {σ : Type*} (F : Format) (leafEntry : ℕ → ℕ → ℕ) (skip : ℕ → ℕ → Bool)
variable (grow : Heap σ → ℕ → Option (Heap σ × Bool))

/-- Maps one piece of the range, which lies in one block of the table `t` of depth `d`. -/
def fillBlock (child : Heap σ → ℕ → ℕ → ℕ → Option (Heap σ × Bool)) (d t : ℕ) (h : Heap σ)
    (curr currEnd : ℕ) : Option (Heap σ × Bool) :=
  let a := t + 8 * index d curr
  if d = 3 then
    some (if F.present (h.mem a) then h else h.write a (leafEntry (h.mem a) curr), true)
  else if F.present (h.mem a) then
    if skip d (h.mem a) then some (h, true) else child h (F.next (h.mem a)) curr currEnd
  else
    (grow h a).bind fun (h', ok) =>
      if ok then child h' (F.next (h'.mem a)) curr currEnd else some (h', false)

/-- Maps the range `first, …, last` in the table `t` of depth `d`, with `n` levels left. -/
def fillRange : ℕ → ℕ → Heap σ → ℕ → ℕ → ℕ → Option (Heap σ × Bool)
  | 0, _, _, _, _, _ => none
  | n + 1, d, h, t, first, last =>
      overBlocks true (shift d)
        (fillBlock F leafEntry skip grow (fun h t first last => fillRange n (d + 1) h t first last)
          d t) h first last

end Filler

/-- The page of an address of the range gets the leaf for the first address of the range in it. -/
theorem newLeaf_small {leafEntry : ℕ → ℕ → ℕ} {first last x : ℕ} (hle : first ≤ last) :
    newLeaf (smallScheme leafEntry) 4 0 first last x =
      if first / 4096 ≤ x / 4096 ∧ x / 4096 ≤ last / 4096 then
        some (3, leafEntry 0 (max first (x / 4096 * 4096)))
      else none := by
  have hlast : newLeaf (smallScheme leafEntry) 1 3 first last x =
      if first / 4096 ≤ x / 4096 ∧ x / 4096 ≤ last / 4096 then
        some (3, leafEntry 0 (max first (x / 4096 * 4096)))
      else none := by
    simp only [newLeaf, chunk_nonempty_iff hle]
    rfl
  have hup : ∀ d n, d ≤ 2 → d + n = 3 → newLeaf (smallScheme leafEntry) (n + 1) d first last x =
      if first / 2 ^ shift d ≤ x / 2 ^ shift d ∧ x / 2 ^ shift d ≤ last / 2 ^ shift d then
        newLeaf (smallScheme leafEntry) n (d + 1) first last x
      else none := by
    intro d n hd hdn
    have hwants : (d == 3) = false := by rw [beq_eq_false_iff_ne]; omega
    rw [newLeaf_succ hd]
    simp only [chunk_nonempty_iff hle, smallScheme, hwants, Bool.false_eq_true, if_false]
  rw [hup 0 3 (by norm_num) rfl, hup 1 2 (by norm_num) rfl, hup 2 1 (by norm_num) rfl, hlast]
  by_cases hx : first / 4096 ≤ x / 4096 ∧ x / 4096 ≤ last / 4096
  · have h : ∀ d, d ≤ 3 →
        first / 2 ^ shift d ≤ x / 2 ^ shift d ∧ x / 2 ^ shift d ≤ last / 2 ^ shift d := fun d hd =>
      ⟨div_mono_depth hd (le_refl 3) hx.1, div_mono_depth hd (le_refl 3) hx.2⟩
    rw [if_pos (h 0 (by norm_num)), if_pos (h 1 (by norm_num)), if_pos (h 2 (by norm_num))]
  · simp only [if_neg hx, ite_self]

/-- There are only leaves of the last level. -/
def SmallPages (F : Format) (mem : ℕ → ℕ) (root : ℕ) : Prop :=
  ∀ d g e, d ≤ 2 → entry F mem root d g = some e → F.present e = true → F.leaf d e = false

/-- Answers for `Mapped`, of which only `noMemory`, the answer that promises least, is used. -/
def fillCodes : Codes ℕ := ⟨0, 1, 2, 3⟩

theorem fillCodes_ok : CodesOk fillCodes := by constructor <;> decide

/-- What filling `first, …, last` from depth `d` on, with `n` levels left, does to the tables. -/
structure Filled {σ : Type*} (F : Format) (leafEntry : ℕ → ℕ → ℕ) (Good : σ → Prop)
    (InUse : σ → ℕ → Prop) (root n d first last : ℕ) (h h' : Heap σ) (ok : Bool) : Prop where
  kept : Mapped F fillCodes (smallScheme leafEntry) Good InUse root n d first last h h'
    fillCodes.noMemory
  small : SmallPages F h'.mem root
  done : ok = true → ∀ x, (newLeaf (smallScheme leafEntry) n d first last x).isSome →
    (lookupFrom F h'.mem root n d x).isSome

section Compose

variable {σ ρ : Type*} {F : Format} {C : Codes ρ} {S : Scheme} {leafEntry : ℕ → ℕ → ℕ}
variable {Good : σ → Prop} {InUse : σ → ℕ → Prop}
variable {root n d first last mid : ℕ} {h h₁ h₂ : Heap σ} {r r₁ r₂ : ρ} {ok : Bool}

theorem Mapped.forget (codes : CodesOk C)
    (m : Mapped F C S Good InUse root n d first last h h₁ r) :
    Mapped F C S Good InUse root n d first last h h₁ C.noMemory :=
  { m with
    done := fun hr => absurd hr.symm codes.done_noMemory
    refused := fun hr => absurd hr (not_or.mpr ⟨codes.noMemory_mapped, codes.noMemory_partly⟩)
    code := Or.inr (Or.inr (Or.inr rfl)) }

theorem Mapped.lookup_kept (m : Mapped F C S Good InUse root n d first last h h₁ r) {g : ℕ}
    (hsome : (lookupFrom F h.mem root n d g).isSome) :
    lookupFrom F h₁.mem root n d g = lookupFrom F h.mem root n d g := by
  rcases m.new g with hsame | ⟨hnone, -⟩
  · exact hsame
  · rw [hnone] at hsome
    cases hsome

/-- Mapping a range block by block, whatever the answers are. -/
theorem Mapped.trans_forget (codes : CodesOk C) (hfirst : first ≤ mid) (hmid : mid < last)
    (hb : blockEnd (shift d) mid = mid)
    (m₁ : Mapped F C S Good InUse root (n + 1) d first mid h h₁ r₁)
    (m₂ : Mapped F C S Good InUse root (n + 1) d (mid + 1) last h₁ h₂ r₂) :
    Mapped F C S Good InUse root (n + 1) d first last h h₂ C.noMemory where
  rep := m₂.rep
  mono := fun p hp => m₂.mono p (m₁.mono p hp)
  above := fun d' g hd' => (m₂.above d' g hd').trans (m₁.above d' g hd')
  old := by
    intro d' g v hd' hx hv hp
    refine m₁.old d' g v hd' (fun x h1 h2 => hx x h1 (by omega)) ?_ hp
    exact m₂.old d' g v hd' (fun x h1 h2 => hx x (by omega) h2) hv hp
  keep := fun d' g v hd' hv hp => m₂.keep d' g v hd' (m₁.keep d' g v hd' hv hp) hp
  new := Mapped.new_trans hfirst hmid hb m₁ m₂
  done := fun hr => absurd hr.symm codes.done_noMemory
  refused := fun hr => absurd hr (not_or.mpr ⟨codes.noMemory_mapped, codes.noMemory_partly⟩)
  code := Or.inr (Or.inr (Or.inr rfl))

theorem Filled.trans (hfirst : first ≤ mid) (hmid : mid < last) (hb : blockEnd (shift d) mid = mid)
    (f₁ : Filled F leafEntry Good InUse root (n + 1) d first mid h h₁ true)
    (f₂ : Filled F leafEntry Good InUse root (n + 1) d (mid + 1) last h₁ h₂ ok) :
    Filled F leafEntry Good InUse root (n + 1) d first last h h₂ ok where
  kept := f₁.kept.trans_forget fillCodes_ok hfirst hmid hb f₂.kept
  small := f₂.small
  done := by
    intro hok x hx
    rcases Nat.lt_or_ge (mid / 2 ^ shift d) (x / 2 ^ shift d) with hgt | hle
    · rw [newLeaf_right hfirst hb hgt] at hx
      exact f₂.done hok x hx
    · rw [newLeaf_left hmid hb hle] at hx
      have hsome := f₁.done rfl x hx
      rwa [f₂.kept.lookup_kept hsome]

theorem Filled.stop (hfirst : first ≤ mid) (hmid : mid < last) (hb : blockEnd (shift d) mid = mid)
    (f : Filled F leafEntry Good InUse root (n + 1) d first mid h h₁ false) :
    Filled F leafEntry Good InUse root (n + 1) d first last h h₁ false where
  kept := f.kept.stop hfirst hmid hb fillCodes_ok.done_noMemory.symm
  small := f.small
  done := nofun

end Compose

/-! ### The pages that a call takes -/

section Keeps

variable {σ : Type*} {F : Format} {leafEntry : ℕ → ℕ → ℕ} {skip : ℕ → ℕ → Bool}
variable {grow : Heap σ → ℕ → Option (Heap σ × Bool)} {J : σ → Prop}
variable {n d t first last : ℕ} {h h' : Heap σ} {ok : Bool}

theorem fillBlock_inv (hgrow : ∀ h a h' ok, J h.alloc → grow h a = some (h', ok) → J h'.alloc)
    {child : Heap σ → ℕ → ℕ → ℕ → Option (Heap σ × Bool)}
    (hchild : ∀ h t h' ok, J h.alloc → child h t first last = some (h', ok) → J h'.alloc)
    (hJ : J h.alloc)
    (hcall : fillBlock F leafEntry skip grow child d t h first last = some (h', ok)) : J h'.alloc := by
  unfold fillBlock at hcall
  simp only at hcall
  split_ifs at hcall
  · obtain ⟨rfl, -⟩ := Prod.mk.inj (Option.some.inj hcall)
    exact hJ
  · obtain ⟨rfl, -⟩ := Prod.mk.inj (Option.some.inj hcall)
    exact hJ
  · obtain ⟨rfl, -⟩ := Prod.mk.inj (Option.some.inj hcall)
    exact hJ
  · exact hchild _ _ _ _ hJ hcall
  · obtain ⟨⟨h₁, linked⟩, hg, hrest⟩ := Option.bind_eq_some_iff.mp hcall
    have hJ₁ := hgrow _ _ _ _ hJ hg
    cases linked with
    | false =>
        obtain ⟨rfl, -⟩ := Prod.mk.inj (Option.some.inj hrest)
        exact hJ₁
    | true => exact hchild _ _ _ _ hJ₁ hrest

/-- What `grow` keeps of the allocator, a call keeps, whatever the tables are. -/
theorem fillRange_inv (hgrow : ∀ h a h' ok, J h.alloc → grow h a = some (h', ok) → J h'.alloc)
    (hJ : J h.alloc) (hcall : fillRange F leafEntry skip grow n d h t first last = some (h', ok)) :
    J h'.alloc := by
  induction n generalizing d t first last h h' ok with
  | zero => cases hcall
  | succ n ih =>
      rw [fillRange] at hcall
      refine overBlocks_inv (J := fun h : Heap σ => J h.alloc) ?_ hJ hcall
      intro h curr currEnd h₁ ok₁ hJ hround
      exact fillBlock_inv hgrow (fun _ _ _ _ hJ hcall => ih hJ hcall) hJ hround

end Keeps

/-! ### One block -/

section Block

variable {σ : Type*} {F : Format} {leafEntry : ℕ → ℕ → ℕ} {skip : ℕ → ℕ → Bool}
variable {grow : Heap σ → ℕ → Option (Heap σ × Bool)} {read : ℕ → ℕ}
variable {Good : σ → Prop} {InUse : σ → ℕ → Prop} {Low : σ → Prop}
variable {root n d first last t : ℕ} {h h₁ h₂ : Heap σ} {ok : Bool}

theorem SmallPages.of_linked (hsmall : SmallPages F h.mem root)
    (l : Linked F InUse root n d first h h₁) (hd : d ≤ 2) : SmallPages F h₁.mem root := by
  intro d' g v hd' hv hp
  by_cases hsame : d' = d ∧ path (d + 1) g = path (d + 1) first
  · obtain ⟨rfl, hpath⟩ := hsame
    obtain ⟨e, he, -, hleaf⟩ := l.link
    rw [entry_congr (by omega) hpath, he] at hv
    rwa [← Option.some.inj hv]
  · have hne : d' ≠ d ∨ path (d + 1) g ≠ path (d + 1) first := by
      by_contra hboth
      exact hsame (by tauto)
    exact hsmall d' g v hd' (l.old d' g v (by omega) hne hv hp) hp

theorem Filled.of_child (l : Linked F InUse root (n + 1) d first h h₁) (hdn : d + n = 2)
    (hle : first ≤ last) (hb : last / 2 ^ shift d = first / 2 ^ shift d)
    (f : Filled F leafEntry Good InUse root (n + 1) (d + 1) first last h₁ h₂ ok) :
    Filled F leafEntry Good InUse root (n + 2) d first last h h₂ ok where
  kept := by
    refine Mapped.of_child l hdn hle hb ?_ f.kept
    have hd : (d == 3) = false := by rw [beq_eq_false_iff_ne]; omega
    exact hd
  small := f.small
  done := by
    intro hok x hx
    have hd : (d == 3) = false := by rw [beq_eq_false_iff_ne]; omega
    obtain ⟨h1, h2⟩ := newLeaf_bounds hle hx
    have hxb : x / 2 ^ shift d = first / 2 ^ shift d := by omega
    rw [newLeaf_of_block hle hb, if_pos hxb] at hx
    simp only [smallScheme, hd, Bool.false_eq_true, if_false] at hx
    have hsome := f.done hok x hx
    obtain ⟨e, he, hpres, hleaf⟩ := l.link
    have hentry : entry F h₂.mem root d x = some e := by
      rw [f.kept.above d x (by omega), entry_congr (by omega) (path_succ_of_div (by omega) hxb), he]
    rw [lookupFrom, hentry]
    simpa [hpres, hleaf] using hsome

theorem Rep.kept_of_agree (rep : Rep F Good InUse h root) (hsmall : SmallPages F h.mem root)
    (hdn : d + n = 3) (hgood : Good h₁.alloc) (hmono : ∀ p, InUse h.alloc p → InUse h₁.alloc p)
    (hmem : ∀ b, InUse h.alloc (b / 4096) → h₁.mem b = h.mem b) :
    Mapped F fillCodes (smallScheme leafEntry) Good InUse root (n + 1) d first last h h₁
      fillCodes.noMemory ∧ SmallPages F h₁.mem root := by
  constructor
  · refine Mapped.of_agree rep hgood hmono hmem (by omega) fillCodes_ok.done_noMemory.symm
      (Or.inr (Or.inr rfl)) fun hr => ?_
    exact absurd hr (not_or.mpr ⟨fillCodes_ok.noMemory_mapped, fillCodes_ok.noMemory_partly⟩)
  · intro d' g e hd' he hp
    rw [entry_of_agree (by omega) fun d g b hd hb => hmem b (rep.slot_inUse hd hb)] at he
    exact hsmall d' g e hd' he hp

theorem Filled.of_last (scheme : SchemeOk F (smallScheme leafEntry)) (rep : Rep F Good InUse h root)
    (hsmall : SmallPages F h.mem root) (hle : first ≤ last)
    (hb : last / 2 ^ shift 3 = first / 2 ^ shift 3) (ht : table F h.mem root 3 first = some t) :
    Filled F leafEntry Good InUse root (0 + 1) 3 first last h
      (if F.present (h.mem (t + 8 * index 3 first)) = true then h
        else h.write (t + 8 * index 3 first) (leafEntry (h.mem (t + 8 * index 3 first)) first))
      true := by
  have hentry : entry F h.mem root 3 first = some (h.mem (t + 8 * index 3 first)) := by
    rw [entry, slot, ht]
    rfl
  by_cases hp : F.present (h.mem (t + 8 * index 3 first)) = true
  · rw [if_pos hp]
    obtain ⟨hkept, hsmall'⟩ := rep.kept_of_agree hsmall (show 3 + 0 = 3 from rfl) rep.good
      (fun _ hp => hp) fun _ _ => rfl
    refine ⟨hkept, hsmall', fun _ x hx => ?_⟩
    obtain ⟨h1, h2⟩ := newLeaf_bounds hle hx
    have hxb : x / 2 ^ shift 3 = first / 2 ^ shift 3 := by omega
    rw [lookupFrom, entry_congr le_rfl (path_succ_of_div le_rfl hxb), hentry]
    simp [hp, scheme.leaf_last]
  · rw [if_neg hp]
    rw [Bool.not_eq_true] at hp
    have hmapped : Mapped F fillCodes (smallScheme leafEntry) Good InUse root (0 + 1) 3 first last
        h (h.write (t + 8 * index 3 first) (leafEntry (h.mem (t + 8 * index 3 first)) first))
        fillCodes.done := Mapped.of_leaf fillCodes_ok scheme rep rfl hle hb ht hp rfl
    refine ⟨hmapped.forget fillCodes_ok, ?_, fun _ x hx => ?_⟩
    · intro d' g e hd' he hpres
      rw [hmapped.above d' g (by omega)] at he
      exact hsmall d' g e hd' he hpres
    · rw [(hmapped.done rfl x hx).2]
      exact hx

theorem fillBlock_spec (scheme : SchemeOk F (smallScheme leafEntry))
    (hread : ReadsTables F InUse read) (hgrow : GrowSpec F grow Good InUse Low)
    (hskip : ∀ d e, d ≤ 2 → skip d e = true → F.leaf d e = true)
    {child : Heap σ → ℕ → ℕ → ℕ → Option (Heap σ × Bool)} {curr currEnd : ℕ}
    (hdn : d + n = 3) (rep : Rep F Good InUse h root) (hsmall : SmallPages F h.mem root)
    (hle : curr ≤ currEnd) (hb : currEnd / 2 ^ shift d = curr / 2 ^ shift d)
    (ht : table F h.mem root d curr = some t)
    (hback : ∀ h₁ t₁ h' ok, Good h₁.alloc → child h₁ t₁ curr currEnd = some (h', ok) →
      Low h'.alloc → Low h₁.alloc)
    (hchild : ∀ m h₁ t₁ h' ok, n = m + 1 → Rep F Good InUse h₁ root → SmallPages F h₁.mem root →
      table F h₁.mem root (d + 1) curr = some t₁ → child h₁ t₁ curr currEnd = some (h', ok) →
      Low h'.alloc → Filled F leafEntry Good InUse root (m + 1) (d + 1) curr currEnd h₁ h' ok ∧
        (ok = true → currEnd + 1 < 2 ^ 64))
    (hcall : fillBlock (F.reading read) leafEntry skip grow child d t h curr currEnd = some (h₂, ok))
    (hlow : Low h₂.alloc) :
    Filled F leafEntry Good InUse root (n + 1) d curr currEnd h h₂ ok ∧
      (d ≠ 3 → ok = true → currEnd + 1 < 2 ^ 64) := by
  have hd : d ≤ 3 := by omega
  set a := t + 8 * index d curr with ha
  have hslot : slot F h.mem root d curr = some a := by rw [slot, ht]; rfl
  have hentry : entry F h.mem root d curr = some (h.mem a) := by rw [entry, hslot]; rfl
  unfold fillBlock at hcall
  simp only [← ha, Format.reading_present, Format.reading_next] at hcall
  by_cases h3 : d = 3
  · subst h3
    obtain rfl : n = 0 := by omega
    rw [if_pos rfl, Option.some.injEq, Prod.mk.injEq] at hcall
    obtain ⟨rfl, rfl⟩ := hcall
    exact ⟨Filled.of_last scheme rep hsmall hle hb ht, fun hne => absurd rfl hne⟩
  · obtain ⟨m, rfl⟩ : ∃ m, n = m + 1 := Nat.exists_eq_succ_of_ne_zero (by omega)
    rw [if_neg h3] at hcall
    by_cases hp : F.present (h.mem a) = true
    · have hleaf := hsmall d curr _ (by omega) hentry hp
      have hnot : skip d (h.mem a) = false := by
        by_contra hs
        rw [hskip d _ (by omega) (Bool.eq_true_of_not_eq_false hs)] at hleaf
        cases hleaf
      have htable := table_of_link hentry hp hleaf
      rw [if_pos hp, hnot, if_neg Bool.false_ne_true, rep.read_eq hread (by omega) htable] at hcall
      obtain ⟨hf, hend⟩ := hchild m h _ h₂ ok rfl rep hsmall htable hcall hlow
      exact ⟨Filled.of_child (Linked.refl hentry hp hleaf) (by omega) hle hb hf, fun _ => hend⟩
    · rw [if_neg hp] at hcall
      rw [Bool.not_eq_true] at hp
      obtain ⟨⟨h₁, linked⟩, hg, hrest⟩ := Option.bind_eq_some_iff.mp hcall
      have hgood₁ := (hgrow.keep h a h₁ linked rep.good hg).1
      have hlow₁ : Low h₁.alloc := by
        cases linked with
        | false =>
            obtain ⟨rfl, -⟩ := Prod.mk.inj (Option.some.inj hrest)
            exact hlow
        | true => exact hback h₁ _ h₂ ok hgood₁ hrest hlow
      obtain ⟨-, hmono, hfail, hlink⟩ :=
        rep.link_table scheme hgrow (show d + m = 2 by omega) ht hp hg hlow₁
      cases linked with
      | false =>
          obtain ⟨rfl, rfl⟩ := Prod.mk.inj (Option.some.inj hrest)
          obtain ⟨hkept, hsmall'⟩ := rep.kept_of_agree hsmall hdn hgood₁ hmono (hfail rfl)
          have hfalse : false ≠ true := Bool.false_ne_true
          exact ⟨⟨hkept, hsmall', fun hok => absurd hok hfalse⟩, fun _ hok => absurd hok hfalse⟩
      | true =>
          obtain ⟨rep₁, hlinked, htable⟩ := hlink rfl
          rw [if_pos rfl, rep₁.read_eq hread (by omega) htable] at hrest
          obtain ⟨hf, hend⟩ :=
            hchild m h₁ _ h₂ ok rfl rep₁ (hsmall.of_linked hlinked (by omega)) htable hrest hlow
          exact ⟨Filled.of_child hlinked (by omega) hle hb hf, fun _ => hend⟩

/-! ### The whole range -/

/-- A call hands out pages, so that `Low` may only get lost. -/
theorem fillRange_low (hgrow : GrowSpec F grow Good InUse Low) {F' : Format} (hgood : Good h.alloc)
    (hcall : fillRange F' leafEntry skip grow n d h t first last = some (h₂, ok)) :
    Good h₂.alloc ∧ (Low h₂.alloc → Low h.alloc) :=
  fillRange_inv (J := fun a => Good a ∧ (Low a → Low h.alloc)) (hgrow.keeps h) ⟨hgood, id⟩ hcall

/-- The loop of one level, given what the level below does.  At the last level, a loop up to the last
address does not return. -/
theorem fillRange_of_child (scheme : SchemeOk F (smallScheme leafEntry))
    (hread : ReadsTables F InUse read) (hgrow : GrowSpec F grow Good InUse Low)
    (hskip : ∀ d e, d ≤ 2 → skip d e = true → F.leaf d e = true) (hdn : d + n = 3)
    (rep : Rep F Good InUse h root) (hsmall : SmallPages F h.mem root) (hlast : last < 2 ^ 64)
    (hle : first ≤ last) (ht : ∀ x, first ≤ x → x ≤ last → table F h.mem root d x = some t)
    (hchild : ∀ m h₁ t₁ curr currEnd h' ok, n = m + 1 → Rep F Good InUse h₁ root →
      SmallPages F h₁.mem root → curr ≤ currEnd → currEnd ≤ last →
      currEnd / 2 ^ shift d = curr / 2 ^ shift d → table F h₁.mem root (d + 1) curr = some t₁ →
      fillRange (F.reading read) leafEntry skip grow n (d + 1) h₁ t₁ curr currEnd = some (h', ok) →
      Low h'.alloc → Filled F leafEntry Good InUse root (m + 1) (d + 1) curr currEnd h₁ h' ok ∧
        (ok = true → currEnd + 1 < 2 ^ 64))
    (hcall : fillRange (F.reading read) leafEntry skip grow (n + 1) d h t first last = some (h₂, ok))
    (hlow : Low h₂.alloc) :
    Filled F leafEntry Good InUse root (n + 1) d first last h h₂ ok ∧
      (ok = true → last + 1 < 2 ^ 64) := by
  have htop : ok = true → last + 1 < 2 ^ 64 := by
    rintro rfl
    by_contra hge
    obtain rfl : last = 2 ^ 64 - 1 := by omega
    exact forBlocks_top (by omega) hcall
  refine ⟨?_, htop⟩
  have hdone : d = 3 → last + 1 < 2 ^ 64 := by
    rintro rfl
    refine htop (forBlocks_answer ?_ hcall)
    intro s curr currEnd s' r hround
    rw [fillBlock, if_pos rfl, Option.some.injEq, Prod.mk.injEq] at hround
    exact hround.2.symm
  refine overBlocks_partial (G := fun h : Heap σ => Good h.alloc) (L := fun h : Heap σ => Low h.alloc)
    (P := fun h curr => Rep F Good InUse h root ∧ SmallPages F h.mem root ∧
      ∀ x, curr ≤ x → x ≤ last → table F h.mem root d x = some t)
    (Q := fun curr currEnd h h' ok =>
      Filled F leafEntry Good InUse root (n + 1) d curr currEnd h h' ok)
    ?_ ?_ ?_ ?_ rep.good ⟨rep, hsmall, ht⟩ hle hcall hlow
  · intro h curr currEnd h' ok hgood hround
    let J : σ → Prop := fun a => Good a ∧ (Low a → Low h.alloc)
    refine fillBlock_inv (J := J) (hgrow.keeps h) ?_ ⟨hgood, id⟩ hround
    exact fun h₁ t h₂ ok hJ hcall => fillRange_inv (J := J) (hgrow.keeps h) hJ hcall
  · rintro h curr h' ok ⟨rep, hsmall, ht⟩ hcurr hround hlow'
    have hend := le_blockEnd (shift d) curr
    have hmin := min_le_left last (blockEnd (shift d) curr)
    set currEnd := min last (blockEnd (shift d) curr)
    have hb : currEnd / 2 ^ shift d = curr / 2 ^ shift d := by
      have h1 := (le_blockEnd_iff (shift d) curr currEnd).mp (min_le_right _ _)
      have h2 := Nat.div_le_div_right (show curr ≤ currEnd by omega) (c := 2 ^ shift d)
      omega
    obtain ⟨hf, hwrap⟩ := fillBlock_spec scheme hread hgrow hskip hdn rep hsmall
      (show curr ≤ currEnd by omega) hb (ht curr (le_refl _) hcurr)
      (fun h₁ _ _ _ hgood₁ hcall => (fillRange_low hgrow hgood₁ hcall).2)
      (fun m h₁ t₁ h' ok hn rep₁ hsmall₁ ht₁ =>
        hchild m h₁ t₁ curr currEnd h' ok hn rep₁ hsmall₁ (by omega) hmin hb ht₁) hround hlow'
    refine ⟨hf, fun hok => ⟨⟨hf.kept.rep, hf.small, fun x h1 h2 => ?_⟩, ?_⟩⟩
    · rw [table_of_above hf.kept.above]
      exact ht x (by omega) h2
    · by_cases h3 : d = 3
      · have := hdone h3
        omega
      · exact hwrap h3 hok
  · rintro h curr h₁ h₂ ok hlt - f₁ f₂
    exact f₁.trans (le_blockEnd _ _) hlt (blockEnd_blockEnd _ _) f₂
  · rintro h curr h₁ ok hlt - hok f
    obtain rfl := Bool.eq_false_of_not_eq_true hok
    exact f.stop (le_blockEnd _ _) hlt (blockEnd_blockEnd _ _)

/-- **The filling mapper.**  On separated tables with small pages only it does what `Filled` says,
and is not successful for a range up to the last address. -/
theorem fillRange_spec (scheme : SchemeOk F (smallScheme leafEntry))
    (hread : ReadsTables F InUse read) (hgrow : GrowSpec F grow Good InUse Low)
    (hskip : ∀ d e, d ≤ 2 → skip d e = true → F.leaf d e = true) (hdn : d + n = 3)
    (rep : Rep F Good InUse h root) (hsmall : SmallPages F h.mem root) (hlast : last < 2 ^ 64)
    (hle : first ≤ last) (ht : ∀ x, first ≤ x → x ≤ last → table F h.mem root d x = some t)
    (hcall : fillRange (F.reading read) leafEntry skip grow (n + 1) d h t first last = some (h₂, ok))
    (hlow : Low h₂.alloc) :
    Filled F leafEntry Good InUse root (n + 1) d first last h h₂ ok ∧
      (ok = true → last + 1 < 2 ^ 64) := by
  induction n generalizing d t first last h h₂ ok with
  | zero =>
      exact fillRange_of_child scheme hread hgrow hskip hdn rep hsmall hlast hle ht
        (fun m _ _ _ _ _ _ hm => absurd hm (by omega)) hcall hlow
  | succ n ih =>
      refine fillRange_of_child scheme hread hgrow hskip hdn rep hsmall hlast hle ht ?_ hcall hlow
      intro m h₁ t₁ curr currEnd h' ok hm rep₁ hsmall₁ hcurr hend hb ht₁ hcall₁ hlow₁
      obtain rfl : m = n := by omega
      refine ih (by omega) rep₁ hsmall₁ (by omega) hcurr (fun x h1 h2 => ?_) hcall₁ hlow₁
      have hx : x / 2 ^ shift d = curr / 2 ^ shift d := by
        have h3 := Nat.div_le_div_right h1 (c := 2 ^ shift d)
        have h4 := Nat.div_le_div_right h2 (c := 2 ^ shift d)
        omega
      rw [table_congr (by omega) (path_succ_of_div (by omega) hx), ht₁]

end Block

end HyveMind.Lib.PageTable
