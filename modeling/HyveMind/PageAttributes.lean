import HyveMind.DirectMappingExact
import HyveMind.Lib.PageLeaf

/-! # Page attributes

`modify_page_attributes` of `arch/x64/pgtables.c`: a walk of the tables in `cr3` to the leaf of a page,
whose content is then changed by one of two modifiers.  The tables are reached through the direct
mapping of the running address space.

`modifyPageAttributes_iff` says when all translations stay, for tables below `2 ^ 40`: of others the
source reads 40 bits of the address.  `page_mod_replace_attrs` replaces the whole entry, the address of
the frame included; and an address space with a root table at address `0` is taken for an empty one. -/

namespace HyveMind.PageAttributes

open Lib Lib.PageTable Ept
open DirectMapping (readPaddrFromCr3 readPaddrFromNopsEntry pgtableEntryPresent pgtableEntryMapsPage
  pml4EntryIndex pdptEntryIndex pdtEntryIndex ptEntryIndex pgFormat rootTable)

/-! ### The source -/

/-- `get_pgtable_entry`. -/
def getPgtableEntry (pgtableAddr entryIndex : ℕ) : ℕ := physToVirt (pgtableAddr + entryIndex <<< 3)

/-- `page_mod_add_attrs`: the new content of the entry. -/
def pageModAddAttrs (pageAttrs attrs : ℕ) : ℕ := pageAttrs ||| attrs

/-- `page_mod_replace_attrs`: the new content of the entry. -/
def pageModReplaceAttrs (_pageAttrs attrs : ℕ) : ℕ := attrs

/-- The functions of type `page_attr_mod_t`. -/
inductive PageAttrMod
  | addAttrs
  | replaceAttrs
deriving DecidableEq, Repr

/-- The call of a modifier. -/
def PageAttrMod.apply : PageAttrMod → ℕ → ℕ → ℕ
  | .addAttrs => pageModAddAttrs
  | .replaceAttrs => pageModReplaceAttrs

/-- `modify_page_attributes`, with the value of `read_cr3` and the physical memory: the new memory and
the result. -/
def modifyPageAttributes (mem : ℕ → ℕ) (cr3 pageStart attrs : ℕ) (modOp : PageAttrMod) :
    (ℕ → ℕ) × ℤ :=
  let pgtablePtr := readPaddrFromCr3 cr3
  if pgtablePtr = 0 then (mem, -1)
  else
    let entry := virtToPhys (getPgtableEntry pgtablePtr (pml4EntryIndex pageStart))
    if !pgtableEntryPresent (mem entry) then (mem, -1)
    else
      let pgtablePtr := readPaddrFromNopsEntry (mem entry)
      let entry := virtToPhys (getPgtableEntry pgtablePtr (pdptEntryIndex pageStart))
      if !pgtableEntryPresent (mem entry) then (mem, -1)
      else if pgtableEntryMapsPage (mem entry) then
        (Function.update mem entry (modOp.apply (mem entry) attrs), 0)
      else
        let pgtablePtr := readPaddrFromNopsEntry (mem entry)
        let entry := virtToPhys (getPgtableEntry pgtablePtr (pdtEntryIndex pageStart))
        if !pgtableEntryPresent (mem entry) then (mem, -1)
        else if pgtableEntryMapsPage (mem entry) then
          (Function.update mem entry (modOp.apply (mem entry) attrs), 0)
        else
          let pgtablePtr := readPaddrFromNopsEntry (mem entry)
          let entry := virtToPhys (getPgtableEntry pgtablePtr (ptEntryIndex pageStart))
          if !pgtableEntryPresent (mem entry) then (mem, -1)
          else (Function.update mem entry (modOp.apply (mem entry) attrs), 0)

/-! ### Translations -/

/-- The physical address that the walk finds.  It looks at the lower 48 bits only; on the canonical
addresses it is the walk of the processor. -/
def translate (mem : ℕ → ℕ) (cr3 v : ℕ) : Option ℕ :=
  (lookup pgFormat mem (rootTable cr3) v).map (leafTarget v)

/-- The depth and the address of the leaf entry of a page. -/
def leafOf (mem : ℕ → ℕ) (cr3 v : ℕ) : Option (ℕ × ℕ) :=
  leafSlot pgFormat mem 4 0 (rootTable cr3) v

/-- The tables that the walk of `v` comes to lie below 1 TiB. -/
def LowWalk (mem : ℕ → ℕ) (cr3 v : ℕ) : Prop :=
  ∀ d t, d ≤ 3 → table pgFormat mem (rootTable cr3) d v = some t → t < 2 ^ 40

/-- The number of the frame, in units of the leaf's size. -/
def frameOf (d raw : ℕ) : ℕ := raw / 2 ^ shift d % 2 ^ (52 - shift d)

/-- The attributes that may be set in a leaf: the present bit, no bit of the address of a page or of a
large page, and nothing that makes a table of a large page. -/
structure AttrsOk (d raw attrs : ℕ) (modOp : PageAttrMod) : Prop where
  present : pgtableEntryPresent attrs = true
  noPaddr : if d = 3 then attrs / 2 ^ 12 % 2 ^ 40 = 0 else attrs / 2 ^ 13 % 2 ^ 39 = 0
  keepsPs : d ≠ 3 → pgtableEntryMapsPage (modOp.apply raw attrs) = true

/-- What a change of attributes is for: for a mapped page the call succeeds, translates every address as
before and writes nothing but the leaf entry; for any other page it fails and writes nothing. -/
structure KeepsTranslations (mem : ℕ → ℕ) (cr3 pageStart attrs : ℕ) (modOp : PageAttrMod) : Prop where
  mapped : ∀ d a, leafOf mem cr3 pageStart = some (d, a) →
    (modifyPageAttributes mem cr3 pageStart attrs modOp).2 = 0 ∧
    (∀ v, translate (modifyPageAttributes mem cr3 pageStart attrs modOp).1 cr3 v =
      translate mem cr3 v) ∧
    ∀ b, b ≠ a → (modifyPageAttributes mem cr3 pageStart attrs modOp).1 b = mem b
  unmapped : translate mem cr3 pageStart = none →
    modifyPageAttributes mem cr3 pageStart attrs modOp = (mem, -1)

section Walk

variable {mem : ℕ → ℕ} {cr3 pageStart attrs : ℕ} {modOp : PageAttrMod}

theorem translate_eq (v : ℕ) :
    translate mem cr3 v = (leafOf mem cr3 v).map fun p => leafTarget v (p.1, mem p.2) := by
  rw [translate, lookup_eq_leafSlot, Option.map_map]
  rfl

theorem leafTarget_eq (v d raw : ℕ) :
    leafTarget v (d, raw) = frameOf d raw * 2 ^ shift d + v % 2 ^ shift d := rfl

theorem virtToPhys_getPgtableEntry (raw d g : ℕ) :
    virtToPhys (getPgtableEntry (readPaddr raw) (index d g)) = readPaddr raw + 8 * index d g := by
  have ht := DirectMapping.readPaddr_lt raw
  have hi := index_lt d g
  have hshift : index d g <<< 3 = 8 * index d g := by rw [Nat.shiftLeft_eq, Nat.mul_comm]
  rw [getPgtableEntry, hshift, virtToPhys_physToVirt (by omega)]

/-- What the call does once it has walked to a leaf, or not. -/
def applyAt (mem : ℕ → ℕ) (attrs : ℕ) (modOp : PageAttrMod) : Option (ℕ × ℕ) → (ℕ → ℕ) × ℤ
  | some (_, a) => (Function.update mem a (modOp.apply (mem a) attrs), 0)
  | none => (mem, -1)

theorem applyAt_level (present leaf : Bool) (d a : ℕ) (below : Option (ℕ × ℕ)) :
    applyAt mem attrs modOp
      (if present then if leaf then some (d, a) else below else none) =
      if !present then (mem, -1)
      else if leaf then (Function.update mem a (modOp.apply (mem a) attrs), 0)
      else applyAt mem attrs modOp below := by
  cases present <;> cases leaf <;> rfl

/-- With a root table the function is a walk to the leaf that reads its own way. -/
theorem modifyPageAttributes_eq_reading (hroot : readPaddrFromCr3 cr3 ≠ 0) :
    modifyPageAttributes mem cr3 pageStart attrs modOp =
      applyAt mem attrs modOp (leafSlot (pgFormat.reading readPaddrFromNopsEntry) mem 4 0
        (readPaddrFromCr3 cr3) pageStart) := by
  have hptr : ∀ raw d, virtToPhys (getPgtableEntry (readPaddrFromNopsEntry raw) (index d pageStart)) =
      readPaddrFromNopsEntry raw + 8 * index d pageStart := fun raw d =>
    virtToPhys_getPgtableEntry raw d pageStart
  have hptr0 : virtToPhys (getPgtableEntry (readPaddrFromCr3 cr3) (index 0 pageStart)) =
      readPaddrFromCr3 cr3 + 8 * index 0 pageStart := virtToPhys_getPgtableEntry cr3 0 pageStart
  have hleaf0 : ∀ e, pgFormat.leaf 0 e = false := fun _ => rfl
  have hleaf1 : ∀ e, pgFormat.leaf 1 e = pgtableEntryMapsPage e := fun _ => rfl
  have hleaf2 : ∀ e, pgFormat.leaf 2 e = pgtableEntryMapsPage e := fun _ => rfl
  have hleaf3 : ∀ e, pgFormat.leaf 3 e = true := fun _ => rfl
  have hpres : ∀ e, pgFormat.present e = pgtableEntryPresent e := fun _ => rfl
  unfold modifyPageAttributes
  simp only [if_neg hroot, DirectMapping.pml4EntryIndex_eq, DirectMapping.pdptEntryIndex_eq,
    DirectMapping.pdtEntryIndex_eq, DirectMapping.ptEntryIndex_eq, hptr0, hptr]
  rw [leafSlot_succ, applyAt_level, leafSlot_succ, applyAt_level, leafSlot_succ, applyAt_level,
    leafSlot_succ, applyAt_level]
  simp only [Format.reading_present, Format.reading_leaf, Format.reading_next, hleaf0, hleaf1, hleaf2,
    hleaf3, hpres, Bool.false_eq_true, if_false, if_true, Nat.zero_add, Nat.reduceAdd]

theorem readPaddr_of_low {raw : ℕ} (h : paddrField raw * 4096 < 2 ^ 40) :
    readPaddr raw = paddrField raw * 4096 := readPaddr_of_lt (by omega)

/-- With a root table and tables below `2 ^ 40` the function is the walk to the leaf. -/
theorem modifyPageAttributes_eq (hlow : LowWalk mem cr3 pageStart) (hroot : readPaddrFromCr3 cr3 ≠ 0) :
    modifyPageAttributes mem cr3 pageStart attrs modOp =
      applyAt mem attrs modOp (leafOf mem cr3 pageStart) := by
  have hcr3 : readPaddrFromCr3 cr3 = rootTable cr3 :=
    readPaddr_of_low (hlow 0 _ (by norm_num) rfl)
  rw [modifyPageAttributes_eq_reading hroot, hcr3, leafOf]
  exact congrArg _ (leafSlot_reading (fun _ h => readPaddr_of_low h) hlow rfl rfl)

end Walk

/-! ### The new leaf -/

section Leaf

variable {mem : ℕ → ℕ} {cr3 pageStart attrs d raw : ℕ} {modOp : PageAttrMod}

theorem leaf_cases (h : pgFormat.leaf d raw = true) (hd : d ≤ 3) :
    d = 3 ∨ (d = 1 ∨ d = 2) ∧ pgtableEntryMapsPage raw = true := by
  by_cases h3 : d = 3
  · exact Or.inl h3
  · have hleaf : pgFormat.leaf d raw = (d == 3 || (d != 0 && pgtableEntryMapsPage raw)) := rfl
    rw [hleaf, beq_eq_false_iff_ne.mpr h3, Bool.false_or, Bool.and_eq_true, bne_iff_ne] at h
    exact Or.inr ⟨by omega, h.2⟩

theorem frameOf_or (d raw attrs : ℕ) : frameOf d (raw ||| attrs) = frameOf d raw ||| frameOf d attrs := by
  simp only [frameOf, ← Nat.shiftRight_eq_div_pow, Nat.shiftRight_or_distrib, Nat.or_mod_two_pow]

theorem frameOf_attrs (h : AttrsOk d raw attrs modOp) (hd : d = 3 ∨ d = 1 ∨ d = 2) :
    frameOf d attrs = 0 := by
  have hno := h.noPaddr
  rcases hd with rfl | rfl | rfl <;> norm_num [frameOf, shift] at hno ⊢ <;> omega

/-- The frame stays iff attributes are added, or it has the number `0`. -/
theorem frameOf_apply_iff (h : AttrsOk d raw attrs modOp) (hd : d = 3 ∨ d = 1 ∨ d = 2) :
    frameOf d (modOp.apply raw attrs) = frameOf d raw ↔ modOp = .addAttrs ∨ frameOf d raw = 0 := by
  have hattrs := frameOf_attrs h hd
  cases modOp with
  | addAttrs =>
      have hframe : frameOf d (raw ||| attrs) = frameOf d raw := by
        rw [frameOf_or, hattrs, Nat.or_zero]
      exact ⟨fun _ => Or.inl rfl, fun _ => hframe⟩
  | replaceAttrs =>
      have hframe : frameOf d (PageAttrMod.replaceAttrs.apply raw attrs) = 0 := hattrs
      rw [hframe]
      constructor
      · intro hzero
        exact Or.inr hzero.symm
      · rintro (hop | hzero)
        · cases hop
        · exact hzero.symm

theorem leaf_apply (h : AttrsOk d raw attrs modOp) :
    pgFormat.present (modOp.apply raw attrs) = true ∧
      (pgFormat.leaf d raw = true → d ≤ 3 → pgFormat.leaf d (modOp.apply raw attrs) = true) := by
  constructor
  · have hattrs := h.present
    show pgtableEntryPresent (modOp.apply raw attrs) = true
    cases modOp with
    | replaceAttrs => exact hattrs
    | addAttrs =>
        rw [DirectMapping.pgtableEntryPresent_iff, decide_eq_true_iff] at hattrs ⊢
        exact Nat.or_mod_two_eq_one.mpr (Or.inr hattrs)
  · intro hleaf hd
    rcases leaf_cases hleaf hd with rfl | ⟨hd, -⟩
    · rfl
    · have hps := h.keepsPs (by omega)
      rcases hd with rfl | rfl
      · exact hps
      · exact hps

theorem translate_update (hlev : Levelled pgFormat mem (rootTable cr3)) {a : ℕ}
    (hleaf : leafOf mem cr3 pageStart = some (d, a)) (h : AttrsOk d (mem a) attrs modOp) (v : ℕ) :
    translate (Function.update mem a (modOp.apply (mem a) attrs)) cr3 v =
      (leafOf mem cr3 v).map fun p => leafTarget v
        (p.1, Function.update mem a (modOp.apply (mem a) attrs) p.2) := by
  obtain ⟨hd, hslot, hpres, hl⟩ := leaf_of_leafSlot (by norm_num) rfl hleaf
  obtain ⟨hpres', hl'⟩ := leaf_apply h
  have hsame := leafSlot_update (g := v) (n := 4) (d := 0) (t := rootTable cr3) hlev hd hslot
    hpres hl hpres' (hl' hl hd) (by norm_num) rfl
  rw [translate_eq, leafOf, hsame]
  rfl

end Leaf

/-- The tables that the direct mapping builds are of this kind. -/
theorem levelled_of_addrSpace {σ : Type*} {Good : σ → Prop} {InUse : σ → ℕ → Prop} {s : Heap σ × ℕ}
    (space : DirectMapping.AddrSpace Good InUse s) :
    Levelled pgFormat s.1.mem (rootTable s.2) ∧ ∀ v, LowWalk s.1.mem s.2 v := by
  refine ⟨space.rep.sep.levelled, fun v d t hd ht => ?_⟩
  have hlow := (space.rep.inUse d v t hd ht).2
  omega

/-- **When a change of attributes keeps all translations.**  For all tables of which none is used at two
depths, all pages whose tables lie below 1 TiB, both modifiers and all attributes that may be set: iff,
for a mapped page, the root table is not at address `0`, and the modifier adds attributes or the page is
mapped to the frame at address `0`. -/
theorem modifyPageAttributes_iff {mem : ℕ → ℕ} {cr3 pageStart attrs : ℕ} {modOp : PageAttrMod}
    (hlev : Levelled pgFormat mem (rootTable cr3)) (hlow : LowWalk mem cr3 pageStart)
    (hattrs : ∀ d a, leafOf mem cr3 pageStart = some (d, a) → AttrsOk d (mem a) attrs modOp) :
    KeepsTranslations mem cr3 pageStart attrs modOp ↔
      ∀ d a, leafOf mem cr3 pageStart = some (d, a) →
        readPaddrFromCr3 cr3 ≠ 0 ∧ (modOp = .addAttrs ∨ frameOf d (mem a) = 0) := by
  constructor
  · intro h d a hleaf
    obtain ⟨hret, htrans, -⟩ := h.mapped d a hleaf
    have hroot : readPaddrFromCr3 cr3 ≠ 0 := by
      intro hzero
      rw [modifyPageAttributes, if_pos hzero] at hret
      cases hret
    refine ⟨hroot, ?_⟩
    obtain ⟨hd, -, -, hl⟩ := leaf_of_leafSlot (by norm_num) rfl hleaf
    have hcases := (leaf_cases hl hd).imp_right And.left
    rw [← frameOf_apply_iff (hattrs d a hleaf) hcases]
    have hpage := htrans pageStart
    rw [modifyPageAttributes_eq hlow hroot, hleaf] at hpage
    rw [applyAt, translate_update hlev hleaf (hattrs d a hleaf), translate_eq, hleaf, Option.map_some,
      Option.map_some, Option.some.injEq, Function.update_self, leafTarget_eq, leafTarget_eq] at hpage
    exact Nat.eq_of_mul_eq_mul_right (Nat.two_pow_pos (shift d)) (Nat.add_right_cancel hpage)
  · intro h
    constructor
    · intro d a hleaf
      obtain ⟨hroot, hframe⟩ := h d a hleaf
      obtain ⟨hd, -, -, hl⟩ := leaf_of_leafSlot (by norm_num) rfl hleaf
      have hcases := (leaf_cases hl hd).imp_right And.left
      rw [← frameOf_apply_iff (hattrs d a hleaf) hcases] at hframe
      rw [modifyPageAttributes_eq hlow hroot, hleaf, applyAt]
      refine ⟨rfl, fun v => ?_, fun b hb => Function.update_of_ne hb _ _⟩
      rw [translate_update hlev hleaf (hattrs d a hleaf), translate_eq]
      cases hv : leafOf mem cr3 v with
      | none => rfl
      | some p =>
          obtain ⟨d', a'⟩ := p
          simp only [Option.map_some, Option.some.injEq]
          by_cases ha : a' = a
          · subst ha
            obtain ⟨hd', hslot', -⟩ := leaf_of_leafSlot (by norm_num) rfl hv
            obtain ⟨-, hslot, -⟩ := leaf_of_leafSlot (by norm_num) rfl hleaf
            obtain rfl := hlev d' v d pageStart a' hd' hd hslot' hslot
            rw [Function.update_self, leafTarget_eq, leafTarget_eq, hframe]
          · rw [Function.update_of_ne ha]
    · intro hnone
      have hleaf : leafOf mem cr3 pageStart = none := by
        rwa [translate_eq, Option.map_eq_none_iff] at hnone
      by_cases hroot : readPaddrFromCr3 cr3 = 0
      · rw [modifyPageAttributes, if_pos hroot]
      · rw [modifyPageAttributes_eq hlow hroot, hleaf, applyAt]

/-! ### One page -/

/-- Tables at `0x1000`, `0x2000`, `0x3000` and `0x4000` that map page `0` to the frame at `0x5000`. -/
def onePage (a : ℕ) : ℕ :=
  if a = 0x1000 then 0x2003
  else if a = 0x2000 then 0x3003
  else if a = 0x3000 then 0x4003
  else if a = 0x4000 then 0x5003
  else 0

theorem onePage_of_mod {a : ℕ} (h : a % 4096 ≠ 0) : onePage a = 0 := by
  unfold onePage
  split_ifs <;> omega

theorem onePage_table {d g t : ℕ} (hd : d ≤ 3) (ht : table pgFormat onePage 0x1000 d g = some t) :
    t = 0x1000 * (d + 1) := by
  induction d generalizing t with
  | zero => exact (Option.some.inj ht).symm
  | succ d ih =>
      obtain ⟨u, hu, hnext⟩ := Option.bind_eq_some_iff.mp ht
      obtain rfl := ih (by omega) hu
      have hi := index_lt d g
      by_cases hzero : index d g = 0
      · rw [hzero] at hnext
        have hcases : d = 0 ∨ d = 1 ∨ d = 2 := by omega
        rcases hcases with rfl | rfl | rfl <;> exact (Option.some.inj hnext).symm
      · have hempty : onePage (0x1000 * (d + 1) + 8 * index d g) = 0 := onePage_of_mod (by omega)
        have hno : pgFormat.present 0 = false := by decide
        simp only [hempty, not_descends_zero hno, Bool.false_eq_true, if_false] at hnext
        cases hnext

theorem onePage_levelled : Levelled pgFormat onePage (rootTable 0x1000) := by
  intro d g d' g' a hd hd' h h'
  obtain ⟨t, ht, hta⟩ := Option.map_eq_some_iff.mp h
  obtain ⟨t', ht', hta'⟩ := Option.map_eq_some_iff.mp h'
  have h1 := onePage_table hd ht
  have h2 := onePage_table hd' ht'
  have h3 := index_lt d g
  have h4 := index_lt d' g'
  omega

theorem onePage_low (v : ℕ) : LowWalk onePage 0x1000 v := by
  intro d t hd ht
  have h := onePage_table hd ht
  omega

/-- Page `0` can be made uncacheable. -/
theorem modifyPageAttributes_iff_uncacheable :
    leafOf onePage 0x1000 0 = some (3, 0x4000) ∧
      KeepsTranslations onePage 0x1000 0 0x1B .addAttrs := by
  have hleaf : leafOf onePage 0x1000 0 = some (3, 0x4000) := by decide
  refine ⟨hleaf, (modifyPageAttributes_iff onePage_levelled (onePage_low 0) ?_).mpr ?_⟩
  · intro d a h
    obtain ⟨rfl, rfl⟩ := Prod.mk.inj (Option.some.inj (hleaf.symm.trans h))
    exact ⟨by decide, by decide, fun h3 => absurd rfl h3⟩
  · exact fun d a _ => ⟨by decide, Or.inl rfl⟩

/-- Replacing the attributes of page `0` maps it to the frame at address `0`. -/
theorem replaced_page_loses_frame :
    Levelled pgFormat onePage (rootTable 0x1000) ∧
    leafOf onePage 0x1000 0 = some (3, 0x4000) ∧ AttrsOk 3 (onePage 0x4000) 0x1B .replaceAttrs ∧
    translate onePage 0x1000 0 = some 0x5000 ∧
    translate (modifyPageAttributes onePage 0x1000 0 0x1B .replaceAttrs).1 0x1000 0 = some 0 ∧
    ¬ KeepsTranslations onePage 0x1000 0 0x1B .replaceAttrs := by
  have hleaf : leafOf onePage 0x1000 0 = some (3, 0x4000) := by decide
  have hbefore : translate onePage 0x1000 0 = some 0x5000 := by decide
  have hafter : translate (modifyPageAttributes onePage 0x1000 0 0x1B .replaceAttrs).1 0x1000 0 =
      some 0 := by decide
  refine ⟨onePage_levelled, hleaf, ⟨by decide, by decide, fun h3 => absurd rfl h3⟩, hbefore, hafter,
    fun h => ?_⟩
  have hsame := (h.mapped 3 0x4000 hleaf).2.1 0
  rw [hbefore, hafter] at hsame
  cases hsame

end HyveMind.PageAttributes
