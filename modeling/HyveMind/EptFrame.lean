import HyveMind.EptTeardown

/-! # What `add_ept_mapping` leaves alone

The mapping functions write an entry only after they found it not present, and clear a page only
after `get_page_raw` returned it.  This is all that `Grown` says, and every call keeps it, whatever
the flags, the offset and the range are and wherever the call stops.

`addEptMapping_keeps` is what follows for the processor: if the frames that the call took do not hold
tables that the walk already uses, every address that was translated is translated by the same leaf
entry afterwards. -/

namespace HyveMind.Ept

open Lib Lib.PageTable

variable {mm : List LimineMemmapEntry} {md : ℕ × ℕ} {info : EptMappingInfo}
variable {h h' h₀ : EptHeap} {maxPhysAddr eptp : ℕ}

/-- Since `h₀`, a present entry has changed only in frames that were taken from the allocator. -/
structure Grown (mm : List LimineMemmapEntry) (md : ℕ × ℕ) (h₀ h : EptHeap) : Prop where
  good : GoodAlloc mm md h.alloc
  kept : FramesKept h₀.alloc h.alloc
  words : ∀ b, isEptEntryPresent (h₀.mem b) = true →
    (∀ q, OwnFrame h₀.alloc h.alloc q → ¬ InFrame q b) → h.mem b = h₀.mem b

theorem Grown.refl (hgood : GoodAlloc mm md h.alloc) : Grown mm md h h :=
  ⟨hgood, fun _ hq => hq, fun _ _ _ => rfl⟩

/-! ### The steps of the mapping functions -/

theorem Grown.write (g : Grown mm md h₀ h) {a : ℕ} (ha : isEptEntryPresent (h.mem a) = false)
    (e : ℕ) : Grown mm md h₀ (h.write a e) where
  good := g.good
  kept := g.kept
  words := by
    intro b hb hout
    have hsame := g.words b hb hout
    have hba : b ≠ a := by
      rintro rfl
      rw [hsame, hb] at ha
      cases ha
    rw [← hsame]
    exact Function.update_of_ne hba _ _

theorem Grown.alloc (g : Grown mm md h₀ h) {ptr : ℕ}
    (hcall : allocateEptPagingStructure h = some (h', ptr)) :
    Grown mm md h₀ h' ∧ ∀ a, isEptEntryPresent (h.mem a) = false →
      isEptEntryPresent (h'.mem a) = false := by
  obtain ⟨hgood, ⟨-, -, rfl⟩ | ⟨q, -, hclear, hbits, hmem⟩⟩ :=
    allocateEptPagingStructure_frames g.good hcall
  · exact ⟨g, fun _ ha => ha⟩
  have hkept : FramesKept h.alloc h'.alloc := fun q' hq' => (hbits q').mpr (Or.inl hq')
  refine ⟨⟨hgood, g.kept.trans hkept, fun b hb hout => ?_⟩, fun a ha => ?_⟩
  · have hnot := hout q ⟨g.kept.clear hclear, (hbits q).mpr (Or.inr rfl)⟩
    unfold InFrame at hnot
    rw [hmem, memsetZero, if_neg hnot]
    exact g.words b hb fun q' hq' => hout q' ⟨hq'.1, hkept q' hq'.2⟩
  · rw [hmem, memsetZero]
    split_ifs
    · rfl
    · exact ha

theorem Grown.grow (g : Grown mm md h₀ h) {a : ℕ} {ok : Bool}
    (ha : isEptEntryPresent (h.mem a) = false)
    (hcall : eptGrow maxPhysAddr info h a = some (h', ok)) : Grown mm md h₀ h' := by
  obtain ⟨⟨h₁, ptr⟩, halloc, hrest⟩ := Option.bind_eq_some_iff.mp hcall
  obtain ⟨g₁, hkeep⟩ := g.alloc halloc
  simp only at hrest
  by_cases hptr : ptr = 0
  · rw [if_pos hptr] at hrest
    obtain ⟨rfl, -⟩ := Prod.mk.inj (Option.some.inj hrest)
    exact g₁
  · rw [if_neg hptr] at hrest
    obtain ⟨rfl, -⟩ := Prod.mk.inj (Option.some.inj hrest)
    exact g₁.write (hkeep a ha) _

theorem grown_mapInv (mm : List LimineMemmapEntry) (md : ℕ × ℕ) (h₀ : EptHeap) (maxPhysAddr : ℕ)
    (info : EptMappingInfo) : MapInv (eptFormat.reading eptRead) (eptScheme maxPhysAddr info)
      (eptGrow maxPhysAddr info) (Grown mm md h₀) fun _ _ _ => True where
  next := fun _ _ _ _ _ _ _ _ _ => trivial
  leaf := fun _ _ _ _ _ _ g _ _ hp _ => ⟨g.write hp _, fun _ _ _ => trivial⟩
  grow := fun _ _ _ _ _ _ g _ _ hp hcall =>
    ⟨⟨g.grow hp hcall, fun _ _ _ => trivial⟩, fun _ => trivial⟩

/-! ### Whole calls -/

theorem Grown.add (g : Grown mm md h₀ h) {r : EptError}
    (hcall : addEptMapping maxPhysAddr eptp info h = some (h', r)) : Grown mm md h₀ h' := by
  rw [addEptMapping, doEptPml4Mapping_eq] at hcall
  exact (mapRange_inv (grown_mapInv mm md h₀ maxPhysAddr info) g trivial hcall).1

/-- `add_ept_mapping` returns, whatever the tables hold. -/
theorem addEptMapping_defined (hgood : GoodAlloc mm md h.alloc)
    (hrange : info.guestPaddrStart + info.reqBytes + 1 < 2 ^ 64) :
    ∃ h' r, addEptMapping maxPhysAddr eptp info h = some (h', r) := by
  rw [addEptMapping, u64_of_lt (by omega)]
  exact doEptPml4Mapping_defined _ _ _ _ hgood hrange

/-- The frame `q` holds a table that the walk uses. -/
def TableFrame (mem : ℕ → ℕ) (eptp q : ℕ) : Prop :=
  ∃ d g, d ≤ 3 ∧ table eptFormat mem (rootOf eptp) d g = some (physToVirt (q * 4096))

theorem physToVirt_aligned (q : ℕ) : physToVirt (q * 4096) % 4096 = 0 := by
  simp only [physToVirt, physToVirtAt, u64, hypervisorDirectMappingOffset]
  omega

theorem table_aligned {mem : ℕ → ℕ} {d g t : ℕ}
    (ht : table eptFormat mem (rootOf eptp) d g = some t) : t % 4096 = 0 := by
  cases d with
  | zero =>
      obtain rfl := Option.some.inj ht
      exact physToVirt_aligned _
  | succ d =>
      obtain ⟨u, -, hnext⟩ := Option.bind_eq_some_iff.mp ht
      simp only [eptFormat_next] at hnext
      split_ifs at hnext
      obtain rfl := Option.some.inj hnext
      exact physToVirt_aligned _

/-- The present entries of the tables are kept if the new frames do not hold tables. -/
theorem Grown.keepsPresent (g : Grown mm md h h')
    (hfresh : ∀ q, OwnFrame h.alloc h'.alloc q → ¬ TableFrame h.mem eptp q) :
    KeepsPresent eptFormat h.mem h'.mem (rootOf eptp) := by
  intro d gpa a hd ha hp
  refine g.words a hp fun q hq hin => hfresh q hq ?_
  obtain ⟨t, ht, rfl⟩ := Option.map_eq_some_iff.mp ha
  have hi := index_lt d gpa
  have halign := table_aligned ht
  have halign' := physToVirt_aligned q
  obtain ⟨h1, h2⟩ := hin
  have hpage : pageSize = 4096 := rfl
  refine ⟨d, gpa, hd, ?_⟩
  rw [ht, Option.some.injEq]
  omega

theorem good_of_calls {h₁ : EptHeap} {info₀ : EptMappingInfo} {infos : List EptMappingInfo}
    {res : EptError} (hgood : GoodAlloc mm md h₀.alloc)
    (hcreate : createEptMapping maxPhysAddr info₀ h₀ = some (h₁, eptp, res))
    (hadds : addEptMappings maxPhysAddr eptp h₁ infos = some h) : GoodAlloc mm md h.alloc := by
  refine addEptMappings_inv (J := fun h => GoodAlloc mm md h.alloc)
    (fun info _ h h' r hgood hcall => (addEptMapping_kept hgood hcall).1) ?_ hadds
  obtain ⟨⟨h₂, ptr⟩, halloc, hrest⟩ := Option.bind_eq_some_iff.mp hcreate
  have hgood₂ := (allocateEptPagingStructure_frames hgood halloc).1
  simp only at hrest
  by_cases hptr : ptr = 0
  · rw [if_pos hptr] at hrest
    obtain ⟨rfl, -⟩ := Prod.mk.inj (Option.some.inj hrest)
    exact hgood₂
  · rw [if_neg hptr] at hrest
    obtain ⟨⟨h₃, r⟩, hcall, hret⟩ := Option.bind_eq_some_iff.mp hrest
    obtain ⟨rfl, -⟩ := Prod.mk.inj (Option.some.inj hret)
    exact (addEptMapping_kept hgood₂ hcall).1

/-- With the usual flags the tables lie in frames that are in use, so no call takes one of them. -/
theorem fresh_of_rep {bits : ℕ} (hbits : bits ≤ 52) (hram : RamBelow mm bits)
    (rep : EptRep mm md h (rootOf eptp)) {q : ℕ} (hq : OwnFrame h.alloc h'.alloc q) :
    ¬ TableFrame h.mem eptp q := by
  rintro ⟨d, g, hd, ht⟩
  have h52 : 2 ^ bits ≤ 2 ^ 52 := Nat.pow_le_pow_right (by norm_num) hbits
  have hlt := hram q (usable_of_clear rep.good hq.1)
  have huse := (rep.inUse d g _ hd ht).1
  unfold PageInUse at huse
  rw [Nat.div_mul_cancel (Nat.dvd_of_mod_eq_zero (physToVirt_aligned q)),
    virtToPhys_physToVirt (by omega), physToPfn_eq, Nat.mul_div_cancel _ (by norm_num), hq.1] at huse
  cases huse

/-- **`add_ept_mapping` disturbs no translation.**  After `create_ept_mapping` and any calls of
`add_ept_mapping`, a further call returns, and if it took no frame that holds a table in use, every
address that was translated is translated by the same leaf entry. -/
theorem addEptMapping_keeps {h₁ : EptHeap} {info₀ : EptMappingInfo} {infos : List EptMappingInfo}
    {res : EptError} (hgood : GoodAlloc mm md h₀.alloc)
    (hcreate : createEptMapping maxPhysAddr info₀ h₀ = some (h₁, eptp, res))
    (hadds : addEptMappings maxPhysAddr eptp h₁ infos = some h)
    (hrange : info.guestPaddrStart + info.reqBytes ≤ 2 ^ 48) :
    ∃ h' r, addEptMapping maxPhysAddr eptp info h = some (h', r) ∧
      ((∀ q, OwnFrame h.alloc h'.alloc q → ¬ TableFrame h.mem eptp q) →
        ∀ gpa host, eptWalk h.mem eptp gpa = some host →
          eptWalk h'.mem eptp gpa = some host ∧
            lookup eptFormat h'.mem (rootOf eptp) gpa = lookup eptFormat h.mem (rootOf eptp) gpa) := by
  have hgood' := good_of_calls hgood hcreate hadds
  have hreturns : ∃ h' r, addEptMapping maxPhysAddr eptp info h = some (h', r) :=
    addEptMapping_defined hgood' (by omega)
  obtain ⟨h', r, hcall⟩ := hreturns
  refine ⟨h', r, hcall, fun hfresh gpa host hwalk => ?_⟩
  have hkeep := ((Grown.refl hgood').add hcall).keepsPresent hfresh
  unfold eptWalk at hwalk ⊢
  split_ifs at hwalk ⊢
  obtain ⟨leaf, hleaf, rfl⟩ := Option.map_eq_some_iff.mp hwalk
  have hleaf' := hkeep.lookupFrom (by norm_num) hleaf
  rw [lookup, hleaf', hleaf]
  exact ⟨rfl, rfl⟩

/-- The page behind `onePage`, at 4 MiB. -/
def nextPage : EptMappingInfo :=
  ⟨4096, 4095, 2 ^ 22 - 4096, eptRwx, eptMapsPage ||| eptRwx, false, false⟩

/-- The page of `onePage` stays where it is when `nextPage` is added. -/
theorem addEptMapping_keeps_one_page : ∃ h₁ eptp h' r,
    createEptMapping (2 ^ 40 - 1) onePage sixteenFramesInit = some (h₁, eptp, .success) ∧
      addEptMapping (2 ^ 40 - 1) eptp nextPage h₁ = some (h', r) ∧
      eptWalk h₁.mem eptp 0 = some (2 ^ 21) ∧ eptWalk h'.mem eptp 0 = some (2 ^ 21) := by
  have hflags : FlagsOk onePage := by constructor <;> decide
  have hrun : (createEptMapping (2 ^ 40 - 1) onePage sixteenFramesInit).map
      (fun x => (x.2.2, eptWalk x.1.mem x.2.1 0)) = some (.success, some (2 ^ 21)) := rfl
  obtain ⟨h₁, eptp, r₁, hcreate⟩ : ∃ h₁ eptp r₁, createEptMapping (2 ^ 40 - 1) onePage sixteenFramesInit =
      some (h₁, eptp, r₁) := createEptMapping_defined (2 ^ 40 - 1) sixteenFrames_good (by decide)
  rw [hcreate, Option.map_some, Option.some.injEq, Prod.mk.injEq] at hrun
  obtain ⟨rfl, hwalk⟩ := hrun
  obtain ⟨h₂, rep₂, -, -, hlow, hmap⟩ := createEptMapping_spec (by norm_num) sixteenFrames_below
    sixteenFrames_good hcreate (by decide) (by decide) (.of_ram sixteenFrames_below sixteenFrames_good)
  have m := doEptPml4Mapping_spec hflags (by norm_num) sixteenFrames_below rep₂
    (show onePage.guestPaddrStart + onePage.reqBytes + 1 < 2 ^ 64 by decide)
    (show onePage.guestPaddrStart / 4096 * 4096 ≤ onePage.guestPaddrStart + onePage.reqBytes by decide)
    hmap hlow
  obtain ⟨h', r, hadd, hkeep⟩ := addEptMapping_keeps sixteenFrames_good hcreate
    (show addEptMappings (2 ^ 40 - 1) eptp h₁ [] = some h₁ from rfl)
    (show nextPage.guestPaddrStart + nextPage.reqBytes ≤ 2 ^ 48 by decide)
  exact ⟨h₁, eptp, h', r, hcreate, hadd, hwalk,
    (hkeep (fun q hq => fresh_of_rep (by norm_num) sixteenFrames_below m.rep hq) 0 _ hwalk).1⟩

end HyveMind.Ept
