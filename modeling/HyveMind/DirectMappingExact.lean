import HyveMind.DirectMapping
import HyveMind.EptMapping

/-! # The address space that the direct mapping describes

The four nested loops of `direct_mapping.c` are one instance of the filling mapper
(`pml4MapRange_eq`).  After a successful setup exactly the pages of the mapped entries are
translated, each to its address minus the offset, and no later call changes a translation
(`direct_mapping_exact`).

This needs that the root table is not put in frame `0`: an address space with a root at address `0`
is taken for an empty one, and gets a new root with every call.  It also needs that the tables lie
below `2 ^ 40`: of the address of a table the source reads 40 bits only, and goes on in another page
otherwise. -/

namespace HyveMind.DirectMapping

open Lib Lib.PageTable Ept

variable {σ : Type*} {getPageRaw : σ → Option (σ × Option ℕ)} {info : MappingInfo}

/-! ### The loops as a filling mapper -/

/-- The leaf for the page at `curr`. -/
def dmLeaf (info : MappingInfo) (raw curr : ℕ) : ℕ :=
  writePaddrToPte (raw ||| (info.psFlags ||| pgtablePresent)) (virtToPhysAt curr info.targetOffset)

/-- The test for large pages. -/
def dmSkip (d rawEntry : ℕ) : Bool := d == 2 && pgtableEntryMapsPage rawEntry

/-- The common body of the functions that link a new table. -/
def dmGrow (getPageRaw : σ → Option (σ × Option ℕ)) (info : MappingInfo) (h : Heap σ) (entry : ℕ) :
    Option (Heap σ × Bool) :=
  initNopsEntry getPageRaw info writePaddr entry h

/-- The filling mapper of `direct_mapping.c`. -/
abbrev dmFill (getPageRaw : σ → Option (σ × Option ℕ)) (info : MappingInfo) (n d : ℕ) (h : Heap σ)
    (t first last : ℕ) : Option (Heap σ × Bool) :=
  fillRange (pgFormat.reading readPaddrFromNopsEntry) (dmLeaf info) dmSkip (dmGrow getPageRaw info) n d h t first last

theorem pml4EntryIndex_eq (addr : ℕ) : pml4EntryIndex addr = index 0 addr :=
  getEptPml4Index_eq addr

theorem pdptEntryIndex_eq (addr : ℕ) : pdptEntryIndex addr = index 1 addr :=
  getEptPdptIndex_eq addr

theorem pdtEntryIndex_eq (addr : ℕ) : pdtEntryIndex addr = index 2 addr :=
  getEptPdIndex_eq addr

theorem ptEntryIndex_eq (addr : ℕ) : ptEntryIndex addr = index 3 addr :=
  getEptPtIndex_eq addr

theorem readPaddr_lt (raw : ℕ) : readPaddr raw + 4096 ≤ 2 ^ 64 := by
  rw [readPaddr]
  omega

theorem cell_getPgtableEntry {t : ℕ} (ht : t + 4096 ≤ 2 ^ 64) (d g : ℕ) :
    cell info (getPgtableEntry info t (index d g)) = t + 8 * index d g := by
  have hi := index_lt d g
  have hshift : index d g <<< 3 = 8 * index d g := by rw [Nat.shiftLeft_eq, Nat.mul_comm]
  rw [cell, getPgtableEntry, hshift, virtToPhysAt_physToVirtAt (by omega)]

theorem physToVirtAt_virtToPhysAt {addr : ℕ} (h : addr < 2 ^ 64) (offset : ℕ) :
    physToVirtAt (virtToPhysAt addr offset) offset = addr := by
  unfold virtToPhysAt physToVirtAt u64Sub u64
  omega

theorem physToVirtAt_lt (addr offset : ℕ) : physToVirtAt addr offset < 2 ^ 64 := u64_lt _

theorem ptMapRange_eq (h : Heap σ) {t : ℕ} (ht : t + 4096 ≤ 2 ^ 64) (start stop : ℕ) :
    ptMapRange info h t start stop = dmFill getPageRaw info 1 3 h t
      (physToVirtAt start info.targetOffset) (physToVirtAt stop info.targetOffset) := by
  rw [ptMapRange, dmFill, fillRange]
  congr 1
  funext h curr currEnd
  simp only [fillBlock, ptEntryIndex_eq, cell_getPgtableEntry ht, if_true]
  cases hp : pgtableEntryPresent (h.mem (t + 8 * index 3 curr)) with
  | true => simp [pgFormat, hp]
  | false => simp [pgFormat, hp, dmLeaf]

/-- The body of the loop of an upper level, for a loop below that is the filling mapper. -/
theorem fillBlock_upper {n d t curr currEnd : ℕ} (hd : d ≠ 3) (ht : t + 4096 ≤ 2 ^ 64)
    (hcurr : curr < 2 ^ 64) (hend : currEnd < 2 ^ 64)
    {below : Heap σ → ℕ → ℕ → ℕ → Option (Heap σ × Bool)}
    (hbelow : ∀ h t start stop, t + 4096 ≤ 2 ^ 64 → below h t start stop =
      dmFill getPageRaw info n (d + 1) h t (physToVirtAt start info.targetOffset)
        (physToVirtAt stop info.targetOffset)) (h : Heap σ) :
    fillBlock (pgFormat.reading readPaddrFromNopsEntry) (dmLeaf info) dmSkip (dmGrow getPageRaw info)
      (fun h t first last => dmFill getPageRaw info n (d + 1) h t first last) d t h curr currEnd =
      let entry := cell info (getPgtableEntry info t (index d curr))
      if pgtableEntryPresent (h.mem entry) && dmSkip d (h.mem entry) then some (h, true)
      else do
        let (h', ok) ← if !pgtableEntryPresent (h.mem entry) then
            initNopsEntry getPageRaw info writePaddr entry h else some (h, true)
        if ok then
          below h' (readPaddrFromNopsEntry (h'.mem entry)) (virtToPhysAt curr info.targetOffset)
            (virtToPhysAt currEnd info.targetOffset)
        else return (h', false) := by
  simp only [fillBlock, if_neg hd, cell_getPgtableEntry ht]
  have hcall : ∀ h raw, below h (readPaddrFromNopsEntry raw) (virtToPhysAt curr info.targetOffset)
      (virtToPhysAt currEnd info.targetOffset) =
      dmFill getPageRaw info n (d + 1) h (readPaddrFromNopsEntry raw) curr currEnd := by
    intro h raw
    rw [hbelow h (readPaddrFromNopsEntry raw) _ _ (readPaddr_lt raw), physToVirtAt_virtToPhysAt hcurr,
      physToVirtAt_virtToPhysAt hend]
  cases hp : pgtableEntryPresent (h.mem (t + 8 * index d curr)) with
  | true =>
      cases hs : dmSkip d (h.mem (t + 8 * index d curr)) with
      | true => simp [pgFormat, hp]
      | false => simp [pgFormat, hp, hcall]
  | false =>
      simp only [Format.reading_present, Format.reading_next, pgFormat, hp, Bool.false_eq_true, if_false,
        Bool.false_and, Bool.not_false, if_true, hcall, dmGrow]
      rfl

theorem pdtMapRange_eq (h : Heap σ) {t : ℕ} (ht : t + 4096 ≤ 2 ^ 64) (start stop : ℕ) :
    pdtMapRange getPageRaw info h t start stop = dmFill getPageRaw info 2 2 h t
      (physToVirtAt start info.targetOffset) (physToVirtAt stop info.targetOffset) := by
  rw [pdtMapRange, dmFill, fillRange]
  apply overBlocks_congr
  intro h curr hcurr
  have hlt := physToVirtAt_lt stop info.targetOffset
  rw [fillBlock_upper (by decide) ht (by omega) (by omega)
    fun h t start stop ht => ptMapRange_eq h ht start stop]
  have hmb : ∀ a b, eligibleForMbMapping a b = false := by
    intro a b
    unfold eligibleForMbMapping
    split_ifs <;> rfl
  simp only [pdtEntryIndex_eq, hmb, Bool.and_false, Bool.false_eq_true, if_false]
  rfl

theorem pdptMapRange_eq (h : Heap σ) {t : ℕ} (ht : t + 4096 ≤ 2 ^ 64) (start stop : ℕ) :
    pdptMapRange getPageRaw info h t start stop = dmFill getPageRaw info 3 1 h t
      (physToVirtAt start info.targetOffset) (physToVirtAt stop info.targetOffset) := by
  rw [pdptMapRange, dmFill, fillRange]
  apply overBlocks_congr
  intro h curr hcurr
  have hlt := physToVirtAt_lt stop info.targetOffset
  rw [fillBlock_upper (by decide) ht (by omega) (by omega)
    fun h t start stop ht => pdtMapRange_eq h ht start stop]
  have hskip : ∀ e, dmSkip 1 e = false := fun _ => rfl
  simp only [pdptEntryIndex_eq, supports1gbPages, hskip, Bool.false_and, Bool.and_false,
    Bool.false_eq_true, if_false]
  rfl

/-- The nested loops of `direct_mapping.c` are the filling mapper. -/
theorem pml4MapRange_eq (h : Heap σ) {t : ℕ} (ht : t + 4096 ≤ 2 ^ 64) (start stop : ℕ) :
    pml4MapRange getPageRaw info h t start stop = dmFill getPageRaw info 4 0 h t
      (physToVirtAt start info.targetOffset) (physToVirtAt stop info.targetOffset) := by
  rw [pml4MapRange, dmFill, fillRange]
  apply overBlocks_congr
  intro h curr hcurr
  have hlt := physToVirtAt_lt stop info.targetOffset
  rw [fillBlock_upper (by decide) ht (by omega) (by omega)
    fun h t start stop ht => pdptMapRange_eq h ht start stop]
  have hskip : ∀ e, dmSkip 0 e = false := fun _ => rfl
  simp only [pml4EntryIndex_eq, hskip, Bool.and_false, Bool.false_eq_true, if_false]
  rfl

/-! ### Fresh frames -/

/-- What the mapping relies on: `get_page_raw` returns, and hands out page frames below `2 ^ 52` that
are not in use; if there are none it changes nothing. -/
structure FreshFrames (getPageRaw : σ → Option (σ × Option ℕ)) (Good : σ → Prop)
    (InUse : σ → ℕ → Prop) : Prop where
  returns : ∀ a, Good a → ∃ a' addr, getPageRaw a = some (a', addr) ∧ Good a' ∧
    (∀ p, InUse a p → InUse a' p) ∧ (addr = none → a' = a)
  fresh : ∀ a a' paddr, Good a → getPageRaw a = some (a', some paddr) →
    paddr % 4096 = 0 ∧ paddr < 2 ^ 52 ∧ ¬ InUse a (paddr / 4096) ∧ InUse a' (paddr / 4096)

/-- The frame is in use and lies below `2 ^ 40`, so that links to it are read right. -/
def LowInUse (InUse : σ → ℕ → Prop) (a : σ) (p : ℕ) : Prop := InUse a p ∧ p < 2 ^ 28

/-- All frames that came into use between `a` and `a'` lie below `2 ^ 40`. -/
def FramesBelow (InUse : σ → ℕ → Prop) (a a' : σ) : Prop :=
  ∀ p, ¬ InUse a p → InUse a' p → p * 4096 < 2 ^ 40

/-- The allocator `a'` is well formed, and the frames that were in use in `a` still are. -/
structure Later (Good : σ → Prop) (InUse : σ → ℕ → Prop) (a a' : σ) : Prop where
  good : Good a'
  mono : ∀ p, InUse a p → InUse a' p

section Later

variable {Good : σ → Prop} {InUse : σ → ℕ → Prop} {a a₁ a₂ : σ}

theorem Later.refl (hgood : Good a) : Later Good InUse a a := ⟨hgood, fun _ hp => hp⟩

theorem Later.trans (h₁ : Later Good InUse a a₁) (h₂ : Later Good InUse a₁ a₂) :
    Later Good InUse a a₂ := ⟨h₂.good, fun p hp => h₂.mono p (h₁.mono p hp)⟩

theorem FramesBelow.first (hlow : FramesBelow InUse a a₂) (h : Later Good InUse a₁ a₂) :
    FramesBelow InUse a a₁ := fun p hp hp₁ => hlow p hp (h.mono p hp₁)

theorem FramesBelow.rest (hlow : FramesBelow InUse a a₂) (h : Later Good InUse a a₁) :
    FramesBelow InUse a₁ a₂ := fun p hp hp₂ => hlow p (fun hpa => hp (h.mono p hpa)) hp₂

theorem FreshFrames.later (fresh : FreshFrames getPageRaw Good InUse) (hgood : Good a)
    {addr : Option ℕ} (hcall : getPageRaw a = some (a₁, addr)) : Later Good InUse a a₁ := by
  obtain ⟨a', addr', hcall', hgood', hmono, -⟩ := fresh.returns a hgood
  obtain ⟨rfl, -⟩ := Prod.mk.inj (Option.some.inj (hcall.symm.trans hcall'))
  exact ⟨hgood', hmono⟩

end Later

/-- The flags of links do not contain the page-size bit. -/
def LinkFlagsOk (info : MappingInfo) : Prop := info.nopsFlags / 128 % 2 = 0

theorem pgtableEntryPresent_iff (raw : ℕ) : pgtableEntryPresent raw = decide (raw % 2 = 1) := by
  rw [pgtableEntryPresent, show (0x01 : ℕ) = 2 ^ 1 - 1 from rfl, Nat.and_two_pow_sub_one_eq_mod]
  rcases Nat.mod_two_eq_zero_or_one raw with h | h <;> simp [h]

theorem pgtableEntryMapsPage_iff (raw : ℕ) :
    pgtableEntryMapsPage raw = decide (raw / 128 % 2 = 1) := by
  have h := and_two_pow_ne_zero raw 7
  rw [Nat.testBit_eq_decide_div_mod_eq, decide_eq_true_iff] at h
  rw [pgtableEntryMapsPage, Bool.eq_iff_iff, bne_iff_ne, decide_eq_true_iff]
  exact h

theorem writePaddr_eq {paddr : ℕ} (hpaddr : paddr < 2 ^ 52) (raw : ℕ) :
    writePaddr raw paddr = raw % 4096 + paddr / 4096 * 4096 + raw / 2 ^ 52 * 2 ^ 52 := by
  rw [writePaddr, show maxPhysAddr = 2 ^ 52 - 1 from rfl,
    Nat.and_two_pow_sub_one_of_lt_two_pow hpaddr, Nat.shiftRight_eq_div_pow, setPaddrField,
    show 2 ^ pageShift = 4096 from rfl]
  omega

/-- The flags survive, and are those that were there with the new ones. -/
theorem writePaddr_low {paddr : ℕ} (hpaddr : paddr < 2 ^ 52) (raw : ℕ) :
    writePaddr raw paddr % 4096 = raw % 4096 ∧ paddrField (writePaddr raw paddr) = paddr / 4096 := by
  rw [writePaddr_eq hpaddr, paddrField]
  omega

theorem or_present_mod_two (n : ℕ) : (n ||| pgtablePresent) % 2 = 1 := by
  have h := Nat.testBit_or n 1 0
  rw [Nat.testBit_one_zero, Bool.or_true, Nat.testBit_zero, decide_eq_true_iff] at h
  exact h

theorem or_present_bit_seven (n : ℕ) : (n ||| pgtablePresent) / 128 % 2 = n / 128 % 2 := by
  have h := Nat.testBit_or n pgtablePresent 7
  rw [Nat.testBit_eq_decide_div_mod_eq, Nat.testBit_eq_decide_div_mod_eq] at h
  have hone : Nat.testBit pgtablePresent 7 = false := by decide
  rw [hone, Bool.or_false, decide_eq_decide] at h
  omega

/-- The entry that is written for the table at `paddr` is a link to it. -/
theorem linkEntry_format (hflags : LinkFlagsOk info) {paddr raw : ℕ} (halign : paddr % 4096 = 0)
    (hlt : paddr < 2 ^ 52)
    (hraw : raw = writePaddr (0 ||| (info.nopsFlags ||| pgtablePresent)) paddr) :
    pgFormat.present raw = true ∧ (∀ d ≤ 2, pgFormat.leaf d raw = false) ∧
      pgFormat.next raw = paddr := by
  obtain ⟨hlow, hfield⟩ := writePaddr_low hlt (0 ||| (info.nopsFlags ||| pgtablePresent))
  rw [← hraw, Nat.zero_or] at hlow
  rw [← hraw] at hfield
  have hodd := or_present_mod_two info.nopsFlags
  have hseven := or_present_bit_seven info.nopsFlags
  unfold LinkFlagsOk at hflags
  refine ⟨?_, fun d hd => ?_, ?_⟩
  · show pgtableEntryPresent raw = true
    rw [pgtableEntryPresent_iff, decide_eq_true_iff]
    omega
  · have hmaps : pgtableEntryMapsPage raw = false := by
      rw [pgtableEntryMapsPage_iff, decide_eq_false_iff_not]
      omega
    have h3 : (d == 3) = false := by rw [beq_eq_false_iff_ne]; omega
    simp [pgFormat, hmaps, h3]
  · show paddrField raw * 4096 = paddr
    rw [hfield]
    omega

variable {Good : σ → Prop} {InUse : σ → ℕ → Prop}

theorem dmGrow_cases (fresh : FreshFrames getPageRaw Good InUse) {h h' : Heap σ} {a : ℕ} {ok : Bool}
    (hgood : Good h.alloc) (hcall : dmGrow getPageRaw info h a = some (h', ok)) :
    Later Good InUse h.alloc h'.alloc ∧ ((ok = false ∧ h'.mem = h.mem) ∨
      ∃ paddr raw, ok = true ∧ getPageRaw h.alloc = some (h'.alloc, some paddr) ∧
        raw = writePaddr (h.mem a ||| (info.nopsFlags ||| pgtablePresent)) paddr ∧
        h'.mem = memsetZero (Function.update h.mem a raw)
          (cell info (physToVirtAt (readPaddrFromNopsEntry raw) info.currOffset)) pageSize) := by
  unfold dmGrow initNopsEntry genericInitNopsEntryRaw at hcall
  obtain ⟨⟨h₁, linked⟩, hinit, hrest⟩ := Option.bind_eq_some_iff.mp hcall
  obtain ⟨⟨alloc', addr⟩, hpage, hret⟩ := Option.bind_eq_some_iff.mp hinit
  cases addr with
  | none =>
      obtain ⟨rfl, rfl⟩ := Prod.mk.inj (Option.some.inj hret)
      obtain ⟨rfl, rfl⟩ := Prod.mk.inj (Option.some.inj hrest)
      exact ⟨fresh.later hgood hpage, Or.inl ⟨rfl, rfl⟩⟩
  | some paddr =>
      obtain ⟨rfl, rfl⟩ := Prod.mk.inj (Option.some.inj hret)
      obtain ⟨rfl, rfl⟩ := Prod.mk.inj (Option.some.inj hrest)
      refine ⟨fresh.later hgood hpage, Or.inr ⟨paddr, _, rfl, hpage, rfl, ?_⟩⟩
      simp only [zeroPgtableStruct, Heap.write, Function.update_self]

theorem readPaddr_readsTables : ReadsTables pgFormat (LowInUse InUse) readPaddrFromNopsEntry := by
  rintro a e ⟨-, hlow⟩
  have hnext : pgFormat.next e = paddrField e * 4096 := rfl
  rw [hnext, Nat.mul_div_cancel _ (by norm_num)] at hlow
  rw [readPaddrFromNopsEntry, readPaddr_of_lt hlow, hnext]

/-- The allocator is a source of fresh pages for the tables, as long as it gives frames below
`2 ^ 40`. -/
theorem dmGrow_spec (fresh : FreshFrames getPageRaw Good InUse) (hflags : LinkFlagsOk info) (a₀ : σ) :
    GrowSpec pgFormat (dmGrow getPageRaw info) (Later Good InUse a₀) (LowInUse InUse)
      (FramesBelow InUse a₀) where
  keep := by
    intro h a h' ok later hcall
    have later' := (dmGrow_cases fresh later.good hcall).1
    exact ⟨later.trans later', fun hlow => hlow.first later'⟩
  link := by
    intro h a h' ok later huse hz hcall hlow
    obtain ⟨later', hcases⟩ := dmGrow_cases fresh later.good hcall
    refine ⟨fun p hp => ⟨later'.mono p hp.1, hp.2⟩, ?_⟩
    rcases hcases with ⟨rfl, hmem⟩ | ⟨paddr, raw, rfl, hpage, hraw, hmem⟩
    · exact ⟨fun _ b _ => by rw [hmem], fun hok => absurd hok Bool.false_ne_true⟩
    obtain ⟨halign, hlt, hnew, huse'⟩ := fresh.fresh _ _ _ later.good hpage
    have hp40 := hlow (paddr / 4096) (fun hold => hnew (later.mono _ hold)) huse'
    rw [hz] at hraw
    obtain ⟨hpres, hleaf, hnext⟩ := linkEntry_format hflags halign hlt hraw
    have hread : readPaddrFromNopsEntry raw = paddr :=
      (@readPaddr_readsTables _ InUse h'.alloc raw (by
        rw [hnext]
        exact ⟨huse', by omega⟩)).trans hnext
    rw [hread, cell, virtToPhysAt_physToVirtAt (by omega)] at hmem
    have hfresh : ∀ b, LowInUse InUse h.alloc (b / 4096) → b / 4096 ≠ paddr / 4096 :=
      fun b hb heq => hnew (heq ▸ hb.1)
    have hout : ∀ b, b / 4096 ≠ paddr / 4096 → h'.mem b = Function.update h.mem a raw b := by
      intro b hb
      simp only [hmem, memsetZero, pageSize]
      rw [if_neg (by omega)]
    have hself : h'.mem a = raw := by rw [hout a (hfresh a huse), Function.update_self]
    refine ⟨fun hfail => absurd hfail.symm Bool.false_ne_true, fun _ => ⟨paddr / 4096,
      fun hold => hnew hold.1, ⟨huse', by omega⟩, ?_⟩⟩
    rw [hself, hnext]
    refine ⟨hpres, hleaf, by omega, ?_, ?_⟩
    · intro b hb
      simp only [hmem, memsetZero, pageSize]
      rw [if_pos (by omega)]
    · intro b hb hne
      exact (hout b (hfresh b hb)).trans (Function.update_of_ne hne ..)

theorem dmScheme_ok : SchemeOk pgFormat (smallScheme (dmLeaf info)) where
  zero := by decide
  leaf_last := fun _ => rfl
  wants_last := fun _ _ => rfl
  leafEntry := by
    intro d cs ce hd hw
    obtain rfl : d = 3 := by simpa [smallScheme] using hw
    refine ⟨?_, rfl⟩
    have hodd := or_present_mod_two info.psFlags
    show pgtableEntryPresent (dmLeaf info 0 cs) = true
    rw [pgtableEntryPresent_iff, decide_eq_true_iff, dmLeaf, writePaddrToPte, writePaddr,
      setPaddrField, Nat.zero_or]
    omega

theorem dmSkip_leaf : ∀ d e, d ≤ 2 → dmSkip d e = true → pgFormat.leaf d e = true := by
  intro d e hd hs
  simp only [dmSkip, Bool.and_eq_true, beq_iff_eq] at hs
  simp [pgFormat, hs]

/-! ### One call -/

/-- The address space has a root, which is not frame `0`, and well-formed tables below `2 ^ 40`. -/
structure AddrSpace (Good : σ → Prop) (InUse : σ → ℕ → Prop) (s : Heap σ × ℕ) : Prop where
  root : readPaddrFromCr3 s.2 ≠ 0
  rep : Rep pgFormat Good (LowInUse InUse) s.1 (rootTable s.2)
  small : SmallPages pgFormat s.1.mem (rootTable s.2)

/-- What filling the virtual range `first, …, last` does to the tables. -/
abbrev DmFilled (info : MappingInfo) (Good : σ → Prop) (InUse : σ → ℕ → Prop) (root first last : ℕ)
    (h h' : Heap σ) (ok : Bool) : Prop :=
  Filled pgFormat (dmLeaf info) Good (LowInUse InUse) root 4 0 first last h h' ok

theorem readPaddrFromCr3_eq {h : Heap σ} {cr3 : ℕ}
    (rep : Rep pgFormat Good (LowInUse InUse) h (rootTable cr3)) :
    readPaddrFromCr3 cr3 = rootTable cr3 := by
  have hlow := (rep.inUse 0 0 _ (by norm_num) rfl).2
  rw [rootTable, Nat.mul_div_cancel _ (by norm_num)] at hlow
  exact readPaddr_of_lt hlow

/-- The loops take frames and give none back, whatever the tables are. -/
theorem pml4MapRange_later (fresh : FreshFrames getPageRaw Good InUse) {h h' : Heap σ}
    {cr3 start stop : ℕ} {ok : Bool} (hgood : Good h.alloc)
    (hcall : pml4MapRange getPageRaw info h (readPaddrFromCr3 cr3) start stop = some (h', ok)) :
    Later Good InUse h.alloc h'.alloc := by
  rw [pml4MapRange_eq h (t := readPaddrFromCr3 cr3) (readPaddr_lt cr3)] at hcall
  refine fillRange_inv (J := Later Good InUse h.alloc) ?_ (Later.refl hgood) hcall
  exact fun h₁ a h₂ ok later hgrow => later.trans (dmGrow_cases fresh later.good hgrow).1

theorem pml4MapRange_spec (fresh : FreshFrames getPageRaw Good InUse) (hflags : LinkFlagsOk info)
    {h h' : Heap σ} {cr3 start stop : ℕ} {ok : Bool}
    (rep : Rep pgFormat Good (LowInUse InUse) h (rootTable cr3))
    (small : SmallPages pgFormat h.mem (rootTable cr3))
    (hcall : pml4MapRange getPageRaw info h (readPaddrFromCr3 cr3) start stop = some (h', ok))
    (hlow : FramesBelow InUse h.alloc h'.alloc) :
    Rep pgFormat Good (LowInUse InUse) h' (rootTable cr3) ∧
      SmallPages pgFormat h'.mem (rootTable cr3) ∧
      if physToVirtAt start info.targetOffset ≤ physToVirtAt stop info.targetOffset then
        DmFilled info Good InUse (rootTable cr3) (physToVirtAt start info.targetOffset)
          (physToVirtAt stop info.targetOffset) h h' ok ∧
        (ok = true → physToVirtAt stop info.targetOffset + 1 < 2 ^ 64)
      else h' = h := by
  have hgood := (pml4MapRange_later fresh rep.good hcall).good
  rw [pml4MapRange_eq h (t := readPaddrFromCr3 cr3) (readPaddr_lt cr3), readPaddrFromCr3_eq rep] at hcall
  split_ifs with hle
  · have rep' : Rep pgFormat (Later Good InUse h.alloc) _ h _ := rep.with_good (Later.refl rep.good)
    obtain ⟨hf, hend⟩ := fillRange_spec dmScheme_ok readPaddr_readsTables
      (dmGrow_spec fresh hflags h.alloc) dmSkip_leaf (by norm_num) rep' small
      (physToVirtAt_lt stop info.targetOffset) hle (fun _ _ _ => rfl) hcall hlow
    have hf' : DmFilled info Good InUse (rootTable cr3) (physToVirtAt start info.targetOffset)
        (physToVirtAt stop info.targetOffset) h h' ok := ⟨hf.kept.with_good hgood, hf.small, hf.done⟩
    exact ⟨hf'.kept.rep, hf.small, hf', hend⟩
  · have hsame : some (h, true) = some (h', ok) := by
      rw [← hcall]
      exact (overBlocks_of_lt (by omega)).symm
    cases hsame
    exact ⟨rep, small, rfl⟩

theorem initCr3_later (fresh : FreshFrames getPageRaw Good InUse) {h : Heap σ} {cr3 : ℕ}
    (hgood : Good h.alloc) {s : Heap σ × ℕ} {ok : Bool}
    (hcall : initCr3 getPageRaw info cr3 h = some (s, ok)) : Later Good InUse h.alloc s.1.alloc := by
  obtain ⟨⟨a, addr⟩, hpage, hret⟩ := Option.bind_eq_some_iff.mp hcall
  cases addr with
  | none =>
      cases hret
      exact fresh.later hgood hpage
  | some paddr =>
      cases hret
      exact fresh.later hgood hpage

/-- A call takes frames and gives none back, whatever the address space is. -/
theorem directlyMapPhysRange_later (fresh : FreshFrames getPageRaw Good InUse)
    {s s' : Heap σ × ℕ} {start stop : ℕ} {ok : Bool} (hgood : Good s.1.alloc)
    (hcall : directlyMapPhysRange getPageRaw info s start stop = some (s', ok)) :
    Later Good InUse s.1.alloc s'.1.alloc := by
  simp only [directlyMapPhysRange, Option.bind_eq_bind, Option.bind_some, if_true] at hcall
  have hloops : ∀ {h : Heap σ} {cr3 : ℕ}, Good h.alloc →
      ((pml4MapRange getPageRaw info h (readPaddrFromCr3 cr3) (pageAlign start) stop).bind
        fun r => pure ((r.1, cr3), r.2)) = some (s', ok) → Later Good InUse h.alloc s'.1.alloc := by
    intro h cr3 hgood hloop
    obtain ⟨⟨h', ok'⟩, hfill, hret⟩ := Option.bind_eq_some_iff.mp hloop
    cases hret
    exact pml4MapRange_later fresh hgood hfill
  split_ifs at hcall
  · obtain ⟨⟨⟨h₁, cr3⟩, ok₁⟩, hinit, hrest⟩ := Option.bind_eq_some_iff.mp hcall
    have later₁ : Later Good InUse s.1.alloc h₁.alloc := initCr3_later fresh hgood hinit
    cases ok₁ with
    | false =>
        cases hrest
        exact later₁
    | true => exact later₁.trans (hloops later₁.good hrest)
  · exact hloops hgood hcall

theorem directlyMapPhysRange_spec (fresh : FreshFrames getPageRaw Good InUse)
    (hflags : LinkFlagsOk info) {s s' : Heap σ × ℕ} {start stop : ℕ} {ok : Bool}
    (space : AddrSpace Good InUse s)
    (hcall : directlyMapPhysRange getPageRaw info s start stop = some (s', ok))
    (hlow : FramesBelow InUse s.1.alloc s'.1.alloc) :
    s'.2 = s.2 ∧ AddrSpace Good InUse s' ∧
      if physToVirtAt (pageAlign start) info.targetOffset ≤ physToVirtAt stop info.targetOffset then
        DmFilled info Good InUse (rootTable s.2)
          (physToVirtAt (pageAlign start) info.targetOffset)
          (physToVirtAt stop info.targetOffset) s.1 s'.1 ok ∧
        (ok = true → physToVirtAt stop info.targetOffset + 1 < 2 ^ 64)
      else s' = s := by
  obtain ⟨h, cr3⟩ := s
  have hroot : readPaddrFromCr3 cr3 ≠ 0 := space.root
  simp only [directlyMapPhysRange, if_neg hroot, Option.bind_eq_bind, Option.bind_some,
    if_true] at hcall
  obtain ⟨⟨h', ok'⟩, hfill, hret⟩ := Option.bind_eq_some_iff.mp hcall
  obtain ⟨rfl, rfl⟩ := Prod.mk.inj (Option.some.inj hret)
  obtain ⟨rep, small, hf⟩ := pml4MapRange_spec fresh hflags space.rep space.small hfill hlow
  refine ⟨rfl, ⟨hroot, rep, small⟩, ?_⟩
  split_ifs at hf ⊢
  · exact hf
  · rw [hf]

theorem initCr3_tables (fresh : FreshFrames getPageRaw Good InUse) {h : Heap σ} {cr3 : ℕ}
    (hgood : Good h.alloc) {s : Heap σ × ℕ} {ok : Bool}
    (hcall : initCr3 getPageRaw info cr3 h = some (s, ok))
    (hlow : FramesBelow InUse h.alloc s.1.alloc) :
    if ok then
      (∃ a paddr, getPageRaw h.alloc = some (a, some paddr) ∧ rootTable s.2 = paddr) ∧
      Rep pgFormat Good (LowInUse InUse) s.1 (rootTable s.2) ∧
      SmallPages pgFormat s.1.mem (rootTable s.2) ∧ ∀ v, pageWalk s.1.mem s.2 v = none
    else s = (h, cr3) := by
  obtain ⟨a', addr, hpage, hgood', -, hsame⟩ := fresh.returns h.alloc hgood
  simp only [initCr3, hpage, Option.bind_eq_bind, Option.bind_some, Option.pure_def] at hcall
  cases addr with
  | none =>
      obtain rfl := hsame rfl
      cases hcall
      rfl
  | some paddr =>
      cases hcall
      obtain ⟨halign, hlt, hnew, huse⟩ := fresh.fresh _ _ _ hgood hpage
      have hp40 := hlow _ hnew huse
      have hcr3 : rootTable (writePaddrToCr3 cr3 paddr) = paddr / 4096 * 4096 := by
        rw [rootTable, writePaddrToCr3, (writePaddr_low hlt cr3).2]
      have hcell : cell info (physToVirtAt paddr info.currOffset) = paddr :=
        virtToPhysAt_physToVirtAt (by omega)
      have hzero : ∀ b, b / 4096 = paddr / 4096 →
          (zeroPgtableStruct info paddr ⟨a', h.mem⟩).mem b = 0 := by
        intro b hb
        simp only [zeroPgtableStruct, hcell, memsetZero, pageSize]
        rw [if_pos (by omega)]
      have hrep : Rep pgFormat Good (LowInUse InUse) (zeroPgtableStruct info paddr ⟨a', h.mem⟩)
          (paddr / 4096 * 4096) ∧ _ := Rep.of_empty (by decide) hgood' ⟨huse, by omega⟩ hzero
      obtain ⟨rep, hempty⟩ := hrep
      rw [if_pos rfl]
      refine ⟨⟨a', paddr, hpage, ?_⟩, ?_, ?_, ?_⟩
      · show rootTable (writePaddrToCr3 cr3 paddr) = paddr
        omega
      · show Rep _ _ _ _ (rootTable (writePaddrToCr3 cr3 paddr))
        rwa [hcr3]
      · show SmallPages _ _ (rootTable (writePaddrToCr3 cr3 paddr))
        rw [hcr3]
        intro d g e hd he hp
        rw [hempty d g e (by omega) he] at hp
        cases hp
      · intro v
        unfold pageWalk
        show (if _ then (lookup _ _ (rootTable (writePaddrToCr3 cr3 paddr)) _).map _ else _) = _
        rw [hcr3, lookup, lookupFrom_succ]
        cases he : entry pgFormat (zeroPgtableStruct info paddr ⟨a', h.mem⟩).mem
            (paddr / 4096 * 4096) 0 v with
        | none => simp
        | some e => simp [hempty 0 v e (by norm_num) he]

/-- The first call for an empty address space makes a root, unless there is no memory. -/
theorem initCr3_spec (fresh : FreshFrames getPageRaw Good InUse) {h : Heap σ} {cr3 : ℕ}
    (hgood : Good h.alloc) {s : Heap σ × ℕ} {ok : Bool}
    (hroot : ∀ a paddr, getPageRaw h.alloc = some (a, some paddr) → paddr ≠ 0)
    (hcall : initCr3 getPageRaw info cr3 h = some (s, ok))
    (hlow : FramesBelow InUse h.alloc s.1.alloc) :
    if ok then AddrSpace Good InUse s ∧ ∀ v, pageWalk s.1.mem s.2 v = none else s = (h, cr3) := by
  have htables := initCr3_tables fresh hgood hcall hlow
  cases ok with
  | false => exact htables
  | true =>
      rw [if_pos rfl] at htables ⊢
      obtain ⟨⟨a, paddr, hpage, hcr3⟩, rep, small, hempty⟩ := htables
      refine ⟨⟨?_, rep, small⟩, hempty⟩
      rw [readPaddrFromCr3_eq rep, hcr3]
      exact hroot a paddr hpage

/-! ### What a call translates -/

theorem isPagingCanonical_iff (v : ℕ) : isPagingCanonical v = true ↔
    v < 2 ^ 47 ∨ 2 ^ 64 - 2 ^ 47 ≤ v ∧ v < 2 ^ 64 := by
  simp only [isPagingCanonical, Nat.shiftRight_eq_div_pow, Bool.or_eq_true, decide_eq_true_iff]
  omega

/-- The range of the entry is a range of physical addresses, and its virtual range neither wraps
around nor leaves one canonical half. -/
structure EntryOk (info : MappingInfo) (e : MemmapEntry) : Prop where
  le : e.start ≤ e.stop
  lt : e.stop < 2 ^ 52
  wrap : physToVirtAt (pageAlign e.start) info.targetOffset ≤ physToVirtAt e.stop info.targetOffset
  half : physToVirtAt e.stop info.targetOffset < 2 ^ 47 ∨
    2 ^ 64 - 2 ^ 47 ≤ physToVirtAt (pageAlign e.start) info.targetOffset

/-- `v` minus the offset lies in a page that the entry touches. -/
def Touches (info : MappingInfo) (e : MemmapEntry) (v : ℕ) : Prop :=
  e.start / 4096 ≤ u64Sub v info.targetOffset / 4096 ∧
    u64Sub v info.targetOffset / 4096 ≤ e.stop / 4096

theorem touches_iff {e : MemmapEntry} (hoff : info.targetOffset % 4096 = 0) (ok : EntryOk info e)
    {v : ℕ} (hv : v < 2 ^ 64) :
    Touches info e v ↔
      physToVirtAt (pageAlign e.start) info.targetOffset / 4096 ≤ v / 4096 ∧
        v / 4096 ≤ physToVirtAt e.stop info.targetOffset / 4096 := by
  obtain ⟨hle, hlt, hwrap, -⟩ := ok
  unfold Touches
  rw [pageAlign_eq] at hwrap ⊢
  unfold physToVirtAt u64Sub u64 at *
  omega

/-- Canonical addresses with the same indices are in the same page. -/
theorem page_eq_of_path {x v : ℕ} (hx : isPagingCanonical x = true)
    (hv : isPagingCanonical v = true) (h : path 4 x = path 4 v) : x / 4096 = v / 4096 := by
  rw [isPagingCanonical_iff] at hx hv
  unfold path at h
  norm_num at h
  omega

theorem dmLeaf_target (hoff : info.targetOffset % 4096 = 0) {v : ℕ}
    (hv : u64Sub v info.targetOffset < 2 ^ 52) :
    leafTarget v (3, dmLeaf info 0 (v / 4096 * 4096)) = u64Sub v info.targetOffset ∧
      flagBits (dmLeaf info 0 (v / 4096 * 4096)) = flagBits (info.psFlags ||| pgtablePresent) := by
  have hpage : virtToPhysAt (v / 4096 * 4096) info.targetOffset =
      u64Sub v info.targetOffset / 4096 * 4096 ∧
      u64Sub v info.targetOffset % 4096 = v % 4096 := by
    unfold virtToPhysAt u64Sub u64
    omega
  have hshift : shift 3 = 12 := rfl
  rw [dmLeaf, hpage.1, Nat.zero_or, writePaddrToPte, writePaddr_eq (by omega), leafTarget, hshift]
  generalize info.psFlags ||| pgtablePresent = flags
  unfold flagBits setPaddrField
  constructor
  · show (flags % 4096 + u64Sub v info.targetOffset / 4096 * 4096 / 4096 * 4096 +
      flags / 2 ^ 52 * 2 ^ 52) / 2 ^ 12 % 2 ^ (52 - 12) * 2 ^ 12 + v % 2 ^ 12 = _
    omega
  · omega

/-- The translations after a successful call: an address that the entry touches keeps its translation
or gets one, all others are translated as before. -/
theorem pageWalk_filled (hoff : info.targetOffset % 4096 = 0) {e : MemmapEntry}
    (ok : EntryOk info e) {h h' : Heap σ} {cr3 : ℕ}
    (hf : DmFilled info Good InUse (rootTable cr3)
      (physToVirtAt (pageAlign e.start) info.targetOffset) (physToVirtAt e.stop info.targetOffset)
      h h' true) {v : ℕ} (hv : isPagingCanonical v = true) :
    pageWalk h'.mem cr3 v = pageWalk h.mem cr3 v ∧
        (Touches info e v → (pageWalk h.mem cr3 v).isSome) ∨
      Touches info e v ∧ pageWalk h.mem cr3 v = none ∧ pageWalk h'.mem cr3 v =
        some (u64Sub v info.targetOffset, flagBits (info.psFlags ||| pgtablePresent)) := by
  have hv64 : v < 2 ^ 64 := by
    rw [isPagingCanonical_iff] at hv
    omega
  have htouch := touches_iff hoff ok hv64
  have halign : physToVirtAt (pageAlign e.start) info.targetOffset % 4096 = 0 := by
    rw [pageAlign_eq]
    unfold physToVirtAt u64
    omega
  unfold pageWalk
  rw [if_pos hv, if_pos hv, lookup, lookup]
  rcases hf.kept.new v with hsame | ⟨hnone, x, hpath, hsome, hnew⟩
  · refine Or.inl ⟨by rw [hsame], fun ht => ?_⟩
    have hleaf : (newLeaf (smallScheme (dmLeaf info)) 4 0
        (physToVirtAt (pageAlign e.start) info.targetOffset)
        (physToVirtAt e.stop info.targetOffset) v).isSome := by
      rw [newLeaf_small ok.wrap, if_pos (htouch.mp ht)]
      rfl
    rw [Option.isSome_map, ← hsame]
    exact hf.done rfl v hleaf
  · right
    rw [newLeaf_small ok.wrap] at hsome hnew
    split_ifs at hsome hnew with hx
    · have hxc : isPagingCanonical x = true := by
        have hhalf := ok.half
        rw [isPagingCanonical_iff]
        have := physToVirtAt_lt e.stop info.targetOffset
        omega
      have hpage := page_eq_of_path hxc hv hpath
      rw [hpage] at hx hnew
      have ht : Touches info e v := htouch.mpr hx
      have hmax : max (physToVirtAt (pageAlign e.start) info.targetOffset) (v / 4096 * 4096) =
          v / 4096 * 4096 := by omega
      have h52 : u64Sub v info.targetOffset < 2 ^ 52 := by
        have := ht.2
        have := ok.lt
        omega
      obtain ⟨htarget, hflags⟩ := dmLeaf_target hoff h52
      rw [hmax] at hnew
      refine ⟨ht, by rw [hnone]; rfl, ?_⟩
      rw [hnew, Option.map_some, htarget, hflags]
    · cases hsome

theorem pageWalk_kept {h h' : Heap σ} {cr3 first last : ℕ} {ok : Bool}
    (hf : DmFilled info Good InUse (rootTable cr3) first last h h' ok) {v : ℕ} {r : ℕ × ℕ}
    (hwalk : pageWalk h.mem cr3 v = some r) : pageWalk h'.mem cr3 v = some r := by
  unfold pageWalk at hwalk ⊢
  split_ifs at hwalk ⊢
  obtain ⟨leaf, hleaf, hr⟩ := Option.map_eq_some_iff.mp hwalk
  have hkept := hf.kept.lookup_kept (g := v) (by rw [show lookupFrom .. = _ from hleaf]; rfl)
  rw [lookup, hkept, show lookupFrom .. = _ from hleaf, Option.map_some, hr]

/-! ### The setup -/

/-- `v` minus the offset lies in a page that some mapped entry touches. -/
def Covered (info : MappingInfo) (memMap : List MemmapEntry) (v : ℕ) : Prop :=
  ∃ e ∈ memMap, isMappedType e.type = true ∧ Touches info e v

theorem covered_cons {e : MemmapEntry} {memMap : List MemmapEntry} {v : ℕ} :
    Covered info (e :: memMap) v ↔
      isMappedType e.type = true ∧ Touches info e v ∨ Covered info memMap v := by
  simp [Covered]

section Loop

variable {e : MemmapEntry} {memMap : List MemmapEntry} {s s' : Heap σ × ℕ} {ok : Bool}

theorem setup_cons_of_skipped (htype : isMappedType e.type = false) :
    rawSetupDirectMappingFromMemmap getPageRaw info (e :: memMap) s =
      rawSetupDirectMappingFromMemmap getPageRaw info memMap s := by
  simp only [rawSetupDirectMappingFromMemmap, htype, Bool.not_false, if_true]

theorem setup_cons_of_mapped (htype : isMappedType e.type = true) :
    rawSetupDirectMappingFromMemmap getPageRaw info (e :: memMap) s = some (s', ok) ↔
      ∃ s₁, directlyMapPhysRange getPageRaw info s e.start e.stop = some (s₁, true) ∧
          rawSetupDirectMappingFromMemmap getPageRaw info memMap s₁ = some (s', ok) ∨
        directlyMapPhysRange getPageRaw info s e.start e.stop = some (s₁, false) ∧
          s' = s₁ ∧ ok = false := by
  simp only [rawSetupDirectMappingFromMemmap, htype, Bool.not_true, Bool.false_eq_true, if_false]
  constructor
  · intro hcall
    obtain ⟨⟨s₁, ok₁⟩, hmap, hnext⟩ := Option.bind_eq_some_iff.mp hcall
    cases ok₁ with
    | false =>
        cases hnext
        exact ⟨_, Or.inr ⟨hmap, rfl, rfl⟩⟩
    | true => exact ⟨_, Or.inl ⟨hmap, hnext⟩⟩
  · rintro ⟨s₁, ⟨hmap, hnext⟩ | ⟨hmap, rfl, rfl⟩⟩
    · rw [hmap]
      exact hnext
    · rw [hmap]
      rfl

end Loop

theorem setup_later (fresh : FreshFrames getPageRaw Good InUse) {memMap : List MemmapEntry}
    {s s' : Heap σ × ℕ} {ok : Bool} (hgood : Good s.1.alloc)
    (hcall : rawSetupDirectMappingFromMemmap getPageRaw info memMap s = some (s', ok)) :
    Later Good InUse s.1.alloc s'.1.alloc := by
  induction memMap generalizing s with
  | nil =>
      cases hcall
      exact Later.refl hgood
  | cons e memMap ih =>
      cases htype : isMappedType e.type with
      | false =>
          rw [setup_cons_of_skipped htype] at hcall
          exact ih hgood hcall
      | true =>
          obtain ⟨s₁, ⟨hmap, hnext⟩ | ⟨hmap, rfl, -⟩⟩ := (setup_cons_of_mapped htype).mp hcall
          · have later₁ := directlyMapPhysRange_later fresh hgood hmap
            exact later₁.trans (ih later₁.good hnext)
          · exact directlyMapPhysRange_later fresh hgood hmap

theorem setup_spec (fresh : FreshFrames getPageRaw Good InUse) (hflags : LinkFlagsOk info)
    (hoff : info.targetOffset % 4096 = 0) {memMap : List MemmapEntry}
    (hentries : ∀ e ∈ memMap, isMappedType e.type = true → EntryOk info e) {s s' : Heap σ × ℕ}
    (space : AddrSpace Good InUse s)
    (hcall : rawSetupDirectMappingFromMemmap getPageRaw info memMap s = some (s', true))
    (hlow : FramesBelow InUse s.1.alloc s'.1.alloc) :
    AddrSpace Good InUse s' ∧ ∀ v, isPagingCanonical v = true →
      (pageWalk s'.1.mem s'.2 v = pageWalk s.1.mem s.2 v ∧
          (Covered info memMap v → (pageWalk s.1.mem s.2 v).isSome)) ∨
        Covered info memMap v ∧ pageWalk s.1.mem s.2 v = none ∧ pageWalk s'.1.mem s'.2 v =
          some (u64Sub v info.targetOffset, flagBits (info.psFlags ||| pgtablePresent)) := by
  induction memMap generalizing s with
  | nil =>
      cases hcall
      exact ⟨space, fun v _ => Or.inl ⟨rfl, by rintro ⟨e, he, -⟩; cases he⟩⟩
  | cons e memMap ih =>
      have hrest := fun e' he' => hentries e' (List.mem_cons_of_mem _ he')
      simp only [covered_cons]
      cases htype : isMappedType e.type with
      | false =>
          rw [setup_cons_of_skipped htype] at hcall
          simpa using ih hrest space hcall hlow
      | true =>
          have ok := hentries e (List.mem_cons_self ..) htype
          obtain ⟨s₁, ⟨hmap, hnext⟩ | ⟨-, -, hfail⟩⟩ := (setup_cons_of_mapped htype).mp hcall
          · have later₁ := directlyMapPhysRange_later fresh space.rep.good hmap
            obtain ⟨hcr3, space₁, hf⟩ := directlyMapPhysRange_spec fresh hflags space hmap
              (hlow.first (setup_later fresh later₁.good hnext))
            rw [if_pos ok.wrap] at hf
            obtain ⟨space', hwalk⟩ := ih hrest space₁ hnext (hlow.rest later₁)
            refine ⟨space', fun v hv => ?_⟩
            have hhere := pageWalk_filled hoff ok hf.1 hv
            rw [hcr3] at hwalk
            rcases hwalk v hv with ⟨hsame, hcov⟩ | ⟨hcov, hnone, hnew⟩
            · rcases hhere with ⟨hsame₁, htouch⟩ | ⟨htouch, hnone₁, hnew₁⟩
              · refine Or.inl ⟨hsame.trans hsame₁, ?_⟩
                rintro (⟨-, ht⟩ | hc)
                · exact htouch ht
                · exact hsame₁ ▸ hcov hc
              · exact Or.inr ⟨Or.inl ⟨rfl, htouch⟩, hnone₁, hsame.trans hnew₁⟩
            · rcases hhere with ⟨hsame₁, -⟩ | ⟨-, -, hnew₁⟩
              · exact Or.inr ⟨Or.inr hcov, hsame₁ ▸ hnone, hnew⟩
              · rw [hnew₁] at hnone
                cases hnone
          · cases hfail

/-- The first call for an empty address space is a call for one with an empty root table, or fails
for want of memory. -/
theorem directlyMapPhysRange_empty (fresh : FreshFrames getPageRaw Good InUse) {h : Heap σ}
    {cr3 : ℕ} (hgood : Good h.alloc) (hcr3 : readPaddrFromCr3 cr3 = 0)
    (hroot : ∀ a paddr, getPageRaw h.alloc = some (a, some paddr) → paddr ≠ 0) {s' : Heap σ × ℕ}
    {start stop : ℕ} {ok : Bool}
    (hcall : directlyMapPhysRange getPageRaw info (h, cr3) start stop = some (s', ok))
    (hlow : FramesBelow InUse h.alloc s'.1.alloc) :
    s' = (h, cr3) ∧ ok = false ∨ ∃ s₁, Later Good InUse h.alloc s₁.1.alloc ∧
      AddrSpace Good InUse s₁ ∧ (∀ v, pageWalk s₁.1.mem s₁.2 v = none) ∧
      directlyMapPhysRange getPageRaw info s₁ start stop = some (s', ok) := by
  simp only [directlyMapPhysRange, hcr3, if_true, Option.bind_eq_bind] at hcall
  obtain ⟨⟨⟨h₁, cr3₁⟩, ok₁⟩, hinit, hrest⟩ := Option.bind_eq_some_iff.mp hcall
  have later₁ : Later Good InUse h.alloc h₁.alloc := initCr3_later fresh hgood hinit
  cases ok₁ with
  | false =>
      cases hrest
      have hspec := initCr3_spec fresh hgood hroot hinit hlow
      cases hspec
      exact Or.inl ⟨rfl, rfl⟩
  | true =>
      obtain ⟨⟨h₂, ok₂⟩, hfill, hret⟩ := Option.bind_eq_some_iff.mp hrest
      cases hret
      have hspec := initCr3_spec fresh hgood hroot hinit
        (hlow.first (pml4MapRange_later fresh later₁.good hfill))
      rw [if_pos rfl] at hspec
      refine Or.inr ⟨(h₁, cr3₁), later₁, hspec.1, hspec.2, ?_⟩
      have hne : readPaddrFromCr3 cr3₁ ≠ 0 := hspec.1.root
      simpa only [directlyMapPhysRange, if_neg hne, Option.bind_eq_bind, Option.bind_some, if_true]
        using hrest

/-- A successful setup of an empty address space maps no entry, or it is the setup of one with an
empty root table. -/
theorem setup_root (fresh : FreshFrames getPageRaw Good InUse) {memMap : List MemmapEntry}
    {h : Heap σ} {cr3 : ℕ} (hgood : Good h.alloc) (hcr3 : readPaddrFromCr3 cr3 = 0)
    (hroot : ∀ a paddr, getPageRaw h.alloc = some (a, some paddr) → paddr ≠ 0) {s' : Heap σ × ℕ}
    (hcall : rawSetupDirectMappingFromMemmap getPageRaw info memMap (h, cr3) = some (s', true))
    (hlow : FramesBelow InUse h.alloc s'.1.alloc) :
    (s' = (h, cr3) ∧ ∀ e ∈ memMap, isMappedType e.type = false) ∨
      ∃ s₁, Later Good InUse h.alloc s₁.1.alloc ∧ AddrSpace Good InUse s₁ ∧
        (∀ v, pageWalk s₁.1.mem s₁.2 v = none) ∧
        rawSetupDirectMappingFromMemmap getPageRaw info memMap s₁ = some (s', true) := by
  induction memMap with
  | nil =>
      cases hcall
      exact Or.inl ⟨rfl, fun e he => absurd he List.not_mem_nil⟩
  | cons e memMap ih =>
      cases htype : isMappedType e.type with
      | false =>
          rw [setup_cons_of_skipped htype] at hcall
          simpa only [setup_cons_of_skipped htype, List.forall_mem_cons, htype, true_and] using
            ih hcall
      | true =>
          obtain ⟨s₂, ⟨hmap, hnext⟩ | ⟨-, -, hfail⟩⟩ := (setup_cons_of_mapped htype).mp hcall
          · have later₂ : Later Good InUse h.alloc s₂.1.alloc :=
              directlyMapPhysRange_later fresh hgood hmap
            rcases directlyMapPhysRange_empty fresh hgood hcr3 hroot hmap
              (hlow.first (setup_later fresh later₂.good hnext)) with
              ⟨-, hfail⟩ | ⟨s₁, later₁, space, hnone, hmap₁⟩
            · cases hfail
            · exact Or.inr ⟨s₁, later₁, space, hnone,
                (setup_cons_of_mapped htype).mpr ⟨s₂, Or.inl ⟨hmap₁, hnext⟩⟩⟩
          · cases hfail

theorem setup_empty (fresh : FreshFrames getPageRaw Good InUse) (hflags : LinkFlagsOk info)
    (hoff : info.targetOffset % 4096 = 0) {memMap : List MemmapEntry}
    (hentries : ∀ e ∈ memMap, isMappedType e.type = true → EntryOk info e) {h : Heap σ} {cr3 : ℕ}
    (hgood : Good h.alloc) (hcr3 : readPaddrFromCr3 cr3 = 0)
    (hempty : ∀ v, pageWalk h.mem cr3 v = none)
    (hroot : ∀ a paddr, getPageRaw h.alloc = some (a, some paddr) → paddr ≠ 0) {s' : Heap σ × ℕ}
    (hcall : rawSetupDirectMappingFromMemmap getPageRaw info memMap (h, cr3) = some (s', true))
    (hlow : FramesBelow InUse h.alloc s'.1.alloc) :
    (AddrSpace Good InUse s' ∨ s' = (h, cr3)) ∧ ∀ v, isPagingCanonical v = true →
      (pageWalk s'.1.mem s'.2 v = none ∧ ¬ Covered info memMap v) ∨
        Covered info memMap v ∧ pageWalk s'.1.mem s'.2 v =
          some (u64Sub v info.targetOffset, flagBits (info.psFlags ||| pgtablePresent)) := by
  rcases setup_root fresh hgood hcr3 hroot hcall hlow with
    ⟨rfl, hskipped⟩ | ⟨s₁, later₁, space, hnone, hcall₁⟩
  · refine ⟨Or.inr rfl, fun v _ => Or.inl ⟨hempty v, ?_⟩⟩
    rintro ⟨e, he, htype, -⟩
    rw [hskipped e he] at htype
    cases htype
  · obtain ⟨space', hwalk⟩ := setup_spec fresh hflags hoff hentries space hcall₁
      (hlow.rest later₁)
    refine ⟨Or.inl space', fun v hv => ?_⟩
    rcases hwalk v hv with ⟨hsame, hcov⟩ | ⟨hcov, -, hnew⟩
    · refine Or.inl ⟨hsame.trans (hnone v), fun hc => ?_⟩
      have hsome := hcov hc
      rw [hnone v] at hsome
      cases hsome
    · exact Or.inr ⟨hcov, hnew⟩

/-! ### Later calls -/

/-- Calls of `directly_map_phys_range` with their arguments, successful or not. -/
def mapCalls (getPageRaw : σ → Option (σ × Option ℕ)) :
    List (MappingInfo × ℕ × ℕ) → Heap σ × ℕ → Option (Heap σ × ℕ)
  | [], s => some s
  | (info, start, stop) :: calls, s => do
      let (s', _) ← directlyMapPhysRange getPageRaw info s start stop
      mapCalls getPageRaw calls s'

theorem mapCalls_later (fresh : FreshFrames getPageRaw Good InUse)
    {calls : List (MappingInfo × ℕ × ℕ)} {s s' : Heap σ × ℕ} (hgood : Good s.1.alloc)
    (hrun : mapCalls getPageRaw calls s = some s') : Later Good InUse s.1.alloc s'.1.alloc := by
  induction calls generalizing s with
  | nil =>
      cases hrun
      exact Later.refl hgood
  | cons call calls ih =>
      obtain ⟨⟨s₁, ok₁⟩, hcall, hrest⟩ := Option.bind_eq_some_iff.mp hrun
      have later₁ := directlyMapPhysRange_later fresh hgood hcall
      exact later₁.trans (ih later₁.good hrest)

theorem directlyMapPhysRange_kept (fresh : FreshFrames getPageRaw Good InUse)
    (hflags : LinkFlagsOk info) {s s' : Heap σ × ℕ} {start stop : ℕ} {ok : Bool}
    (space : AddrSpace Good InUse s)
    (hcall : directlyMapPhysRange getPageRaw info s start stop = some (s', ok))
    (hlow : FramesBelow InUse s.1.alloc s'.1.alloc) :
    AddrSpace Good InUse s' ∧ ∀ v r, pageWalk s.1.mem s.2 v = some r →
      pageWalk s'.1.mem s'.2 v = some r := by
  obtain ⟨hcr3, space', hf⟩ := directlyMapPhysRange_spec fresh hflags space hcall hlow
  refine ⟨space', fun v r hwalk => ?_⟩
  split_ifs at hf with hle
  · rw [hcr3]
    exact pageWalk_kept hf.1 hwalk
  · rwa [hf]

/-- Calls change no translation; before the first one that gets memory there is none. -/
theorem mapCalls_kept (fresh : FreshFrames getPageRaw Good InUse) {h : Heap σ} {cr3 : ℕ}
    (hgood : Good h.alloc) (hcr3 : readPaddrFromCr3 cr3 = 0)
    (hempty : ∀ v, pageWalk h.mem cr3 v = none)
    (hroot : ∀ a paddr, getPageRaw h.alloc = some (a, some paddr) → paddr ≠ 0)
    {calls : List (MappingInfo × ℕ × ℕ)} (hflags : ∀ c ∈ calls, LinkFlagsOk c.1)
    {s s' : Heap σ × ℕ} (hs : AddrSpace Good InUse s ∨ s = (h, cr3))
    (hrun : mapCalls getPageRaw calls s = some s')
    (hlow : FramesBelow InUse s.1.alloc s'.1.alloc) :
    (AddrSpace Good InUse s' ∨ s' = (h, cr3)) ∧
      ∀ v r, pageWalk s.1.mem s.2 v = some r → pageWalk s'.1.mem s'.2 v = some r := by
  induction calls generalizing s with
  | nil =>
      cases hrun
      exact ⟨hs, fun _ _ hwalk => hwalk⟩
  | cons call calls ih =>
      obtain ⟨info, start, stop⟩ := call
      obtain ⟨hflag, hflags⟩ := List.forall_mem_cons.mp hflags
      obtain ⟨⟨s₁, ok₁⟩, hcall, hrest⟩ := Option.bind_eq_some_iff.mp hrun
      have hgood₀ : Good s.1.alloc := hs.elim (fun space => space.rep.good) fun heq => heq ▸ hgood
      have later₁ := directlyMapPhysRange_later fresh hgood₀ hcall
      have hlow₁ := hlow.first (mapCalls_later fresh later₁.good hrest)
      have hone : (AddrSpace Good InUse s₁ ∨ s₁ = (h, cr3)) ∧
          ∀ v r, pageWalk s.1.mem s.2 v = some r → pageWalk s₁.1.mem s₁.2 v = some r := by
        rcases hs with space | rfl
        · obtain ⟨space₁, hkept⟩ := directlyMapPhysRange_kept fresh hflag space hcall hlow₁
          exact ⟨Or.inl space₁, hkept⟩
        · refine ⟨?_, fun v r hwalk => ?_⟩
          · rcases directlyMapPhysRange_empty fresh hgood hcr3 hroot hcall hlow₁ with
              ⟨hsame, -⟩ | ⟨s₂, later₂, space, -, hcall₂⟩
            · exact Or.inr hsame
            · exact Or.inl
                (directlyMapPhysRange_kept fresh hflag space hcall₂ (hlow₁.rest later₂)).1
          · rw [hempty v] at hwalk
            cases hwalk
      obtain ⟨hs', hkept⟩ := ih hflags hone.1 hrest (hlow.rest later₁)
      exact ⟨hs', fun v r hwalk => hkept v r (hone.2 v r hwalk)⟩

/-- **The direct mapping is exact**, if all tables lie below 1 TiB and the root table is not put in
frame `0`.  After a successful setup of an empty address space a canonical address is translated iff
it belongs to a page that a mapped entry touches, and then to itself minus the offset, with the
present bit and the flags; calls of `directly_map_phys_range` change no translation, not even one that
a later call has made. -/
theorem direct_mapping_exact (fresh : FreshFrames getPageRaw Good InUse) (hflags : LinkFlagsOk info)
    (hoff : info.targetOffset % 4096 = 0) {memMap : List MemmapEntry}
    (hentries : ∀ e ∈ memMap, isMappedType e.type = true → EntryOk info e) {h : Heap σ} {cr3 : ℕ}
    (hgood : Good h.alloc) (hcr3 : readPaddrFromCr3 cr3 = 0)
    (hempty : ∀ v, pageWalk h.mem cr3 v = none)
    (hroot : ∀ a paddr, getPageRaw h.alloc = some (a, some paddr) → paddr ≠ 0) {s : Heap σ × ℕ}
    (hcall : rawSetupDirectMappingFromMemmap getPageRaw info memMap (h, cr3) = some (s, true))
    (hlow : FramesBelow InUse h.alloc s.1.alloc) :
    (∀ v, isPagingCanonical v = true →
      ((pageWalk s.1.mem s.2 v).isSome ↔ Covered info memMap v) ∧
      ∀ r, pageWalk s.1.mem s.2 v = some r →
        r = (u64Sub v info.targetOffset, flagBits (info.psFlags ||| pgtablePresent))) ∧
    ∀ before calls s₁ s₂, (∀ c ∈ before ++ calls, LinkFlagsOk c.1) →
      mapCalls getPageRaw before s = some s₁ → mapCalls getPageRaw calls s₁ = some s₂ →
      FramesBelow InUse s.1.alloc s₂.1.alloc →
      ∀ v r, pageWalk s₁.1.mem s₁.2 v = some r → pageWalk s₂.1.mem s₂.2 v = some r := by
  obtain ⟨hs, hwalk⟩ := setup_empty fresh hflags hoff hentries hgood hcr3 hempty hroot hcall
    hlow
  refine ⟨fun v hv => ?_, ?_⟩
  · rcases hwalk v hv with ⟨hnone, hnot⟩ | ⟨hcov, hsome⟩
    · rw [hnone]
      exact ⟨by simpa using hnot, nofun⟩
    · rw [hsome]
      refine ⟨by simpa using hcov, fun r hr => ?_⟩
      exact (Option.some.inj hr).symm
  · intro before calls s₁ s₂ hcalls hbefore hlater hlow₂
    have later := setup_later fresh (s := (h, cr3)) hgood hcall
    have later₁ := mapCalls_later fresh later.good hbefore
    have hs₁ := (mapCalls_kept fresh hgood hcr3 hempty hroot
      (fun c hc => hcalls c (List.mem_append_left _ hc)) hs hbefore
      (hlow₂.first (mapCalls_later fresh later₁.good hlater))).1
    exact (mapCalls_kept fresh hgood hcr3 hempty hroot
      (fun c hc => hcalls c (List.mem_append_right _ hc)) hs₁ hlater (hlow₂.rest later₁)).2

/-! ### The page-frame allocator -/

/-- The frame is marked as used. -/
def FrameInUse (a : PfAlloc) (pfn : ℕ) : Prop := bitSet a.bitmap pfn = true

theorem pfAlloc_freshFrames {mm : List LimineMemmapEntry} {md : ℕ × ℕ} (hram : RamBelow mm 52) :
    FreshFrames PfAlloc.getPageRaw (GoodAlloc mm md) FrameInUse where
  returns := by
    rintro a ⟨live, inv⟩
    obtain ⟨a', addr, hcall, hnone, -⟩ := inv.getPagesImpl 1
    cases addr with
    | none =>
        obtain rfl := hnone rfl
        exact ⟨a', none, hcall, ⟨live, inv⟩, fun _ hp => hp, fun _ => rfl⟩
    | some paddr =>
        obtain ⟨p, -, -, hgood, -, hmono⟩ := getPagesRaw_spec ⟨live, inv⟩ hcall
        exact ⟨a', some paddr, hcall, hgood, fun q hq => hmono q hq, nofun⟩
  fresh := by
    intro a a' paddr hgood hcall
    obtain ⟨p, rfl, -, -, htaken, -⟩ := getPagesRaw_spec hgood hcall
    obtain ⟨hclear, hset⟩ := htaken p (le_refl p) (by omega)
    have hlt := hram p (usable_of_clear hgood hclear)
    have hp : p * 4096 / 4096 = p := by omega
    unfold FrameInUse
    rw [hp, hclear]
    exact ⟨by omega, hlt, by simp, hset⟩

theorem pageWalk_zero (cr3 v : ℕ) : pageWalk (fun _ => 0) cr3 v = none := by
  have hzero : pgFormat.present 0 = false := by decide
  unfold pageWalk
  rw [lookup, lookupFrom_succ]
  simp [entry, slot, table, hzero]

/-- Without memory above 1 TiB all frames come from below it. -/
theorem framesBelow_of_ram {mm : List LimineMemmapEntry} {md : ℕ × ℕ} (hram : RamBelow mm 40)
    {a a' : PfAlloc} (hgood : GoodAlloc mm md a) : FramesBelow FrameInUse a a' := by
  intro p hp _
  exact hram p (usable_of_clear hgood (Bool.eq_false_of_not_eq_true hp))

/-- The setup of `create_addr_space`. -/
def highHalf : MappingInfo := ⟨0xFFFF800000000000, 0xFFFF800000000000, 2, 2⟩

/-- The second page of memory. -/
def secondPage : MemmapEntry := ⟨0x1000, 0x1FFF, 0x1000, .usable⟩

theorem secondPage_ok : EntryOk highHalf secondPage := by
  constructor <;> decide

/-- The page of `secondPage` is mapped. -/
theorem direct_mapping_exact_second_page :
    ∃ s, rawSetupDirectMappingFromMemmap PfAlloc.getPageRaw highHalf [secondPage]
        (sixteenFramesInit, 0) = some (s, true) ∧
      pageWalk s.1.mem s.2 0xFFFF800000001234 = some (0x1234, 3) := by
  have hrun : (rawSetupDirectMappingFromMemmap PfAlloc.getPageRaw highHalf [secondPage]
      (sixteenFramesInit, 0)).map Prod.snd = some true := rfl
  obtain ⟨⟨s, ok⟩, hcall, rfl⟩ := Option.map_eq_some_iff.mp hrun
  have hfirst : PfAlloc.getPageRaw sixteenFramesInit.alloc =
      some (⟨[0xC0#8, 0#8], 2, 0, 2, 14, 2⟩, some 4096) := rfl
  have hram : RamBelow sixteenFrames 52 := fun q hq =>
    (sixteenFrames_below q hq).trans (by norm_num)
  have hflags : LinkFlagsOk highHalf := rfl
  have hexact := (direct_mapping_exact (pfAlloc_freshFrames hram) hflags (by decide)
    (by simpa using fun _ => secondPage_ok) sixteenFrames_good rfl (fun v => pageWalk_zero 0 v)
    (fun a paddr h => by
      rw [hfirst, Option.some.injEq, Prod.mk.injEq, Option.some.injEq] at h
      omega) hcall (framesBelow_of_ram sixteenFrames_below sixteenFrames_good)).1
    0xFFFF800000001234 (by decide)
  have hcov : Covered highHalf [secondPage] 0xFFFF800000001234 :=
    ⟨secondPage, List.mem_singleton_self _, rfl, by decide, by decide⟩
  obtain ⟨r, hr⟩ := Option.isSome_iff_exists.mp (hexact.1.mpr hcov)
  refine ⟨s, hcall, ?_⟩
  rw [hr, hexact.2 r hr]
  decide

/-! ### A root table in frame `0` -/

/-- A map in which the metadata of the allocator does not take frame `0`. -/
def lowestFrameFree : List LimineMemmapEntry := [⟨65536, 65536, .usable⟩, ⟨0, 65536, .usable⟩]

/-- The machine after initialisation on `lowestFrameFree`, with empty memory. -/
def lowestFrameFreeInit : EptHeap := ⟨⟨[0#8, 0#8, 0x80#8, 0#8], 4, 0, 0, 31, 1⟩, fun _ => 0⟩

theorem lowestFrameFree_good :
    GoodAlloc lowestFrameFree
      (PfAlloc.metadataRange (initSystemMemoryInfo (getBootMemInfo lowestFrameFree)) lowestFrameFree)
      lowestFrameFreeInit.alloc := by
  have hmap : PfAlloc.MemmapOk lowestFrameFree := by
    constructor
    · simp [lowestFrameFree]
    · simp [lowestFrameFree]
    · simp [lowestFrameFree]
    · simp only [lowestFrameFree, List.pairwise_pair, Finset.disjoint_left, Finset.mem_Ico]
      omega
  exact ⟨[], PfAlloc.inv_run hmap (show PfAlloc.earlyInitPageFrameAllocator _ _ 0 =
    some (some lowestFrameFreeInit.alloc) from rfl) (Run.nil _)⟩

/-- A page in another part of memory. -/
def farPage : MemmapEntry := ⟨0x200000, 0x200FFF, 0x1000, .usable⟩

/-- **A root table in frame `0` is lost** with the second entry: the setup returns `0`, and the page of
the first entry is not translated. -/
theorem root_in_frame_zero_is_lost :
    FreshFrames PfAlloc.getPageRaw (GoodAlloc lowestFrameFree (PfAlloc.metadataRange
      (initSystemMemoryInfo (getBootMemInfo lowestFrameFree)) lowestFrameFree)) FrameInUse ∧
    GoodAlloc lowestFrameFree (PfAlloc.metadataRange
      (initSystemMemoryInfo (getBootMemInfo lowestFrameFree)) lowestFrameFree)
      lowestFrameFreeInit.alloc ∧
    (∀ v, pageWalk lowestFrameFreeInit.mem 0 v = none) ∧
    (∀ e ∈ [secondPage, farPage], EntryOk highHalf e) ∧
    Covered highHalf [secondPage, farPage] 0xFFFF800000001000 ∧
    isPagingCanonical 0xFFFF800000001000 = true ∧
    (rawSetupDirectMappingFromMemmap PfAlloc.getPageRaw highHalf [secondPage, farPage]
      (lowestFrameFreeInit, 0)).map (fun r => (r.2, pageWalk r.1.1.mem r.1.2 0xFFFF800000001000)) =
        some (true, none) := by
  have hram : RamBelow lowestFrameFree 52 := by
    rintro q ⟨e, he, -, -, h⟩
    simp only [lowestFrameFree, List.mem_cons, List.not_mem_nil, or_false] at he
    rcases he with rfl | rfl
    · exact h.trans (by norm_num)
    · exact h.trans (by norm_num)
  refine ⟨pfAlloc_freshFrames hram, lowestFrameFree_good, fun v => pageWalk_zero 0 v, ?_, ?_,
    by decide, rfl⟩
  · rw [List.forall_mem_cons]
    refine ⟨secondPage_ok, ?_⟩
    simp only [List.forall_mem_singleton]
    constructor <;> decide
  · exact ⟨secondPage, List.mem_cons_self .., rfl, by decide, by decide⟩

end HyveMind.DirectMapping
