import HyveMind.PfAllocRun

/-! # The search and the hint of `__get_pages`

`search_complete` is about the search loop alone: the bytes that it reads (`searchReads`, one for each
round), the rounds that it takes and what it finds, for any bitmap and any hint inside it.

`storeHint` is meant to store the position right behind the allocation.  The bit of the hint always is,
but the byte is one or two too far when the number of frames is a multiple of eight, and one short when
the frames beyond such a multiple go over the end of a byte (`hint_follows_iff`). -/

namespace HyveMind.PfAlloc

open Lib

variable {a a' : PfAlloc} {nr w run : ℕ} {s : Scan}

/-! ### The search -/

/-- The positions of the bytes that the search loop reads, one for each round. -/
def searchReads (a : PfAlloc) (nr : ℕ) : ℕ → Scan → List ℕ
  | 0, _ => []
  | fuel + 1, s =>
      if SearchTest a s then
        s.bytePos ::
          match searchBody a nr s with
          | some (.inr s') => searchReads a nr fuel s'
          | _ => []
      else []

theorem searchReads_spec (h : a.HintOk) (fuel : ℕ) (s : Scan) (w run : ℕ) (inv : ScanInv a nr w run s) :
    (∀ i ∈ searchReads a nr fuel s, i < a.bitmapSize) ∧
      (searchReads a nr fuel s).length + s.exploredBits ≤
        max s.exploredBits (2 * (8 * a.bitmapSize)) := by
  induction fuel generalizing s w run with
  | zero =>
      refine ⟨fun i hi => absurd hi List.not_mem_nil, ?_⟩
      rw [searchReads, List.length_nil, Nat.zero_add]
      exact Nat.le_max_left ..
  | succ fuel ih =>
      rw [searchReads]
      by_cases hc : SearchTest a s
      · have hexp := inv.explored_lt h hc
        rw [if_pos hc]
        rcases scanInv_round h inv hc with ⟨start, hbody, -⟩ | ⟨s', w', run', hbody, inv', hnext⟩
        · rw [hbody]
          refine ⟨fun i hi => ?_, ?_⟩
          · rw [List.mem_singleton] at hi
            exact hi ▸ inv.byte_lt
          · rw [List.length_singleton]
            omega
        · obtain ⟨hreads, hlen⟩ := ih s' w' run' inv'
          rw [hbody]
          refine ⟨fun i hi => ?_, ?_⟩
          · rcases List.mem_cons.mp hi with rfl | hi
            · exact inv.byte_lt
            · exact hreads i hi
          · rw [List.length_cons]
            dsimp only
            omega
      · rw [if_neg hc]
        refine ⟨fun i hi => absurd hi List.not_mem_nil, ?_⟩
        rw [List.length_nil, Nat.zero_add]
        exact Nat.le_max_left ..

/-- **The search is complete**: for every bitmap, every hint inside it and every `nr` it ends after at most
twice as many rounds as there are bits, reads bytes of the bitmap only, and finds an area exactly when `nr`
clear bits in a row are there. -/
theorem search_complete (hsize : a.bitmap.length = a.bitmapSize)
    (hbyte : a.lastAllocByteHint < a.bitmapSize) (hbit : a.lastAllocBitHint < 8) (hnr : 1 ≤ nr) :
    ∃ r, searchLoop a nr (2 * (8 * a.bitmapSize) + 1) (a.initScan nr) = some r ∧
      (searchReads a nr (2 * (8 * a.bitmapSize) + 1) (a.initScan nr)).length ≤
        2 * (8 * a.bitmapSize) ∧
      (∀ i ∈ searchReads a nr (2 * (8 * a.bitmapSize) + 1) (a.initScan nr), i < a.bitmapSize) ∧
      (r.isSome ↔ ∃ b, b + nr ≤ 8 * a.bitmapSize ∧ ∀ i < nr, bitSet a.bitmap (b + i) = false) ∧
      ∀ start, r = some start →
        start + nr ≤ 8 * a.bitmapSize ∧ ∀ i < nr, bitSet a.bitmap (start + i) = false := by
  have h : a.HintOk := ⟨hsize, hbyte, hbit⟩
  have inv := scanInv_init h hnr
  obtain ⟨r, hr, hfound, hnone⟩ := searchLoop_spec h (2 * (8 * a.bitmapSize) + 1) (a.initScan nr) 0 0 inv
    (Nat.le_add_right ..)
  obtain ⟨hreads, hlen⟩ := searchReads_spec h (2 * (8 * a.bitmapSize) + 1) (a.initScan nr) 0 0 inv
  have harea : ∀ start, r = some start →
      start + nr ≤ 8 * a.bitmapSize ∧ ∀ i < nr, bitSet a.bitmap (start + i) = false := by
    intro start hstart
    have hfree := (hfound start hstart).free
    exact ⟨hsize ▸ FreeRun.lt_bits hnr hfree, freeRun_iff_forall_lt.mp hfree⟩
  refine ⟨r, hr, ?_, hreads, ⟨fun hsome => ?_, ?_⟩, harea⟩
  · have hstart : (a.initScan nr).exploredBits = 0 := rfl
    omega
  · obtain ⟨start, hstart⟩ := Option.isSome_iff_exists.mp hsome
    exact ⟨start, harea start hstart⟩
  · rintro ⟨b, -, hfree⟩
    by_contra hne
    rw [Option.not_isSome_iff_eq_none] at hne
    exact hnone hne b (freeRun_iff_forall_lt.mpr hfree)

/-- Four clear bits around the hint, which points to the third of them. -/
def aroundHint : PfAlloc := ⟨[0b11000011#8], 1, 0, 4, 4, 0⟩

theorem search_complete_around_hint :
    searchLoop aroundHint 4 17 (aroundHint.initScan 4) = some (some 2) ∧
      ∃ r, searchLoop aroundHint 4 17 (aroundHint.initScan 4) = some r ∧
        (searchReads aroundHint 4 17 (aroundHint.initScan 4)).length ≤ 16 ∧
        (∀ i ∈ searchReads aroundHint 4 17 (aroundHint.initScan 4), i < 1) ∧
        (r.isSome ↔ ∃ b, b + 4 ≤ 8 ∧ ∀ i < 4, bitSet aroundHint.bitmap (b + i) = false) ∧
        ∀ start, r = some start →
          start + 4 ≤ 8 ∧ ∀ i < 4, bitSet aroundHint.bitmap (start + i) = false :=
  ⟨by decide, search_complete rfl (by decide) (by decide) (by decide)⟩

/-! ### The hint -/

/-- When the hint points right behind an allocation that starts at `start`: the frames beyond a multiple of
eight are there and stay within the byte of the first frame, or the bitmap is so small that the surplus
does not show. -/
def HintFits (size start nr : ℕ) : Prop :=
  (nr % 8 ≠ 0 ∧ start % 8 + nr % 8 ≤ 8) ∨ size = 1 ∨ (size = 2 ∧ nr % 8 = 0 ∧ start % 8 = 0)

instance (size start nr : ℕ) : Decidable (HintFits size start nr) :=
  inferInstanceAs (Decidable (_ ∨ _ ∨ _))

theorem add_mod_eq_iff (x k size : ℕ) : (x + k) % size = x % size ↔ size ∣ k := by
  have h := Nat.modEq_iff_dvd' (n := size) (Nat.le_add_right x k)
  rw [Nat.add_sub_cancel_left] at h
  rw [← h]
  exact eq_comm

theorem storeHint_follows_iff (a : PfAlloc) (start nr : ℕ) :
    (a.storeHint (start >>> 3) (start % 8) nr).hint = (start + nr) % (8 * a.bitmapSize) ↔
      HintFits a.bitmapSize start nr := by
  have hshift : start >>> 3 = start / 8 := Nat.shiftRight_eq_div_pow start 3
  have hbit : (start % 8 + nr % 8) % 8 = (start + nr) % 8 := (Nat.add_mod start nr 8).symm
  set x := start / 8 + nr / 8 with hx
  have h1 := add_mod_eq_iff x 1 a.bitmapSize
  have h2 := add_mod_eq_iff x 2 a.bitmapSize
  rw [Nat.dvd_one] at h1
  rw [Nat.dvd_prime Nat.prime_two] at h2
  simp only [hint, storeHint, hshift, hbit, Nat.mod_mul]
  unfold HintFits
  by_cases hr : nr % 8 = 0
  · have hq : (start + nr) / 8 = x := by omega
    rw [if_pos hr, hq]
    by_cases hb : start % 8 = 0
    · rw [if_pos (show (start + nr) % 8 = 0 by omega),
        show start / 8 + 1 + (nr / 8 + 1) = x + 2 by omega]
      omega
    · rw [if_neg (show ¬ (start + nr) % 8 = 0 by omega),
        show start / 8 + (nr / 8 + 1) = x + 1 by omega]
      omega
  · rw [if_neg hr]
    rcases Nat.lt_trichotomy (start % 8 + nr % 8) 8 with hlt | heq | hgt
    · rw [if_neg (show ¬ (start + nr) % 8 = 0 by omega), show (start + nr) / 8 = x by omega,
        show start / 8 + (nr / 8 + 0) = x by omega]
      omega
    · rw [if_pos (show (start + nr) % 8 = 0 by omega), show (start + nr) / 8 = x + 1 by omega,
        show start / 8 + 1 + (nr / 8 + 0) = x + 1 by omega]
      omega
    · rw [if_neg (show ¬ (start + nr) % 8 = 0 by omega), show (start + nr) / 8 = x + 1 by omega,
        show start / 8 + (nr / 8 + 0) = x by omega]
      omega

theorem FirstFit.unique (h : a.HintOk) (hnr : 0 < nr) {p q : ℕ} (hp : a.FirstFit nr p)
    (hq : a.FirstFit nr q) : p = q := by
  have hhint := h.lt
  have hplt := FreeRun.lt_bits hnr hp.free
  have hqlt := FreeRun.lt_bits hnr hq.free
  have hpq := hp.le q hq.free
  have hqp := hq.le p hp.free
  rw [h.length] at hplt hqlt
  unfold scanDistance at hpq hqp
  split_ifs at hpq hqp <;> omega

theorem getPagesImpl_found (h : a.HintOk) {addr : ℕ} (hcall : a.getPagesImpl nr = some (a', some addr)) :
    ∃ pfn, (∀ q, a.FirstFit nr q ↔ q = pfn) ∧ addr = pfnToPhys pfn ∧ ∃ a₁ : PfAlloc, a₁.bitmapSize = a.bitmapSize ∧
      a' = a₁.storeHint (pfn >>> 3) (pfn % 8) nr := by
  have hsize := getPagesImpl_bitmapSize hcall
  unfold PfAlloc.getPagesImpl at hcall
  split_ifs at hcall with hpre
  · cases hcall
  · rw [not_or] at hpre
    have hnr := Nat.pos_of_ne_zero hpre.1
    obtain ⟨r, hr, hfound, -⟩ := search_firstFit h hnr
    rw [hr] at hcall
    cases r with
    | none => cases hcall
    | some pfn =>
        have hpfn : (pfn >>> 3) <<< 3 + pfn % 8 = pfn := by
          rw [Nat.shiftRight_eq_div_pow, Nat.shiftLeft_eq]
          omega
        simp only [hpfn] at hcall
        obtain ⟨a₁, -, hret⟩ := Option.bind_eq_some_iff.mp hcall
        obtain ⟨rfl, haddr⟩ := Prod.mk.inj (Option.some.inj hret)
        refine ⟨pfn, fun q => ⟨fun hq => hq.unique h hnr (hfound pfn rfl), ?_⟩,
          (Option.some.inj haddr).symm, _, hsize, rfl⟩
        rintro rfl
        exact hfound q rfl

/-- **When the hint points right behind the allocation**, which is the first run of clear bits that the scan
comes to. -/
theorem hint_follows_iff (h : a.HintOk) {addr : ℕ}
    (hcall : a.getPagesImpl nr = some (a', some addr)) :
    ∃ pfn, (∀ q, a.FirstFit nr q ↔ q = pfn) ∧ addr = pfnToPhys pfn ∧
      (8 * a'.lastAllocByteHint + a'.lastAllocBitHint = (pfn + nr) % (8 * a.bitmapSize) ↔
        HintFits a.bitmapSize pfn nr) := by
  obtain ⟨pfn, hfit, haddr, a₁, hsize, rfl⟩ := getPagesImpl_found h hcall
  refine ⟨pfn, hfit, haddr, ?_⟩
  rw [← hsize]
  exact storeHint_follows_iff a₁ pfn nr

/-- Three bytes of clear bits. -/
def threeBytes : PfAlloc := ⟨[0#8, 0#8, 0#8], 3, 0, 0, 24, 0⟩

theorem hint_follows_three_frames :
    threeBytes.getPagesImpl 3 = some (⟨[224#8, 0#8, 0#8], 3, 0, 3, 21, 3⟩, some 0) ∧
      ∃ pfn, (∀ q, threeBytes.FirstFit 3 q ↔ q = pfn) ∧ 0 = pfnToPhys pfn ∧
        (8 * 0 + 3 = (pfn + 3) % (8 * 3) ↔ HintFits 3 pfn 3) := by
  have hhint : threeBytes.HintOk := ⟨rfl, by decide, by decide⟩
  have hcall : threeBytes.getPagesImpl 3 = some (⟨[224#8, 0#8, 0#8], 3, 0, 3, 21, 3⟩, some 0) := by
    decide
  exact ⟨hcall, hint_follows_iff hhint hcall⟩

/-- Behind the first eight frames of 24 the hint goes back to the beginning. -/
theorem hint_behind_eight_frames :
    ∃ a', threeBytes.HintOk ∧ threeBytes.getPagesImpl 8 = some (a', some (pfnToPhys 0)) ∧
      8 * a'.lastAllocByteHint + a'.lastAllocBitHint ≠ (0 + 8) % (8 * threeBytes.bitmapSize) :=
  ⟨⟨[255#8, 0#8, 0#8], 3, 0, 0, 16, 8⟩, ⟨rfl, by decide, by decide⟩, by decide, by decide⟩

end HyveMind.PfAlloc
