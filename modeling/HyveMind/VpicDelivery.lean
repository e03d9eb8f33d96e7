import HyveMind.Lib.Run
import HyveMind.Vpic

/-! # Which interrupt the virtual interrupt controller delivers

The abstract side is the priority scheme of two cascaded chips: `Deliverable` says which
requested lines may interrupt what is in service, `fixedPriority` lists the lines from the most
to the least urgent one, and `firstDeliverable` is the line to be delivered.

`delivers_iff` says exactly in which reachable states `vpic_has_pending_irq` and
`vpic_get_pending_irq` deliver that line: not when the slave has a line ready while the master
has line `0` or `1` ready (nothing is delivered), and not when the slave has a line ready behind
a masked cascade input (the line is delivered nevertheless). -/

namespace HyveMind.Vpic

open Lib

/-! ### Bits of a register -/

theorem getLsbD_bit8 {n k : ℕ} (hn : n < 8) (hk : k < 8) :
    (bit8 n).getLsbD k = decide (k = n) := by
  have h : ∀ n k : Fin 8, (bit8 n).getLsbD k = decide ((k : ℕ) = n) := by decide
  exact h ⟨n, hn⟩ ⟨k, hk⟩

theorem isSet_bit8 (val : BitVec 8) {n : ℕ} (hn : n < 8) :
    isSet val (bit8 n) = val.getLsbD n := by
  have hand : ∀ k < 8, (val &&& bit8 n).getLsbD k = (decide (k = n) && val.getLsbD n) := by
    intro k hk
    rw [BitVec.getLsbD_and, getLsbD_bit8 hn hk]
    by_cases e : k = n
    · simp [e]
    · simp [e]
  unfold isSet
  cases hb : val.getLsbD n with
  | true =>
      rw [bne_iff_ne]
      intro h
      have := hand n hn
      rw [h] at this
      simp [hb] at this
  | false =>
      rw [bne_eq_false_iff_eq]
      apply BitVec.eq_of_getLsbD_eq
      intro k hk
      rw [hand k hk, hb]
      simp

/-- `p` is the lowest set bit of `val`, `8` if there is none. -/
structure LowestBit (val : BitVec 8) (p : ℕ) : Prop where
  le : p ≤ 8
  below : ∀ q < p, val.getLsbD q = false
  at_lt : p < 8 → val.getLsbD p = true

theorem LowestBit.lt_iff {val : BitVec 8} {p : ℕ} (h : LowestBit val p) {n : ℕ} (hn : n < 8) :
    n < p ↔ ∀ m < 8, val.getLsbD m = true → n < m := by
  constructor
  · intro hnp m hm hset
    by_contra hle
    rw [h.below m (by omega)] at hset
    simp at hset
  · intro hall
    by_contra hle
    have := hall p (by omega) (h.at_lt (by omega))
    omega

theorem priorityLoop_spec (val : BitVec 8) {fuel p : ℕ} (hfuel : 9 ≤ p + fuel) (hp : p ≤ 8)
    (hbelow : ∀ q < p, val.getLsbD q = false) : LowestBit val (priorityLoop val p fuel) := by
  induction fuel generalizing p with
  | zero => omega
  | succ fuel ih =>
      unfold priorityLoop
      by_cases hlt : p < 8
      · rw [isSet_bit8 _ hlt]
        cases hb : val.getLsbD p with
        | true => simpa using ⟨hp, hbelow, fun _ => hb⟩
        | false =>
            simp only [hlt, Bool.not_false, decide_true, Bool.and_self, if_true]
            refine ih (by omega) (by omega) fun q hq => ?_
            rcases Nat.lt_succ_iff_lt_or_eq.mp hq with h | h
            · exact hbelow q h
            · rw [h]; exact hb
      · simpa [hlt] using ⟨hp, hbelow, fun h => absurd h hlt⟩

theorem vpicGetPriority_spec (val : BitVec 8) : LowestBit val (vpicGetPriority val) := by
  unfold vpicGetPriority
  by_cases h : val = 0
  · rw [if_pos h, h]
    exact ⟨le_refl _, fun q _ => by simp, fun h => by omega⟩
  · rw [if_neg h]
    exact priorityLoop_spec val (by omega) (by omega) fun q hq => by omega

/-! ### The priority scheme -/

/-- Line `n` of the chip is requested, not masked by the chip, and outranks everything in service
on it. -/
def Ready (c : VpicChip) (n : ℕ) : Prop :=
  c.irr.getLsbD n = true ∧ c.imr.getLsbD n = false ∧ ∀ m < 8, c.isr.getLsbD m = true → n < m

instance (c : VpicChip) (n : ℕ) : Decidable (Ready c n) :=
  inferInstanceAs (Decidable (_ ∧ _ ∧ ∀ m < 8, _ → n < m))

/-- An interrupt line: of the master or of the slave. -/
inductive Line
  | master (n : ℕ)
  | slave (n : ℕ)
deriving DecidableEq, Repr

/-- The line may be delivered.  A slave line passes through the cascade input, line `2` of the
master: it must not be masked there, and the cascade input must outrank what the master has in
service. -/
def Deliverable (v : Vpic) : Line → Prop
  | .master n => Ready v.vpic1 n
  | .slave n => Ready v.vpic2 n ∧ v.vpic1.imr.getLsbD 2 = false ∧
      ∀ m < 8, v.vpic1.isr.getLsbD m = true → 2 < m

instance (v : Vpic) : (l : Line) → Decidable (Deliverable v l)
  | .master n => inferInstanceAs (Decidable (Ready v.vpic1 n))
  | .slave n => inferInstanceAs (Decidable (Ready v.vpic2 n ∧ _ ∧ ∀ m < 8, _ → 2 < m))

/-- The lines from the most to the least urgent one. -/
def fixedPriority : List Line :=
  [.master 0, .master 1] ++ (List.range 8).map .slave ++ ([3, 4, 5, 6, 7] : List ℕ).map .master

/-- The line to be delivered. -/
def firstDeliverable (v : Vpic) : Option Line := fixedPriority.find? (Deliverable v ·)

/-- The vector of a line: its number above the offset of its chip. -/
def lineVector (v : Vpic) : Line → ℤ
  | .master n => n + v.vpic1.offset.toNat
  | .slave n => n + v.vpic2.offset.toNat

/-- The state after the line has been acknowledged. -/
def acknowledge (v : Vpic) : Line → Vpic
  | .master n => { v with vpic1 := vpicAck v.vpic1 n }
  | .slave n => ⟨vpicAck v.vpic1 2, vpicAck v.vpic2 n⟩

/-- In the state `v` the first deliverable line is delivered and acknowledged; if there is none,
nothing is. -/
def DeliversHighest (v : Vpic) : Prop :=
  match firstDeliverable v with
  | some l => vpicHasPendingIrq v = true ∧ vpicGetPendingIrq v = (acknowledge v l, lineVector v l)
  | none => vpicHasPendingIrq v = false ∧ vpicGetPendingIrq v = (v, -1)

/-- The place of a line in `fixedPriority`. -/
def Line.rank : Line → ℕ
  | .master n => if n < 2 then n else n + 8
  | .slave n => 2 + n

theorem mem_fixedPriority {l : Line} :
    l ∈ fixedPriority ↔ match l with
      | .master n => n < 8 ∧ n ≠ 2
      | .slave n => n < 8 := by
  cases l with
  | master n => simp [fixedPriority]; omega
  | slave n => simp [fixedPriority]

theorem fixedPriority_sorted : fixedPriority.Pairwise (fun l l' => l.rank < l'.rank) := by decide

theorem firstDeliverable_eq_some {v : Vpic} {l : Line} (hl : l ∈ fixedPriority)
    (hd : Deliverable v l) (hbefore : ∀ l' ∈ fixedPriority, l'.rank < l.rank → ¬ Deliverable v l') :
    firstDeliverable v = some l := by
  obtain ⟨xs, ys, hsplit⟩ := List.append_of_mem hl
  have hsorted := fixedPriority_sorted
  rw [hsplit, List.pairwise_append] at hsorted
  unfold firstDeliverable
  rw [List.find?_eq_some_iff_append]
  refine ⟨by simpa using hd, xs, ys, hsplit, fun l' hl' => ?_⟩
  have hrank := hsorted.2.2 l' hl' l (List.mem_cons_self ..)
  simpa using hbefore l' (by rw [hsplit]; exact List.mem_append_left _ hl') hrank

theorem firstDeliverable_eq_none {v : Vpic} (h : ∀ l ∈ fixedPriority, ¬ Deliverable v l) :
    firstDeliverable v = none := by
  unfold firstDeliverable
  rw [List.find?_eq_none]
  exact fun l hl => by simpa using h l hl

/-! ### What the code finds on one chip -/

/-- `__vpic_get_pending_irq` finds the most urgent line that is ready on the chip. -/
theorem getPendingIrqImpl_spec (c : VpicChip) :
    (getPendingIrqImpl c = -1 ∧ ∀ n < 8, ¬ Ready c n) ∨
      ∃ n : ℕ, n < 8 ∧ getPendingIrqImpl c = n ∧ Ready c n ∧ ∀ m < n, ¬ Ready c m := by
  have hreq := vpicGetPriority_spec (c.irr &&& ~~~c.imr)
  have hisr := vpicGetPriority_spec c.isr
  unfold getPendingIrqImpl
  set p := vpicGetPriority (c.irr &&& ~~~c.imr)
  set q := vpicGetPriority c.isr
  have hbit : ∀ n < 8, (c.irr &&& ~~~c.imr).getLsbD n = true ↔
      c.irr.getLsbD n = true ∧ c.imr.getLsbD n = false := by
    intro n hn
    simp [hn]
  have hready : ∀ n < 8, Ready c n → p ≤ n ∧ n < q := by
    rintro n hn ⟨h1, h2, h3⟩
    refine ⟨?_, (hisr.lt_iff hn).mpr h3⟩
    by_contra hlt
    have := (hbit n hn).mpr ⟨h1, h2⟩
    rw [hreq.below n (by omega)] at this
    simp at this
  by_cases hp : p = 8
  · refine Or.inl ⟨by simp [hp], fun n hn hr => ?_⟩
    have := hready n hn hr
    omega
  · have hp8 : p < 8 := by have := hreq.le; omega
    by_cases hpq : p < q
    · obtain ⟨h1, h2⟩ := (hbit p hp8).mp (hreq.at_lt hp8)
      refine Or.inr ⟨p, hp8, by simp [hp, hpq], ⟨h1, h2, (hisr.lt_iff hp8).mp hpq⟩,
        fun m hm hr => ?_⟩
      have := hready m (by omega) hr
      omega
    · refine Or.inl ⟨by simp [hp, hpq], fun n hn hr => ?_⟩
      have := hready n hn hr
      omega

/-! ### Which line is first -/

section First

variable {v : Vpic} {n k : ℕ}

/-- A ready master line is first if no slave line is deliverable before it. -/
theorem firstDeliverable_master (hn : n < 8) (h2 : n ≠ 2) (hr : Ready v.vpic1 n)
    (hfirst : ∀ m < n, ¬ Ready v.vpic1 m) (hslave : n < 2 ∨ ∀ k < 8, ¬ Deliverable v (.slave k)) :
    firstDeliverable v = some (.master n) := by
  refine firstDeliverable_eq_some (mem_fixedPriority.mpr ⟨hn, h2⟩) hr fun l' hl' hrank => ?_
  have hmem := mem_fixedPriority.mp hl'
  cases l' with
  | master m =>
      refine hfirst m ?_
      simp only [Line.rank] at hrank
      split at hrank <;> split at hrank <;> omega
  | slave k =>
      rcases hslave with h | h
      · simp only [Line.rank, if_pos h] at hrank
        omega
      · exact h k hmem

/-- A deliverable slave line is first if the master's lines `0` and `1` are not ready. -/
theorem firstDeliverable_slave (hk : k < 8) (hd : Deliverable v (.slave k))
    (hfirst : ∀ m < k, ¬ Ready v.vpic2 m) (h0 : ¬ Ready v.vpic1 0) (h1 : ¬ Ready v.vpic1 1) :
    firstDeliverable v = some (.slave k) := by
  refine firstDeliverable_eq_some (mem_fixedPriority.mpr hk) hd fun l' hl' hrank => ?_
  cases l' with
  | master m =>
      have hm : m < 2 := by
        simp only [Line.rank] at hrank
        split at hrank <;> omega
      intro h
      interval_cases m
      · exact h0 h
      · exact h1 h
  | slave m =>
      simp only [Line.rank] at hrank
      exact fun h => hfirst m (by omega) h.1

theorem firstDeliverable_none (hm : ∀ n < 8, ¬ Ready v.vpic1 n)
    (hs : ∀ k < 8, ¬ Deliverable v (.slave k)) : firstDeliverable v = none := by
  refine firstDeliverable_eq_none fun l hl => ?_
  have hmem := mem_fixedPriority.mp hl
  cases l with
  | master n => exact hm n hmem.1
  | slave k => exact hs k hmem

end First

/-! ### Delivery in one state -/

/-- The states in which the code delivers what it should: the slave has no ready line, or the
master has neither line `0` nor line `1` ready and its cascade input is unmasked or blocked by
what is in service. -/
def CascadeUncontended (v : Vpic) : Prop :=
  (∀ k < 8, ¬ Ready v.vpic2 k) ∨
    (¬ Ready v.vpic1 0 ∧ ¬ Ready v.vpic1 1 ∧
      (v.vpic1.imr.getLsbD 2 = false ∨ ∃ m ≤ 2, v.vpic1.isr.getLsbD m = true))

instance (v : Vpic) : Decidable (CascadeUncontended v) :=
  inferInstanceAs (Decidable ((∀ k < 8, _) ∨ _ ∧ _ ∧ (_ ∨ ∃ m ≤ 2, _)))

section State

variable {v : Vpic}

/-- Line `2` of the master is not requested, so it is never ready. -/
theorem not_ready_two (h2 : v.vpic1.irr.getLsbD 2 = false) : ¬ Ready v.vpic1 2 := by
  rintro ⟨h, -⟩
  rw [h2] at h
  simp at h

theorem two_lt_priority_iff (isr : BitVec 8) :
    2 < vpicGetPriority isr ↔ ∀ m < 8, isr.getLsbD m = true → 2 < m :=
  (vpicGetPriority_spec isr).lt_iff (by norm_num)

/-- Without a ready slave line the most urgent master line is delivered. -/
theorem deliversHighest_of_no_slave (h2 : v.vpic1.irr.getLsbD 2 = false)
    (hslave : ∀ k < 8, ¬ Ready v.vpic2 k) : DeliversHighest v := by
  have hirq2 : getPendingIrqImpl v.vpic2 = -1 := by
    rcases getPendingIrqImpl_spec v.vpic2 with ⟨h, -⟩ | ⟨k, hk, -, hr, -⟩
    · exact h
    · exact absurd hr (hslave k hk)
  have hs : ∀ k < 8, ¬ Deliverable v (.slave k) := fun k hk h => hslave k hk h.1
  unfold DeliversHighest
  rcases getPendingIrqImpl_spec v.vpic1 with ⟨hirq1, hm⟩ | ⟨n, hn, hirq1, hr, hfirst⟩
  · rw [firstDeliverable_none hm hs]
    simp [vpicHasPendingIrq, vpicGetPendingIrq, hirq1, hirq2]
  · have hn2 : n ≠ 2 := by
      rintro rfl
      exact not_ready_two h2 hr
    rw [firstDeliverable_master hn hn2 hr hfirst (Or.inr hs)]
    have hne : (n : ℤ) ≠ -1 := by omega
    simp [vpicHasPendingIrq, vpicGetPendingIrq, hirq1, hirq2, hne, acknowledge, lineVector]

theorem pending_of_slave {k : ℕ} (hirq2 : getPendingIrqImpl v.vpic2 = k) :
    let pass : Prop := (getPendingIrqImpl v.vpic1 = -1 ∨ getPendingIrqImpl v.vpic1 > 2) ∧
      2 < vpicGetPriority v.vpic1.isr
    (pass → vpicHasPendingIrq v = true ∧
      vpicGetPendingIrq v = (acknowledge v (.slave k), lineVector v (.slave k))) ∧
    (¬ pass → vpicHasPendingIrq v = false ∧ vpicGetPendingIrq v = (v, -1)) := by
  intro pass
  have hne : (k : ℤ) ≠ -1 := by omega
  refine ⟨fun h => ?_, fun h => ?_⟩
  all_goals
    simp only [vpicHasPendingIrq, vpicGetPendingIrq, hirq2, ne_eq, hne, not_false_eq_true, if_true]
  · rw [if_pos h]
    exact ⟨decide_eq_true h, by simp [acknowledge, lineVector]⟩
  · rw [if_neg h]
    exact ⟨decide_eq_false h, rfl⟩

/-- The master lets a slave line pass unless its line `0` or `1` is ready. -/
theorem master_passes_iff (h2 : v.vpic1.irr.getLsbD 2 = false) :
    (getPendingIrqImpl v.vpic1 = -1 ∨ getPendingIrqImpl v.vpic1 > 2) ↔
      ¬ Ready v.vpic1 0 ∧ ¬ Ready v.vpic1 1 := by
  rcases getPendingIrqImpl_spec v.vpic1 with ⟨hirq1, hm⟩ | ⟨n, hn, hirq1, hr, hfirst⟩
  · simp [hirq1, hm 0 (by norm_num), hm 1 (by norm_num)]
  · rw [hirq1]
    constructor
    · intro h
      exact ⟨hfirst 0 (by omega), hfirst 1 (by omega)⟩
    · rintro ⟨h0, h1⟩
      have hn0 : n ≠ 0 := by rintro rfl; exact h0 hr
      have hn1 : n ≠ 1 := by rintro rfl; exact h1 hr
      have hn2 : n ≠ 2 := by rintro rfl; exact not_ready_two h2 hr
      omega

/-- If the code hands out a slave line behind a masked cascade input, it does not deliver the
first deliverable line. -/
theorem not_deliversHighest_of_masked {k : ℕ} (hk : k < 8) (hr : Ready v.vpic2 k)
    (hmask : v.vpic1.imr.getLsbD 2 = true) (hhas : vpicHasPendingIrq v = true)
    (hget : vpicGetPendingIrq v = (acknowledge v (.slave k), lineVector v (.slave k))) :
    ¬ DeliversHighest v := by
  unfold DeliversHighest
  cases hfirst : firstDeliverable v with
  | none =>
      rw [hhas]
      simp
  | some l =>
      rintro ⟨-, h⟩
      rw [hget, Prod.mk.injEq] at h
      cases l with
      | slave m =>
          have hd : Deliverable v (.slave m) := by
            simpa using List.find?_some hfirst
          rw [hd.2.1] at hmask
          simp at hmask
      | master m =>
          have hirr : (vpicAck v.vpic2 k).irr = v.vpic2.irr := congrArg (fun w => w.vpic2.irr) h.1
          have hbit := congrArg (fun w => w.getLsbD k) hirr
          simp [vpicAck, getLsbD_bit8 hk hk, hr.1] at hbit

/-- Delivery in a state whose cascade line is not requested. -/
theorem deliversHighest_iff_of_cascade (h2 : v.vpic1.irr.getLsbD 2 = false) :
    DeliversHighest v ↔ CascadeUncontended v := by
  rcases getPendingIrqImpl_spec v.vpic2 with ⟨-, hslave⟩ | ⟨k, hk, hirq2, hr, hfirst⟩
  · exact ⟨fun _ => Or.inl hslave, fun _ => deliversHighest_of_no_slave h2 hslave⟩
  obtain ⟨hpass, hblock⟩ := pending_of_slave hirq2
  rw [master_passes_iff h2, two_lt_priority_iff] at hpass hblock
  have hnot : ¬ ∀ k < 8, ¬ Ready v.vpic2 k := fun h => h k hk hr
  unfold CascadeUncontended
  simp only [hnot, false_or]
  by_cases hm : ¬ Ready v.vpic1 0 ∧ ¬ Ready v.vpic1 1
  · obtain ⟨h0, h1⟩ := hm
    by_cases hisr : ∀ m < 8, v.vpic1.isr.getLsbD m = true → 2 < m
    · obtain ⟨hhas, hget⟩ := hpass ⟨⟨h0, h1⟩, hisr⟩
      have hno : ¬ ∃ m ≤ 2, v.vpic1.isr.getLsbD m = true := by
        rintro ⟨m, hm2, hset⟩
        have := hisr m (by omega) hset
        omega
      cases hmask : v.vpic1.imr.getLsbD 2 with
      | true => simp [not_deliversHighest_of_masked hk hr hmask hhas hget, hno]
      | false =>
          have hd := firstDeliverable_slave hk ⟨hr, hmask, hisr⟩ hfirst h0 h1
          simp [DeliversHighest, hd, hhas, hget, h0, h1]
    · obtain ⟨hhas, hget⟩ := hblock fun h => hisr h.2
      have hex : ∃ m ≤ 2, v.vpic1.isr.getLsbD m = true := by
        push Not at hisr
        obtain ⟨m, -, hset, hle⟩ := hisr
        exact ⟨m, hle, hset⟩
      have hnone : firstDeliverable v = none := by
        refine firstDeliverable_none (fun n hn hready => ?_) fun _ _ h => hisr h.2.2
        obtain ⟨m, hm2, hset⟩ := hex
        have hlt := hready.2.2 m (by omega) hset
        interval_cases n
        · exact h0 hready
        · exact h1 hready
        all_goals omega
      simp only [DeliversHighest, hnone, hhas, hget, h0, h1, hex]
      simp
  · obtain ⟨hhas, hget⟩ := hblock fun h => hm h.1
    have hurgent : ∃ n < 2, Ready v.vpic1 n ∧ ∀ m < n, ¬ Ready v.vpic1 m := by
      by_cases h0 : Ready v.vpic1 0
      · exact ⟨0, by norm_num, h0, fun m hm => by omega⟩
      · refine ⟨1, by norm_num, not_not.mp fun h1 => hm ⟨h0, h1⟩, fun m hm => ?_⟩
        rwa [Nat.lt_one_iff.mp hm]
    obtain ⟨n, hn, hready, hfirst1⟩ := hurgent
    have hd := firstDeliverable_master (by omega) (by omega) hready hfirst1 (Or.inl hn)
    refine ⟨fun h => ?_, fun h => absurd ⟨h.1, h.2.1⟩ hm⟩
    simp [DeliversHighest, hd, hhas] at h

end State

/-! ### Runs -/

/-- The operations of the two-chip controller.  `write true` goes to the slave. -/
inductive Op
  | write (slave : Bool) (port : BitVec 16) (val : BitVec 8)
  | raise (irq : ℕ)
  | getPending
deriving DecidableEq, Repr

/-- The chip `b`, `true` for the slave. -/
def chip (v : Vpic) : Bool → VpicChip
  | false => v.vpic1
  | true => v.vpic2

/-- One operation; `none` if it dies. -/
def call (v : Vpic) : Op → Option Vpic
  | .write false port val => (vpicWrite v.vpic1 port val).map fun c => { v with vpic1 := c }
  | .write true port val => (vpicWrite v.vpic2 port val).map fun c => { v with vpic2 := c }
  | .raise irq => some (vpicRaiseExternalIrq v irq).1
  | .getPending => some (vpicGetPendingIrq v).1

theorem call_write {v v' : Vpic} {slave : Bool} {port : BitVec 16} {val : BitVec 8}
    (h : v.call (.write slave port val) = some v') (b : Bool) :
    if slave = b then vpicWrite (v.chip b) port val = some (v'.chip b) else v'.chip b = v.chip b := by
  cases slave <;> cases b <;> obtain ⟨c, hw, rfl⟩ := Option.map_eq_some_iff.mp h
  · exact hw
  · rfl
  · rfl
  · exact hw

/-- An operation that does not raise the cascade line from outside. -/
def Step (v : Vpic) (op : Op) (v' : Vpic) : Prop := op ≠ .raise 2 ∧ v.call op = some v'

/-- The words of the initialisation sequence keep the request and in-service registers. -/
theorem handleInitStep_frame {c c' : VpicChip} {val : BitVec 8}
    (h : handleInitStep c val = some c') :
    c'.irr = c.irr ∧ c'.isr = c.isr ∧ c'.hasParent = c.hasParent := by
  unfold handleInitStep at h
  simp only [Option.bind_eq_bind, Option.bind_eq_some_iff, Option.pure_def, Option.some.injEq] at h
  obtain ⟨c₁, hword, _, -, rfl⟩ := h
  unfold handleInitWord at hword
  split at hword
  all_goals first
    | (obtain rfl := Option.some.inj hword; exact ⟨rfl, rfl, rfl⟩)
    | (split_ifs at hword; obtain rfl := Option.some.inj hword; exact ⟨rfl, rfl, rfl⟩)
    | cases hword

/-- Guest writes keep the request register and the place of the chip. -/
theorem vpicWrite_frame {c c' : VpicChip} {port : BitVec 16} {val : BitVec 8}
    (h : vpicWrite c port val = some c') : c'.irr = c.irr ∧ c'.hasParent = c.hasParent := by
  unfold vpicWrite startInitSequence handleOcw2Write handleOcw3Write at h
  dsimp only at h
  split_ifs at h
  all_goals first
    | exact ⟨(handleInitStep_frame h).1, (handleInitStep_frame h).2.2⟩
    | (obtain rfl := Option.some.inj h; exact ⟨rfl, rfl⟩)

theorem vpicRaiseExternalIrq_irr (v : Vpic) {irq : ℕ} (hirq : irq ≠ 2)
    (h2 : v.vpic1.irr.getLsbD 2 = false) :
    (vpicRaiseExternalIrq v irq).1.vpic1.irr.getLsbD 2 = false := by
  unfold vpicRaiseExternalIrq raiseExtIrqImpl
  split_ifs with h16 h8
  all_goals try exact h2
  rw [BitVec.getLsbD_or, h2, getLsbD_bit8 (by omega) (by norm_num)]
  simpa using fun h : 2 = irq => hirq h.symm

theorem vpicAck_irr (c : VpicChip) {irq : ℕ} (h2 : c.irr.getLsbD 2 = false) :
    (vpicAck c irq).irr.getLsbD 2 = false := by
  rw [vpicAck, BitVec.getLsbD_and, h2, Bool.false_and]

theorem vpicGetPendingIrq_irr (v : Vpic) (h2 : v.vpic1.irr.getLsbD 2 = false) :
    (vpicGetPendingIrq v).1.vpic1.irr.getLsbD 2 = false := by
  unfold vpicGetPendingIrq
  dsimp only
  split_ifs
  all_goals first
    | exact h2
    | exact vpicAck_irr _ h2

theorem cascade_step {v v' : Vpic} {op : Op} (h2 : v.vpic1.irr.getLsbD 2 = false)
    (h : Step v op v') : v'.vpic1.irr.getLsbD 2 = false := by
  obtain ⟨hop, hcall⟩ := h
  cases op with
  | write slave port val =>
      cases slave with
      | false =>
          obtain ⟨c, hw, rfl⟩ := Option.map_eq_some_iff.mp hcall
          rw [(vpicWrite_frame hw).1]
          exact h2
      | true =>
          obtain ⟨c, -, rfl⟩ := Option.map_eq_some_iff.mp hcall
          exact h2
  | raise irq =>
      obtain rfl := Option.some.inj hcall
      exact vpicRaiseExternalIrq_irr v (fun h => hop (by rw [h])) h2
  | getPending =>
      obtain rfl := Option.some.inj hcall
      exact vpicGetPendingIrq_irr v h2

/-- **When the vPIC delivers the most urgent deliverable interrupt.**  In every state reached from
`allocate_vpic` by guest writes, raises and acknowledgements, the first deliverable line is
delivered iff the cascade is uncontended. -/
theorem deliversHighest_iff {ops : List Op} {v : Vpic} (hrun : Run Step allocateVpic ops v) :
    DeliversHighest v ↔ CascadeUncontended v := by
  have h2 : v.vpic1.irr.getLsbD 2 = false :=
    Run.invariant (I := fun v => v.vpic1.irr.getLsbD 2 = false)
      (fun _ _ _ h hs => cascade_step h hs) hrun (by decide)
  exact deliversHighest_iff_of_cascade h2

/-- Both chips initialised as a guest does it: vectors from `32` and `40`, slave on line `2`. -/
def initOps : List Op :=
  [.write false 0x20 0x11, .write false 0x21 0x20, .write false 0x21 0x04, .write false 0x21 0x01,
   .write true 0xA0 0x11, .write true 0xA1 0x28, .write true 0xA1 0x02, .write true 0xA1 0x01]

/-- The state after `initOps` with the given request registers. -/
def initialised (irr1 irr2 : BitVec 8) : Vpic where
  vpic1 := ⟨.initialized, 0, irr1, 0, 0x20, .readIrr, 0x04, false⟩
  vpic2 := ⟨.initialized, 0, irr2, 0, 0x28, .readIrr, 0x02, true⟩

/-- With a single request, on line `1` of the slave, vector `41` is delivered. -/
theorem deliversHighest_iff_slave_line :
    Run Step allocateVpic (initOps ++ [.raise 9]) (initialised 0 2) ∧
      DeliversHighest (initialised 0 2) := by
  have hrun : Run Step allocateVpic (initOps ++ [.raise 9]) (initialised 0 2) := by
    refine Run.of_foldlM Vpic.call (fun s op s' hop h => ⟨?_, h⟩) rfl
    rintro rfl
    exact absurd hop (by decide)
  exact ⟨hrun, (deliversHighest_iff hrun).mpr (by decide)⟩

/-- The timer on line `0` of the master and a request on line `0` of the slave: the timer is
deliverable, but neither interrupt is delivered. -/
theorem timer_blocked_by_slave :
    Run Step allocateVpic (initOps ++ [.raise 0, .raise 8]) (initialised 1 1) ∧
      firstDeliverable (initialised 1 1) = some (.master 0) ∧
      vpicHasPendingIrq (initialised 1 1) = false ∧
      vpicGetPendingIrq (initialised 1 1) = (initialised 1 1, -1) ∧
      ¬ DeliversHighest (initialised 1 1) := by
  refine ⟨?_, by decide, by decide, by decide, ?_⟩
  · refine Run.of_foldlM Vpic.call (fun s op s' hop h => ⟨?_, h⟩) rfl
    rintro rfl
    exact absurd hop (by decide)
  · rw [deliversHighest_iff_of_cascade (by decide)]
    decide

end HyveMind.Vpic
