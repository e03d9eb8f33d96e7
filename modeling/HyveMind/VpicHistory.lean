import HyveMind.VpicDelivery

/-! # The registers of the virtual interrupt controller and its history

Three laws about every run of guest writes, raises and acknowledgements, each a comparison of a
register with the history of the run.

* `isr_exact`: the in-service registers hold the lines that were acknowledged and not retired by an
  EOI since, as long as no specific EOI names a level above `3` that matters:
  `handle_ocw2_write` looks at two of the three bits of the level.
* `irr_exact`: the request registers hold the lines that were raised and not acknowledged since.
* `deliversUnmasked_iff`: a masked line is not delivered, but for slave lines behind a masked
  cascade input. -/

namespace HyveMind.Vpic

open Lib

variable {v v' : Vpic}

/-! ### The line that is acknowledged -/

/-- The line that `vpic_get_pending_irq` acknowledges. -/
def ackedLine (v : Vpic) : Option Line :=
  let irq1 := getPendingIrqImpl v.vpic1
  let irq2 := getPendingIrqImpl v.vpic2
  if irq2 ≠ -1 then
    if (irq1 = -1 ∨ irq1 > 2) ∧ vpicGetPriority v.vpic1.isr > 2 then some (.slave irq2.toNat) else none
  else if irq1 ≠ -1 then some (.master irq1.toNat)
  else none

/-- What `vpic_get_pending_irq` does, by the line that it acknowledges. -/
theorem vpicGetPendingIrq_eq (v : Vpic) : vpicGetPendingIrq v =
    match ackedLine v with
    | some l => (acknowledge v l, lineVector v l)
    | none => (v, -1) := by
  unfold vpicGetPendingIrq ackedLine
  rcases getPendingIrqImpl_spec v.vpic2 with ⟨h2, -⟩ | ⟨k, -, h2, -⟩
  · rcases getPendingIrqImpl_spec v.vpic1 with ⟨h1, -⟩ | ⟨n, -, h1, -⟩
    · simp [h1, h2]
    · have hne : (n : ℤ) ≠ -1 := by omega
      simp [h1, h2, hne, acknowledge, lineVector]
  · have hne : (k : ℤ) ≠ -1 := by omega
    simp only [h2, ne_eq, hne, not_false_eq_true, if_true]
    split_ifs
    · simp [acknowledge, lineVector]
    · rfl

theorem ackedLine_master {n : ℕ} (h : ackedLine v = some (.master n)) :
    n < 8 ∧ Ready v.vpic1 n := by
  unfold ackedLine at h
  rcases getPendingIrqImpl_spec v.vpic2 with ⟨h2, -⟩ | ⟨k, -, h2, -⟩
  · rcases getPendingIrqImpl_spec v.vpic1 with ⟨h1, -⟩ | ⟨m, hm, h1, hr, -⟩
    · simp [h1, h2] at h
    · have hne : (m : ℤ) ≠ -1 := by omega
      simp [h1, h2, hne] at h
      exact h ▸ ⟨hm, hr⟩
  · have hne : (k : ℤ) ≠ -1 := by omega
    simp [h2, hne] at h

/-- The master passes a slave line on: it has no ready line and nothing in service up to line `2`. -/
def Passes (v : Vpic) : Prop :=
  (∀ m ≤ 2, ¬ Ready v.vpic1 m) ∧ ∀ m ≤ 2, v.vpic1.isr.getLsbD m = false

theorem passes_iff : ((getPendingIrqImpl v.vpic1 = -1 ∨ getPendingIrqImpl v.vpic1 > 2) ∧
    vpicGetPriority v.vpic1.isr > 2) ↔ Passes v := by
  have hisr : vpicGetPriority v.vpic1.isr > 2 ↔ ∀ m ≤ 2, v.vpic1.isr.getLsbD m = false := by
    rw [gt_iff_lt, two_lt_priority_iff]
    constructor
    · intro h m hm
      by_contra hset
      rw [Bool.not_eq_false] at hset
      exact absurd (h m (by omega) hset) (by omega)
    · intro h m _ hset
      by_contra hle
      rw [h m (by omega)] at hset
      cases hset
  have hready : (getPendingIrqImpl v.vpic1 = -1 ∨ getPendingIrqImpl v.vpic1 > 2) ↔
      ∀ m ≤ 2, ¬ Ready v.vpic1 m := by
    rcases getPendingIrqImpl_spec v.vpic1 with ⟨h1, hnone⟩ | ⟨n, -, h1, hr, hfirst⟩
    · exact ⟨fun _ m hm => hnone m (by omega), fun _ => Or.inl h1⟩
    · rw [h1]
      constructor
      · exact fun h m hm => hfirst m (by omega)
      · intro h
        have hn : ¬ n ≤ 2 := fun hn => h n hn hr
        omega
  rw [hready, hisr, Passes]

theorem ackedLine_slave_iff {k : ℕ} : ackedLine v = some (.slave k) ↔
    (k < 8 ∧ Ready v.vpic2 k ∧ ∀ m < k, ¬ Ready v.vpic2 m) ∧ Passes v := by
  unfold ackedLine
  rcases getPendingIrqImpl_spec v.vpic2 with ⟨h2, hnone⟩ | ⟨k', hk', h2, hr, hfirst⟩
  · have hno : ¬ (k < 8 ∧ Ready v.vpic2 k ∧ ∀ m < k, ¬ Ready v.vpic2 m) :=
      fun h => hnone k h.1 h.2.1
    simp only [h2, ne_eq, not_true_eq_false, if_false, hno, false_and, iff_false]
    split_ifs <;> simp
  · have hne : (k' : ℤ) ≠ -1 := by omega
    have huniq : (k < 8 ∧ Ready v.vpic2 k ∧ ∀ m < k, ¬ Ready v.vpic2 m) ↔ k' = k := by
      constructor
      · rintro ⟨-, hr', hfirst'⟩
        rcases Nat.lt_trichotomy k' k with hlt | heq | hgt
        · exact absurd hr (hfirst' k' hlt)
        · exact heq
        · exact absurd hr' (hfirst k hgt)
      · rintro rfl
        exact ⟨hk', hr, hfirst⟩
    simp only [h2, ne_eq, hne, not_false_eq_true, if_true, huniq]
    by_cases hp : Passes v
    · rw [if_pos (passes_iff.mpr hp)]
      simp [hp]
    · rw [if_neg fun h => hp (passes_iff.mp h)]
      simp [hp]

/-! ### Lines in service -/

/-- The two EOI commands. -/
inductive Eoi
  | nonSpecific
  | specific (level : ℕ)
deriving DecidableEq, Repr

/-- The EOI that a guest write is: an OCW2 outside an initialisation sequence, with the command in
its upper three and the level in its lower three bits. -/
def eoiOf (c : VpicChip) (port : BitVec 16) (val : BitVec 8) : Option Eoi :=
  if inInitSequence c = false ∧ isOcw2 port val = true then
    if (val >>> 5).toNat = 1 then some .nonSpecific
    else if (val >>> 5).toNat = 3 then some (.specific (val &&& 7).toNat)
    else none
  else none

/-- The lines that stay in service: an EOI retires the most urgent one or the named one. -/
def retire (serving : ℕ → Bool) : Eoi → ℕ → Bool
  | .nonSpecific, n => serving n && decide (∃ m < n, serving m = true)
  | .specific level, n => serving n && decide (n ≠ level)

/-- The lines of the two chips that were acknowledged and not retired since. -/
structure Serving where
  master : ℕ → Bool
  slave : ℕ → Bool

/-- The history after one more operation. -/
def servingAfter (v : Vpic) (g : Serving) : Op → Serving
  | .write false port val =>
      match eoiOf v.vpic1 port val with
      | some eoi => { g with master := retire g.master eoi }
      | none => g
  | .write true port val =>
      match eoiOf v.vpic2 port val with
      | some eoi => { g with slave := retire g.slave eoi }
      | none => g
  | .raise _ => g
  | .getPending =>
      match ackedLine v with
      | some (.master n) => { g with master := Function.update g.master n true }
      | some (.slave k) =>
          ⟨Function.update g.master 2 true, Function.update g.slave k true⟩
      | none => g

/-- The in-service registers hold the lines of the history. -/
def IsrExact (v : Vpic) (g : Serving) : Prop :=
  ∀ n < 8, v.vpic1.isr.getLsbD n = g.master n ∧ v.vpic2.isr.getLsbD n = g.slave n

/-- The EOI does not name a level above `3` that is in service, or whose lower two bits are. -/
def EoiInRange (c : VpicChip) : Option Eoi → Prop
  | some (.specific level) => level < 4 ∨
      (c.isr.getLsbD level = false ∧ c.isr.getLsbD (level - 4) = false)
  | _ => True

/-- The operation is not an EOI out of range. -/
def EoiOk (v : Vpic) : Op → Prop
  | .write false port val => EoiInRange v.vpic1 (eoiOf v.vpic1 port val)
  | .write true port val => EoiInRange v.vpic2 (eoiOf v.vpic2 port val)
  | .raise _ => True
  | .getPending => True

theorem vpicWrite_isr {c c' : VpicChip} {port : BitVec 16} {val : BitVec 8}
    (h : vpicWrite c port val = some c') :
    c'.isr = match eoiOf c port val with
      | some .nonSpecific => (c.isr - 1) &&& c.isr
      | some (.specific _) => c.isr &&& ~~~bit8 (val &&& 3).toNat
      | none => c.isr := by
  unfold vpicWrite at h
  by_cases hicw1 : isIcw1 port val = true
  · have hocw2 : isOcw2 port val = false := by
      simp only [isIcw1, Bool.and_eq_true] at hicw1
      simp [isOcw2, hicw1]
    rw [if_pos hicw1, startInitSequence] at h
    simp only [eoiOf, hocw2, Bool.false_eq_true, and_false, if_false]
    split_ifs at h <;> rw [← Option.some.inj h]
  rw [if_neg hicw1] at h
  by_cases hinit : inInitSequence c = true
  · simp only [eoiOf, hinit, Bool.true_eq_false, false_and, if_false]
    rw [if_pos hinit] at h
    split_ifs at h
    · rw [← Option.some.inj h]
    · exact (handleInitStep_frame h).2.1
  rw [if_neg hinit] at h
  by_cases hocw2 : isOcw2 port val = true
  · have hocw1 : isOcw1 port = false := by
      simp only [isOcw2, Bool.and_eq_true] at hocw2
      simp [isOcw1, hocw2]
    rw [hocw1, if_neg Bool.false_ne_true, if_pos hocw2] at h
    dsimp only [handleOcw2Write] at h
    rw [Bool.not_eq_true] at hinit
    simp only [eoiOf, hinit, hocw2, and_self, if_true]
    split_ifs at h with hun h1 h3
    · rw [if_pos h1, ← Option.some.inj h]
    · rw [if_neg h1, if_pos h3, ← Option.some.inj h]
  · rw [Bool.not_eq_true] at hocw2
    simp only [eoiOf, hocw2, Bool.false_eq_true, and_false, if_false]
    rw [hocw2, if_neg Bool.false_ne_true] at h
    unfold handleOcw3Write at h
    split_ifs at h <;> rw [← Option.some.inj h]

theorem getLsbD_sub_one_and (x : BitVec 8) {n : ℕ} (hn : n < 8) :
    ((x - 1) &&& x).getLsbD n = (x.getLsbD n && decide (∃ m < n, x.getLsbD m = true)) := by
  have h : ∀ (x : BitVec 8) (n : Fin 8), ((x - 1) &&& x).getLsbD n =
      (x.getLsbD n && decide (∃ m < (n : ℕ), x.getLsbD m = true)) := by decide +kernel
  exact h x ⟨n, hn⟩

theorem level_low (val : BitVec 8) : (val &&& 3).toNat = (val &&& 7).toNat % 4 ∧
    (val &&& 7).toNat < 8 := by
  revert val
  decide +kernel

/-- The lower two bits of a level are enough to retire its line if it is below `4`, or if neither its
line nor the one that they name is in service. -/
theorem retire_mod_four_iff {g : ℕ → Bool} {level : ℕ} (hlt : level < 8) :
    (∀ n < 8, (g n && decide (n ≠ level % 4)) = retire g (.specific level) n) ↔
      level < 4 ∨ (g level = false ∧ g (level - 4) = false) := by
  rcases Nat.lt_or_ge level 4 with h4 | h4
  · simp [retire, Nat.mod_eq_of_lt h4, h4]
  have hmod : level % 4 = level - 4 := by omega
  have hne : level ≠ level - 4 := by omega
  simp only [retire, hmod]
  constructor
  · intro hall
    have hnamed := hall level hlt
    have hretired := hall (level - 4) (by omega)
    simp only [ne_eq, hne, hne.symm, not_true_eq_false, not_false_eq_true, decide_true,
      decide_false, Bool.and_true, Bool.and_false] at hnamed hretired
    exact .inr ⟨hnamed, hretired.symm⟩
  · rintro (h | ⟨hnamed, hretired⟩) n -
    · omega
    by_cases hn : n = level
    · rw [hn, hnamed]
      rfl
    by_cases hn' : n = level - 4
    · rw [hn', hretired]
      rfl
    simp [hn, hn']

/-- One chip: after a guest write the register holds the lines that the EOI leaves in service iff the
EOI is in range. -/
theorem vpicWrite_exact_iff {c c' : VpicChip} {port : BitVec 16} {val : BitVec 8} {g : ℕ → Bool}
    (hg : ∀ n < 8, c.isr.getLsbD n = g n) (h : vpicWrite c port val = some c') :
    (∀ n < 8, c'.isr.getLsbD n = match eoiOf c port val with
        | some eoi => retire g eoi n
        | none => g n) ↔ EoiInRange c (eoiOf c port val) := by
  rw [vpicWrite_isr h]
  cases heoi : eoiOf c port val with
  | none => simpa [EoiInRange] using hg
  | some eoi =>
      cases eoi with
      | nonSpecific =>
          simp only [EoiInRange, iff_true]
          intro n hn
          rw [getLsbD_sub_one_and _ hn, retire, hg n hn]
          congr 2
          simp only [eq_iff_iff]
          constructor
          · rintro ⟨m, hm, hset⟩
            exact ⟨m, hm, hg m (by omega) ▸ hset⟩
          · rintro ⟨m, hm, hset⟩
            exact ⟨m, hm, (hg m (by omega)).symm ▸ hset⟩
      | specific level =>
          obtain ⟨hlow, hlt⟩ := level_low val
          have hlevel : level = (val &&& 7).toNat := by
            unfold eoiOf at heoi
            split_ifs at heoi
            · cases heoi
            · exact (Eoi.specific.inj (Option.some.inj heoi)).symm
          rw [← hlevel] at hlow hlt
          have hbit : ∀ n < 8, (c.isr &&& ~~~bit8 (val &&& 3).toNat).getLsbD n =
              (g n && decide (n ≠ level % 4)) := by
            intro n hn
            rw [BitVec.getLsbD_and, BitVec.getLsbD_not, hlow, getLsbD_bit8 (by omega) hn, hg n hn]
            simp [hn]
          rw [EoiInRange, hg level hlt, hg (level - 4) (by omega), ← retire_mod_four_iff hlt]
          exact forall_congr' fun n => forall_congr' fun hn => by rw [hbit n hn]

theorem vpicAck_isr (c : VpicChip) {g : ℕ → Bool} (hg : ∀ n < 8, c.isr.getLsbD n = g n) {irq : ℕ}
    (hirq : irq < 8) : ∀ n < 8, (vpicAck c irq).isr.getLsbD n = Function.update g irq true n := by
  intro n hn
  rw [vpicAck, BitVec.getLsbD_or, getLsbD_bit8 hirq hn, hg n hn, Function.update_apply]
  by_cases h : n = irq
  · simp [h]
  · simp [h]

theorem vpicRaiseExternalIrq_isr (v : Vpic) (irq : ℕ) :
    (vpicRaiseExternalIrq v irq).1.vpic1.isr = v.vpic1.isr ∧
      (vpicRaiseExternalIrq v irq).1.vpic2.isr = v.vpic2.isr := by
  unfold vpicRaiseExternalIrq raiseExtIrqImpl
  split_ifs <;> exact ⟨rfl, rfl⟩

/-- One operation: the registers still hold the lines of the history iff it is not an EOI out of
range. -/
theorem isrExact_call_iff {g : Serving} (hg : IsrExact v g) {op : Op} (hcall : v.call op = some v') :
    IsrExact v' (servingAfter v g op) ↔ EoiOk v op := by
  have h1 : ∀ n < 8, v.vpic1.isr.getLsbD n = g.master n := fun n hn => (hg n hn).1
  have h2 : ∀ n < 8, v.vpic2.isr.getLsbD n = g.slave n := fun n hn => (hg n hn).2
  cases op with
  | write slave port val =>
      cases slave with
      | false =>
          obtain ⟨c, hw, rfl⟩ := Option.map_eq_some_iff.mp hcall
          rw [EoiOk, ← vpicWrite_exact_iff h1 hw, servingAfter]
          cases eoiOf v.vpic1 port val with
          | none => exact ⟨fun h n hn => (h n hn).1, fun h n hn => ⟨h n hn, h2 n hn⟩⟩
          | some eoi => exact ⟨fun h n hn => (h n hn).1, fun h n hn => ⟨h n hn, h2 n hn⟩⟩
      | true =>
          obtain ⟨c, hw, rfl⟩ := Option.map_eq_some_iff.mp hcall
          rw [EoiOk, ← vpicWrite_exact_iff h2 hw, servingAfter]
          cases eoiOf v.vpic2 port val with
          | none => exact ⟨fun h n hn => (h n hn).2, fun h n hn => ⟨h1 n hn, h n hn⟩⟩
          | some eoi => exact ⟨fun h n hn => (h n hn).2, fun h n hn => ⟨h1 n hn, h n hn⟩⟩
  | raise irq =>
      obtain rfl := Option.some.inj hcall
      obtain ⟨hr1, hr2⟩ := vpicRaiseExternalIrq_isr v irq
      refine iff_of_true (fun n hn => ?_) trivial
      rw [hr1, hr2]
      exact hg n hn
  | getPending =>
      obtain rfl := Option.some.inj hcall
      refine iff_of_true ?_ trivial
      rw [vpicGetPendingIrq_eq, servingAfter]
      cases hline : ackedLine v with
      | none => exact hg
      | some l =>
          cases l with
          | master m =>
              have hm := (ackedLine_master hline).1
              exact fun n hn => ⟨vpicAck_isr _ h1 hm n hn, h2 n hn⟩
          | slave k =>
              have hk := (ackedLine_slave_iff.mp hline).1.1
              exact fun n hn => ⟨vpicAck_isr _ h1 (by norm_num) n hn, vpicAck_isr _ h2 hk n hn⟩

/-- One operation that returns, with its history. -/
def ServingStep (s : Vpic × Serving) (op : Op) (s' : Vpic × Serving) : Prop :=
  s.1.call op = some s'.1 ∧ s'.2 = servingAfter s.1 s.2 op

/-- Nothing is in service. -/
def Serving.empty : Serving := ⟨fun _ => false, fun _ => false⟩

/-- **The in-service registers are exact.**  In every run from `allocate_vpic` without an EOI out of
range the registers hold the lines that were acknowledged and not retired since; and the next
operation keeps it so iff it is not such an EOI. -/
theorem isr_exact {ops : List Op} {g : Serving}
    (hrun : Run (fun s op s' => ServingStep s op s' ∧ EoiOk s.1 op) (allocateVpic, Serving.empty) ops
      (v, g)) :
    IsrExact v g ∧ ∀ op v', v.call op = some v' →
      (IsrExact v' (servingAfter v g op) ↔ EoiOk v op) := by
  have hg : IsrExact v g := by
    refine Run.invariant (I := fun s : Vpic × Serving => IsrExact s.1 s.2) ?_ hrun ?_
    · rintro ⟨v, g⟩ op ⟨v', g'⟩ hg ⟨⟨hcall, rfl⟩, hok⟩
      exact (isrExact_call_iff hg hcall).mpr hok
    · intro n hn
      simp [allocateVpic, Serving.empty]
  exact ⟨hg, fun op v' hcall => isrExact_call_iff hg hcall⟩

instance (c : VpicChip) : (eoi : Option Eoi) → Decidable (EoiInRange c eoi)
  | some (.specific level) => inferInstanceAs (Decidable (level < 4 ∨
      (c.isr.getLsbD level = false ∧ c.isr.getLsbD (level - 4) = false)))
  | some .nonSpecific => inferInstanceAs (Decidable True)
  | none => inferInstanceAs (Decidable True)

instance (v : Vpic) : (op : Op) → Decidable (EoiOk v op)
  | .write false port val => inferInstanceAs (Decidable (EoiInRange v.vpic1 (eoiOf v.vpic1 port val)))
  | .write true port val => inferInstanceAs (Decidable (EoiInRange v.vpic2 (eoiOf v.vpic2 port val)))
  | .raise _ => inferInstanceAs (Decidable True)
  | .getPending => inferInstanceAs (Decidable True)

/-- One operation with its history, computed. -/
def servingCall (s : Vpic × Serving) (op : Op) : Option (Vpic × Serving) :=
  (s.1.call op).map fun v => (v, servingAfter s.1 s.2 op)

theorem servingStep_of_call {s s' : Vpic × Serving} {op : Op} (h : servingCall s op = some s') :
    ServingStep s op s' := by
  obtain ⟨v, hv, rfl⟩ := Option.map_eq_some_iff.mp h
  exact ⟨hv, rfl⟩

/-- One line of the master is raised and acknowledged, and the guest writes an EOI. -/
def eoiOps (irq : ℕ) (val : BitVec 8) : List Op :=
  initOps ++ [.raise irq, .getPending, .write false 0x20 val]

/-- Line `1` of the master is acknowledged and retired by a specific EOI. -/
theorem isr_exact_level_one :
    ∃ v g, Run (fun s op s' => ServingStep s op s' ∧ EoiOk s.1 op) (allocateVpic, Serving.empty)
        (eoiOps 1 0x61) (v, g) ∧
      v.vpic1.isr = 0 ∧ IsrExact v g := by
  have hend : ((eoiOps 1 0x61).foldlM
      (fun s op => if EoiOk s.1 op then servingCall s op else none)
      (allocateVpic, Serving.empty)).map (fun s => s.1.vpic1.isr) = some 0 := by decide
  obtain ⟨⟨v, g⟩, hs, hisr⟩ := Option.map_eq_some_iff.mp hend
  have hrun : Run (fun s op s' => ServingStep s op s' ∧ EoiOk s.1 op) (allocateVpic, Serving.empty)
      (eoiOps 1 0x61) (v, g) := by
    refine Run.of_foldlM _ (fun s op s' _ hcall => ?_) hs
    split_ifs at hcall with hok
    exact ⟨servingStep_of_call hcall, hok⟩
  exact ⟨v, g, hrun, hisr, (isr_exact hrun).1⟩

/-- Line `5` of the master is acknowledged; the specific EOI for level `5` leaves it in service. -/
theorem level_five_is_not_retired :
    ∃ v g, Run ServingStep (allocateVpic, Serving.empty)
        (eoiOps 5 0x65) (v, g) ∧
      v.vpic1.isr.getLsbD 5 = true ∧ g.master 5 = false ∧ ¬ IsrExact v g := by
  have hend : ((eoiOps 5 0x65).foldlM servingCall
      (allocateVpic, Serving.empty)).map (fun s => (s.1.vpic1.isr.getLsbD 5, s.2.master 5)) =
        some (true, false) := by decide
  obtain ⟨⟨v, g⟩, hs, hobs⟩ := Option.map_eq_some_iff.mp hend
  obtain ⟨hset, hretired⟩ := Prod.mk.inj hobs
  refine ⟨v, g, Run.of_foldlM _ (fun _ _ _ _ h => servingStep_of_call h) hs, hset, hretired,
    fun hexact => ?_⟩
  have h5 := (hexact 5 (by norm_num)).1
  rw [hset, hretired] at h5
  cases h5

/-! ### Requested lines -/

/-- The number of a line among the sixteen of both chips. -/
def Line.number : Line → ℕ
  | .master n => n
  | .slave n => 8 + n

/-- The bit of the request registers for line `n` of the sixteen. -/
def irrBit (v : Vpic) (n : ℕ) : Bool :=
  if n < 8 then v.vpic1.irr.getLsbD n else v.vpic2.irr.getLsbD (n - 8)

/-- The lines with a successful raise since their last acknowledgement, after one more operation. -/
def raisedAfter (v : Vpic) (raised : ℕ → Bool) : Op → ℕ → Bool
  | .write _ _ _ => raised
  | .raise irq => if (vpicRaiseExternalIrq v irq).2 = 0 then Function.update raised irq true else raised
  | .getPending =>
      match ackedLine v with
      | some l => Function.update raised l.number false
      | none => raised

/-- The request registers hold the raised lines.  A raise of the cascade line itself may be taken
back by the acknowledgement of a slave line. -/
def IrrExact (v : Vpic) (raised : ℕ → Bool) : Prop :=
  ∀ n < 16, (n ≠ 2 → (irrBit v n = true ↔ raised n = true)) ∧
    (irrBit v n = true → raised n = true)

/-- One operation that returns, with its history. -/
def RaisedStep (s : Vpic × (ℕ → Bool)) (op : Op) (s' : Vpic × (ℕ → Bool)) : Prop :=
  s.1.call op = some s'.1 ∧ s'.2 = raisedAfter s.1 s.2 op

theorem getLsbD_clear (x : BitVec 8) {n k : ℕ} (hn : n < 8) (hk : k < 8) :
    (x &&& ~~~bit8 k).getLsbD n = true ↔ x.getLsbD n = true ∧ n ≠ k := by
  rw [BitVec.getLsbD_and, BitVec.getLsbD_not, getLsbD_bit8 hk hn]
  simp [hn]

theorem irrBit_write {slave : Bool} {port : BitVec 16} {val : BitVec 8}
    (hcall : v.call (.write slave port val) = some v') (n : ℕ) : irrBit v' n = irrBit v n := by
  cases slave with
  | false =>
      obtain ⟨c, hw, rfl⟩ := Option.map_eq_some_iff.mp hcall
      simp only [irrBit, (vpicWrite_frame hw).1]
  | true =>
      obtain ⟨c, hw, rfl⟩ := Option.map_eq_some_iff.mp hcall
      simp only [irrBit, (vpicWrite_frame hw).1]

/-- The request registers after an acknowledgement: the line is cleared, and for a slave line the
cascade line. -/
theorem irrBit_acknowledge {l : Line} (hl : ackedLine v = some l) {n : ℕ} (hn : n < 16) :
    irrBit (acknowledge v l) n = true ↔
      irrBit v n = true ∧ n ≠ l.number ∧ ¬ (n = 2 ∧ 8 ≤ l.number) := by
  unfold irrBit
  cases l with
  | master m =>
      have hm := (ackedLine_master hl).1
      have h8m : ¬ 8 ≤ m := by omega
      simp only [acknowledge, vpicAck, Line.number, h8m, and_false, not_false_eq_true, and_true]
      split_ifs with h8
      · exact getLsbD_clear _ h8 hm
      · exact ⟨fun h => ⟨h, by omega⟩, And.left⟩
  | slave k =>
      have hk := (ackedLine_slave_iff.mp hl).1.1
      have h8k : 8 ≤ 8 + k := by omega
      simp only [acknowledge, vpicAck, Line.number, h8k, and_true]
      split_ifs with h8
      · rw [getLsbD_clear _ h8 (by norm_num)]
        exact ⟨fun h => ⟨h.1, by omega, h.2⟩, fun h => ⟨h.1, h.2.2⟩⟩
      · rw [getLsbD_clear _ (by omega) hk]
        exact ⟨fun h => ⟨h.1, by omega, by omega⟩, fun h => ⟨h.1, by omega⟩⟩

theorem irrBit_raise (v : Vpic) (irq : ℕ) {n : ℕ} (hn : n < 16) :
    irrBit (vpicRaiseExternalIrq v irq).1 n = true ↔
      irrBit v n = true ∨ ((vpicRaiseExternalIrq v irq).2 = 0 ∧ n = irq) := by
  unfold vpicRaiseExternalIrq raiseExtIrqImpl irrBit vpicNumPins
  by_cases h16 : 16 ≤ irq
  · simp [h16]
  rw [if_neg h16]
  by_cases h8 : 8 ≤ irq
  · by_cases hst : v.vpic2.state = .initialized
    · simp only [h8, if_true, hst, ne_eq, not_true_eq_false, if_false, true_and]
      split_ifs with hlt
      · have hne : n ≠ irq := by omega
        simp [hne]
      · have hiff : n - 8 = irq - 8 ↔ n = irq := by omega
        rw [BitVec.getLsbD_or, getLsbD_bit8 (by omega) (by omega)]
        simp [hiff]
    · simp [h8, hst]
  · by_cases hst : v.vpic1.state = .initialized
    · simp only [h8, if_false, hst, ne_eq, not_true_eq_false, true_and]
      split_ifs with hlt
      · rw [BitVec.getLsbD_or, getLsbD_bit8 (by omega) hlt]
        simp
      · have hne : n ≠ irq := by omega
        simp [hne]
    · simp [h8, hst]

theorem irrExact_call {raised : ℕ → Bool} (hr : IrrExact v raised) {op : Op}
    (hcall : v.call op = some v') : IrrExact v' (raisedAfter v raised op) := by
  intro n hn
  obtain ⟨heq, himp⟩ := hr n hn
  cases op with
  | write slave port val =>
      rw [irrBit_write hcall]
      exact ⟨heq, himp⟩
  | raise irq =>
      obtain rfl := Option.some.inj hcall
      rw [irrBit_raise v irq hn, raisedAfter]
      by_cases hret : (vpicRaiseExternalIrq v irq).2 = 0
      · rw [if_pos hret, Function.update_apply]
        by_cases hni : n = irq
        · simp [hret, hni]
        · simp only [hni, and_false, or_false, if_false]
          exact ⟨heq, himp⟩
      · simp only [hret, false_and, or_false, if_false]
        exact ⟨heq, himp⟩
  | getPending =>
      obtain rfl := Option.some.inj hcall
      rw [vpicGetPendingIrq_eq, raisedAfter]
      cases hline : ackedLine v with
      | none => exact ⟨heq, himp⟩
      | some l =>
          simp only [irrBit_acknowledge hline hn, Function.update_apply]
          by_cases hnl : n = l.number
          · simp [hnl]
          · refine ⟨fun h2 => ?_, fun h => ?_⟩
            · simp [hnl, h2, heq h2]
            · simpa [hnl] using himp h.1

theorem ackedLine_requested {l : Line} (hl : ackedLine v = some l) :
    l.number < 16 ∧ irrBit v l.number = true := by
  cases l with
  | master n =>
      obtain ⟨hn, hready⟩ := ackedLine_master hl
      exact ⟨by simp only [Line.number]; omega, by simp [irrBit, Line.number, hn, hready.1]⟩
  | slave k =>
      obtain ⟨⟨hk, hready, -⟩, -⟩ := ackedLine_slave_iff.mp hl
      exact ⟨by simp only [Line.number]; omega, by simp [irrBit, Line.number, hready.1]⟩

theorem irrBit_stays_iff {op : Op} (hcall : v.call op = some v') {n : ℕ} (hn : n < 16) (h2 : n ≠ 2)
    (hset : irrBit v n = true) : irrBit v' n = true ↔
      ¬ (op = .getPending ∧ ∃ l, ackedLine v = some l ∧ l.number = n) := by
  cases op with
  | write slave port val => simp [irrBit_write hcall, hset]
  | raise irq =>
      obtain rfl := Option.some.inj hcall
      simp [irrBit_raise v irq hn, hset]
  | getPending =>
      obtain rfl := Option.some.inj hcall
      rw [vpicGetPendingIrq_eq]
      cases hline : ackedLine v with
      | none => simp [hset]
      | some l => simp [irrBit_acknowledge hline hn, hset, h2, eq_comm]

/-- **No request is lost or invented.**  In every run from `allocate_vpic`: a line other than the
cascade line is requested iff it was raised since its last acknowledgement, a vector that is handed
out belongs to a raised line, and a request stays until its line is acknowledged. -/
theorem irr_exact {ops : List Op} {raised : ℕ → Bool}
    (hrun : Run RaisedStep (allocateVpic, fun _ => false) ops (v, raised)) :
    (∀ n < 16, n ≠ 2 → (irrBit v n = true ↔ raised n = true)) ∧
      ((vpicGetPendingIrq v).2 ≠ -1 → ∃ l, ackedLine v = some l ∧
        vpicGetPendingIrq v = (acknowledge v l, lineVector v l) ∧ raised l.number = true) ∧
      ∀ op v', v.call op = some v' → ∀ n < 16, n ≠ 2 → irrBit v n = true →
        (irrBit v' n = true ↔ ¬ (op = .getPending ∧ ∃ l, ackedLine v = some l ∧ l.number = n)) := by
  have hr : IrrExact v raised := by
    refine Run.invariant (I := fun s : Vpic × (ℕ → Bool) => IrrExact s.1 s.2) ?_ hrun ?_
    · rintro ⟨v, raised⟩ op ⟨v', raised'⟩ hr ⟨hcall, rfl⟩
      exact irrExact_call hr hcall
    · intro n hn
      simp [allocateVpic, irrBit]
  refine ⟨fun n hn h2 => (hr n hn).1 h2, fun hvec => ?_,
    fun op v' hcall n hn h2 hset => irrBit_stays_iff hcall hn h2 hset⟩
  have heq := vpicGetPendingIrq_eq v
  cases hline : ackedLine v with
  | none =>
      simp only [hline] at heq
      rw [heq] at hvec
      exact absurd rfl hvec
  | some l =>
      simp only [hline] at heq
      obtain ⟨hlt, hreq⟩ := ackedLine_requested hline
      exact ⟨l, rfl, heq, (hr _ hlt).2 hreq⟩

/-- One operation with its history, computed. -/
def raisedCall (s : Vpic × (ℕ → Bool)) (op : Op) : Option (Vpic × (ℕ → Bool)) :=
  (s.1.call op).map fun v => (v, raisedAfter s.1 s.2 op)

/-- Lines `4` and `9` are raised, the slave is initialised once more, and line `9` is acknowledged. -/
def reinitOps : List Op :=
  initOps ++ [.raise 4, .raise 9] ++ initOps.drop 4 ++ [.getPending]

/-- The request for line `4` is still there. -/
theorem irr_exact_after_reinit :
    ∃ v raised, Run RaisedStep (allocateVpic, fun _ => false) reinitOps (v, raised) ∧
      raised 4 = true ∧ raised 9 = false ∧ irrBit v 4 = true := by
  have hend : (reinitOps.foldlM raisedCall (allocateVpic, fun _ => false)).map (fun s =>
      (s.2 4, s.2 9)) = some (true, false) := by decide
  obtain ⟨⟨v, raised⟩, hs, hobs⟩ := Option.map_eq_some_iff.mp hend
  obtain ⟨h4, h9⟩ := Prod.mk.inj hobs
  have hrun : Run RaisedStep (allocateVpic, fun _ => false) reinitOps (v, raised) := by
    refine Run.of_foldlM raisedCall (fun s op s' _ hcall => ?_) hs
    obtain ⟨v, hv, rfl⟩ := Option.map_eq_some_iff.mp hcall
    exact ⟨hv, rfl⟩
  exact ⟨v, raised, hrun, h4, h9, ((irr_exact hrun).1 4 (by norm_num) (by norm_num)).mpr h4⟩

/-! ### Masked lines -/

/-- The line is not masked on its chip, nor a slave line at the cascade input. -/
def Unmasked (v : Vpic) : Line → Prop
  | .master n => v.vpic1.imr.getLsbD n = false
  | .slave n => v.vpic2.imr.getLsbD n = false ∧ v.vpic1.imr.getLsbD 2 = false

/-- The cascade input is not masked, or no slave line can get to it: none is ready, or the master has
a line up to `2` ready or in service. -/
def CascadeOpen (v : Vpic) : Prop :=
  v.vpic1.imr.getLsbD 2 = false ∨ (∀ k < 8, ¬ Ready v.vpic2 k) ∨
    (∃ m ≤ 2, Ready v.vpic1 m) ∨ ∃ m ≤ 2, v.vpic1.isr.getLsbD m = true

instance (v : Vpic) : Decidable (CascadeOpen v) :=
  inferInstanceAs (Decidable (_ ∨ (∀ k < 8, _) ∨ (∃ m ≤ 2, _) ∨ ∃ m ≤ 2, _))

/-- The state lets no masked line through: whatever `vpic_get_pending_irq` delivers is unmasked. -/
def DeliversUnmasked (v : Vpic) : Prop :=
  ∀ l, ackedLine v = some l → vpicGetPendingIrq v = (acknowledge v l, lineVector v l) ∧ Unmasked v l

theorem not_cascadeOpen_iff : ¬ CascadeOpen v ↔
    v.vpic1.imr.getLsbD 2 = true ∧ (∃ k < 8, Ready v.vpic2 k) ∧ Passes v := by
  unfold CascadeOpen Passes
  constructor
  · intro h
    simp only [not_or] at h
    obtain ⟨h1, h2, h3, h4⟩ := h
    refine ⟨by simpa using h1, ?_, fun m hm hr => h3 ⟨m, hm, hr⟩, fun m hm => ?_⟩
    · by_contra hno
      exact h2 fun k hk hr => hno ⟨k, hk, hr⟩
    · by_contra hset
      exact h4 ⟨m, hm, by simpa using hset⟩
  · rintro ⟨h1, ⟨k, hk, hr⟩, h3, h4⟩ (h | h | ⟨m, hm, h⟩ | ⟨m, hm, h⟩)
    · rw [h1] at h
      cases h
    · exact h k hk hr
    · exact h3 m hm h
    · rw [h4 m hm] at h
      cases h

/-- **When masked lines are not delivered.**  In every state, `vpic_get_pending_irq` delivers an
unmasked line iff no slave line can get to a masked cascade input. -/
theorem deliversUnmasked_iff (v : Vpic) : DeliversUnmasked v ↔ CascadeOpen v := by
  constructor
  · intro h
    by_contra hclosed
    obtain ⟨hmask, ⟨k, hk, hr⟩, hpass⟩ := not_cascadeOpen_iff.mp hclosed
    obtain ⟨k', hk', -, hr', hfirst⟩ : ∃ n : ℕ, n < 8 ∧ getPendingIrqImpl v.vpic2 = n ∧
        Ready v.vpic2 n ∧ ∀ m < n, ¬ Ready v.vpic2 m := by
      rcases getPendingIrqImpl_spec v.vpic2 with ⟨-, hnone⟩ | hsome
      · exact absurd hr (hnone k hk)
      · exact hsome
    obtain ⟨-, -, hopen⟩ := h (.slave k') (ackedLine_slave_iff.mpr ⟨⟨hk', hr', hfirst⟩, hpass⟩)
    rw [hmask] at hopen
    cases hopen
  · intro hopen l hl
    have heq := vpicGetPendingIrq_eq v
    simp only [hl] at heq
    refine ⟨heq, ?_⟩
    cases l with
    | master n => exact (ackedLine_master hl).2.2.1
    | slave k =>
        obtain ⟨⟨hk, hr, -⟩, hpass⟩ := ackedLine_slave_iff.mp hl
        refine ⟨hr.2.1, ?_⟩
        by_contra hmask
        rw [Bool.not_eq_false] at hmask
        exact not_cascadeOpen_iff.mpr ⟨hmask, ⟨k, hk, hr⟩, hpass⟩ hopen

/-- The state with line `1` of the slave requested and the cascade input masked. -/
def maskedCascade : Vpic where
  vpic1 := ⟨.initialized, 4, 0, 0, 0x20, .readIrr, 0x04, false⟩
  vpic2 := ⟨.initialized, 0, 2, 0, 0x28, .readIrr, 0x02, true⟩

/-- A guest masks the cascade input, and vector `41` of the slave is delivered nevertheless. -/
theorem masked_cascade_delivers :
    Run (fun v op v' => call v op = some v') allocateVpic
        (initOps ++ [.write false 0x21 0x04, .raise 9]) maskedCascade ∧
      (vpicGetPendingIrq maskedCascade).2 = 41 ∧ maskedCascade.vpic1.imr.getLsbD 2 = true ∧
      ¬ DeliversUnmasked maskedCascade := by
  refine ⟨Run.of_foldlM call (fun _ _ _ _ h => h) rfl, by decide, by decide, fun h => ?_⟩
  have hopen := (h (.slave 1) (by decide)).2.2
  revert hopen
  decide

end HyveMind.Vpic
