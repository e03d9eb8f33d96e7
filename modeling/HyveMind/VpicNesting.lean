import HyveMind.VpicHistory

/-! # Nested interrupts

The in-service register of a chip does not say in which order its lines were acknowledged.  The order
can be read off all the same: a line is acknowledged only if it outranks everything in service on its
chip, so that the later of two lines in service is the one with the smaller number
(`retire_in_order`).  The lowest set bit, which a non-specific EOI clears, is the last line that was
acknowledged. -/

namespace HyveMind.Vpic

open Lib

variable {v v' : Vpic} {op : Op} {slave : Bool} {n : ℕ}

/-- The line of the chip that the operation acknowledges; for a slave line the master acknowledges
its cascade line. -/
def ackedOn (v : Vpic) (slave : Bool) : Op → Option ℕ
  | .write _ _ _ => none
  | .raise _ => none
  | .getPending =>
      match ackedLine v, slave with
      | some (.master n), false => some n
      | some (.slave _), false => some 2
      | some (.slave k), true => some k
      | _, _ => none

/-- The lines in service on each chip in the order in which they were acknowledged, after one more
operation: the acknowledged line comes last, and lines that are not in service any more are left
out. -/
def orderAfter (v v' : Vpic) (order : Bool → List ℕ) (op : Op) (slave : Bool) : List ℕ :=
  (order slave ++ (ackedOn v slave op).toList).filter fun n => (v'.chip slave).isr.getLsbD n

/-- One operation that returns, with the order of acknowledgements. -/
def OrderStep (s : Vpic × (Bool → List ℕ)) (op : Op) (s' : Vpic × (Bool → List ℕ)) : Prop :=
  s.1.call op = some s'.1 ∧ s'.2 = orderAfter s.1 s'.1 s.2 op

/-! ### One operation -/

/-- The line that is acknowledged outranks everything in service on its chip. -/
theorem ackedOn_outranks (h : ackedOn v slave op = some n) :
    ∀ m, (v.chip slave).isr.getLsbD m = true → n < m := by
  intro m hm
  have hm8 : m < 8 := BitVec.lt_of_getLsbD hm
  cases op with
  | write _ _ _ => cases h
  | raise _ => cases h
  | getPending =>
      unfold ackedOn at h
      cases hline : ackedLine v with
      | none => simp [hline] at h
      | some l =>
          cases l with
          | master k =>
              cases slave with
              | false =>
                  simp only [hline, Option.some.injEq] at h
                  subst h
                  exact (ackedLine_master hline).2.2.2 m hm8 hm
              | true => simp [hline] at h
          | slave k =>
              obtain ⟨⟨-, hready, -⟩, hpass⟩ := ackedLine_slave_iff.mp hline
              cases slave with
              | false =>
                  simp only [hline, Option.some.injEq] at h
                  subst h
                  by_contra hle
                  have hclear : (v.chip false).isr.getLsbD m = false := hpass.2 m (by omega)
                  rw [hclear] at hm
                  cases hm
              | true =>
                  simp only [hline, Option.some.injEq] at h
                  subst h
                  exact hready.2.2 m hm8 hm

theorem vpicWrite_isr_le {c c' : VpicChip} {port : BitVec 16} {val : BitVec 8}
    (h : vpicWrite c port val = some c') (hn : c'.isr.getLsbD n = true) : c.isr.getLsbD n = true := by
  rw [vpicWrite_isr h] at hn
  split at hn
  · rw [BitVec.getLsbD_and, Bool.and_eq_true] at hn
    exact hn.2
  · rw [BitVec.getLsbD_and, Bool.and_eq_true] at hn
    exact hn.1
  · exact hn

theorem vpicAck_isr_iff (c : VpicChip) {irq : ℕ} (hirq : irq < 8) :
    (vpicAck c irq).isr.getLsbD n = true ↔ c.isr.getLsbD n = true ∨ n = irq := by
  rw [vpicAck, BitVec.getLsbD_or, Bool.or_eq_true]
  by_cases hn : n < 8
  · rw [getLsbD_bit8 hirq hn, decide_eq_true_iff]
  · have hbit : (bit8 irq).getLsbD n = false := BitVec.getLsbD_of_ge _ _ (by omega)
    have hne : n ≠ irq := by omega
    simp [hbit, hne]

/-- A line comes into service by an acknowledgement only, and an acknowledged line is in service. -/
theorem isr_call (hcall : v.call op = some v') (slave : Bool) (n : ℕ) :
    ((v'.chip slave).isr.getLsbD n = true →
      (v.chip slave).isr.getLsbD n = true ∨ ackedOn v slave op = some n) ∧
    (ackedOn v slave op = some n → (v'.chip slave).isr.getLsbD n = true) := by
  cases op with
  | write slave' port val =>
      refine ⟨fun hn => Or.inl ?_, fun h => by cases h⟩
      have hwrite := call_write hcall slave
      split_ifs at hwrite
      · exact vpicWrite_isr_le hwrite hn
      · rwa [hwrite] at hn
  | raise irq =>
      obtain rfl := Option.some.inj hcall
      obtain ⟨h1, h2⟩ := vpicRaiseExternalIrq_isr v irq
      refine ⟨fun hn => Or.inl ?_, fun h => by cases h⟩
      cases slave with
      | false => exact h1 ▸ hn
      | true => exact h2 ▸ hn
  | getPending =>
      obtain rfl := Option.some.inj hcall
      rw [vpicGetPendingIrq_eq]
      unfold ackedOn
      cases hline : ackedLine v with
      | none => exact ⟨Or.inl, fun h => by cases h⟩
      | some l =>
          cases l with
          | master k =>
              have hk := (ackedLine_master hline).1
              cases slave with
              | false =>
                  simp only [acknowledge, chip, vpicAck_isr_iff _ hk, Option.some.injEq]
                  exact ⟨fun h => h.imp_right Eq.symm, fun h => Or.inr h.symm⟩
              | true => exact ⟨Or.inl, fun h => by cases h⟩
          | slave k =>
              have hk := (ackedLine_slave_iff.mp hline).1.1
              cases slave with
              | false =>
                  simp only [acknowledge, chip, vpicAck_isr_iff _ (show 2 < 8 by norm_num),
                    Option.some.injEq]
                  exact ⟨fun h => h.imp_right Eq.symm, fun h => Or.inr h.symm⟩
              | true =>
                  simp only [acknowledge, chip, vpicAck_isr_iff _ hk, Option.some.injEq]
                  exact ⟨fun h => h.imp_right Eq.symm, fun h => Or.inr h.symm⟩

/-! ### Runs -/

/-- The order lists the lines in service, and the numbers decrease. -/
structure Nested (v : Vpic) (order : Bool → List ℕ) : Prop where
  lists : ∀ slave n, n ∈ order slave ↔ (v.chip slave).isr.getLsbD n = true
  decreases : ∀ slave, (order slave).Pairwise (· > ·)

theorem nested_init : Nested allocateVpic fun _ => [] where
  lists := fun slave n => by cases slave <;> simp [allocateVpic, chip]
  decreases := fun _ => .nil

theorem Nested.step {order : Bool → List ℕ} (h : Nested v order) (hcall : v.call op = some v') :
    Nested v' (orderAfter v v' order op) where
  lists := by
    intro slave n
    obtain ⟨hold, hnew⟩ := isr_call hcall slave n
    rw [orderAfter, List.mem_filter, List.mem_append, h.lists slave n, Option.mem_toList]
    exact ⟨And.right, fun hn => ⟨hold hn, hn⟩⟩
  decreases := by
    intro slave
    refine List.Pairwise.filter _ (List.pairwise_append.mpr ⟨h.decreases slave, ?_, ?_⟩)
    · cases ackedOn v slave op with
      | none => exact .nil
      | some n => exact List.pairwise_singleton ..
    · intro m hm n hn
      exact ackedOn_outranks (Option.mem_toList.mp hn) m ((h.lists slave m).mp hm)

/-- The lowest line in service is the last one of the order. -/
theorem Nested.last_iff {order : Bool → List ℕ} (h : Nested v order)
    (hn : (v.chip slave).isr.getLsbD n = true) :
    (order slave).getLast? = some n ↔ ¬ ∃ m < n, (v.chip slave).isr.getLsbD m = true := by
  have hdec := h.decreases slave
  have hmem := (h.lists slave n).mpr hn
  constructor
  · intro hlast
    obtain ⟨xs, hxs⟩ := List.getLast?_eq_some_iff.mp hlast
    rintro ⟨m, hm, hset⟩
    have hm' := (h.lists slave m).mpr hset
    rw [hxs] at hdec hm'
    rcases List.mem_append.mp hm' with hin | hin
    · have hgt := (List.pairwise_append.mp hdec).2.2 m hin n (List.mem_singleton_self n)
      omega
    · have heq := List.mem_singleton.mp hin
      omega
  · intro hno
    cases hlast : (order slave).getLast? with
    | none =>
        rw [List.getLast?_eq_none_iff.mp hlast] at hmem
        cases hmem
    | some m =>
        obtain ⟨xs, hxs⟩ := List.getLast?_eq_some_iff.mp hlast
        have hset : (v.chip slave).isr.getLsbD m = true := by
          rw [← h.lists slave m, hxs]
          exact List.mem_append_right _ (List.mem_singleton_self m)
        have hle : ¬ m < n := fun hlt => hno ⟨m, hlt, hset⟩
        rw [hxs] at hdec hmem
        rcases List.mem_append.mp hmem with hin | hin
        · have hgt := (List.pairwise_append.mp hdec).2.2 n hin m (List.mem_singleton_self m)
          omega
        · rw [List.mem_singleton.mp hin]

theorem Nested.eoi {order : Bool → List ℕ} (h : Nested v order) {port : BitVec 16} {val : BitVec 8}
    (heoi : eoiOf (v.chip slave) port val = some .nonSpecific)
    (hcall : v.call (.write slave port val) = some v') :
    (∀ n, (v'.chip slave).isr.getLsbD n = true ↔
      (v.chip slave).isr.getLsbD n = true ∧ (order slave).getLast? ≠ some n) ∧
    (v'.chip (!slave)).isr = (v.chip (!slave)).isr := by
  have hw := call_write hcall slave
  have hother := call_write hcall (!slave)
  rw [if_pos rfl] at hw
  rw [if_neg (by simp)] at hother
  refine ⟨fun n => ?_, by rw [hother]⟩
  have hisr := vpicWrite_isr hw
  rw [heoi] at hisr
  rw [hisr]
  by_cases hn : (v.chip slave).isr.getLsbD n = true
  · rw [getLsbD_sub_one_and _ (BitVec.lt_of_getLsbD hn), ne_eq, h.last_iff hn]
    simp [hn]
  · rw [BitVec.getLsbD_and]
    simp [hn]

/-- **Interrupts retire in the reverse order of their acknowledgement.**  In every run from
`allocate_vpic`, on each chip: the lines in service, in the order in which they were acknowledged,
have decreasing numbers, the next line to be acknowledged outranks them all, and a non-specific EOI
takes the last one of them out of service and no other. -/
theorem retire_in_order {ops : List Op} {order : Bool → List ℕ}
    (hrun : Run OrderStep (allocateVpic, fun _ => []) ops (v, order)) (slave : Bool) :
    (∀ n, n ∈ order slave ↔ (v.chip slave).isr.getLsbD n = true) ∧
      (order slave).Pairwise (· > ·) ∧
      (∀ n, ackedOn v slave .getPending = some n → ∀ m ∈ order slave, n < m) ∧
      ∀ port val v', eoiOf (v.chip slave) port val = some .nonSpecific →
        v.call (.write slave port val) = some v' →
        (∀ n, (v'.chip slave).isr.getLsbD n = true ↔
          (v.chip slave).isr.getLsbD n = true ∧ (order slave).getLast? ≠ some n) ∧
        (v'.chip (!slave)).isr = (v.chip (!slave)).isr := by
  have h : Nested v order := by
    refine Run.invariant (I := fun s : Vpic × (Bool → List ℕ) => Nested s.1 s.2) ?_ hrun nested_init
    rintro s op s' h ⟨hcall, horder⟩
    rw [horder]
    exact h.step hcall
  refine ⟨h.lists slave, h.decreases slave, fun n hn m hm => ?_,
    fun port val v' heoi hcall => h.eoi heoi hcall⟩
  exact ackedOn_outranks hn m ((h.lists slave m).mp hm)

/-- One operation with the order of acknowledgements, computed. -/
def orderCall (s : Vpic × (Bool → List ℕ)) (op : Op) : Option (Vpic × (Bool → List ℕ)) :=
  (s.1.call op).map fun v => (v, orderAfter s.1 v s.2 op)

/-- Line `4` of the master is interrupted by line `3` of the slave, and that by line `0`. -/
def nestedOps : List Op :=
  initOps ++ [.raise 4, .getPending, .raise 11, .getPending, .raise 0, .getPending]

/-- Three lines of the master are in service, and line `0` is the one to be retired. -/
theorem retire_in_order_three :
    ∃ v order, Run OrderStep (allocateVpic, fun _ => []) nestedOps (v, order) ∧
      order false = [4, 2, 0] ∧ order true = [3] ∧ (order false).Pairwise (· > ·) := by
  have hend : (nestedOps.foldlM orderCall (allocateVpic, fun _ => [])).map (fun s =>
      (s.2 false, s.2 true)) = some ([4, 2, 0], [3]) := by decide
  obtain ⟨⟨v, order⟩, hs, hobs⟩ := Option.map_eq_some_iff.mp hend
  obtain ⟨hmaster, hslave⟩ := Prod.mk.inj hobs
  have hrun : Run OrderStep (allocateVpic, fun _ => []) nestedOps (v, order) := by
    refine Run.of_foldlM orderCall (fun s op s' _ hcall => ?_) hs
    obtain ⟨v, hv, rfl⟩ := Option.map_eq_some_iff.mp hcall
    exact ⟨hv, rfl⟩
  exact ⟨v, order, hrun, hmaster, hslave, (retire_in_order hrun false).2.1⟩

end HyveMind.Vpic
