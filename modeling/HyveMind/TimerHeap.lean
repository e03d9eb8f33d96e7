import HyveMind.Lib.Run
import HyveMind.Timer

/-! # The heap of timers

What `add_timer` and `delete_root` do to an ordered heap (`addTimer_spec`, `deleteRoot_spec`), and
from that what a round of `irq_timer_handler` does.  `Ledger` is the account of expiries: an expiry
enters when a timer is accepted or a periodic timer is renewed, and leaves when its action is
invoked. -/

namespace HyveMind.TimerCpu

open Lib Lib.ArrayHeap

/-! ### Moving an element -/

section Sift

variable {deadline : ℕ → ℕ} {n : ℕ}

/-- `heapify_up` restores the order.  The root stays unless the moving element is earlier. -/
theorem heapifyUp_spec {fuel idx : ℕ} {tree : ℕ → ℕ} (hfuel : idx < fuel) (h1 : 1 ≤ idx)
    (hn : idx ≤ n) (hup : UpFrom deadline tree n idx) :
    ∃ tree', heapifyUp deadline fuel tree idx = some tree' ∧ Ordered deadline tree' n ∧
      elems tree' n = elems tree n ∧
      (tree' 1 = tree 1 ∨ (tree' 1 = tree idx ∧ deadline (tree idx) < deadline (tree 1))) := by
  induction fuel generalizing idx tree with
  | zero => omega
  | succ fuel ih =>
      unfold heapifyUp heapParentIdx
      by_cases hp : 0 < idx / 2
      · by_cases hle : deadline (tree (idx / 2)) ≤ deadline (tree idx)
        · rw [if_pos hp, if_pos hle]
          exact ⟨tree, rfl, hup.ordered fun _ => hle, rfl, Or.inl rfl⟩
        · rw [if_pos hp, if_neg hle, heapSwap]
          rw [not_le] at hle
          obtain ⟨tree', hcall, hord, helems, hroot⟩ := ih (by omega) hp (by omega)
            (hup.swap (by omega) hn hle)
          refine ⟨tree', hcall, hord, ?_, ?_⟩
          · rw [helems, elems_swap tree ⟨h1, hn⟩ ⟨hp, by omega⟩]
          · simp only [swap_apply, if_true] at hroot
            by_cases hpar : idx / 2 = 1
            · rw [hpar] at hroot hle
              simp only [if_true] at hroot
              rcases hroot with hroot | ⟨-, hlt⟩
              · exact Or.inr ⟨hroot, hle⟩
              · exact absurd hlt (lt_irrefl _)
            · rw [if_neg (by omega), if_neg (by omega)] at hroot
              exact hroot
      · rw [if_neg hp]
        exact ⟨tree, rfl, hup.ordered fun h2 => by omega, rfl, Or.inl rfl⟩

/-- `heapify_down` goes on with the earliest child if it is earlier than the element. -/
theorem pickLargest_spec (deadline : ℕ → ℕ) (n : ℕ) (tree : ℕ → ℕ) {idx : ℕ} (h1 : 1 ≤ idx) :
    (pickLargest deadline n tree idx = idx ∧
        ∀ i, i ≤ n → i / 2 = idx → deadline (tree idx) ≤ deadline (tree i)) ∨
      ∃ m, pickLargest deadline n tree idx = m ∧ m ≠ idx ∧ m / 2 = idx ∧ m ≤ n ∧
        deadline (tree m) < deadline (tree idx) ∧
        ∀ i, i ≤ n → i / 2 = idx → deadline (tree m) ≤ deadline (tree i) := by
  have hchild : ∀ i, i / 2 = idx → i = idx * 2 ∨ i = idx * 2 + 1 := fun i hi => by omega
  by_cases hl : idx * 2 ≤ n ∧ deadline (tree (idx * 2)) < deadline (tree idx)
  · by_cases hr : idx * 2 + 1 ≤ n ∧ deadline (tree (idx * 2 + 1)) < deadline (tree (idx * 2))
    · have hpick : pickLargest deadline n tree idx = idx * 2 + 1 := by
        dsimp only [pickLargest]
        rw [if_pos hl, if_pos hr]
      refine Or.inr ⟨idx * 2 + 1, hpick, by omega, by omega, hr.1, hr.2.trans hl.2, ?_⟩
      intro i hi hic
      rcases hchild i hic with rfl | rfl
      · exact hr.2.le
      · exact le_rfl
    · have hpick : pickLargest deadline n tree idx = idx * 2 := by
        dsimp only [pickLargest]
        rw [if_pos hl, if_neg hr]
      refine Or.inr ⟨idx * 2, hpick, by omega, by omega, hl.1, hl.2, ?_⟩
      intro i hi hic
      rcases hchild i hic with rfl | rfl
      · exact le_rfl
      · exact not_lt.mp fun h => hr ⟨hi, h⟩
  · by_cases hr : idx * 2 + 1 ≤ n ∧ deadline (tree (idx * 2 + 1)) < deadline (tree idx)
    · have hpick : pickLargest deadline n tree idx = idx * 2 + 1 := by
        dsimp only [pickLargest]
        rw [if_neg hl, if_pos hr]
      refine Or.inr ⟨idx * 2 + 1, hpick, by omega, by omega, hr.1, hr.2, ?_⟩
      intro i hi hic
      rcases hchild i hic with rfl | rfl
      · exact hr.2.le.trans (not_lt.mp fun h => hl ⟨hi, h⟩)
      · exact le_rfl
    · have hpick : pickLargest deadline n tree idx = idx := by
        dsimp only [pickLargest]
        rw [if_neg hl, if_neg hr]
      refine Or.inl ⟨hpick, ?_⟩
      intro i hi hic
      rcases hchild i hic with rfl | rfl
      · exact not_lt.mp fun h => hl ⟨hi, h⟩
      · exact not_lt.mp fun h => hr ⟨hi, h⟩

theorem heapifyDown_spec {fuel idx : ℕ} {tree : ℕ → ℕ} (hfuel : n + 2 ≤ fuel + idx) (h1 : 1 ≤ idx)
    (hidx : idx ≤ n + 1) (hdown : DownFrom deadline tree n idx) :
    ∃ tree', heapifyDown deadline n fuel tree idx = some tree' ∧ Ordered deadline tree' n ∧
      elems tree' n = elems tree n := by
  induction fuel generalizing idx tree with
  | zero => omega
  | succ fuel ih =>
      unfold heapifyDown
      rcases pickLargest_spec deadline n tree h1 with
        ⟨hpick, hstop⟩ | ⟨m, hpick, hne, hm, hmn, hlt, hmin⟩
      · simp only [hpick, if_true]
        exact ⟨tree, rfl, hdown.ordered hstop, rfl⟩
      · simp only [hpick, if_neg hne, heapSwap]
        obtain ⟨tree', hcall, hord, helems⟩ := ih (by omega) (show 1 ≤ m by omega) (by omega)
          (hdown.swap h1 hm hmn hlt hmin)
        refine ⟨tree', hcall, hord, ?_⟩
        rw [helems, elems_swap tree ⟨h1, by omega⟩ ⟨by omega, hmn⟩]

end Sift

/-! ### One call -/

/-- The addresses of the pending timers. -/
def pending (s : TimerCpu) : Multiset ℕ := elems s.flattenedTree s.heapMaxIdx

/-- The heap is within its bounds and ordered. -/
structure HeapOk (s : TimerCpu) : Prop where
  capacity : s.capacity = 512
  pos : 1 ≤ s.insertionIdx
  le : s.insertionIdx ≤ 512
  ordered : Ordered s.deadline s.flattenedTree s.heapMaxIdx

variable {s s' : TimerCpu} {p e : ℕ}

theorem card_pending (s : TimerCpu) : s.pending.card = s.heapMaxIdx := card_elems _ _

theorem HeapOk.full_iff (ok : HeapOk s) : s.pending.card = 511 ↔ s.capacity ≤ s.insertionIdx := by
  have h1 := ok.pos
  have h2 := ok.le
  rw [card_pending, heapMaxIdx, ok.capacity]
  omega

theorem getHeapRoot_eq_none : s.getHeapRoot = none ↔ s.insertionIdx ≤ 1 := by
  simp [getHeapRoot]

theorem getHeapRoot_eq_some :
    s.getHeapRoot = some e ↔ 1 < s.insertionIdx ∧ s.flattenedTree 1 = e := by
  simp [getHeapRoot]

theorem mem_pending_root (hroot : s.getHeapRoot = some e) : e ∈ s.pending := by
  rw [getHeapRoot_eq_some] at hroot
  exact mem_elems.mpr ⟨1, le_rfl, by unfold heapMaxIdx; omega, hroot.2⟩

theorem exists_root (hp : p ∈ s.pending) : ∃ e, s.getHeapRoot = some e := by
  cases hroot : s.getHeapRoot with
  | some e => exact ⟨e, rfl⟩
  | none =>
      rw [getHeapRoot_eq_none] at hroot
      obtain ⟨i, h1, h2, -⟩ := mem_elems.mp hp
      unfold heapMaxIdx at h2
      omega

theorem HeapOk.root_le (ok : HeapOk s) (hroot : s.getHeapRoot = some e) (hp : p ∈ s.pending) :
    s.deadline e ≤ s.deadline p := by
  obtain ⟨i, h1, h2, rfl⟩ := mem_elems.mp hp
  rw [← (getHeapRoot_eq_some.mp hroot).2]
  exact ok.ordered.root_le h1 h2

/-- What a successful `add_timer` does. -/
structure Added (s : TimerCpu) (p : ℕ) (s' : TimerCpu) : Prop where
  ok : HeapOk s'
  timers : s'.timers = s.timers
  accepted : s'.accepted = s.accepted
  invoked : s'.invoked = s.invoked
  pending : s'.pending = p ::ₘ s.pending
  root : (s.getHeapRoot = none ∧ s'.getHeapRoot = some p) ∨
    ∃ e, s.getHeapRoot = some e ∧ ((s'.getHeapRoot = some e ∧ s.deadline e ≤ s.deadline p) ∨
      (s'.getHeapRoot = some p ∧ s.deadline p < s.deadline e))
  programmed : ∀ e, s'.getHeapRoot = some e →
    s'.hwDeadline = if s.deadline e = s.deadline p then some (s.deadline e) else s.hwDeadline

theorem heapAddTimer_spec (ok : HeapOk s) (hroom : s.insertionIdx < s.capacity) (p : ℕ) :
    ∃ tree, s.heapAddTimer p =
        some ({ s with flattenedTree := tree, insertionIdx := s.insertionIdx + 1 }, .success) ∧
      Ordered s.deadline tree s.insertionIdx ∧ elems tree s.insertionIdx = p ::ₘ s.pending ∧
      ((s.insertionIdx = 1 ∧ tree 1 = p) ∨
        (1 < s.insertionIdx ∧ ((tree 1 = s.flattenedTree 1 ∧
          s.deadline (s.flattenedTree 1) ≤ s.deadline p) ∨
          (tree 1 = p ∧ s.deadline p < s.deadline (s.flattenedTree 1))))) := by
  have hpos := ok.pos
  have hn : s.heapMaxIdx + 1 = s.insertionIdx := by unfold heapMaxIdx; omega
  have hup : UpFrom s.deadline (Function.update s.flattenedTree s.insertionIdx p) s.insertionIdx
      s.insertionIdx := by
    constructor
    · intro i h1 h2 hne
      rw [Function.update_of_ne hne, Function.update_of_ne (by omega)]
      exact ok.ordered i h1 (by omega)
    · intro i h1 h2 h3
      omega
  obtain ⟨tree, hcall, hord, helems, hroot⟩ :=
    heapifyUp_spec (show s.insertionIdx < s.insertionIdx + 1 by omega) hpos le_rfl hup
  refine ⟨tree, ?_, hord, ?_, ?_⟩
  · rw [heapAddTimer, if_neg (by omega)]
    simp only [hcall, Option.bind_eq_bind, Option.bind_some, Option.pure_def]
  · rw [helems, pending, ← hn]
    exact elems_push _ _ _
  · rcases Nat.lt_or_ge 1 s.insertionIdx with hlt | hge
    · rw [Function.update_of_ne (by omega), Function.update_self] at hroot
      refine Or.inr ⟨hlt, hroot.imp_left fun htree => ⟨htree, ?_⟩⟩
      have hmem : p ∈ elems tree s.insertionIdx := by
        rw [helems, ← hn, elems_push]
        exact Multiset.mem_cons_self _ _
      obtain ⟨i, h1, h2, rfl⟩ := mem_elems.mp hmem
      exact htree ▸ hord.root_le h1 h2
    · have hone : s.insertionIdx = 1 := by omega
      rw [hone, Function.update_self] at hroot
      exact Or.inl ⟨hone, hroot.elim id And.left⟩

theorem addTimer_spec (ok : HeapOk s) (hroom : s.insertionIdx < s.capacity) (p : ℕ) :
    ∃ s', s.addTimer p = some (s', .success) ∧ Added s p s' := by
  obtain ⟨tree, hcall, hord, helems, hroot⟩ := heapAddTimer_spec ok hroom p
  have hpos := ok.pos
  have hcap := ok.capacity
  set s₁ : TimerCpu := { s with flattenedTree := tree, insertionIdx := s.insertionIdx + 1 } with hs₁
  have hmax : s₁.heapMaxIdx = s.insertionIdx := by simp [hs₁, heapMaxIdx]
  have hdl : s₁.deadline = s.deadline := rfl
  have hget : s₁.getHeapRoot = some (tree 1) := getHeapRoot_eq_some.mpr ⟨by simp [hs₁]; omega, rfl⟩
  have hok₁ : ∀ hw, HeapOk { s₁ with hwDeadline := hw } := fun hw =>
    ⟨hcap, by simp [hs₁], by simp [hs₁]; omega, hord⟩
  have hpend : s₁.pending = p ::ₘ s.pending := by rw [← helems, pending, hmax]
  have hroot₁ : (s.getHeapRoot = none ∧ s₁.getHeapRoot = some p) ∨
      ∃ e, s.getHeapRoot = some e ∧ ((s₁.getHeapRoot = some e ∧ s.deadline e ≤ s.deadline p) ∨
        (s₁.getHeapRoot = some p ∧ s.deadline p < s.deadline e)) := by
    rcases hroot with ⟨hone, hp⟩ | ⟨hlt, hkeep⟩
    · exact Or.inl ⟨getHeapRoot_eq_none.mpr hone.le, by rw [hget, hp]⟩
    · refine Or.inr ⟨s.flattenedTree 1, getHeapRoot_eq_some.mpr ⟨hlt, rfl⟩, ?_⟩
      rw [hget, Option.some.injEq, Option.some.injEq]
      exact hkeep
  by_cases heq : s.deadline (tree 1) = s.deadline p
  · refine ⟨{ s₁ with hwDeadline := some (s.deadline p) }, ?_, hok₁ _, rfl, rfl, rfl, hpend, hroot₁, ?_⟩
    · simp only [addTimer, hcall, Option.bind_eq_bind, Option.bind_some, ne_eq, not_true_eq_false,
        if_false, hget, hdl, heq, if_true, archReprogramTimer, Option.pure_def]
    · intro e he
      obtain rfl : tree 1 = e := Option.some.inj (hget.symm.trans he)
      rw [if_pos heq, heq]
  · refine ⟨s₁, ?_, hok₁ _, rfl, rfl, rfl, hpend, hroot₁, ?_⟩
    · simp only [addTimer, hcall, Option.bind_eq_bind, Option.bind_some, ne_eq, not_true_eq_false,
        if_false, hget, hdl, heq, Option.pure_def]
    · intro e he
      obtain rfl : tree 1 = e := Option.some.inj (hget.symm.trans he)
      rw [if_neg heq]

theorem addTimer_full (hfull : s.capacity ≤ s.insertionIdx) (p : ℕ) :
    s.addTimer p = some (s, .error) := by
  rw [addTimer, heapAddTimer, if_pos hfull]
  rfl

theorem deleteHeapElement_eq {idx : ℕ} (hlt : idx < s.insertionIdx) :
    s.deleteHeapElement idx = (heapifyDown s.deadline (s.insertionIdx - 2) s.insertionIdx
      (Function.update s.flattenedTree idx (s.flattenedTree s.heapMaxIdx)) idx).map fun tree =>
        { s with flattenedTree := tree, insertionIdx := s.insertionIdx - 1 } := by
  have hfuel : s.insertionIdx - 1 + 1 = s.insertionIdx := by omega
  rw [deleteHeapElement, if_neg (by omega), Option.map_eq_bind]
  simp only [heapMaxIdx, hfuel, Nat.sub_sub]
  rfl

/-- `delete_heap_element` takes an element out, when the last one may go below its parent. -/
theorem deleteHeapElement_spec {idx : ℕ} (hord : Ordered s.deadline s.flattenedTree s.heapMaxIdx)
    (h1 : 1 ≤ idx) (hlt : idx < s.insertionIdx)
    (hparent : 2 ≤ idx → idx < s.heapMaxIdx →
      s.deadline (s.flattenedTree (idx / 2)) ≤ s.deadline (s.flattenedTree s.heapMaxIdx)) :
    ∃ tree, s.deleteHeapElement idx =
        some { s with flattenedTree := tree, insertionIdx := s.insertionIdx - 1 } ∧
      Ordered s.deadline tree (s.insertionIdx - 2) ∧
      s.flattenedTree idx ::ₘ elems tree (s.insertionIdx - 2) = s.pending := by
  set n := s.insertionIdx - 2 with hn
  have hmax : s.heapMaxIdx = n + 1 := by unfold heapMaxIdx; omega
  rw [hmax] at hord hparent
  have hdown := hord.downFrom h1 fun h2 hle => hparent h2 (by omega)
  obtain ⟨tree, hcall, hord', helems⟩ :=
    heapifyDown_spec (show n + 2 ≤ s.insertionIdx + idx by omega) h1 (by omega) hdown
  refine ⟨tree, ?_, hord', ?_⟩
  · rw [deleteHeapElement_eq hlt, hmax, hcall]
    rfl
  · rw [helems, elems_remove _ h1 (by omega), pending, hmax]

theorem deleteRoot_spec (ok : HeapOk s) (hroot : s.getHeapRoot = some e) :
    ∃ tree, s.deleteRoot =
        some { s with flattenedTree := tree, insertionIdx := s.insertionIdx - 1 } ∧
      HeapOk { s with flattenedTree := tree, insertionIdx := s.insertionIdx - 1 } ∧
      e ::ₘ elems tree (s.insertionIdx - 2) = s.pending := by
  obtain ⟨hlt, rfl⟩ := getHeapRoot_eq_some.mp hroot
  have hle := ok.le
  obtain ⟨tree, hcall, hord, helems⟩ := deleteHeapElement_spec ok.ordered le_rfl hlt (by omega)
  refine ⟨tree, hcall, ⟨ok.capacity, by simp; omega, by simp; omega, ?_⟩, helems⟩
  change Ordered s.deadline tree (s.insertionIdx - 1 - 1)
  rwa [Nat.sub_sub]

/-! ### The account of expiries -/

/-- The pending timers with their structures. -/
def entries (s : TimerCpu) : Multiset (ℕ × Timer) := s.pending.map fun p => (p, s.timers p)

/-- The next expiries of the periodic timers of a log. -/
def renewals (log : List (ℕ × Timer)) : Multiset (ℕ × Timer) :=
  ((log.filter fun x => x.2.type = .periodic).map fun x => (x.1, x.2.advanced) : List (ℕ × Timer))

/-- Every expiry that was accepted or renewed is pending or was invoked, once. -/
def Ledger (s : TimerCpu) : Prop :=
  s.entries + (s.invoked : Multiset (ℕ × Timer)) =
    (s.accepted : Multiset (ℕ × Timer)) + renewals s.invoked

/-- A periodic timer is in the heap at most once. -/
def Single (s : TimerCpu) : Prop :=
  ∀ p, (s.timers p).type = .periodic → s.pending.count p ≤ 1

/-- The hardware is programmed to the earliest deadline. -/
def Programmed (s : TimerCpu) : Prop :=
  ∀ e, s.getHeapRoot = some e → s.hwDeadline = some (s.deadline e)

/-- A heap that is not empty has a smallest deadline, and the hardware is programmed to it. -/
theorem Programmed.least (h : Programmed s) (ok : HeapOk s) (hne : s.pending ≠ 0) :
    ∃ p ∈ s.pending, s.hwDeadline = some (s.deadline p) ∧
      ∀ q ∈ s.pending, s.deadline p ≤ s.deadline q := by
  obtain ⟨q, hq⟩ := Multiset.exists_mem_of_ne_zero hne
  obtain ⟨e, hroot⟩ := exists_root hq
  exact ⟨e, mem_pending_root hroot, h e hroot, fun q hq => ok.root_le hroot hq⟩

/-- The users of timers fill in a structure only while it is not pending, and do not add a periodic
timer that is pending. -/
def Allowed (s : TimerCpu) : Cmd → Prop
  | .init p _ => p ∉ s.pending
  | .add p => (s.timers p).type = .periodic → p ∉ s.pending

/-- The call puts no timer before `e`. -/
def NotBefore (e : ℕ) (s : TimerCpu) : Cmd → Prop
  | .init _ _ => True
  | .add p => s.deadline e ≤ s.deadline p ∨ s.capacity ≤ s.insertionIdx

/-- What calls of the timer API keep. -/
structure Kept (s s' : TimerCpu) : Prop where
  ok : HeapOk s'
  single : Single s'
  invoked : s'.invoked = s.invoked
  ledger : s'.entries + (s.accepted : Multiset (ℕ × Timer)) =
    s.entries + (s'.accepted : Multiset (ℕ × Timer))
  timers : ∀ p ∈ s.pending, p ∈ s'.pending ∧ s'.timers p = s.timers p
  programmed : Programmed s → Programmed s'

section SetTimer

variable {val : Timer}

@[simp] theorem setTimer_pending : (s.setTimer p val).pending = s.pending := rfl

@[simp] theorem setTimer_getHeapRoot : (s.setTimer p val).getHeapRoot = s.getHeapRoot := rfl

theorem setTimer_timers {q : ℕ} (hq : q ≠ p) : (s.setTimer p val).timers q = s.timers q :=
  Function.update_of_ne hq _ _

@[simp] theorem setTimer_self : (s.setTimer p val).timers p = val := Function.update_self ..

theorem setTimer_entries (hp : p ∉ s.pending) : (s.setTimer p val).entries = s.entries := by
  unfold entries
  rw [setTimer_pending]
  refine Multiset.map_congr rfl fun q hq => ?_
  have hne : q ≠ p := fun h => hp (h ▸ hq)
  rw [setTimer_timers hne]

/-- The structure of a timer that is not pending does not matter to the heap. -/
theorem HeapOk.setTimer (ok : HeapOk s) (hp : p ∉ s.pending) : HeapOk (s.setTimer p val) := by
  have hdl : ∀ i, 1 ≤ i → i ≤ s.heapMaxIdx →
      (s.setTimer p val).deadline (s.flattenedTree i) = s.deadline (s.flattenedTree i) := by
    intro i h1 h2
    have hne : s.flattenedTree i ≠ p := fun h => hp (mem_elems.mpr ⟨i, h1, h2, h⟩)
    rw [deadline, setTimer_timers hne, deadline]
  refine ⟨ok.capacity, ok.pos, ok.le, fun i h1 h2 => ?_⟩
  change (s.setTimer p val).deadline (s.flattenedTree (i / 2)) ≤
    (s.setTimer p val).deadline (s.flattenedTree i)
  change i ≤ s.heapMaxIdx at h2
  rw [hdl _ (by omega) (by omega), hdl _ (by omega) h2]
  exact ok.ordered i h1 h2

theorem Single.setTimer (single : Single s) (hp : p ∉ s.pending) : Single (s.setTimer p val) := by
  intro q hq
  rw [setTimer_pending]
  by_cases hqp : q = p
  · rw [hqp, Multiset.count_eq_zero_of_notMem hp]
    norm_num
  · rw [setTimer_timers hqp] at hq
    exact single q hq

end SetTimer

theorem Added.single (added : Added s p s') (single : Single s)
    (hp : (s.timers p).type = .periodic → p ∉ s.pending) : Single s' := by
  intro q hq
  rw [added.timers] at hq
  rw [added.pending, Multiset.count_cons]
  split_ifs with hqp
  · rw [hqp] at hq ⊢
    rw [Multiset.count_eq_zero_of_notMem (hp hq)]
  · simpa using single q hq

theorem Added.entries (added : Added s p s') : s'.entries = (p, s.timers p) ::ₘ s.entries := by
  rw [TimerCpu.entries, added.pending, Multiset.map_cons, added.timers, TimerCpu.entries]

theorem Added.programmed' (added : Added s p s') (hprog : Programmed s) : Programmed s' := by
  intro e he
  have hdl : s'.deadline e = s.deadline e := by rw [deadline, added.timers, deadline]
  rw [added.programmed e he, hdl]
  split_ifs with heq
  · rfl
  · rcases added.root with ⟨-, hp⟩ | ⟨e', he', ⟨hsame, -⟩ | ⟨hp, -⟩⟩
    · obtain rfl : p = e := Option.some.inj (hp.symm.trans he)
      exact absurd rfl heq
    · obtain rfl : e' = e := Option.some.inj (hsame.symm.trans he)
      exact hprog e' he'
    · obtain rfl : p = e := Option.some.inj (hp.symm.trans he)
      exact absurd rfl heq

/-- One call of the timer API.  The root changes iff the call puts a timer before it, and then to an
earlier timer. -/
theorem runCmd_spec (ok : HeapOk s) (single : Single s) {c : Cmd} (hc : Allowed s c) :
    ∃ s', s.runCmd c = some s' ∧ Kept s s' ∧
      ∀ r, s.getHeapRoot = some r → ∃ r', s'.getHeapRoot = some r' ∧
        ((NotBefore r s c ∧ r' = r) ∨ (¬ NotBefore r s c ∧ s'.deadline r' < s.deadline r)) := by
  cases c with
  | init p val =>
      have hne : ∀ q ∈ s.pending, q ≠ p := fun q hq h => hc (h ▸ hq)
      refine ⟨s.setTimer p val, rfl, ⟨ok.setTimer hc, single.setTimer hc, rfl, ?_, ?_, ?_⟩,
        fun r hr => ⟨r, hr, Or.inl ⟨trivial, rfl⟩⟩⟩
      · rw [setTimer_entries hc]
        rfl
      · exact fun q hq => ⟨hq, setTimer_timers (hne q hq)⟩
      · intro hprog e he
        rw [deadline, setTimer_timers (hne e (mem_pending_root he))]
        exact hprog e he
  | add p =>
      by_cases hfull : s.capacity ≤ s.insertionIdx
      · refine ⟨s, by simp [runCmd, addTimer_full hfull], ⟨ok, single, rfl, rfl, ?_, id⟩, ?_⟩
        · exact fun q hq => ⟨hq, rfl⟩
        · exact fun r hr => ⟨r, hr, Or.inl ⟨Or.inr hfull, rfl⟩⟩
      · obtain ⟨s₁, hcall, added⟩ := addTimer_spec ok (by omega) p
        refine ⟨{ s₁ with accepted := s₁.accepted ++ [(p, s₁.timers p)] }, by simp [runCmd, hcall],
          ⟨⟨added.ok.capacity, added.ok.pos, added.ok.le, added.ok.ordered⟩, added.single single hc,
            added.invoked, ?_, ?_, added.programmed'⟩, ?_⟩
        · change s₁.entries + _ = _
          rw [added.entries, added.accepted, added.timers, ← Multiset.coe_add,
            Multiset.coe_singleton, Multiset.cons_add, ← Multiset.singleton_add]
          abel
        · intro q hq
          refine ⟨?_, by rw [← added.timers]⟩
          change q ∈ s₁.pending
          rw [added.pending]
          exact Multiset.mem_cons_of_mem hq
        · intro r hr
          have hdl : s₁.deadline p = s.deadline p := by rw [deadline, added.timers, deadline]
          rcases added.root with ⟨hnone, -⟩ | ⟨r', hr', hroot⟩
          · rw [hnone] at hr
            cases hr
          · obtain rfl : r' = r := Option.some.inj (hr'.symm.trans hr)
            rcases hroot with ⟨hsame, hle⟩ | ⟨hnew, hlt⟩
            · exact ⟨r', hsame, Or.inl ⟨Or.inl hle, rfl⟩⟩
            · refine ⟨p, hnew, Or.inr ⟨fun h => ?_, hdl.trans_lt hlt⟩⟩
              exact absurd (h.resolve_right hfull) (by omega)

/-! ### One round of the handler -/

theorem Kept.refl (ok : HeapOk s) (single : Single s) : Kept s s :=
  ⟨ok, single, rfl, rfl, fun _ hp => ⟨hp, rfl⟩, id⟩

theorem Kept.trans {s₁ s₂ : TimerCpu} (k₁ : Kept s s₁) (k₂ : Kept s₁ s₂) : Kept s s₂ := by
  refine ⟨k₂.ok, k₂.single, k₂.invoked.trans k₁.invoked, ?_, fun p hp => ?_,
    fun h => k₂.programmed (k₁.programmed h)⟩
  · refine add_right_cancel (b := (s₁.accepted : Multiset (ℕ × Timer))) ?_
    rw [add_right_comm, k₂.ledger, add_right_comm, k₁.ledger, add_right_comm]
  · obtain ⟨h1, ht⟩ := k₁.timers p hp
    obtain ⟨h2, ht'⟩ := k₂.timers p h1
    exact ⟨h2, ht'.trans ht⟩

/-- Every call of a list meets `C` in the state in which it is made. -/
def CmdsMeet (C : TimerCpu → Cmd → Prop) : TimerCpu → List Cmd → Prop
  | _, [] => True
  | s, c :: cs => C s c ∧ ∀ s', s.runCmd c = some s' → CmdsMeet C s' cs

theorem cmdsMeet_and {C D : TimerCpu → Cmd → Prop} {cs : List Cmd} :
    CmdsMeet (fun s c => C s c ∧ D s c) s cs ↔ CmdsMeet C s cs ∧ CmdsMeet D s cs := by
  induction cs generalizing s with
  | nil => exact ⟨fun _ => ⟨trivial, trivial⟩, fun _ => trivial⟩
  | cons c cs ih =>
      simp only [CmdsMeet, ih]
      constructor
      · exact fun ⟨⟨h1, h2⟩, h3⟩ => ⟨⟨h1, fun s' hs' => (h3 s' hs').1⟩, h2, fun s' hs' => (h3 s' hs').2⟩
      · exact fun ⟨⟨h1, h2⟩, h3, h4⟩ => ⟨⟨h1, h3⟩, fun s' hs' => ⟨h2 s' hs', h4 s' hs'⟩⟩

/-- A list of calls: the pending timer `e` is at the root afterwards iff it was there before and no
call put a timer before it. -/
theorem runCmds_spec {r : ℕ} (ok : HeapOk s) (single : Single s) (hroot : s.getHeapRoot = some r)
    (he : e ∈ s.pending) (hr : r = e ∨ s.deadline r < s.deadline e) {cs : List Cmd}
    (hcs : CmdsMeet Allowed s cs) :
    ∃ s' r', cs.foldlM runCmd s = some s' ∧ Kept s s' ∧ s'.getHeapRoot = some r' ∧
      (r' = e ↔ r = e ∧ CmdsMeet (NotBefore e) s cs) := by
  induction cs generalizing s r with
  | nil => exact ⟨s, r, rfl, Kept.refl ok single, hroot, by simp [CmdsMeet]⟩
  | cons c cs ih =>
      obtain ⟨hallowed, hrest⟩ := hcs
      obtain ⟨s₁, hcall, k₁, hnext⟩ := runCmd_spec ok single hallowed
      obtain ⟨r₁, hroot₁, hstep⟩ := hnext r hroot
      have hdl : ∀ p ∈ s.pending, s₁.deadline p = s.deadline p := fun p hp => by
        rw [deadline, (k₁.timers p hp).2, deadline]
      have hdle := hdl e he
      have hdlr := hdl r (mem_pending_root hroot)
      have hr₁ : r₁ = e ∨ s₁.deadline r₁ < s₁.deadline e := by
        rcases hstep with ⟨-, rfl⟩ | ⟨-, hlt⟩
        · rwa [hdle, hdlr]
        · rcases hr with rfl | hr
          · exact Or.inr (by omega)
          · exact Or.inr (by omega)
      obtain ⟨s₂, r₂, hcalls, k₂, hroot₂, hiff⟩ :=
        ih k₁.ok k₁.single hroot₁ (k₁.timers e he).1 hr₁ (hrest s₁ hcall)
      refine ⟨s₂, r₂, ?_, k₁.trans k₂, hroot₂, hiff.trans ?_⟩
      · rw [List.foldlM_cons, hcall]
        exact hcalls
      have hone : (∀ s', s.runCmd c = some s' → CmdsMeet (NotBefore e) s' cs) ↔
          CmdsMeet (NotBefore e) s₁ cs :=
        ⟨fun h => h s₁ hcall, fun h s' hs' => Option.some.inj (hcall.symm.trans hs') ▸ h⟩
      have hhead : r₁ = e ↔ r = e ∧ NotBefore e s c := by
        rcases hstep with ⟨hnot, rfl⟩ | ⟨hbefore, hlt⟩
        · exact ⟨fun h => ⟨h, h ▸ hnot⟩, And.left⟩
        · refine ⟨fun h => ?_, fun ⟨h1, h2⟩ => absurd (h1 ▸ h2) hbefore⟩
          rw [h, hdle] at hlt
          rcases hr with rfl | hr
          · exact absurd hlt (lt_irrefl _)
          · omega
      rw [hhead, CmdsMeet, hone, and_assoc]

/-- The state in which the action of `e` runs. -/
def logged (s : TimerCpu) (e : ℕ) : TimerCpu := { s with invoked := s.invoked ++ [(e, s.timers e)] }

theorem renewals_append (log : List (ℕ × Timer)) (x : ℕ × Timer) :
    renewals (log ++ [x]) =
      renewals log + if x.2.type = .periodic then {(x.1, x.2.advanced)} else 0 := by
  unfold renewals
  rw [List.filter_append, List.map_append, ← Multiset.coe_add]
  split_ifs with hx
  · simp [hx]
  · simp [hx]

/-- The state `s₂` after the action of `e` and `delete_root`: the expiry of `e` has left the
account. -/
structure Fired (s : TimerCpu) (e : ℕ) (s₂ : TimerCpu) : Prop where
  ok : HeapOk s₂
  single : Single s₂
  room : s₂.insertionIdx < s₂.capacity
  timer : s₂.timers e = s.timers e
  absent : (s.timers e).type = .periodic → e ∉ s₂.pending
  invoked : s₂.invoked = s.invoked ++ [(e, s.timers e)]
  ledger : s₂.entries + (s₂.invoked : Multiset (ℕ × Timer)) =
    (s₂.accepted : Multiset (ℕ × Timer)) + renewals s.invoked

/-- `delete_root` behind an action that left `e` at the root. -/
theorem deleteRoot_fired {s₁ : TimerCpu} (ledger : Ledger s) (hroot : s.getHeapRoot = some e)
    (k : Kept (s.logged e) s₁) (hroot₁ : s₁.getHeapRoot = some e) :
    ∃ s₂, s₁.deleteRoot = some s₂ ∧ Fired s e s₂ := by
  obtain ⟨tree, hdel, ok₂, hpend⟩ := deleteRoot_spec k.ok hroot₁
  set s₂ : TimerCpu := { s₁ with flattenedTree := tree, insertionIdx := s₁.insertionIdx - 1 } with hs₂
  have hpend₂ : e ::ₘ s₂.pending = s₁.pending := hpend
  have htimer : s₂.timers e = s.timers e := (k.timers e (mem_pending_root hroot)).2
  have hinvoked : s₂.invoked = s.invoked ++ [(e, s.timers e)] := k.invoked
  have hentries : s₁.entries = (e, s.timers e) ::ₘ s₂.entries := by
    rw [entries, ← hpend₂, Multiset.map_cons, entries, ← htimer]
  refine ⟨s₂, hdel, ok₂, fun p hp => ?_, ?_, htimer, fun hper hmem => ?_, hinvoked, ?_⟩
  · have hcount := k.single p hp
    rw [← hpend₂] at hcount
    exact (Multiset.count_le_count_cons p e _).trans hcount
  · have h1 := k.ok.le
    have h2 := k.ok.capacity
    have h3 := (getHeapRoot_eq_some.mp hroot₁).1
    simp only [hs₂]
    omega
  · have h1 := k.single e (htimer.symm ▸ hper)
    have h2 := Multiset.one_le_count_iff_mem.mpr hmem
    rw [← hpend₂, Multiset.count_cons_self] at h1
    omega
  · have hkept : s₁.entries + (s.accepted : Multiset (ℕ × Timer)) =
        s.entries + (s₁.accepted : Multiset (ℕ × Timer)) := k.ledger
    change _ = (s₁.accepted : Multiset (ℕ × Timer)) + _
    rw [hentries] at hkept
    rw [hinvoked, ← Multiset.coe_add, Multiset.coe_singleton]
    unfold Ledger at ledger
    ext x
    have h1 := congrArg (Multiset.count x) hkept
    have h2 := congrArg (Multiset.count x) ledger
    simp only [Multiset.count_add, Multiset.count_cons, Multiset.count_singleton] at h1 h2 ⊢
    omega

/-- The handler takes the timer out that expired iff its action put no timer before it. -/
theorem deleteRoot_takes_iff {act : Actions} {now : ℕ} (ok : HeapOk s) (single : Single s)
    (hroot : s.getHeapRoot = some e) (hcs : CmdsMeet Allowed (s.logged e) (act now e s)) :
    ∃ s₁ s₂, s.timerAction act now e = some s₁ ∧ s₁.deleteRoot = some s₂ ∧
      (e ::ₘ s₂.pending = s₁.pending ↔ CmdsMeet (NotBefore e) (s.logged e) (act now e s)) := by
  have ok₀ : HeapOk (s.logged e) := ⟨ok.capacity, ok.pos, ok.le, ok.ordered⟩
  obtain ⟨s₁, r, hact, k, hroot₁, hr⟩ :=
    runCmds_spec ok₀ single hroot (mem_pending_root hroot) (Or.inl rfl) hcs
  obtain ⟨tree, hdel, -, hpend⟩ := deleteRoot_spec k.ok hroot₁
  refine ⟨s₁, _, hact, hdel, ?_⟩
  change e ::ₘ elems tree (s₁.insertionIdx - 2) = s₁.pending ↔ _
  rw [← hpend, Multiset.cons_inj_left, eq_comm, hr]
  exact ⟨And.right, fun h => ⟨rfl, h⟩⟩

/-- **One round.**  If the action puts no timer before the one that expired, its expiry leaves the
account and, for a periodic timer, the next one enters. -/
theorem expire_spec {act : Actions} {now : ℕ} (ok : HeapOk s) (single : Single s) (ledger : Ledger s)
    (hroot : s.getHeapRoot = some e)
    (hcs : CmdsMeet (fun s c => Allowed s c ∧ NotBefore e s c) (s.logged e) (act now e s)) :
    ∃ s', s.expire act now e = some s' ∧ HeapOk s' ∧ Single s' ∧ Ledger s' := by
  have ok₀ : HeapOk (s.logged e) := ⟨ok.capacity, ok.pos, ok.le, ok.ordered⟩
  obtain ⟨hallowed, hnot⟩ := cmdsMeet_and.mp hcs
  obtain ⟨s₁, r, hact, k, hroot₁, hr⟩ :=
    runCmds_spec ok₀ single hroot (mem_pending_root hroot) (Or.inl rfl) hallowed
  have hre : r = e := hr.mpr ⟨rfl, hnot⟩
  rw [hre] at hroot₁
  obtain ⟨s₂, hdel, fired⟩ := deleteRoot_fired ledger hroot k hroot₁
  have hcall : s.expire act now e = if (s₂.timers e).type = .periodic then
      ((s₂.setTimer e (s₂.timers e).advanced).addTimer e).map Prod.fst else some s₂ := by
    have hact' : s.timerAction act now e = some s₁ := hact
    simp only [expire, hact', hdel, Option.bind_eq_bind, Option.bind_some, Option.pure_def]
    split_ifs
    · cases (s₂.setTimer e (s₂.timers e).advanced).addTimer e <;> rfl
    · rfl
  have hrenew := renewals_append s.invoked (e, s.timers e)
  rw [← fired.invoked] at hrenew
  rw [hcall, fired.timer]
  by_cases hper : (s.timers e).type = .periodic
  · rw [if_pos hper] at hrenew ⊢
    have habsent := fired.absent hper
    obtain ⟨s₄, hadd, added⟩ := addTimer_spec (fired.ok.setTimer habsent) fired.room e
    refine ⟨s₄, by rw [hadd]; rfl, added.ok, added.single (fired.single.setTimer habsent)
      fun _ => habsent, ?_⟩
    have hinv : s₄.invoked = s₂.invoked := added.invoked
    have hacc : s₄.accepted = s₂.accepted := added.accepted
    rw [Ledger, added.entries, setTimer_entries habsent, setTimer_self, hinv, hacc, hrenew,
      Multiset.cons_add, fired.ledger, ← Multiset.singleton_add]
    abel
  · rw [if_neg hper] at hrenew ⊢
    refine ⟨s₂, rfl, fired.ok, fired.single, ?_⟩
    rw [Ledger, hrenew, add_zero]
    exact fired.ledger

/-! ### The handler and whole runs -/

/-- Every call that the actions make in the rounds of a handler meets `C` of the expired timer. -/
def RoundsMeet (C : ℕ → TimerCpu → Cmd → Prop) (act : Actions) (now : ℕ) :
    List ℕ → TimerCpu → Prop
  | [], _ => True
  | tsc :: tscs, s => ∀ e, s.getHeapRoot = some e → s.deadline e ≤ tsc →
      CmdsMeet (C e) (s.logged e) (act now e s) ∧
        ∀ s', s.expire act now e = some s' → RoundsMeet C act now tscs s'

/-- The calls that an action may make: no timer comes before the one that expired. -/
def Later (e : ℕ) (s : TimerCpu) (c : Cmd) : Prop := Allowed s c ∧ NotBefore e s c

theorem handlerLoop_spec {act : Actions} {now : ℕ} {tscs : List ℕ} (ok : HeapOk s)
    (single : Single s) (ledger : Ledger s) (hmeet : RoundsMeet Later act now tscs s)
    (hcall : s.handlerLoop act now tscs = some s') :
    HeapOk s' ∧ Single s' ∧ Ledger s' ∧ Programmed s' := by
  induction tscs generalizing s with
  | nil =>
      unfold handlerLoop at hcall
      cases hroot : s.getHeapRoot with
      | none =>
          simp only [hroot, Option.some.injEq] at hcall
          subst hcall
          refine ⟨ok, single, ledger, fun e he => ?_⟩
          rw [hroot] at he
          cases he
      | some e => simp [hroot] at hcall
  | cons tsc tscs ih =>
      unfold handlerLoop at hcall
      cases hroot : s.getHeapRoot with
      | none =>
          simp only [hroot, Option.some.injEq] at hcall
          subst hcall
          refine ⟨ok, single, ledger, fun e he => ?_⟩
          rw [hroot] at he
          cases he
      | some e =>
          simp only [hroot] at hcall
          by_cases hlt : tsc < s.deadline e
          · rw [if_pos hlt] at hcall
            obtain rfl := Option.some.inj hcall
            refine ⟨⟨ok.capacity, ok.pos, ok.le, ok.ordered⟩, single, ledger, fun e' he' => ?_⟩
            obtain rfl : e = e' := Option.some.inj (hroot.symm.trans he')
            rfl
          · rw [if_neg hlt] at hcall
            obtain ⟨hcs, hrest⟩ := hmeet e hroot (by omega)
            obtain ⟨s₁, hround, ok₁, single₁, ledger₁⟩ := expire_spec ok single ledger hroot hcs
            rw [hround, Option.bind_some] at hcall
            exact ih ok₁ single₁ ledger₁ (hrest s₁ hround) hcall

/-- What happens on one CPU: calls of the timer API, and interrupts with the values of `read_tsc`
in the handler. -/
inductive Op
  | cmd (c : Cmd)
  | irq (tscs : List ℕ)

/-- One operation that returns.  Calls from outside the handler meet `adm`, calls of timer actions
meet `C`. -/
def Step (act : Actions) (adm : TimerCpu → Cmd → Prop) (C : ℕ → TimerCpu → Cmd → Prop)
    (s : TimerCpu) : Op → TimerCpu → Prop
  | .cmd c, s' => adm s c ∧ s.runCmd c = some s'
  | .irq tscs, s' => s.irqTimerHandler act tscs = some s' ∧
      ∀ now rest, tscs = now :: rest → RoundsMeet C act now rest s

/-- The invariant of whole runs. -/
structure TimersOk (s : TimerCpu) : Prop where
  ok : HeapOk s
  single : Single s
  ledger : Ledger s
  programmed : Programmed s

theorem timersOk_init (timers : ℕ → Timer) (tree : ℕ → ℕ) : TimersOk (initTimerHeap timers tree) where
  ok := ⟨rfl, le_rfl, by simp [initTimerHeap], fun i h1 h2 => by
    simp [heapMaxIdx, initTimerHeap] at h2; omega⟩
  single := fun p _ => by simp [pending, heapMaxIdx, initTimerHeap]
  ledger := rfl
  programmed := fun e he => by simp [getHeapRoot, initTimerHeap] at he

/-- **Every operation keeps the invariant.** -/
theorem timersOk_step {act : Actions} {op : Op} (inv : TimersOk s)
    (hstep : Step act Allowed Later s op s') : TimersOk s' := by
  cases op with
  | cmd c =>
      obtain ⟨hallowed, hcall⟩ := hstep
      obtain ⟨s₁, hcall₁, k, -⟩ := runCmd_spec inv.ok inv.single hallowed
      obtain rfl : s₁ = s' := Option.some.inj (hcall₁.symm.trans hcall)
      refine ⟨k.ok, k.single, ?_, k.programmed inv.programmed⟩
      have hkept := k.ledger
      have hledger := inv.ledger
      unfold Ledger at hledger ⊢
      rw [k.invoked]
      ext x
      have h1 := congrArg (Multiset.count x) hkept
      have h2 := congrArg (Multiset.count x) hledger
      simp only [Multiset.count_add] at h1 h2 ⊢
      omega
  | irq tscs =>
      obtain ⟨hcall, hmeet⟩ := hstep
      cases tscs with
      | nil => cases hcall
      | cons now rest =>
          obtain ⟨h1, h2, h3, h4⟩ :=
            handlerLoop_spec inv.ok inv.single inv.ledger (hmeet now rest rfl) hcall
          exact ⟨h1, h2, h3, h4⟩

theorem timersOk_run {act : Actions} {timers : ℕ → Timer} {tree : ℕ → ℕ} {ops : List Op}
    (hrun : Run (Step act Allowed Later) (initTimerHeap timers tree) ops s) : TimersOk s :=
  hrun.invariant (fun _ _ _ inv hstep => timersOk_step inv hstep) (timersOk_init timers tree)

end HyveMind.TimerCpu
