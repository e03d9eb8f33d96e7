import HyveMind.TimerHeap

/-! # Deleting a timer from the middle of the heap

`delete_heap_element` puts the last timer in the place of the deleted one and then only moves it away
from the root.  The timers that remain are the right ones in any case.  The order is kept unless the last
timer is earlier than the parent of the place (`deleteHeapElement_iff`), which does not happen at the
root, the only place that `delete_root` deletes. -/

namespace HyveMind.TimerCpu

open Lib Lib.ArrayHeap

/-- What `delete_heap_element` is for: the timer at the index is taken out of the heap, and the heap is
ordered afterwards.  Behind the heap there is nothing to delete. -/
def Deletes (s : TimerCpu) (idx : ℕ) : Prop :=
  (1 ≤ idx → idx < s.insertionIdx → ∃ s', s.deleteHeapElement idx = some s' ∧
    s'.timers = s.timers ∧ s.flattenedTree idx ::ₘ s'.pending = s.pending ∧
    Ordered s'.deadline s'.flattenedTree s'.heapMaxIdx) ∧
  (s.insertionIdx ≤ idx → s.deleteHeapElement idx = some s)

variable {s : TimerCpu} {idx : ℕ}

theorem deletes_of_le_last (hord : Ordered s.deadline s.flattenedTree s.heapMaxIdx)
    (hparent : 2 ≤ idx → idx < s.heapMaxIdx →
      s.deadline (s.flattenedTree (idx / 2)) ≤ s.deadline (s.flattenedTree s.heapMaxIdx)) :
    s.Deletes idx := by
  refine ⟨fun h1 hlt => ?_, fun hge => by rw [deleteHeapElement, if_pos hge]⟩
  obtain ⟨tree, hcall, hord', helems⟩ := deleteHeapElement_spec hord h1 hlt hparent
  refine ⟨_, hcall, rfl, helems, ?_⟩
  change Ordered s.deadline tree (s.insertionIdx - 1 - 1)
  rwa [Nat.sub_sub]

/-- A last timer that is before the parent of the place is before the children too: it stays there. -/
theorem heapifyDown_stays {n fuel : ℕ} {deadline tree : ℕ → ℕ} (hord : Ordered deadline tree (n + 1))
    (hfuel : 0 < fuel) (h2 : 2 ≤ idx) (hle : idx ≤ n)
    (hlt : deadline (tree (n + 1)) < deadline (tree (idx / 2))) :
    heapifyDown deadline n fuel (Function.update tree idx (tree (n + 1))) idx =
      some (Function.update tree idx (tree (n + 1))) := by
  obtain ⟨fuel, rfl⟩ := Nat.exists_eq_add_one_of_ne_zero hfuel.ne'
  rcases pickLargest_spec deadline n (Function.update tree idx (tree (n + 1)))
      (show 1 ≤ idx by omega) with ⟨hpick, -⟩ | ⟨m, -, hne, hm, hmn, hearlier, -⟩
  · rw [heapifyDown, hpick]
    exact if_pos rfl
  · rw [Function.update_of_ne hne, Function.update_self] at hearlier
    have hparent := hord idx h2 (by omega)
    have hchild := hord m (by omega) (by omega)
    rw [hm] at hchild
    omega

/-- **When a deletion keeps the heap**: unless the last timer is put below a later one.  The root, the last
place and the places behind the heap have no such parent. -/
theorem deleteHeapElement_iff (hord : Ordered s.deadline s.flattenedTree s.heapMaxIdx) (idx : ℕ) :
    s.Deletes idx ↔ s.insertionIdx ≤ idx ∨ idx ≤ 1 ∨ idx = s.heapMaxIdx ∨
      s.deadline (s.flattenedTree (idx / 2)) ≤ s.deadline (s.flattenedTree s.heapMaxIdx) := by
  constructor
  · intro hdel
    by_contra hcon
    obtain ⟨hlt, h2, hlast, hearly⟩ : idx < s.insertionIdx ∧ 2 ≤ idx ∧ idx ≠ s.heapMaxIdx ∧
        s.deadline (s.flattenedTree s.heapMaxIdx) < s.deadline (s.flattenedTree (idx / 2)) := by
      simp only [not_or, not_le] at hcon
      exact hcon
    obtain ⟨s', hcall, -, -, hord'⟩ := hdel.1 (by omega) hlt
    set n := s.insertionIdx - 2 with hn
    have hmax : s.heapMaxIdx = n + 1 := by unfold heapMaxIdx; omega
    rw [hmax] at hord hlast hearly
    rw [deleteHeapElement_eq hlt, hmax, heapifyDown_stays hord (by omega) h2 (by omega) hearly,
      Option.map_some, Option.some_inj] at hcall
    subst hcall
    have hpair : s.deadline (Function.update s.flattenedTree idx (s.flattenedTree (n + 1)) (idx / 2)) ≤
        s.deadline (Function.update s.flattenedTree idx (s.flattenedTree (n + 1)) idx) :=
      hord' idx h2 (show idx ≤ s.insertionIdx - 1 - 1 by omega)
    rw [Function.update_self, Function.update_of_ne (by omega)] at hpair
    exact absurd hpair (Nat.not_le.mpr hearly)
  · rintro (hge | hone | hlast | hle)
    · exact deletes_of_le_last hord fun _ hlt => by unfold heapMaxIdx at hlt; omega
    · exact deletes_of_le_last hord fun h2 _ => by omega
    · exact deletes_of_le_last hord fun _ hlt => by omega
    · exact deletes_of_le_last hord fun _ _ => hle

/-- Seven timers, the second one with the later ones below it. -/
def sevenTimers : TimerCpu where
  timers p := ⟨p, 0, .oneshot⟩
  flattenedTree i := [0, 1, 10, 2, 11, 12, 3, 4].getD i 0
  capacity := 512
  insertionIdx := 8
  hwDeadline := none
  accepted := []
  invoked := []

theorem ordered_sevenTimers : Ordered sevenTimers.deadline sevenTimers.flattenedTree
    sevenTimers.heapMaxIdx := by
  intro i h1 h2
  change i ≤ 7 at h2
  interval_cases i <;> decide

theorem deletes_sevenTimers_root :
    Ordered sevenTimers.deadline sevenTimers.flattenedTree sevenTimers.heapMaxIdx ∧
      sevenTimers.Deletes 1 :=
  ⟨ordered_sevenTimers, (deleteHeapElement_iff ordered_sevenTimers 1).mpr (by decide)⟩

/-- Without the timer at index 4 the timer with the deadline 4 is below the one with the deadline 10. -/
theorem not_deletes_sevenTimers :
    Ordered sevenTimers.deadline sevenTimers.flattenedTree sevenTimers.heapMaxIdx ∧
      1 ≤ 4 ∧ 4 < sevenTimers.insertionIdx ∧ ¬ sevenTimers.Deletes 4 := by
  refine ⟨ordered_sevenTimers, by decide, by decide, fun hdel => ?_⟩
  obtain ⟨s', hcall, -, -, hord⟩ := hdel.1 (by decide) (by decide)
  have hstays : sevenTimers.deleteHeapElement 4 = some { sevenTimers with
      flattenedTree := Function.update sevenTimers.flattenedTree 4 4, insertionIdx := 7 } := rfl
  rw [hstays, Option.some_inj] at hcall
  subst hcall
  exact absurd (hord 4 (by decide) (by decide)) (by decide)

end HyveMind.TimerCpu
