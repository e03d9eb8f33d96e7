import HyveMind.ListHead
import HyveMind.Lib.Run

/-! # The intrusive list as a deque

The operations of `lib/list.h` on one list, in any order.  `Op.apply` is what an operation does to a
deque and `Op.exec` what the code does to the pointers.

`Holds` says that the pointers hold the deque, that the nodes taken out have null pointers and that the
nodes that never were in the list are as they were.  Each operation keeps it. -/

namespace HyveMind

namespace ListHead

open Lib

variable {α : Type*} [DecidableEq α]

/-- `list_for_each`, as the nodes it visits: `fuel` is the number of tests of the loop. -/
def listForEach (l : Links α) (head : α) (fuel : ℕ) : Option (List α) :=
  walk l.next head fuel (l.next head)

/-- The same loop over the other pointers. -/
def listForEachReverse (l : Links α) (head : α) (fuel : ℕ) : Option (List α) :=
  walk l.prev head fuel (l.prev head)

inductive Op (α : Type*)
  | addHead (node : α)
  | addTail (node : α)
  | removeEntry (node : α)
  | removeHead
  | removeTail
deriving DecidableEq, Repr

namespace Op

/-- The operation on the pointers. -/
def exec (head : α) (l : Links α) : Op α → Option (Links α)
  | addHead node => listAddHead l head node
  | addTail node => listAddTail l head node
  | removeEntry node => listRemoveEntry l (some node)
  | removeHead => listRemoveHead l head
  | removeTail => listRemoveTail l head

/-- The operation on the deque. -/
def apply (xs : List α) : Op α → List α
  | addHead node => node :: xs
  | addTail node => xs ++ [node]
  | removeEntry node => xs.erase node
  | removeHead => xs.tail
  | removeTail => xs.dropLast

/-- A node that is added is not in the list, and one that is removed is. -/
def Allowed (head : α) (xs : List α) : Op α → Prop
  | addHead node | addTail node => node ∉ head :: xs
  | removeEntry node => node ∈ xs
  | removeHead | removeTail => xs ≠ []

/-- The node that an operation adds. -/
def added : Op α → Option α
  | addHead node | addTail node => some node
  | removeEntry _ | removeHead | removeTail => none

end Op

/-- The contents of the deque after `ops`. -/
def contents (xs : List α) (ops : List (Op α)) : List α := ops.foldl Op.apply xs

/-- Every operation is allowed when its turn comes. -/
def AllowedAll (head : α) : List α → List (Op α) → Prop
  | _, [] => True
  | xs, op :: ops => op.Allowed head xs ∧ AllowedAll head (op.apply xs) ops

/-- The pointers `l` hold the deque `xs`; `seen` are the nodes that have been in it, and `l₀` are the
pointers before the first operation. -/
structure Holds (head : α) (l₀ : Links α) (seen xs : List α) (l : Links α) : Prop where
  ring : Ring l head xs
  subset : ∀ x ∈ xs, x ∈ seen
  head_notMem : head ∉ seen
  removed : ∀ x ∈ seen, x ∉ xs → l.next x = none ∧ l.prev x = none
  outside : ∀ x ∉ head :: seen, l.next x = l₀.next x ∧ l.prev x = l₀.prev x

variable {head : α} {l₀ l : Links α} {seen xs : List α}

theorem holds_init (l₀ : Links α) (head : α) : Holds head l₀ [] [] (initListHead l₀ head) where
  ring := initListHead_ring l₀ head
  subset := fun _ hx => hx
  head_notMem := List.not_mem_nil
  removed := fun _ hx => absurd hx List.not_mem_nil
  outside := by
    intro x hx
    have hne : x ≠ head := by simpa using hx
    simp [initListHead, setNext, setPrev, hne]

omit [DecidableEq α]

/-- An operation that adds `n` and touches the pointers of the list only. -/
theorem Holds.add (h : Holds head l₀ seen xs l) {n : α} {xs' : List α} {l' : Links α}
    (hhead : n ≠ head) (hmem : ∀ x, x ∈ xs' ↔ x = n ∨ x ∈ xs) (hring : Ring l' head xs')
    (hag : ∀ x ∉ n :: head :: xs, l'.next x = l.next x ∧ l'.prev x = l.prev x) :
    Holds head l₀ (seen ++ [n]) xs' l' where
  ring := hring
  subset := by
    intro x hx
    rcases (hmem x).mp hx with rfl | hx
    · simp
    · exact List.mem_append_left _ (h.subset x hx)
  head_notMem := by simp [h.head_notMem, hhead.symm]
  removed := by
    intro x hx hxs
    rw [hmem, not_or] at hxs
    have hseen : x ∈ seen := by simpa [hxs.1] using hx
    have hne : x ≠ head := fun heq => h.head_notMem (heq ▸ hseen)
    obtain ⟨hnext, hprev⟩ := h.removed x hseen hxs.2
    obtain ⟨hn, hp⟩ := hag x (by simp [hxs.1, hxs.2, hne])
    exact ⟨hn.trans hnext, hp.trans hprev⟩
  outside := by
    intro x hx
    simp only [List.mem_cons, List.mem_append, List.not_mem_nil, or_false, not_or] at hx
    have hxs : x ∉ xs := fun hmem => hx.2.1 (h.subset x hmem)
    obtain ⟨hnext, hprev⟩ := h.outside x (by simp [hx.1, hx.2.1])
    obtain ⟨hn, hp⟩ := hag x (by simp [hx.1, hx.2.2, hxs])
    exact ⟨hn.trans hnext, hp.trans hprev⟩

/-- An operation that takes `n` away and touches the pointers of the list only. -/
theorem Holds.remove (h : Holds head l₀ seen xs l) {n : α} {xs' : List α} {l' : Links α}
    (hmem : ∀ x, x ∈ xs ↔ x = n ∨ x ∈ xs') (hring : Ring l' head xs')
    (hnull : l'.next n = none ∧ l'.prev n = none)
    (hag : ∀ x ∉ head :: xs, l'.next x = l.next x ∧ l'.prev x = l.prev x) :
    Holds head l₀ seen xs' l' where
  ring := hring
  subset := fun x hx => h.subset x ((hmem x).mpr (.inr hx))
  head_notMem := h.head_notMem
  removed := by
    intro x hx hxs'
    by_cases hxn : x = n
    · rw [hxn]
      exact hnull
    · have hxs : x ∉ xs := by simp [hmem, hxn, hxs']
      have hne : x ≠ head := fun heq => h.head_notMem (heq ▸ hx)
      obtain ⟨hnext, hprev⟩ := h.removed x hx hxs
      obtain ⟨hn, hp⟩ := hag x (by simp [hne, hxs])
      exact ⟨hn.trans hnext, hp.trans hprev⟩
  outside := by
    intro x hx
    have hxs : x ∉ head :: xs := by
      rw [List.mem_cons, not_or] at hx ⊢
      exact ⟨hx.1, fun hmem => hx.2 (h.subset x hmem)⟩
    obtain ⟨hnext, hprev⟩ := h.outside x hx
    obtain ⟨hn, hp⟩ := hag x hxs
    exact ⟨hn.trans hnext, hp.trans hprev⟩

variable [DecidableEq α]

/-- **One operation.** -/
theorem Holds.exec (h : Holds head l₀ seen xs l) {op : Op α} (hop : op.Allowed head xs) :
    ∃ l', op.exec head l = some l' ∧
      Holds head l₀ (seen ++ op.added.toList) (op.apply xs) l' := by
  cases op with
  | addHead n =>
      obtain ⟨l', hcall, hring, hag⟩ := listAddHead_spec h.ring hop
      have hhead : n ≠ head := fun heq => hop (heq ▸ List.mem_cons_self ..)
      exact ⟨l', hcall, h.add hhead (by simp [Op.apply]) hring hag⟩
  | addTail n =>
      obtain ⟨l', hcall, hring, hag⟩ := listAddTail_spec h.ring hop
      have hhead : n ≠ head := fun heq => hop (heq ▸ List.mem_cons_self ..)
      exact ⟨l', hcall, h.add hhead (by simp [Op.apply, or_comm]) hring hag⟩
  | removeEntry n =>
      obtain ⟨ys, zs, hys, rfl, herase⟩ := List.exists_erase_eq hop
      obtain ⟨l', hcall, hring, hnull, hag⟩ := listRemoveEntry_spec h.ring
      refine ⟨l', hcall, ?_⟩
      rw [Op.added, Option.toList_none, List.append_nil, Op.apply, herase]
      refine h.remove ?_ hring hnull hag
      intro x
      simp only [List.mem_append, List.mem_cons]
      tauto
  | removeHead =>
      obtain ⟨n, ys, rfl⟩ := List.exists_cons_of_ne_nil hop
      obtain ⟨l', hcall, hring, hnull, hag⟩ := listRemoveHead_spec h.ring
      refine ⟨l', hcall, ?_⟩
      rw [Op.added, Option.toList_none, List.append_nil]
      exact h.remove (by simp [Op.apply]) hring hnull hag
  | removeTail =>
      obtain ⟨ys, n, rfl⟩ := (List.eq_nil_or_concat' xs).resolve_left hop
      obtain ⟨l', hcall, hring, hnull, hag⟩ := listRemoveTail_spec h.ring
      refine ⟨l', hcall, ?_⟩
      rw [Op.added, Option.toList_none, List.append_nil, Op.apply, List.dropLast_concat]
      exact h.remove (by simp [or_comm]) hring hnull hag

theorem Holds.run (h : Holds head l₀ seen xs l) {ops : List (Op α)} (hops : AllowedAll head xs ops) :
    ∃ l', ops.foldlM (Op.exec head) l = some l' ∧
      Holds head l₀ (seen ++ ops.filterMap Op.added) (contents xs ops) l' := by
  induction ops generalizing seen xs l with
  | nil => exact ⟨l, rfl, by simpa [contents] using h⟩
  | cons op ops ih =>
      obtain ⟨l₁, hcall, h₁⟩ := h.exec hops.1
      obtain ⟨l', hrest, h'⟩ := ih h₁ hops.2
      refine ⟨l', ?_, ?_⟩
      · rw [List.foldlM_cons, hcall]
        exact hrest
      · have hseen : seen ++ (op :: ops).filterMap Op.added =
            seen ++ op.added.toList ++ ops.filterMap Op.added := by
          rw [List.append_assoc]
          cases hadded : op.added <;> simp [hadded]
        rw [hseen]
        exact h'

/-- **The list is a deque.** -/
theorem list_is_deque (l₀ : Links α) (head : α) (ops : List (Op α)) (hops : AllowedAll head [] ops) :
    ∃ l, ops.foldlM (Op.exec head) (initListHead l₀ head) = some l ∧
      listForEach l head ((contents [] ops).length + 1) = some (contents [] ops) ∧
      listForEachReverse l head ((contents [] ops).length + 1) = some (contents [] ops).reverse ∧
      listFirstEntryNullable l head = some (contents [] ops).head? ∧
      listLastEntryNullable l head = some (contents [] ops).getLast? ∧
      (∀ x ∈ ops.filterMap Op.added, x ∉ contents [] ops → l.next x = none ∧ l.prev x = none) ∧
      ∀ x ∉ head :: ops.filterMap Op.added, l.next x = l₀.next x ∧ l.prev x = l₀.prev x := by
  obtain ⟨l, hrun, h⟩ := (holds_init l₀ head).run hops
  rw [List.nil_append] at h
  have hback := h.ring.reverse.walk_eq
  rw [List.length_reverse] at hback
  exact ⟨l, hrun, h.ring.walk_eq, hback, listFirstEntryNullable_eq h.ring,
    listLastEntryNullable_eq h.ring, h.removed, h.outside⟩

/-- Three nodes come in at both ends, and the one in the middle leaves. -/
theorem list_is_deque_three_nodes :
    AllowedAll 0 [] [.addTail 1, .addHead 2, .addTail 3, .removeEntry 1] ∧
      ∃ l, [.addTail 1, .addHead 2, .addTail 3, .removeEntry 1].foldlM (Op.exec 0)
          (initListHead ⟨fun _ => none, fun _ => none⟩ 0) = some l ∧
        listForEach l 0 3 = some [2, 3] ∧ l.next 1 = none := by
  have hops : AllowedAll 0 [] [.addTail 1, .addHead 2, .addTail 3, .removeEntry 1] := by
    simp [AllowedAll, Op.Allowed, Op.apply]
  obtain ⟨l, hrun, hnext, -, -, -, hremoved, -⟩ :=
    list_is_deque ⟨fun _ => none, fun _ => none⟩ 0 _ hops
  exact ⟨hops, l, hrun, hnext, (hremoved 1 (by simp [Op.added]) (by decide)).1⟩

end ListHead

end HyveMind
