import HyveMind.Lib.Ring
import Mathlib.Logic.Function.Basic

/-! # Intrusive lists

`lib/list.h`: circular doubly linked lists whose nodes are embedded in the objects that they link.
Following a null pointer has no result.

On a ring, `list_add_tail` appends and `list_remove_head` takes the first node away; neither changes
a pointer of a node outside the ring. -/

namespace HyveMind

open Lib

namespace ListHead

variable {α : Type*} [DecidableEq α]

/-- `node->next = val`. -/
def setNext (l : Links α) (node : α) (val : Option α) : Links α :=
  { l with next := Function.update l.next node val }

/-- `node->prev = val`. -/
def setPrev (l : Links α) (node : α) (val : Option α) : Links α :=
  { l with prev := Function.update l.prev node val }

/-- `INIT_LIST_HEAD`. -/
def initListHead (l : Links α) (head : α) : Links α :=
  setPrev (setNext l head (some head)) head (some head)

/-- `__list_add`. -/
def listAddImpl (l : Links α) (newNode : α) (beforeNn afterNn : Option α) : Option (Links α) := do
  let l := setPrev (setNext l newNode afterNn) newNode beforeNn
  let before ← beforeNn
  let l := setNext l before (some newNode)
  let after ← afterNn
  return setPrev l after (some newNode)

/-- `list_add_head`. -/
def listAddHead (l : Links α) (head newNode : α) : Option (Links α) :=
  listAddImpl l newNode (some head) (l.next head)

/-- `list_add_tail`. -/
def listAddTail (l : Links α) (head newNode : α) : Option (Links α) :=
  listAddImpl l newNode (l.prev head) (some head)

/-- `__list_remove`. -/
def listRemoveImpl (l : Links α) (prev next : Option α) : Option (Links α) := do
  let before ← prev
  let l := setNext l before next
  let after ← next
  return setPrev l after prev

/-- `list_remove_entry`. -/
def listRemoveEntry (l : Links α) (rmEntry : Option α) : Option (Links α) :=
  match rmEntry with
  | none => some l
  | some entry => do
      let l ← listRemoveImpl l (l.prev entry) (l.next entry)
      return setNext (setPrev l entry none) entry none

/-- `list_remove_head`. -/
def listRemoveHead (l : Links α) (head : α) : Option (Links α) := listRemoveEntry l (l.next head)

/-- `list_remove_tail`. -/
def listRemoveTail (l : Links α) (head : α) : Option (Links α) := listRemoveEntry l (l.prev head)

/-- `is_list_empty`. -/
def isListEmpty (l : Links α) (head : α) : Bool := l.next head = some head

/-- `list_first_entry_nullable`, as a node: `some none` is its `NULL`. -/
def listFirstEntryNullable (l : Links α) (head : α) : Option (Option α) := do
  let first ← l.next head
  return if first = head then none else some first

/-- `list_last_entry_nullable`, as a node. -/
def listLastEntryNullable (l : Links α) (head : α) : Option (Option α) := do
  let last ← l.prev head
  return if last = head then none else some last

variable {l : Links α} {head n : α} {xs : List α}

theorem initListHead_ring (l : Links α) (head : α) : Ring (initListHead l head) head [] := by
  rw [ring_nil_iff]
  simp [initListHead, setNext, setPrev]

theorem listFirstEntryNullable_eq (r : Ring l head xs) :
    listFirstEntryNullable l head = some xs.head? := by
  simp only [listFirstEntryNullable, r.next_head, Option.bind_eq_bind, Option.bind_some,
    Option.pure_def, Option.some.injEq]
  cases xs with
  | nil => simp
  | cons x xs =>
      have hne : x ≠ head := fun h => r.head_notMem (h ▸ List.mem_cons_self ..)
      simp [hne]

theorem listLastEntryNullable_eq (r : Ring l head xs) :
    listLastEntryNullable l head = some xs.getLast? := by
  have hrev := listFirstEntryNullable_eq r.reverse
  rwa [List.head?_reverse] at hrev

theorem listAddImpl_spec {ys : List α} {a b : α} (r : Ring l head (xs ++ ys))
    (hn : n ∉ head :: (xs ++ ys)) (ha : (head :: xs).getLast? = some a)
    (hb : (ys ++ [head]).head? = some b) :
    ∃ l', listAddImpl l n (some a) (some b) = some l' ∧ Ring l' head (xs ++ n :: ys) ∧
      ∀ x ∉ n :: head :: (xs ++ ys), l'.next x = l.next x ∧ l'.prev x = l.prev x := by
  have hmema : a ∈ head :: (xs ++ ys) := by
    rw [← List.cons_append]
    exact List.mem_append_left _ (List.mem_of_getLast? ha)
  have hmemb : b ∈ head :: (xs ++ ys) := by
    have hb' := List.mem_of_mem_head? hb
    rw [List.mem_append, List.mem_singleton] at hb'
    simp only [List.mem_cons, List.mem_append]
    tauto
  have hna : n ≠ a := fun h => hn (h ▸ hmema)
  have hnb : n ≠ b := fun h => hn (h ▸ hmemb)
  refine ⟨_, rfl, ?_, ?_⟩
  · apply r.insert hn ha hb
    · simp [setNext, setPrev]
    · simp [setNext, setPrev, hnb]
    · simp [setNext, setPrev, hna]
    · simp [setNext, setPrev]
    · intro x h1 h2
      simp [setNext, setPrev, h1, h2]
    · intro x h1 h2
      simp [setNext, setPrev, h1, h2]
  · intro x hx
    rw [List.mem_cons, not_or] at hx
    have h1 : x ≠ a := fun h => hx.2 (h ▸ hmema)
    have h2 : x ≠ b := fun h => hx.2 (h ▸ hmemb)
    simp [setNext, setPrev, h1, h2, hx.1]

/-- **`list_add_head` puts a node in front.** -/
theorem listAddHead_spec (r : Ring l head xs) (hn : n ∉ head :: xs) :
    ∃ l', listAddHead l head n = some l' ∧ Ring l' head (n :: xs) ∧
      ∀ x ∉ n :: head :: xs, l'.next x = l.next x ∧ l'.prev x = l.prev x := by
  have r' : Ring l head ([] ++ xs) := r
  have hb : (xs ++ [head]).head? = some (xs.headD head) := by cases xs <;> rfl
  rw [listAddHead, r.next_head]
  exact listAddImpl_spec r' hn rfl hb

/-- **`list_add_tail` appends.** -/
theorem listAddTail_spec (r : Ring l head xs) (hn : n ∉ head :: xs) :
    ∃ l', listAddTail l head n = some l' ∧ Ring l' head (xs ++ [n]) ∧
      ∀ x ∉ n :: head :: xs, l'.next x = l.next x ∧ l'.prev x = l.prev x := by
  have r' : Ring l head (xs ++ []) := by rwa [List.append_nil]
  have ha : (head :: xs).getLast? = some (xs.getLastD head) := by
    rw [List.getLast?_cons, List.getLastD_eq_getLast?]
  obtain ⟨l', hcall, hring, hag⟩ := listAddImpl_spec r' (by rwa [List.append_nil]) ha rfl
  rw [listAddTail, r.prev_head]
  rw [List.append_nil] at hag
  exact ⟨l', hcall, hring, hag⟩

/-- **`list_remove_entry` takes a node away.** -/
theorem listRemoveEntry_spec {ys : List α} (r : Ring l head (xs ++ n :: ys)) :
    ∃ l', listRemoveEntry l (some n) = some l' ∧ Ring l' head (xs ++ ys) ∧
      (l'.next n = none ∧ l'.prev n = none) ∧
      ∀ x ∉ head :: (xs ++ n :: ys), l'.next x = l.next x ∧ l'.prev x = l.prev x := by
  obtain ⟨a, b, ha, hb, hprev, hnext⟩ := r.neighbours
  have hout : n ∉ head :: (xs ++ ys) := by
    have hnodup := r.1
    rw [(List.perm_middle.cons head).nodup_iff, (List.Perm.swap n head (xs ++ ys)).nodup_iff] at hnodup
    exact (List.nodup_cons.mp hnodup).1
  have hmema : a ∈ head :: (xs ++ ys) := by
    rw [← List.cons_append]
    exact List.mem_append_left _ (List.mem_of_getLast? ha)
  have hmemb : b ∈ head :: (xs ++ ys) := by
    have hb' := List.mem_of_mem_head? hb
    rw [List.mem_append, List.mem_singleton] at hb'
    simp only [List.mem_cons, List.mem_append]
    tauto
  have hna : a ≠ n := fun h => hout (h ▸ hmema)
  have hnb : b ≠ n := fun h => hout (h ▸ hmemb)
  have hcall : listRemoveEntry l (some n) = some (setNext (setPrev
      (setPrev (setNext l a (some b)) b (some a)) n none) n none) := by
    simp only [listRemoveEntry, hprev, hnext, listRemoveImpl]
    rfl
  refine ⟨_, hcall, ?_, ?_, ?_⟩
  · apply r.remove ha hb
    · simp [setNext, setPrev, hna]
    · simp [setNext, setPrev, hnb]
    · intro x h1 h2
      simp [setNext, setPrev, h1, h2]
    · intro x h1 h2
      simp [setNext, setPrev, h1, h2]
  · simp [setNext, setPrev]
  · intro x hx
    have hsub : ∀ y ∈ head :: (xs ++ ys), y ∈ head :: (xs ++ n :: ys) := by
      intro y hy
      simp only [List.mem_cons, List.mem_append] at hy ⊢
      tauto
    have h1 : x ≠ a := fun h => hx (hsub x (h ▸ hmema))
    have h2 : x ≠ b := fun h => hx (hsub x (h ▸ hmemb))
    have h3 : x ≠ n := by
      rintro rfl
      simp at hx
    simp [setNext, setPrev, h1, h2, h3]

/-- **`list_remove_head` takes the first node away.** -/
theorem listRemoveHead_spec (r : Ring l head (n :: xs)) :
    ∃ l', listRemoveHead l head = some l' ∧ Ring l' head xs ∧
      (l'.next n = none ∧ l'.prev n = none) ∧
      ∀ x ∉ head :: n :: xs, l'.next x = l.next x ∧ l'.prev x = l.prev x := by
  have r' : Ring l head ([] ++ n :: xs) := r
  rw [listRemoveHead, r.next_head]
  exact listRemoveEntry_spec r'

/-- **`list_remove_tail` takes the last node away.** -/
theorem listRemoveTail_spec (r : Ring l head (xs ++ [n])) :
    ∃ l', listRemoveTail l head = some l' ∧ Ring l' head xs ∧
      (l'.next n = none ∧ l'.prev n = none) ∧
      ∀ x ∉ head :: (xs ++ [n]), l'.next x = l.next x ∧ l'.prev x = l.prev x := by
  obtain ⟨l', hcall, hring, hnull, hag⟩ := listRemoveEntry_spec r
  rw [listRemoveTail, r.prev_head, List.getLastD_concat]
  rw [List.append_nil] at hring
  exact ⟨l', hcall, hring, hnull, hag⟩

end ListHead

end HyveMind
