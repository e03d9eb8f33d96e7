import Mathlib.Data.List.Chain
import Mathlib.Data.List.Nodup
import Mathlib.Tactic.Common

/-! # Circular doubly linked lists

`Links` are the two pointers of every node, `Ring l h xs` says that from the head `h` on the nodes
`xs` are linked in this order in both directions and that the last one leads back to the head.

A node enters or leaves a ring by the change of four pointers (`Ring.insert`, `Ring.remove`); a ring
depends on the pointers of its own nodes only (`Ring.congr`), and they determine it
(`Ring.unique`). -/

namespace HyveMind.Lib

/-- The pointers of every node; `none` is the null pointer. -/
structure Links (α : Type*) where
  next : α → Option α
  prev : α → Option α

variable {α : Type*} {l l' : Links α} {h n a b : α} {xs ys : List α}

/-- `a` and `b` are neighbours. -/
def Links.Adj (l : Links α) (a b : α) : Prop := l.next a = some b ∧ l.prev b = some a

/-- The nodes `xs` hang on the head `h`. -/
def Ring (l : Links α) (h : α) (xs : List α) : Prop :=
  (h :: xs).Nodup ∧ (h :: (xs ++ [h])).IsChain l.Adj

instance (l : Links α) [DecidableEq α] (a b : α) : Decidable (l.Adj a b) :=
  inferInstanceAs (Decidable (_ ∧ _))

instance (l : Links α) [DecidableEq α] (h : α) (xs : List α) : Decidable (Ring l h xs) :=
  inferInstanceAs (Decidable (_ ∧ _))

theorem Ring.nodup (r : Ring l h xs) : xs.Nodup := (List.nodup_cons.mp r.1).2

theorem Ring.head_notMem (r : Ring l h xs) : h ∉ xs := (List.nodup_cons.mp r.1).1

/-- A chain depends on the forward pointers of all nodes but the last and on the backward pointers
of all but the first. -/
theorem chain_congr {c : List α} (hc : c.IsChain l.Adj)
    (hnext : ∀ x ∈ c.dropLast, l'.next x = l.next x) (hprev : ∀ x ∈ c.tail, l'.prev x = l.prev x) :
    c.IsChain l'.Adj := by
  rw [List.isChain_iff_forall_rel_of_append_cons_cons] at hc ⊢
  intro a b c₁ c₂ heq
  obtain ⟨h1, h2⟩ := hc heq
  constructor
  · rw [hnext a, h1]
    rw [heq, List.dropLast_append_of_ne_nil (List.cons_ne_nil _ _), List.dropLast_cons_of_ne_nil
      (List.cons_ne_nil _ _)]
    simp
  · rw [hprev b, h2]
    rw [heq]
    cases c₁ <;> simp

theorem Ring.congr (r : Ring l h xs)
    (hag : ∀ x ∈ h :: xs, l'.next x = l.next x ∧ l'.prev x = l.prev x) : Ring l' h xs := by
  refine ⟨r.1, chain_congr r.2 (fun x hx => (hag x ?_).1) (fun x hx => (hag x ?_).2)⟩
  · rw [← List.cons_append, List.dropLast_concat] at hx
    exact hx
  · rw [List.tail_cons, List.mem_append, List.mem_singleton] at hx
    rw [List.mem_cons]
    exact hx.symm

theorem ring_nil_iff : Ring l h [] ↔ l.next h = some h ∧ l.prev h = some h := by
  constructor
  · rintro ⟨-, hc⟩
    exact (List.isChain_cons_cons.mp hc).1
  · intro hc
    exact ⟨List.nodup_singleton h, List.isChain_cons_cons.mpr ⟨hc, List.isChain_singleton h⟩⟩

theorem Ring.next_head (r : Ring l h xs) : l.next h = some (xs.headD h) := by
  cases xs with
  | nil => exact (ring_nil_iff.mp r).1
  | cons x xs => exact (List.isChain_cons_cons.mp r.2).1.1

theorem Ring.prev_head (r : Ring l h xs) : l.prev h = some (xs.getLastD h) := by
  rcases List.eq_nil_or_concat' xs with rfl | ⟨ys, y, rfl⟩
  · exact (ring_nil_iff.mp r).2
  · have hc := r.2
    rw [List.append_assoc, List.singleton_append, ← List.cons_append] at hc
    rw [(List.isChain_append_cons_cons.mp hc).2.1.2]
    simp

/-- A ring is two chains, from the head to `a` and from `b` to the head, and the pointers between
`a` and `b`. -/
theorem ring_chain_iff (ha : (h :: xs).getLast? = some a) (hb : (ys ++ [h]).head? = some b) :
    (h :: (xs ++ ys ++ [h])).IsChain l.Adj ↔
      (h :: xs).IsChain l.Adj ∧ (ys ++ [h]).IsChain l.Adj ∧ l.Adj a b := by
  rw [List.append_assoc, ← List.cons_append, List.isChain_append, ha, hb]
  simp only [Option.mem_def, Option.some.injEq, forall_eq']

theorem Ring.neighbours (r : Ring l h (xs ++ n :: ys)) :
    ∃ a b, (h :: xs).getLast? = some a ∧ (ys ++ [h]).head? = some b ∧
      l.prev n = some a ∧ l.next n = some b := by
  obtain ⟨a, ha⟩ : ∃ a, (h :: xs).getLast? = some a :=
    ⟨_, List.getLast?_eq_some_getLast (List.cons_ne_nil h xs)⟩
  obtain ⟨b, hb⟩ : ∃ b, (ys ++ [h]).head? = some b :=
    ⟨_, List.head?_eq_some_head (List.concat_ne_nil h ys)⟩
  obtain ⟨-, hright, hbefore⟩ := (ring_chain_iff ha (List.head?_cons ..)).mp r.2
  rw [List.cons_append, List.isChain_cons] at hright
  have hbehind := hright.1 b hb
  exact ⟨a, b, ha, hb, hbefore.2, hbehind.1⟩

theorem Ring.reverse (r : Ring l h xs) : Ring ⟨l.prev, l.next⟩ h xs.reverse := by
  obtain ⟨hnodup, hchain⟩ := r
  constructor
  · rw [List.nodup_cons, List.mem_reverse, List.nodup_reverse]
    exact List.nodup_cons.mp hnodup
  · have hrev : h :: (xs.reverse ++ [h]) = (h :: (xs ++ [h])).reverse := by simp
    rw [hrev, List.isChain_reverse]
    exact hchain.imp fun a b hab => And.comm.mp hab

/-- The nodes from `pos` on until the head comes back, if it does within `fuel` steps. -/
def walk [DecidableEq α] (next : α → Option α) (h : α) : ℕ → Option α → Option (List α)
  | 0, _ => none
  | fuel + 1, pos => do
      let pos ← pos
      if pos = h then return [] else return pos :: (← walk next h fuel (next pos))

/-- Following the pointers from the head gives the nodes in order. -/
theorem Ring.walk_eq [DecidableEq α] (r : Ring l h xs) :
    walk l.next h (xs.length + 1) (l.next h) = some xs := by
  have hwalk : ∀ (a : α) (ys : List α), (a :: (ys ++ [h])).IsChain l.Adj → h ∉ ys →
      walk l.next h (ys.length + 1) (l.next a) = some ys := by
    intro a ys hchain hh
    induction ys generalizing a with
    | nil =>
        have hnext := (List.isChain_cons_cons.mp hchain).1.1
        simp [walk, hnext]
    | cons y ys ih =>
        rw [List.mem_cons, not_or] at hh
        obtain ⟨hadj, hrest⟩ := List.isChain_cons_cons.mp hchain
        rw [hadj.1, List.length_cons, walk]
        simp [Ne.symm hh.1, ih y hrest hh.2]
  exact hwalk h xs r.2 r.head_notMem

/-- The two chains do not need the pointers between `a` and `b`, nor those of a node outside. -/
theorem halves_congr (hnodup : (h :: (xs ++ ys)).Nodup) (hn : n ∉ h :: (xs ++ ys))
    (ha : (h :: xs).getLast? = some a) (hb : (ys ++ [h]).head? = some b)
    (hnext : ∀ x, x ≠ a → x ≠ n → l'.next x = l.next x)
    (hprev : ∀ x, x ≠ b → x ≠ n → l'.prev x = l.prev x) :
    ((h :: xs).IsChain l.Adj → (h :: xs).IsChain l'.Adj) ∧
      ((ys ++ [h]).IsChain l.Adj → (ys ++ [h]).IsChain l'.Adj) := by
  obtain ⟨p, hp⟩ := List.getLast?_eq_some_iff.mp ha
  obtain ⟨q, hq⟩ := List.head?_eq_some_iff.mp hb
  have hmemA : a ∈ h :: xs := List.mem_of_getLast? ha
  have hmemB : b ∈ ys ++ [h] := List.mem_of_head? hb
  have hforth : (h :: xs ++ ys).Nodup := hnodup
  have hback : (xs ++ (ys ++ [h])).Nodup := by
    rw [← List.append_assoc]
    exact (List.perm_append_singleton h (xs ++ ys)).nodup_iff.mpr hnodup
  obtain ⟨hleft, -, hforth⟩ := List.nodup_append.mp hforth
  obtain ⟨-, hright, hback⟩ := List.nodup_append.mp hback
  have hne : ∀ x ∈ h :: xs ++ ys, x ≠ n := by
    rintro x hx rfl
    exact hn hx
  refine ⟨fun hchain => chain_congr hchain ?_ ?_, fun hchain => chain_congr hchain ?_ ?_⟩
  · intro x hx
    apply hnext x
    · rw [hp, List.dropLast_concat] at hx
      rw [hp] at hleft
      exact (List.nodup_append.mp hleft).2.2 x hx a (List.mem_singleton_self a)
    · exact hne x (List.mem_append_left _ (List.dropLast_subset _ hx))
  · intro x hx
    rw [List.tail_cons] at hx
    apply hprev x
    · exact hback x hx b hmemB
    · exact hne x (List.mem_append_left _ (List.mem_cons_of_mem _ hx))
  · intro x hx
    rw [List.dropLast_concat] at hx
    apply hnext x
    · exact (hforth a hmemA x hx).symm
    · exact hne x (List.mem_append_right _ hx)
  · intro x hx
    have hmem : x ∈ ys ++ [h] := List.mem_of_mem_tail hx
    apply hprev x
    · rw [hq, List.tail_cons] at hx
      rw [hq] at hright
      rintro rfl
      exact (List.nodup_cons.mp hright).1 hx
    · apply hne x
      rcases List.mem_append.mp hmem with hmem | hmem
      · exact List.mem_append_right _ hmem
      · rw [List.mem_singleton.mp hmem]
        exact List.mem_cons_self ..

/-- **A node enters a ring** between `a` and `b`. -/
theorem Ring.insert (r : Ring l h (xs ++ ys)) (hn : n ∉ h :: (xs ++ ys))
    (ha : (h :: xs).getLast? = some a) (hb : (ys ++ [h]).head? = some b)
    (h1 : l'.next a = some n) (h2 : l'.prev n = some a) (h3 : l'.next n = some b)
    (h4 : l'.prev b = some n) (hnext : ∀ x, x ≠ a → x ≠ n → l'.next x = l.next x)
    (hprev : ∀ x, x ≠ b → x ≠ n → l'.prev x = l.prev x) : Ring l' h (xs ++ n :: ys) := by
  obtain ⟨hnodup, hchain⟩ := r
  obtain ⟨hleft, hright, -⟩ := (ring_chain_iff ha hb).mp hchain
  obtain ⟨hleft', hright'⟩ := halves_congr hnodup hn ha hb hnext hprev
  refine ⟨?_, (ring_chain_iff ha (List.head?_cons ..)).mpr ⟨hleft' hleft, ?_, h1, h2⟩⟩
  · rw [(List.perm_middle.cons h).nodup_iff, (List.Perm.swap n h (xs ++ ys)).nodup_iff]
    exact List.nodup_cons.mpr ⟨hn, hnodup⟩
  · rw [List.cons_append, List.isChain_cons]
    refine ⟨fun c hc => ?_, hright' hright⟩
    obtain rfl := Option.some.inj (hb.symm.trans hc)
    exact ⟨h3, h4⟩

/-- **A node leaves a ring.** -/
theorem Ring.remove (r : Ring l h (xs ++ n :: ys)) (ha : (h :: xs).getLast? = some a)
    (hb : (ys ++ [h]).head? = some b) (h1 : l'.next a = some b) (h2 : l'.prev b = some a)
    (hnext : ∀ x, x ≠ a → x ≠ n → l'.next x = l.next x)
    (hprev : ∀ x, x ≠ b → x ≠ n → l'.prev x = l.prev x) : Ring l' h (xs ++ ys) := by
  obtain ⟨hnodup, hchain⟩ := r
  have hnodup' : (n :: h :: (xs ++ ys)).Nodup := by
    rw [← (List.Perm.swap n h (xs ++ ys)).nodup_iff, ← (List.perm_middle.cons h).nodup_iff]
    exact hnodup
  obtain ⟨hn, hnodup'⟩ := List.nodup_cons.mp hnodup'
  obtain ⟨hleft, hright, -⟩ := (ring_chain_iff ha (List.head?_cons ..)).mp hchain
  rw [List.cons_append, List.isChain_cons] at hright
  obtain ⟨hleft', hright'⟩ := halves_congr hnodup' hn ha hb hnext hprev
  exact ⟨hnodup', (ring_chain_iff ha hb).mpr ⟨hleft' hleft, hright' hright.2, h1, h2⟩⟩

/-- The nodes behind `a` up to the head are determined by the pointers. -/
theorem chain_unique (hx : (a :: (xs ++ [h])).IsChain l.Adj) (hy : (a :: (ys ++ [h])).IsChain l.Adj)
    (hhx : h ∉ xs) (hhy : h ∉ ys) : xs = ys := by
  induction xs generalizing a ys with
  | nil =>
      cases ys with
      | nil => rfl
      | cons y ys =>
          have h1 := (List.isChain_cons_cons.mp hx).1.1
          have h2 := (List.isChain_cons_cons.mp hy).1.1
          rw [h1, Option.some.injEq] at h2
          exact absurd (by rw [h2]; exact List.mem_cons_self ..) hhy
  | cons x xs ih =>
      cases ys with
      | nil =>
          have h1 := (List.isChain_cons_cons.mp hx).1.1
          have h2 := (List.isChain_cons_cons.mp hy).1.1
          rw [h2, Option.some.injEq] at h1
          exact absurd (by rw [h1]; exact List.mem_cons_self ..) hhx
      | cons y ys =>
          obtain ⟨h1, hx⟩ := List.isChain_cons_cons.mp hx
          obtain ⟨h2, hy⟩ := List.isChain_cons_cons.mp hy
          obtain rfl : x = y := Option.some.inj (h1.1.symm.trans h2.1)
          rw [ih hx hy (fun h => hhx (List.mem_cons_of_mem _ h))
            (fun h => hhy (List.mem_cons_of_mem _ h))]

theorem Ring.unique (r : Ring l h xs) (t : Ring l h ys) : xs = ys :=
  chain_unique r.2 t.2 r.head_notMem t.head_notMem

end HyveMind.Lib
