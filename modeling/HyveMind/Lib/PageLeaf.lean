import HyveMind.Lib.PageTable

/-! # The leaf of an address

`leafSlot` is the walk of `PageTable.lookup` from table to table; it ends with the place of the leaf
and not with its content (`lookup_eq_leafSlot`).

Who reads the links of a walk in another way than `Format.next` but with the same result finds the same
leaf (`leafSlot_reading`).  In tables of which none is used at two depths (`Levelled`) a leaf can be
replaced by another leaf without moving any leaf of the address space (`leafSlot_update`). -/

namespace HyveMind.Lib.PageTable

/-- The walk from the table `t` of depth `d` on, with `n` levels left: the depth and the address of the
leaf. -/
def leafSlot (F : Format) (mem : ℕ → ℕ) : ℕ → ℕ → ℕ → ℕ → Option (ℕ × ℕ)
  | 0, _, _, _ => none
  | n + 1, d, t, g =>
      let a := t + 8 * index d g
      if F.present (mem a) then
        if F.leaf d (mem a) then some (d, a) else leafSlot F mem n (d + 1) (F.next (mem a)) g
      else none

/-- No entry is reached at two depths. -/
def Levelled (F : Format) (mem : ℕ → ℕ) (root : ℕ) : Prop :=
  ∀ d g d' g' a, d ≤ 3 → d' ≤ 3 → slot F mem root d g = some a → slot F mem root d' g' = some a → d = d'

theorem Separated.levelled {F : Format} {mem : ℕ → ℕ} {root : ℕ} (sep : Separated F mem root) :
    Levelled F mem root := fun _ _ _ _ _ hd hd' h h' => (sep.slot_inj hd hd' h h').1

section Leaf

variable {F : Format} {mem : ℕ → ℕ} {root n d t g : ℕ}

theorem leafSlot_succ : leafSlot F mem (n + 1) d t g =
    if F.present (mem (t + 8 * index d g)) then
      if F.leaf d (mem (t + 8 * index d g)) then some (d, t + 8 * index d g)
      else leafSlot F mem n (d + 1) (F.next (mem (t + 8 * index d g))) g
    else none := rfl

theorem slot_of_table (ht : table F mem root d g = some t) :
    slot F mem root d g = some (t + 8 * index d g) := by
  rw [slot, ht]
  rfl

theorem table_of_present (ht : table F mem root d g = some t)
    (hp : F.present (mem (t + 8 * index d g)) = true)
    (hl : ¬ F.leaf d (mem (t + 8 * index d g)) = true) :
    table F mem root (d + 1) g = some (F.next (mem (t + 8 * index d g))) := by
  have hdesc : Format.descends F d (mem (t + 8 * index d g)) = true := by
    simp [Format.descends, hp, hl]
  rw [table, ht]
  simp [hdesc]

theorem lookupFrom_eq_leafSlot (ht : table F mem root d g = some t) :
    lookupFrom F mem root n d g = (leafSlot F mem n d t g).map fun p => (p.1, mem p.2) := by
  induction n generalizing d t with
  | zero => rfl
  | succ n ih =>
      rw [lookupFrom_succ, leafSlot_succ, entry, slot_of_table ht, Option.map_some, Option.bind_some]
      split_ifs with hp hl
      · rfl
      · exact ih (table_of_present ht hp hl)
      · rfl

theorem lookup_eq_leafSlot :
    lookup F mem root g = (leafSlot F mem 4 0 root g).map fun p => (p.1, mem p.2) :=
  lookupFrom_eq_leafSlot rfl

theorem leaf_of_leafSlot {d' a : ℕ} (hdn : d + n = 4) (ht : table F mem root d g = some t)
    (h : leafSlot F mem n d t g = some (d', a)) :
    d' ≤ 3 ∧ slot F mem root d' g = some a ∧ F.present (mem a) = true ∧ F.leaf d' (mem a) = true := by
  induction n generalizing d t with
  | zero => cases h
  | succ n ih =>
      rw [leafSlot_succ] at h
      split_ifs at h with hp hl
      · obtain ⟨rfl, rfl⟩ := Prod.mk.inj (Option.some.inj h)
        exact ⟨by omega, slot_of_table ht, hp, hl⟩
      · exact ih (by omega) (table_of_present ht hp hl) h

/-- Who reads the links to the tables of the walk as the format does finds the same leaf. -/
theorem leafSlot_reading {read : ℕ → ℕ} {Readable : ℕ → Prop}
    (hread : ∀ e, Readable (F.next e) → read e = F.next e)
    (hwalk : ∀ d t, d ≤ 3 → table F mem root d g = some t → Readable t) (hdn : d + n = 4)
    (ht : table F mem root d g = some t) :
    leafSlot (F.reading read) mem n d t g = leafSlot F mem n d t g := by
  induction n generalizing d t with
  | zero => rfl
  | succ n ih =>
      show (if F.present (mem (t + 8 * index d g)) then
        if F.leaf d (mem (t + 8 * index d g)) then some (d, t + 8 * index d g)
        else leafSlot (F.reading read) mem n (d + 1) (read (mem (t + 8 * index d g))) g
      else none) = leafSlot F mem (n + 1) d t g
      rw [leafSlot_succ]
      split_ifs with hp hl
      · rfl
      · have hnext := table_of_present ht hp hl
        cases n with
        | zero => rfl
        | succ n =>
            rw [hread _ (hwalk (d + 1) _ (by omega) hnext)]
            exact ih (by omega) hnext
      · rfl

theorem leafSlot_update (hlev : Levelled F mem root) {d₀ g₀ a e : ℕ} (hd₀ : d₀ ≤ 3)
    (hslot : slot F mem root d₀ g₀ = some a) (hp : F.present (mem a) = true)
    (hl : F.leaf d₀ (mem a) = true) (hp' : F.present e = true) (hl' : F.leaf d₀ e = true)
    (hdn : d + n = 4) (ht : table F mem root d g = some t) :
    leafSlot F (Function.update mem a e) n d t g = leafSlot F mem n d t g := by
  induction n generalizing d t with
  | zero => rfl
  | succ n ih =>
      rw [leafSlot_succ, leafSlot_succ]
      by_cases hb : t + 8 * index d g = a
      · obtain rfl : d = d₀ := hlev d g d₀ g₀ a (by omega) hd₀ (hb ▸ slot_of_table ht) hslot
        rw [hb, Function.update_self, hp, hl, hp', hl']
        rfl
      · rw [Function.update_of_ne hb]
        split_ifs with hpb hlb
        · rfl
        · exact ih (by omega) (table_of_present ht hpb hlb)
        · rfl

end Leaf

end HyveMind.Lib.PageTable
