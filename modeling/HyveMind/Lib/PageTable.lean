import Mathlib.Tactic

/-! # Four-level page tables in memory

Tables of 512 eight-byte entries, linked through a word memory `mem`.  The depth of a table is its
distance from the root: the root has depth `0`, the tables that map 4 KiB pages have depth `3`.  A
`Format` says which entries are present, which of them are leaves (at a given depth), and where
the table that any other entry points to is.

`table d g` is the table of depth `d` on the way to address `g`, `entry d g` the entry of `g` in
it, and `lookup` the leaf found by the walk.  All of them depend on `g` only through its leading
indices (`path`).  `Separated` says that different ways lead to different tables.  Under it a
write to one entry has exactly one effect: `table_write_leaf` and `entry_write_leaf` for an entry
that does not point on, `table_write_table` and `entry_write_table` for an entry that links a new,
empty table. -/

namespace HyveMind.Lib

/-- How entries are read. -/
structure Format where
  present : ℕ → Bool
  leaf : ℕ → ℕ → Bool
  next : ℕ → ℕ

/-- The format in which links are read by `read`. -/
def Format.reading (F : Format) (read : ℕ → ℕ) : Format := { F with next := read }

@[simp] theorem Format.reading_present (F : Format) (read : ℕ → ℕ) (e : ℕ) :
    (F.reading read).present e = F.present e := rfl

@[simp] theorem Format.reading_leaf (F : Format) (read : ℕ → ℕ) (d e : ℕ) :
    (F.reading read).leaf d e = F.leaf d e := rfl

@[simp] theorem Format.reading_next (F : Format) (read : ℕ → ℕ) (e : ℕ) :
    (F.reading read).next e = read e := rfl

namespace PageTable

/-- Position of the lowest address bit that a table of depth `d` looks at. -/
def shift (d : ℕ) : ℕ := 39 - 9 * d

/-- The index of `g` in its table of depth `d`. -/
def index (d g : ℕ) : ℕ := g / 2 ^ shift d % 512

/-- The first `d` indices of `g`. -/
def path (d g : ℕ) : ℕ := g % 2 ^ 48 / 2 ^ (48 - 9 * d)

theorem shift_eq {d : ℕ} (hd : d ≤ 3) : 48 - 9 * d = shift d + 9 ∧ 48 - 9 * (d + 1) = shift d := by
  unfold shift
  omega

theorem path_zero (g : ℕ) : path 0 g = 0 :=
  Nat.div_eq_of_lt (Nat.mod_lt _ (by norm_num))

theorem path_succ_div {d : ℕ} (hd : d ≤ 3) (g : ℕ) : path (d + 1) g / 512 = path d g := by
  obtain ⟨h1, h2⟩ := shift_eq hd
  unfold path
  rw [h1, h2, Nat.div_div_eq_div_mul, pow_add]
  norm_num

theorem path_succ_mod {d : ℕ} (hd : d ≤ 3) (g : ℕ) : path (d + 1) g % 512 = index d g := by
  obtain ⟨-, h2⟩ := shift_eq hd
  have hle : shift d + 9 ≤ 48 := by unfold shift; omega
  unfold path index
  rw [h2]
  have hdvd : 2 ^ shift d * 512 ∣ 2 ^ 48 :=
    ⟨2 ^ (48 - (shift d + 9)), by rw [show (512 : ℕ) = 2 ^ 9 by norm_num, ← pow_add, ← pow_add,
      Nat.add_sub_cancel' hle]⟩
  rw [← Nat.mod_mul_right_div_self, ← Nat.mod_mul_right_div_self, Nat.mod_mod_of_dvd _ hdvd]

/-- Two addresses share their first `d + 1` indices iff they share the first `d` and the next. -/
theorem path_succ_eq_iff {d : ℕ} (hd : d ≤ 3) {g g' : ℕ} :
    path (d + 1) g = path (d + 1) g' ↔ path d g = path d g' ∧ index d g = index d g' := by
  rw [← path_succ_div hd g, ← path_succ_div hd g', ← path_succ_mod hd g, ← path_succ_mod hd g']
  omega

theorem path_of_le {d e : ℕ} (hde : d ≤ e) (he : e ≤ 4) {g g' : ℕ} (h : path e g = path e g') :
    path d g = path d g' := by
  induction e with
  | zero => rwa [Nat.le_zero.mp hde]
  | succ e ih =>
      rcases Nat.lt_succ_iff_lt_or_eq.mp (Nat.lt_succ_of_le hde) with hlt | rfl
      · exact ih (by omega) (by omega) ((path_succ_eq_iff (by omega)).mp h).1
      · exact h

section Walk

variable (F : Format) (mem : ℕ → ℕ) (root : ℕ)

/-- The entry points to a further table. -/
def Format.descends (F : Format) (d e : ℕ) : Bool := F.present e && !F.leaf d e

/-- The table of depth `d` on the way to `g`. -/
def table : ℕ → ℕ → Option ℕ
  | 0, _ => some root
  | d + 1, g =>
      (table d g).bind fun t =>
        let e := mem (t + 8 * index d g)
        if Format.descends F d e then some (F.next e) else none

/-- The address of the entry of `g` in its table of depth `d`. -/
def slot (d g : ℕ) : Option ℕ := (table F mem root d g).map fun t => t + 8 * index d g

/-- The entry of `g` in its table of depth `d`. -/
def entry (d g : ℕ) : Option ℕ := (slot F mem root d g).map mem

/-- The walk from depth `d` on, with `n` levels left: the depth and the content of the leaf. -/
def lookupFrom : ℕ → ℕ → ℕ → Option (ℕ × ℕ)
  | 0, _, _ => none
  | n + 1, d, g =>
      (entry F mem root d g).bind fun e =>
        if F.present e then
          if F.leaf d e then some (d, e) else lookupFrom n (d + 1) g
        else none

/-- The leaf that maps `g`. -/
def lookup (g : ℕ) : Option (ℕ × ℕ) := lookupFrom F mem root 4 0 g

end Walk

section Tables

variable {F : Format} {mem mem' : ℕ → ℕ} {root : ℕ} {d d' g g' t : ℕ}

theorem table_succ : table F mem root (d + 1) g =
    (entry F mem root d g).bind fun e => if Format.descends F d e then some (F.next e) else none := by
  simp only [table, entry, slot]
  cases table F mem root d g <;> rfl

theorem table_of_link {e : ℕ} (he : entry F mem root d g = some e) (hp : F.present e = true)
    (hl : F.leaf d e = false) : table F mem root (d + 1) g = some (F.next e) := by
  rw [table_succ, he]
  simp [Format.descends, hp, hl]

theorem table_congr (hd : d ≤ 4) (h : path d g = path d g') :
    table F mem root d g = table F mem root d g' := by
  induction d with
  | zero => rfl
  | succ d ih =>
      obtain ⟨h1, h2⟩ := (path_succ_eq_iff (by omega)).mp h
      simp only [table, ih (by omega) h1, h2]

theorem slot_congr (hd : d ≤ 3) (h : path (d + 1) g = path (d + 1) g') :
    slot F mem root d g = slot F mem root d g' := by
  obtain ⟨h1, h2⟩ := (path_succ_eq_iff hd).mp h
  rw [slot, slot, table_congr (by omega) h1, h2]

theorem entry_congr (hd : d ≤ 3) (h : path (d + 1) g = path (d + 1) g') :
    entry F mem root d g = entry F mem root d g' := by
  rw [entry, entry, slot_congr hd h]

theorem lookupFrom_succ (n : ℕ) : lookupFrom F mem root (n + 1) d g =
    (entry F mem root d g).bind fun e =>
      if F.present e then
        if F.leaf d e then some (d, e) else lookupFrom F mem root n (d + 1) g
      else none := rfl

theorem lookup_of_table {n t : ℕ} (hdn : d + n = 4) (ht : table F mem root d g = some t) :
    lookup F mem root g = lookupFrom F mem root n d g := by
  induction d generalizing n t with
  | zero => rw [lookup, show n = 4 by omega]
  | succ d ih =>
      obtain ⟨u, hu, hnext⟩ := Option.bind_eq_some_iff.mp ht
      have hdesc : Format.descends F d (mem (u + 8 * index d g)) = true := by
        by_contra hno
        simp [hno] at hnext
      unfold Format.descends at hdesc
      rw [Bool.and_eq_true, Bool.not_eq_true'] at hdesc
      rw [ih (n := n + 1) (by omega) hu, lookupFrom_succ, entry, slot, hu]
      simp [hdesc.1, hdesc.2]

/-- Where it comes to an entry that is not present it finds nothing. -/
theorem lookup_none_of_table {t : ℕ} (hd : d ≤ 3) (ht : table F mem root d g = some t)
    (hp : F.present (mem (t + 8 * index d g)) = false) : lookup F mem root g = none := by
  obtain ⟨n, hn⟩ : ∃ n, d + (n + 1) = 4 := ⟨3 - d, by omega⟩
  rw [lookup_of_table hn ht, lookupFrom_succ, entry, slot, ht]
  simp [hp]

theorem lookupFrom_congr {n : ℕ} (hd : d + n ≤ 4) (h : path (d + n) g = path (d + n) g') :
    lookupFrom F mem root n d g = lookupFrom F mem root n d g' := by
  induction n generalizing d with
  | zero => rfl
  | succ n ih =>
      have hd1 : path (d + 1) g = path (d + 1) g' := path_of_le (by omega) hd h
      have hrest := ih (d := d + 1) (by omega) (by rwa [show d + 1 + n = d + (n + 1) by omega])
      simp only [lookupFrom, entry_congr (show d ≤ 3 by omega) hd1, hrest]

/-! ### Memories that agree on the entries in use -/

/-- `mem'` has the entries of the tables that are present in `mem`. -/
def KeepsPresent (F : Format) (mem mem' : ℕ → ℕ) (root : ℕ) : Prop :=
  ∀ d g a, d ≤ 3 → slot F mem root d g = some a → F.present (mem a) = true → mem' a = mem a

theorem KeepsPresent.table (h : KeepsPresent F mem mem' root) (hd : d ≤ 4)
    (ht : table F mem root d g = some t) : PageTable.table F mem' root d g = some t := by
  induction d generalizing t with
  | zero => exact ht
  | succ d ih =>
      obtain ⟨u, hu, hnext⟩ := Option.bind_eq_some_iff.mp ht
      have hslot : slot F mem root d g = some (u + 8 * index d g) := by rw [slot, hu]; rfl
      refine Option.bind_eq_some_iff.mpr ⟨u, ih (by omega) hu, ?_⟩
      cases hp : F.present (mem (u + 8 * index d g)) with
      | false => simp [Format.descends, hp] at hnext
      | true => rwa [h d g _ (by omega) hslot hp]

theorem KeepsPresent.lookupFrom (h : KeepsPresent F mem mem' root) {n : ℕ} {leaf : ℕ × ℕ}
    (hdn : d + n ≤ 4) (hleaf : lookupFrom F mem root n d g = some leaf) :
    PageTable.lookupFrom F mem' root n d g = some leaf := by
  induction n generalizing d with
  | zero => cases hleaf
  | succ n ih =>
      rw [lookupFrom_succ] at hleaf ⊢
      obtain ⟨e, he, hrest⟩ := Option.bind_eq_some_iff.mp hleaf
      obtain ⟨a, ha, rfl⟩ := Option.map_eq_some_iff.mp he
      obtain ⟨u, hu, rfl⟩ := Option.map_eq_some_iff.mp ha
      have hp : F.present (mem (u + 8 * index d g)) = true := by
        by_contra hp
        rw [if_neg hp] at hrest
        cases hrest
      have he' : entry F mem' root d g = some (mem (u + 8 * index d g)) := by
        rw [entry, slot, h.table (by omega) hu, ← h d g _ (by omega) ha hp]
        rfl
      rw [he', Option.bind_some]
      rw [if_pos hp] at hrest ⊢
      by_cases hl : F.leaf d (mem (u + 8 * index d g)) = true
      · rwa [if_pos hl] at hrest ⊢
      · rw [if_neg hl] at hrest ⊢
        exact ih (by omega) hrest

/-- Tables are page aligned, and different ways lead to different tables. -/
structure Separated (F : Format) (mem : ℕ → ℕ) (root : ℕ) : Prop where
  aligned : ∀ d g t, d ≤ 3 → table F mem root d g = some t → t % 4096 = 0
  inj : ∀ d g d' g' t, d ≤ 3 → d' ≤ 3 → table F mem root d g = some t →
    table F mem root d' g' = some t → d = d' ∧ path d g = path d' g'

theorem index_lt (d g : ℕ) : index d g < 512 := Nat.mod_lt _ (by norm_num)

theorem Separated.slot_inj (sep : Separated F mem root) (hd : d ≤ 3) (hd' : d' ≤ 3) {a : ℕ}
    (h : slot F mem root d g = some a) (h' : slot F mem root d' g' = some a) :
    d = d' ∧ path (d + 1) g = path (d' + 1) g' := by
  obtain ⟨t, ht, hta⟩ := Option.map_eq_some_iff.mp h
  obtain ⟨t', ht', hta'⟩ := Option.map_eq_some_iff.mp h'
  have h1 := sep.aligned d g t hd ht
  have h2 := sep.aligned d' g' t' hd' ht'
  have h3 := index_lt d g
  have h4 := index_lt d' g'
  have htt : t = t' := by omega
  subst htt
  obtain ⟨rfl, hp⟩ := sep.inj d g d' g' t hd hd' ht ht'
  refine ⟨rfl, (path_succ_eq_iff hd).mpr ⟨hp, by omega⟩⟩

theorem not_descends_zero (hz : F.present 0 = false) : Format.descends F d 0 = false := by
  simp [Format.descends, hz]

/-! ### Writing one entry -/

/-- Between `mem` and `mem'` the entry of `g` at depth `d`, which does not point on, is replaced
by `e`.  Cells that are no entries of the tables are free to change. -/
structure Write (F : Format) (mem mem' : ℕ → ℕ) (root d g a e : ℕ) : Prop where
  depth : d ≤ 3
  at_slot : slot F mem root d g = some a
  old : Format.descends F d (mem a) = false
  new : mem' a = e
  other : ∀ d' g' b, d' ≤ 3 → slot F mem root d' g' = some b → b ≠ a → mem' b = mem b

variable {a e : ℕ}

theorem Write.read (w : Write F mem mem' root d g a e) (sep : Separated F mem root) (hd' : d' ≤ 3)
    {b : ℕ} (hb : slot F mem root d' g' = some b) :
    mem' b = if d' = d ∧ path (d + 1) g' = path (d + 1) g then e else mem b := by
  split_ifs with h
  · obtain ⟨rfl, hp⟩ := h
    have hba : b = a := by
      rw [slot_congr hd' hp, w.at_slot] at hb
      exact (Option.some.inj hb).symm
    rw [hba, w.new]
  · refine w.other d' g' b hd' hb fun hba => h ?_
    obtain ⟨rfl, hp⟩ := sep.slot_inj hd' w.depth hb (hba ▸ w.at_slot)
    exact ⟨rfl, hp⟩

theorem Write.table_none (w : Write F mem mem' root d g a e) (hp : path (d + 1) g' = path (d + 1) g)
    (hlt : d < d') (hd' : d' ≤ 4) : table F mem root d' g' = none := by
  induction d' with
  | zero => omega
  | succ d' ih =>
      rcases Nat.lt_succ_iff_lt_or_eq.mp hlt with h | rfl
      · rw [table, ih h (by omega)]
        rfl
      · rw [table_succ, entry, slot_congr w.depth hp, w.at_slot]
        simp [w.old]

/-- A write of an entry that does not point on moves no table. -/
theorem table_write_leaf (w : Write F mem mem' root d g a e) (sep : Separated F mem root)
    (he : Format.descends F d e = false) (hd' : d' ≤ 4) :
    table F mem' root d' g' = table F mem root d' g' := by
  induction d' with
  | zero => rfl
  | succ d' ih =>
      rw [table, table, ih (by omega)]
      cases ht : table F mem root d' g' with
      | none => rfl
      | some t =>
          have hslot : slot F mem root d' g' = some (t + 8 * index d' g') := by rw [slot, ht]; rfl
          have hread := w.read sep (by omega) hslot
          simp only [Option.bind_some]
          split_ifs at hread with h
          · obtain ⟨rfl, hp⟩ := h
            have hold : t + 8 * index d' g' = a := by
              rw [slot_congr (by omega) hp, w.at_slot] at hslot
              exact (Option.some.inj hslot).symm
            rw [hread, he, hold, w.old]
            rfl
          · rw [hread]

theorem entry_write_leaf (w : Write F mem mem' root d g a e) (sep : Separated F mem root)
    (he : Format.descends F d e = false) (hd' : d' ≤ 3) :
    entry F mem' root d' g' =
      if d' = d ∧ path (d + 1) g' = path (d + 1) g then some e else entry F mem root d' g' := by
  rw [entry, slot, table_write_leaf w sep he (by omega)]
  change (slot F mem root d' g').map mem' = _
  cases hs : slot F mem root d' g' with
  | none =>
      have hn : ¬ (d' = d ∧ path (d + 1) g' = path (d + 1) g) := by
        rintro ⟨rfl, hp⟩
        rw [slot_congr hd' hp, w.at_slot] at hs
        cases hs
      simp [hn, entry, hs]
  | some b =>
      rw [Option.map_some, w.read sep hd' hs, entry, hs]
      split_ifs <;> rfl

/-- A write that links a new, empty table adds that table and moves no other. -/
theorem table_write_table (w : Write F mem mem' root d g a e) (sep : Separated F mem root)
    (he : Format.descends F d e = true) (hz : F.present 0 = false)
    (hzero : ∀ i < 512, mem' (F.next e + 8 * i) = 0) (hd' : d' ≤ 4) :
    table F mem' root d' g' =
      if d' = d + 1 ∧ path (d + 1) g' = path (d + 1) g then some (F.next e)
      else table F mem root d' g' := by
  induction d' with
  | zero => simp [table]
  | succ d' ih =>
      rw [table, ih (by omega)]
      split_ifs with h1 h2 h2
      · omega
      · have hempty := hzero (index d' g') (index_lt _ _)
        simp [hempty, not_descends_zero hz, w.table_none h1.2 (show d < d' + 1 by omega) hd']
      · obtain ⟨hdd, hp⟩ := h2
        obtain rfl : d' = d := by omega
        have hslot : slot F mem root d' g' = some a := by rw [slot_congr w.depth hp, w.at_slot]
        obtain ⟨t, ht, hta⟩ := Option.map_eq_some_iff.mp hslot
        simp [ht, hta, w.new, he]
      · rw [table]
        cases ht : table F mem root d' g' with
        | none => rfl
        | some t =>
            have hslot : slot F mem root d' g' = some (t + 8 * index d' g') := by rw [slot, ht]; rfl
            have hread := w.read sep (by omega) hslot
            rw [if_neg (by omega)] at hread
            simp only [Option.bind_some, hread]

theorem entry_write_table (w : Write F mem mem' root d g a e) (sep : Separated F mem root)
    (he : Format.descends F d e = true) (hz : F.present 0 = false)
    (hzero : ∀ i < 512, mem' (F.next e + 8 * i) = 0) (hd' : d' ≤ 3) :
    entry F mem' root d' g' =
      if d' = d ∧ path (d + 1) g' = path (d + 1) g then some e
      else if d' = d + 1 ∧ path (d + 1) g' = path (d + 1) g then some 0
      else entry F mem root d' g' := by
  rw [entry, slot, table_write_table w sep he hz hzero (by omega)]
  split_ifs with h1 h2 h2
  · omega
  · simp [hzero _ (index_lt d' g')]
  · obtain ⟨rfl, hp⟩ := h2
    have hslot : slot F mem root d' g' = some a := by rw [slot_congr w.depth hp, w.at_slot]
    change (slot F mem root d' g').map mem' = _
    rw [hslot, Option.map_some, w.new]
  · change (slot F mem root d' g').map mem' = _
    cases hs : slot F mem root d' g' with
    | none => simp [entry, hs]
    | some b =>
        rw [Option.map_some, w.read sep hd' hs, if_neg h2, entry, hs]
        rfl

end Tables

end PageTable

end HyveMind.Lib
