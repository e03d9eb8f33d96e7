import HyveMind.RadixCanonical
import HyveMind.Lib.Run

/-! # The shape of a radix tree and the order of insertions

Every call of `__radix_tree_add` that returns is an insertion in the sense of `Adds`
(`addImpl_adds`), and among keys that the code tells apart every call returns and puts the data where
it belongs (`addImpl_separate`).

`shape_iff` says for which maps all orders of insertion give one and the same canonical tree: the code
must tell the keys apart.  It does not if a key of `2 ^ 31` bytes or more and another key part behind
the bytes that remain of the first one's length as an `int`. -/

namespace HyveMind

namespace RadixNode

open Lib

variable {node node' child child' a b : RadixNode} {c d e : UInt8} {p q s t k key loc : List UInt8}
  {v data : ℕ}

/-! ### Lengths as `int` -/

/-- The number of bytes of a string that the code looks at. -/
def seen (s : List UInt8) : ℕ := (int32 s.length).toNat

theorem seen_of_fits (h : FitsInt s) : seen s = s.length := by
  rw [seen, h.int32_length, Int.toNat_natCast]

theorem int32_lt (n : ℕ) : int32 n < 2 ^ 31 := by
  unfold int32
  split_ifs with h
  · exact_mod_cast h
  · rw [Int.bmod_def]
    split_ifs <;> omega

theorem int32_le (n : ℕ) : int32 n ≤ n := by
  unfold int32
  split_ifs with h
  · exact le_refl _
  · rw [Int.bmod_def]
    split_ifs <;> omega

/-- What is left of a string behind bytes that were looked at. -/
theorem int32_sub {n m : ℕ} (h : (m : ℤ) ≤ int32 n) : int32 (n - m) = int32 n - m := by
  have hle : m ≤ n := by
    have := int32_le n
    omega
  by_cases hn : n < 2 ^ 31
  · rw [int32_of_lt hn, int32_of_lt (by omega)]
    omega
  · unfold int32 at h ⊢
    rw [if_neg hn, Int.bmod_def] at h
    rw [if_neg hn, Int.bmod_def n]
    split_ifs at h with hpos
    · rw [if_pos hpos, if_neg (by omega), Int.bmod_def, if_pos (by omega)]
      omega
    · omega

theorem commonPrefixLoop_take (a b : List UInt8) (i j : ℕ) :
    commonPrefixLoop (a.take i) (b.take j) = min (commonPrefixLoop a b) (min i j) := by
  induction a generalizing b i j with
  | nil => simp [commonPrefixLoop]
  | cons c a ih =>
      cases b with
      | nil => simp [commonPrefixLoop]
      | cons d b =>
          cases i with
          | zero => simp [commonPrefixLoop]
          | succ i =>
              cases j with
              | zero => simp [commonPrefixLoop]
              | succ j =>
                  simp only [List.take_succ_cons, commonPrefixLoop]
                  split_ifs
                  · simp
                  · rw [ih]
                    omega

theorem getCommonPrefixLength_min (p key : List UInt8) :
    getCommonPrefixLength p key = min (commonPrefixLoop p key) (min (seen p) (seen key)) :=
  commonPrefixLoop_take ..

theorem commonPrefixLoop_comm (a b : List UInt8) : commonPrefixLoop a b = commonPrefixLoop b a := by
  induction a generalizing b with
  | nil => cases b <;> rfl
  | cons c a ih =>
      cases b with
      | nil => rfl
      | cons d b => simp only [commonPrefixLoop, ih b, ne_comm]

theorem commonPrefixLoop_append_append (q a b : List UInt8) :
    commonPrefixLoop (q ++ a) (q ++ b) = q.length + commonPrefixLoop a b := by
  induction q with
  | nil => simp
  | cons c q ih =>
      simp only [List.cons_append, commonPrefixLoop, ih]
      simp
      omega

theorem take_of_le_common {m : ℕ} (h : m ≤ commonPrefixLoop p key) : p.take m = key.take m := by
  obtain ⟨q, p', key', rfl, rfl, hlen, -⟩ := commonPrefixLoop_eq p key
  rw [hlen] at h
  rw [List.take_append_of_le_length h, List.take_append_of_le_length h]

theorem coversPrefix_iff {m : ℕ} : coversPrefix m p = .eq ↔ (m : ℤ) = int32 p.length := by
  rw [coversPrefix, compare_eq_iff_eq]

/-! ### Calls that return -/

section Calls

variable {alloc : ℕ → Bool} {fuel n n' : ℕ} {success : Bool}

/-- Below a prefix with which the key has nothing in common the recursion does not end. -/
theorem addImpl_stuck (halloc : ∀ i, alloc i = true) (hc : node.children c = some child)
    (hp : child.nodePrefix = some (c :: p))
    (hcommon : getCommonPrefixLength (c :: p) (c :: key) = 0)
    (hcov : coversPrefix 0 (c :: p) ≠ .eq) (fuel n : ℕ) :
    radixTreeAddImpl alloc data fuel node (c :: key) n = none := by
  induction fuel generalizing node child n with
  | zero => rfl
  | succ fuel ih =>
      rw [addImpl_parted (q := []) (halloc _) (halloc _) (halloc _) hc hp hcommon hcov]
      have hslot : (splitNode child [] c p).children c =
          some { child with nodePrefix := some (c :: p) } := setChild_self
      rw [List.length_nil, List.drop_zero, ih hslot rfl, Option.map_none]

theorem addImpl_leaf (h₀ : alloc n = true) (h₁ : alloc (n + 1) = true)
    (hc : node.children c = none) (fuel : ℕ) :
    radixTreeAddImpl alloc data (fuel + 2) node (c :: key) n =
      some (node.setChild c (leafNode (c :: key) data), true, n + 2) := by
  simp only [radixTreeAddImpl, hc, h₀, h₁, if_true, Option.bind_eq_bind, Option.bind_some]
  rfl

theorem addImpl_eq_leaf (halloc : ∀ i, alloc i = true) (hc : node.children c = none)
    (hadd : radixTreeAddImpl alloc data fuel node (c :: key) n = some (node', success, n')) :
    node' = node.setChild c (leafNode (c :: key) data) := by
  cases fuel with
  | zero => cases hadd
  | succ fuel =>
      cases fuel with
      | zero => simp [radixTreeAddImpl, hc, halloc] at hadd
      | succ fuel =>
          rw [addImpl_leaf (halloc _) (halloc _) hc, Option.some.injEq, Prod.mk.injEq] at hadd
          exact hadd.1.symm

theorem addImpl_eq_here
    (hadd : radixTreeAddImpl alloc data fuel node [] n = some (node', success, n')) :
    node' = { node with terminating := true, data := data } := by
  cases fuel with
  | zero => cases hadd
  | succ fuel =>
      simp only [radixTreeAddImpl, Option.some.injEq, Prod.mk.injEq] at hadd
      exact hadd.1.symm

theorem common_lt_int32 (hcov : coversPrefix (getCommonPrefixLength p key) p ≠ .eq)
    (hpos : getCommonPrefixLength p key ≠ 0) :
    (getCommonPrefixLength p key : ℤ) < int32 p.length := by
  rw [ne_eq, coversPrefix_iff] at hcov
  have hmin := getCommonPrefixLength_min p key
  unfold seen at hmin
  omega

/-- Behind a split in front of equal bytes the code looks at nothing of the key, and it takes the next
prefix as not covered. -/
theorem common_behind_split
    (hcommon : getCommonPrefixLength (q ++ d :: s) (q ++ d :: t) = q.length)
    (hm : (q.length : ℤ) < int32 (q ++ d :: s).length) (hpos : q ≠ []) :
    int32 (d :: t).length = 0 ∧ getCommonPrefixLength (d :: s) (d :: t) = 0 ∧
      coversPrefix 0 (d :: s) ≠ .eq := by
  have hmin := getCommonPrefixLength_min (q ++ d :: s) (q ++ d :: t)
  have hlcp : q.length < commonPrefixLoop (q ++ d :: s) (q ++ d :: t) := by
    rw [commonPrefixLoop_append_append]
    simp [commonPrefixLoop]
  have hkey : int32 (q ++ d :: t).length = q.length := by
    have hqpos : 0 < q.length := List.length_pos_of_ne_nil hpos
    unfold seen at hmin
    omega
  have hrest : int32 (d :: t).length = 0 := by
    have hsub := int32_sub (n := (q ++ d :: t).length) (m := q.length) (by omega)
    rw [List.length_append, Nat.add_sub_cancel_left] at hsub
    rw [hsub, ← List.length_append, hkey, sub_self]
  have hprefix : int32 (d :: s).length = int32 (q ++ d :: s).length - q.length := by
    have hsub := int32_sub (n := (q ++ d :: s).length) (m := q.length) (by omega)
    rwa [List.length_append, Nat.add_sub_cancel_left, ← List.length_append] at hsub
  refine ⟨hrest, ?_, ?_⟩
  · rw [getCommonPrefixLength_min, seen, seen, hrest]
    simp
  · rw [ne_eq, coversPrefix_iff, hprefix]
    omega

/-- The next bytes behind a split of a call that returns are different. -/
theorem rest_ne (halloc : ∀ i, alloc i = true) {q' : List UInt8}
    (hcommon : getCommonPrefixLength (q ++ d :: s) (q ++ d :: t) = q.length)
    (hm : (q.length : ℤ) < int32 (q ++ d :: s).length)
    (hpos : q ≠ []) (fuel n : ℕ) :
    radixTreeAddImpl alloc data fuel (splitNode child q' d s) (d :: t) n = none := by
  obtain ⟨-, hzero, hcov⟩ := common_behind_split hcommon hm hpos
  have hslot : (splitNode child q' d s).children d =
      some { child with nodePrefix := some (d :: s) } := setChild_self
  exact addImpl_stuck halloc hslot rfl hzero hcov fuel n

/-- The two parts of a prefix and of a key that it shares its first bytes with. -/
theorem exists_parts {m : ℕ} (hzero : m ≠ 0) (hlen : m < (c :: p).length)
    (htake : (c :: p).take m = (c :: key).take m) :
    ∃ q d s rest, c :: p = c :: q ++ d :: s ∧ c :: key = c :: q ++ rest ∧ (c :: q).length = m := by
  obtain ⟨m, rfl⟩ := Nat.exists_eq_add_one_of_ne_zero hzero
  have hdrop : (c :: p).drop (m + 1) ≠ [] := by
    rw [ne_eq, List.drop_eq_nil_iff]
    omega
  obtain ⟨d, s, hds⟩ := List.exists_cons_of_ne_nil hdrop
  rw [List.take_succ_cons, List.take_succ_cons, List.cons.injEq] at htake
  refine ⟨p.take m, d, s, (c :: key).drop (m + 1), ?_, ?_, ?_⟩
  · rw [← hds, ← List.take_succ_cons, List.take_append_drop]
  · rw [htake.2, ← List.take_succ_cons, List.take_append_drop]
  · rw [← List.take_succ_cons, List.length_take]
    omega

theorem adds_of_split {mid : RadixNode} {rest : List UInt8} (halloc : ∀ i, alloc i = true)
    (hc : node.children c = some child) (hp : child.nodePrefix = some (c :: q ++ d :: s))
    (hcommon : getCommonPrefixLength (c :: q ++ d :: s) (c :: q ++ rest) = (c :: q).length)
    (hlt : ((c :: q).length : ℤ) < int32 (c :: q ++ d :: s).length)
    (hcall : radixTreeAddImpl alloc data fuel (splitNode child (c :: q) d s) rest n =
      some (mid, success, n')) :
    ∃ loc, Adds data node (c :: q ++ rest) (node.setChild c mid) loc := by
  cases rest with
  | nil =>
      rw [addImpl_eq_here hcall, List.append_nil]
      exact ⟨c :: q, .stop hc hp hlt⟩
  | cons e t =>
      by_cases hed : e = d
      · subst hed
        rw [rest_ne halloc hcommon hlt (List.cons_ne_nil c q)] at hcall
        cases hcall
      · have hslot : (splitNode child (c :: q) d s).children e = none := setChild_of_ne hed
        rw [addImpl_eq_leaf halloc hslot hcall]
        exact ⟨c :: q ++ e :: t, .fork hc hp hlt hed⟩

/-- **A call that returns** is an insertion. -/
theorem addImpl_adds (halloc : ∀ i, alloc i = true) (h : Slotted node)
    (hadd : radixTreeAddImpl alloc data fuel node key n = some (node', success, n')) :
    ∃ loc, Adds data node key node' loc := by
  induction fuel generalizing node key n node' success n' with
  | zero => cases hadd
  | succ fuel ih =>
      cases key with
      | nil =>
          rw [addImpl_eq_here hadd]
          exact ⟨[], .here⟩
      | cons c key =>
          cases hc : node.children c with
          | none =>
              rw [addImpl_eq_leaf halloc hc hadd]
              exact ⟨c :: key, .leaf hc⟩
          | some child =>
              obtain ⟨p, hp⟩ := h.slot hc
              have hmin := getCommonPrefixLength_min (c :: p) (c :: key)
              have htake := take_of_le_common (hmin ▸ min_le_left _ _)
              by_cases hcov : coversPrefix (getCommonPrefixLength (c :: p) (c :: key)) (c :: p) = .eq
              · rw [addImpl_covered hc hp hcov, Option.map_eq_some_iff] at hadd
                obtain ⟨⟨child', r⟩, hcall, hr⟩ := hadd
                cases hr
                obtain ⟨loc, hloc⟩ := ih (h.ofChild hc) hcall
                refine ⟨c :: p ++ loc, .inChild hc hp (coversPrefix_iff.mp hcov).symm ?_ hloc⟩
                rw [htake, List.take_append_drop]
              · obtain ⟨m, hm⟩ : ∃ m, getCommonPrefixLength (c :: p) (c :: key) = m := ⟨_, rfl⟩
                have hzero : m ≠ 0 := by
                  rintro rfl
                  rw [addImpl_stuck halloc hc hp hm (hm ▸ hcov)] at hadd
                  cases hadd
                have hlt := common_lt_int32 hcov (hm ▸ hzero)
                rw [hm] at hlt hcov htake
                have hlen : m < (c :: p).length := by
                  have := int32_le (c :: p).length
                  omega
                obtain ⟨q, d, s, rest, hpq, hkq, hql⟩ := exists_parts hzero hlen htake
                rw [hpq] at hp hm hcov hlt
                rw [← hql] at hm hcov hlt
                rw [addImpl_parted (halloc _) (halloc _) (halloc _) hc hp hm hcov,
                  Option.map_eq_some_iff] at hadd
                obtain ⟨⟨mid, r⟩, hcall, hr⟩ := hadd
                cases hr
                rw [hkq, List.drop_left] at hcall
                rw [hkq] at hm ⊢
                exact adds_of_split halloc hc hp hm hlt hcall

/-! ### Keys that the code tells apart -/

/-- The code tells `K` from `k`: they have no common beginning, or the length of `K` is an `int`, or
they part in the bytes of `K` that the code looks at. -/
def PartsFrom (K k : List UInt8) : Prop :=
  commonPrefixLoop K k = 0 ∨ FitsInt K ∨ (commonPrefixLoop K k : ℤ) < int32 K.length

/-- The node has the key `k`. -/
def Holds (node : RadixNode) (k : List UInt8) : Prop := ∃ v, HasKey node k v

/-- The keys of the node and the new key `key` are all told apart. -/
structure Separate (node : RadixNode) (key : List UInt8) : Prop where
  keys : ∀ y z, Holds node y → Holds node z → y ≠ z → PartsFrom y z
  new : ∀ y, Holds node y → y ≠ key ∧ PartsFrom y key ∧ PartsFrom key y

theorem Placed.holds (h : Placed node node' loc data) : Holds node' k ↔ k = loc ∨ Holds node k := by
  constructor
  · rintro ⟨v, hv⟩
    rcases (h k v).mp hv with ⟨hk, -⟩ | ⟨-, hk⟩
    · exact Or.inl hk
    · exact Or.inr ⟨v, hk⟩
  · intro hk
    by_cases hloc : k = loc
    · exact ⟨data, (h k data).mpr (Or.inl ⟨hloc, rfl⟩)⟩
    · obtain ⟨v, hv⟩ := hk.resolve_left hloc
      exact ⟨v, (h k v).mpr (Or.inr ⟨hloc, hv⟩)⟩

theorem PartsFrom.of_append (hq : q ≠ []) (h : PartsFrom (q ++ s) (q ++ t)) : PartsFrom s t := by
  unfold PartsFrom at h ⊢
  rw [commonPrefixLoop_append_append] at h
  have hpos : 0 < q.length := List.length_pos_of_ne_nil hq
  rcases h with h | h | h
  · omega
  · exact Or.inr (Or.inl (h.of_le (by rw [List.length_append]; omega)))
  · have hsub := int32_sub (n := (q ++ s).length) (m := q.length) (by push_cast at h ⊢; omega)
    rw [List.length_append, Nat.add_sub_cancel_left, ← List.length_append] at hsub
    push_cast at h
    omega

theorem Separate.ofChild (h : Separate node (c :: p ++ key)) (hc : node.children c = some child)
    (hp : child.nodePrefix = some (c :: p)) : Separate child key := by
  have hholds : ∀ y, Holds child y → Holds node (c :: p ++ y) :=
    fun y ⟨v, hv⟩ => ⟨v, .inChild hc hp hv⟩
  constructor
  · intro y z hy hz hne
    refine PartsFrom.of_append (List.cons_ne_nil c p) (h.keys _ _ (hholds y hy) (hholds z hz) ?_)
    simpa using hne
  · intro y hy
    obtain ⟨hne, hy1, hy2⟩ := h.new _ (hholds y hy)
    exact ⟨fun heq => hne (by rw [heq]), .of_append (List.cons_ne_nil c p) hy1,
      .of_append (List.cons_ne_nil c p) hy2⟩

theorem commonPrefixLoop_le_append (p t key : List UInt8) :
    commonPrefixLoop p key ≤ commonPrefixLoop (p ++ t) key := by
  have htake := commonPrefixLoop_take (p ++ t) key p.length key.length
  rw [List.take_left, List.take_length] at htake
  omega

theorem commonPrefixLoop_le_length (p key : List UInt8) : commonPrefixLoop p key ≤ key.length := by
  obtain ⟨q, p', key', -, rfl, hlen, -⟩ := commonPrefixLoop_eq p key
  rw [hlen, List.length_append]
  omega

/-- The prefix of a child whose length is not an `int` is a key, and parts early from a new one. -/
theorem Separate.prefix_fits (h : Separate node key) (hnode : Canonical node)
    (hc : node.children c = some child) (hp : child.nodePrefix = some p)
    (hpos : commonPrefixLoop p key ≠ 0) :
    FitsInt p ∨ (commonPrefixLoop p key : ℤ) < int32 p.length := by
  rcases hnode.branch hc with ht | hbr
  · have hkey : Holds node p := ⟨_, by simpa using HasKey.inChild hc hp (.here ht)⟩
    exact (h.new p hkey).2.1.resolve_left hpos
  · refine Or.inl ?_
    by_contra hlong
    obtain ⟨d, e, s, t, v, w, hde, hd, he⟩ := (hnode.ofChild hc).two_keys hbr
    have hparts := h.keys _ _ ⟨v, .inChild hc hp hd⟩ ⟨w, .inChild hc hp he⟩ (by simp [hde])
    have hlen : 2 ^ 31 ≤ p.length := Nat.le_of_not_lt hlong
    unfold PartsFrom at hparts
    rw [commonPrefixLoop_append_append] at hparts
    have hint := int32_lt (p ++ d :: s).length
    rcases hparts with hbad | hbad | hbad
    · omega
    · exact hlong (hbad.of_le (by rw [List.length_append]; omega))
    · push_cast at hbad
      omega

/-- The code looks at the common part of a prefix and a new key. -/
theorem Separate.common_le_seen (h : Separate node key) (hnode : Canonical node)
    (hc : node.children c = some child) (hp : child.nodePrefix = some p)
    (hpos : commonPrefixLoop p key ≠ 0) : commonPrefixLoop p key ≤ seen key := by
  obtain ⟨k, v, hk⟩ := (hnode.ofChild hc).exists_key (hnode.branch hc)
  have hle := commonPrefixLoop_le_append p k key
  rcases (h.new _ ⟨v, .inChild hc hp hk⟩).2.2 with hbad | hfits | hlt
  · rw [commonPrefixLoop_comm] at hbad
    exact absurd (Nat.le_zero.mp (hbad ▸ hle)) hpos
  · rw [seen_of_fits hfits]
    exact commonPrefixLoop_le_length p key
  · rw [commonPrefixLoop_comm] at hlt
    unfold seen
    omega

theorem Separate.getCommonPrefixLength (h : Separate node key) (hnode : Canonical node)
    (hc : node.children c = some child) (hp : child.nodePrefix = some p)
    (hpos : commonPrefixLoop p key ≠ 0) :
    getCommonPrefixLength p key = commonPrefixLoop p key := by
  have hkey := h.common_le_seen hnode hc hp hpos
  have hpre : commonPrefixLoop p key ≤ seen p := by
    rcases h.prefix_fits hnode hc hp hpos with hfits | hlt
    · rw [seen_of_fits hfits, commonPrefixLoop_comm]
      exact commonPrefixLoop_le_length key p
    · unfold seen
      omega
  rw [getCommonPrefixLength_min, min_eq_left (le_min hpre hkey)]

/-- The key goes on below the prefix of the child in its slot, or the code sees where it leaves the
prefix. -/
theorem Separate.child_cases (h : Separate node (c :: key)) (hnode : Canonical node)
    (hc : node.children c = some child) :
    ∃ q rest, c :: key = c :: q ++ rest ∧
      ((child.nodePrefix = some (c :: q) ∧ FitsInt (c :: q) ∧
          RadixNode.getCommonPrefixLength (c :: q) (c :: key) = (c :: q).length) ∨
        ∃ d s, child.nodePrefix = some (c :: q ++ d :: s) ∧
          RadixNode.getCommonPrefixLength (c :: q ++ d :: s) (c :: key) = (c :: q).length ∧
          ((c :: q).length : ℤ) < int32 (c :: q ++ d :: s).length ∧ ∀ t, rest ≠ d :: t) := by
  obtain ⟨p, hp⟩ := hnode.slotted.slot hc
  have hpos : commonPrefixLoop (c :: p) (c :: key) ≠ 0 := by simp [commonPrefixLoop]
  have hcommon := h.getCommonPrefixLength hnode hc hp hpos
  have hfits := h.prefix_fits hnode hc hp hpos
  obtain ⟨q, p', rest, hpq, hkq, hlen, hne⟩ := commonPrefixLoop_eq (c :: p) (c :: key)
  rw [hlen] at hcommon hfits hpos
  obtain ⟨q, rfl⟩ : ∃ q', q = c :: q' := by
    cases q with
    | nil => exact absurd rfl hpos
    | cons e q => exact ⟨q, by rw [(List.cons.inj hpq).1]⟩
  refine ⟨q, rest, hkq, ?_⟩
  rw [hpq] at hp hcommon hfits
  cases p' with
  | nil =>
      rw [List.append_nil] at hp hcommon hfits
      refine .inl ⟨hp, hfits.resolve_right fun hlt => ?_, hcommon⟩
      have hle := int32_le (c :: q).length
      omega
  | cons d s =>
      refine .inr ⟨d, s, hp, hcommon, ?_, fun t ht => hne d d s t rfl ht rfl⟩
      rcases hfits with hfits | hlt
      · have hshort : (c :: q).length < (c :: q ++ d :: s).length := by simp
        rw [hfits.int32_length]
        exact_mod_cast hshort
      · exact hlt

/-- A call for a key that leaves the prefix of a child where the code sees it. -/
theorem addImpl_leaves_prefix (halloc : ∀ i, alloc i = true) {rest : List UInt8}
    (hc : node.children c = some child) (hp : child.nodePrefix = some (c :: q ++ d :: s))
    (hkey : c :: key = c :: q ++ rest)
    (hcommon : getCommonPrefixLength (c :: q ++ d :: s) (c :: key) = (c :: q).length)
    (hlt : ((c :: q).length : ℤ) < int32 (c :: q ++ d :: s).length) (hne : ∀ t, rest ≠ d :: t)
    (hfuel : rest.length < fuel) :
    ∃ node' n', radixTreeAddImpl alloc data (fuel + 1) node (c :: key) n =
      some (node', true, n') ∧ Adds data node (c :: key) node' (c :: key) := by
  have hcov : coversPrefix (c :: q).length (c :: q ++ d :: s) ≠ .eq := by
    rw [ne_eq, coversPrefix_iff]
    omega
  rw [addImpl_parted (halloc _) (halloc _) (halloc _) hc hp hcommon hcov, hkey, List.drop_left]
  cases rest with
  | nil =>
      obtain ⟨fuel, rfl⟩ := Nat.exists_eq_add_one_of_ne_zero (Nat.ne_zero_of_lt hfuel)
      rw [List.append_nil]
      exact ⟨_, n + 3, rfl, .stop hc hp hlt⟩
  | cons e t =>
      have hed : e ≠ d := fun heq => hne t (by rw [heq])
      have hslot : (splitNode child (c :: q) d s).children e = none := setChild_of_ne hed
      rw [List.length_cons] at hfuel
      obtain ⟨fuel, rfl⟩ : ∃ k, fuel = k + 2 := ⟨fuel - 2, by omega⟩
      refine ⟨_, n + 3 + 2, ?_, .fork hc hp hlt hed⟩
      rw [addImpl_leaf (halloc _) (halloc _) hslot]
      rfl

/-- **An insertion among keys that are told apart** returns and puts the data where it belongs. -/
theorem addImpl_separate (halloc : ∀ i, alloc i = true) (h : Canonical node)
    (hsep : Separate node key) (hfuel : key.length < fuel) :
    ∃ node' n', radixTreeAddImpl alloc data fuel node key n = some (node', true, n') ∧
      Adds data node key node' key := by
  induction fuel generalizing node key n with
  | zero => omega
  | succ fuel ih =>
      cases key with
      | nil => exact ⟨_, n, rfl, .here⟩
      | cons c key =>
          rw [List.length_cons] at hfuel
          cases hc : node.children c with
          | none =>
              obtain ⟨fuel, rfl⟩ : ∃ k, fuel = k + 1 := ⟨fuel - 1, by omega⟩
              exact ⟨_, n + 2, addImpl_leaf (halloc _) (halloc _) hc fuel, .leaf hc⟩
          | some child =>
              obtain ⟨q, rest, hkey, hcase⟩ := hsep.child_cases h hc
              have hrest : rest.length < fuel := by
                have hlength := congrArg List.length hkey
                rw [List.length_append, List.length_cons, List.length_cons] at hlength
                omega
              rcases hcase with ⟨hp, hfits, hcommon⟩ | ⟨d, s, hp, hcommon, hlt, hne⟩
              · obtain ⟨child', n', hcall, hadds⟩ :=
                  ih (n := n) (h.ofChild hc) ((hkey ▸ hsep).ofChild hc hp) hrest
                refine ⟨node.setChild c child', n', ?_, ?_⟩
                · rw [addImpl_below hc hp hfits hcommon, hkey, List.drop_left, hcall]
                  rfl
                · have htake : c :: key = (c :: q).take (c :: q).length ++ rest := by
                    rw [List.take_length, hkey]
                  have hin := Adds.inChild hc hp hfits.int32_length htake hadds
                  rwa [← hkey] at hin
              · exact addImpl_leaves_prefix halloc hc hp hkey hcommon hlt hne hrest

end Calls

/-! ### Sequences of insertions -/

/-- A call of `radix_tree_add` that returns, with enough memory. -/
def AddStep (root : RadixNode) (a : List UInt8 × ℕ) (root' : RadixNode) : Prop :=
  ∃ fuel n, radixTreeAddImpl (fun _ => true) a.2 fuel root a.1 0 = some (root', true, n)

theorem AddStep.adds {x : List UInt8 × ℕ} (h : AddStep node x node') (hnode : Slotted node) :
    ∃ loc, Adds x.2 node x.1 node' loc := by
  obtain ⟨fuel, n, hadd⟩ := h
  exact addImpl_adds (fun _ => rfl) hnode hadd

theorem addImpl_mono {alloc : ℕ → Bool} {fuel n : ℕ} {r : RadixNode × Bool × ℕ}
    (h : radixTreeAddImpl alloc data fuel node key n = some r) (j : ℕ) :
    radixTreeAddImpl alloc data (fuel + j) node key n = some r := by
  induction fuel generalizing node key n r with
  | zero => cases h
  | succ fuel ih =>
      rw [Nat.succ_add]
      cases key with
      | nil => exact h
      | cons c key =>
          rw [radixTreeAddImpl] at h ⊢
          cases hc : node.children c with
          | none =>
              simp only [hc] at h ⊢
              by_cases halloc : alloc n = true
              · rw [if_pos halloc] at h ⊢
                obtain ⟨r', hr', hret⟩ := Option.bind_eq_some_iff.mp h
                exact Option.bind_eq_some_iff.mpr ⟨r', ih hr', hret⟩
              · rw [if_neg halloc] at h ⊢
                exact h
          | some child =>
              simp only [hc] at h ⊢
              obtain ⟨p, hp, h⟩ := Option.bind_eq_some_iff.mp h
              refine Option.bind_eq_some_iff.mpr ⟨p, hp, ?_⟩
              by_cases hcov : coversPrefix (getCommonPrefixLength p (c :: key)) p = .eq
              · rw [if_pos hcov] at h ⊢
                obtain ⟨r', hr', hret⟩ := Option.bind_eq_some_iff.mp h
                exact Option.bind_eq_some_iff.mpr ⟨r', ih hr', hret⟩
              rw [if_neg hcov] at h ⊢
              by_cases halloc : alloc n = true
              · rw [if_pos halloc] at h ⊢
                by_cases hdup : alloc (n + 2) = true
                · rw [if_pos hdup] at h ⊢
                  obtain ⟨s, hs, h⟩ := Option.bind_eq_some_iff.mp h
                  obtain ⟨r', hr', hret⟩ := Option.bind_eq_some_iff.mp h
                  exact Option.bind_eq_some_iff.mpr
                    ⟨s, hs, Option.bind_eq_some_iff.mpr ⟨r', ih hr', hret⟩⟩
                · rw [if_neg hdup] at h
                  cases h
              · rw [if_neg halloc] at h ⊢
                exact h

theorem AddStep.unique {x : List UInt8 × ℕ} (h : AddStep node x a) (h' : AddStep node x b) :
    a = b := by
  obtain ⟨fuel, n, h⟩ := h
  obtain ⟨fuel', n', h'⟩ := h'
  have heq := (addImpl_mono h fuel').symm.trans (Nat.add_comm fuel fuel' ▸ addImpl_mono h' fuel)
  exact (Prod.mk.inj (Option.some.inj heq)).1

/-- The keys after a sequence of insertions: every insertion places its data somewhere. -/
theorem holds_of_run {l : List (List UInt8 × ℕ)} (h : Run AddStep a l b) (ha : Slotted a) :
    ∃ locs : List (List UInt8), locs.length = l.length ∧
      ∀ y, Holds b y ↔ y ∈ locs ∨ Holds a y := by
  induction l generalizing a with
  | nil => exact ⟨[], rfl, fun y => by rw [h.of_nil]; simp⟩
  | cons x l ih =>
      obtain ⟨a', hx, hrun⟩ := h.of_cons
      obtain ⟨loc, hadds⟩ := hx.adds ha
      obtain ⟨-, ha', hplaced⟩ := hadds.placed ha
      obtain ⟨locs, hlen, hlocs⟩ := ih hrun ha'
      refine ⟨loc :: locs, by rw [List.length_cons, List.length_cons, hlen], fun y => ?_⟩
      rw [hlocs y, hplaced.holds, List.mem_cons]
      tauto

/-- Insertions of keys that are all told apart: the tree is canonical and has these keys. -/
theorem run_of_partsFrom {l : List (List UInt8 × ℕ)} (hnodup : (l.map Prod.fst).Nodup)
    (hparts : ∀ y ∈ l.map Prod.fst, ∀ z ∈ l.map Prod.fst, y ≠ z → PartsFrom y z) :
    ∃ tree, Run AddStep empty l tree ∧ Canonical tree ∧ tree.nodePrefix = none ∧
      nodeCount tree ≤ 2 * l.length + 1 ∧ ∀ k v, HasKey tree k v ↔ (k, v) ∈ l := by
  induction l using List.reverseRecOn with
  | nil =>
      refine ⟨empty, .nil empty, canonical_empty, rfl, nodeCount_empty.le, fun k v => ?_⟩
      simpa using not_hasKey_empty
  | append_singleton l x ih =>
      obtain ⟨key, data⟩ := x
      rw [List.map_append, List.nodup_append] at hnodup
      have hmem : ∀ y ∈ l.map Prod.fst, y ∈ (l ++ [(key, data)]).map Prod.fst := fun y hy => by
        rw [List.map_append]
        exact List.mem_append_left _ hy
      have hkey : key ∈ (l ++ [(key, data)]).map Prod.fst := by simp
      obtain ⟨tree, hrun, hcan, hroot, hcount, hkeys⟩ := ih hnodup.1
        fun y hy z hz => hparts y (hmem y hy) z (hmem z hz)
      have hheld : ∀ y, Holds tree y → y ∈ l.map Prod.fst := by
        rintro y ⟨v, hy⟩
        exact List.mem_map_of_mem ((hkeys y v).mp hy)
      have hnew : ∀ y ∈ l.map Prod.fst, y ≠ key := fun y hy => hnodup.2.2 y hy key (by simp)
      have hsep : Separate tree key := by
        constructor
        · intro y z hy hz
          exact hparts y (hmem y (hheld y hy)) z (hmem z (hheld z hz))
        · intro y hy
          have hy := hheld y hy
          exact ⟨hnew y hy, hparts y (hmem y hy) key hkey (hnew y hy),
            hparts key hkey y (hmem y hy) (hnew y hy).symm⟩
      have hinsert : ∃ tree' n, radixTreeAddImpl (fun _ => true) data (key.length + 1) tree key 0 =
          some (tree', true, n) ∧ Adds data tree key tree' key :=
        addImpl_separate (fun _ => rfl) hcan hsep (Nat.lt_succ_self key.length)
      obtain ⟨tree', n, hcall, hadds⟩ := hinsert
      obtain ⟨hroot', -, hplaced⟩ := hadds.placed hcan.slotted
      refine ⟨tree', hrun.snoc ⟨_, n, hcall⟩, hadds.canonical hcan, hroot'.trans hroot, ?_, ?_⟩
      · have := hadds.nodeCount_le
        rw [List.length_append, List.length_singleton]
        omega
      · intro k v
        rw [hplaced k v, hkeys, List.mem_append, List.mem_singleton, Prod.mk.injEq, or_comm]
        refine or_congr_left (and_iff_right_of_imp fun hk => ?_)
        exact hnew k (List.mem_map_of_mem hk)

/-! ### All orders give one tree -/

/-- All orders of inserting the pairs of `M` into a new tree return and make the same tree.  It is
canonical, and it has at most twice as many nodes as keys, plus one. -/
def ShapeFixed (M : List (List UInt8 × ℕ)) : Prop :=
  ∃ tree, Canonical tree ∧ nodeCount tree ≤ 2 * M.length + 1 ∧
    ∀ l, l.Perm M → ∀ tree', Run AddStep empty l tree' ↔ tree' = tree

/-- The code tells all keys of `M` apart. -/
def Parted (M : List (List UInt8 × ℕ)) : Prop :=
  ∀ K ∈ M.map Prod.fst, ∀ k ∈ M.map Prod.fst, K ≠ k → PartsFrom K k

theorem shapeFixed_of_parted {M : List (List UInt8 × ℕ)} (hM : (M.map Prod.fst).Nodup)
    (h : Parted M) : ShapeFixed M := by
  obtain ⟨tree, -, hcan, hroot, hcount, hkeys⟩ := run_of_partsFrom hM h
  refine ⟨tree, hcan, hcount, fun l hl tree' => ?_⟩
  have hmem : ∀ y ∈ l.map Prod.fst, y ∈ M.map Prod.fst := fun y hy => (hl.map _).subset hy
  obtain ⟨t, hrun, hcan', hroot', -, hkeys'⟩ := run_of_partsFrom ((hl.map _).nodup_iff.mpr hM)
    fun y hy z hz => h y (hmem y hy) z (hmem z hz)
  have heq : t = tree := hcan'.unique hcan (hroot'.trans hroot.symm) fun k v => by
    rw [hkeys', hkeys, hl.mem_iff]
  subst heq
  constructor
  · intro hrun'
    refine Run.unique ?_ hrun' hrun
    exact fun _ _ _ _ => AddStep.unique
  · rintro rfl
    exact hrun

theorem Adds.of_empty (h : Adds data empty key node' loc) : loc = key := by
  cases h with
  | here => rfl
  | leaf _ => rfl
  | inChild hc => cases hc
  | stop hc => cases hc
  | fork hc => cases hc

theorem holds_first {x : List UInt8 × ℕ} {l : List (List UInt8 × ℕ)}
    (h : Run AddStep empty (x :: l) node) : Holds node x.1 := by
  obtain ⟨a, hx, hrun⟩ := h.of_cons
  obtain ⟨loc, hadds⟩ := hx.adds slotted_empty
  obtain ⟨-, ha, hplaced⟩ := hadds.placed slotted_empty
  obtain ⟨locs, -, hlocs⟩ := holds_of_run hrun ha
  rw [hlocs, hplaced.holds, hadds.of_empty]
  exact Or.inr (Or.inl rfl)

/-- A key that the code does not tell from the only key of a tree ends up below that key. -/
theorem Adds.of_leaf (h : Adds data (empty.setChild c (leafNode p v)) key node' loc)
    (hp : p.head? = some c) (hparts : ¬ PartsFrom p key) : p <+: loc := by
  unfold PartsFrom at hparts
  rw [not_or, not_or, not_lt] at hparts
  obtain ⟨hpos, -, hle⟩ := hparts
  have hslot : ∀ {e : UInt8} {child : RadixNode} {q : List UInt8},
      (empty.setChild c (leafNode p v)).children e = some child → child.nodePrefix = some q →
      q = p := by
    intro e child q he hq
    by_cases hec : e = c
    · rw [hec, setChild_self, Option.some.injEq] at he
      rw [← he] at hq
      exact (Option.some.inj hq).symm
    · rw [setChild_of_ne hec] at he
      cases he
  cases h with
  | here => exact absurd (commonPrefixLoop_comm p []) hpos
  | @leaf _ e key hc =>
      have hec : e ≠ c := by
        rintro rfl
        rw [setChild_self] at hc
        cases hc
      obtain ⟨p, rfl⟩ : ∃ p', p = c :: p' := by
        cases p with
        | nil => cases hp
        | cons d p => exact ⟨p, by rw [Option.some.inj hp]⟩
      simp [commonPrefixLoop, hec.symm] at hpos
  | inChild hc hp' hm hkey hadds =>
      rw [hslot hc hp']
      exact List.prefix_append ..
  | @stop _ _ e d q s hc hp' hm =>
      obtain rfl := hslot hc hp'
      have := commonPrefixLoop_le_length (e :: q ++ d :: s) (e :: q)
      omega
  | @fork _ _ e d e' q s t hc hp' hm hed =>
      obtain rfl := hslot hc hp'
      have hcommon : commonPrefixLoop (e :: q ++ d :: s) (e :: q ++ e' :: t) = (e :: q).length := by
        rw [commonPrefixLoop_append_append]
        simp [commonPrefixLoop, hed.symm]
      omega

theorem not_partsFrom_append (hp : ¬ FitsInt p) : ¬ PartsFrom (p ++ s) p := by
  have hlong : 2 ^ 31 ≤ p.length := Nat.le_of_not_lt hp
  have hcommon : commonPrefixLoop (p ++ s) p = p.length := by
    have happend := commonPrefixLoop_append_append p s []
    rw [List.append_nil, commonPrefixLoop_comm s []] at happend
    simpa [commonPrefixLoop] using happend
  have hint := int32_lt (p ++ s).length
  unfold PartsFrom
  rw [hcommon, not_or, not_or]
  refine ⟨by omega, fun hfits => hp (hfits.of_le ?_), by omega⟩
  rw [List.length_append]
  omega

/-- Where all orders give one tree, it has the keys of the map and no others. -/
theorem ShapeFixed.locs {M l : List (List UInt8 × ℕ)} (h : ShapeFixed M) (hl : l.Perm M)
    (hM : (M.map Prod.fst).Nodup) : ∃ tree, Run AddStep empty l tree ∧
      ∀ locs : List (List UInt8), locs.length = l.length → (∀ y, Holds tree y ↔ y ∈ locs) →
        locs.Perm (M.map Prod.fst) := by
  obtain ⟨tree, -, -, horders⟩ := h
  refine ⟨tree, (horders l hl tree).mpr rfl, fun locs hlen hlocs => ?_⟩
  have hsub : M.map Prod.fst ⊆ locs := by
    intro k hk
    obtain ⟨x, hx, rfl⟩ := List.mem_map.mp hk
    obtain ⟨rest, hrest⟩ : ∃ rest, (x :: rest).Perm M :=
      ⟨M.erase x, (List.perm_cons_erase hx).symm⟩
    rw [← hlocs]
    exact holds_first ((horders _ hrest tree).mpr rfl)
  refine ((hM.subperm hsub).perm_of_length_le ?_).symm
  rw [hlen, List.length_map, hl.length_eq]

theorem Adds.of_empty_cons (h : Adds data empty (c :: key) node' loc) :
    node' = empty.setChild c (leafNode (c :: key) data) := by
  generalize hkey : c :: key = k at h
  cases h with
  | here => cases hkey
  | leaf _ =>
      cases hkey
      rfl
  | inChild hc => cases hc
  | stop hc => cases hc
  | fork hc => cases hc

/-- The keys after a sequence whose first two keys are not told apart. -/
theorem holds_of_not_partsFrom {x y : List UInt8 × ℕ} {l : List (List UInt8 × ℕ)}
    (h : Run AddStep empty (x :: y :: l) node) (hparts : ¬ PartsFrom x.1 y.1) :
    ∃ loc locs, x.1 <+: loc ∧ locs.length = l.length ∧
      ∀ z, Holds node z ↔ z ∈ x.1 :: loc :: locs := by
  obtain ⟨a, hx, hrun⟩ := h.of_cons
  obtain ⟨b, hy, hrun⟩ := hrun.of_cons
  obtain ⟨loc', hadds⟩ := hx.adds slotted_empty
  obtain ⟨-, ha, hplaced⟩ := hadds.placed slotted_empty
  obtain ⟨loc, hadds'⟩ := hy.adds ha
  obtain ⟨-, hb, hplaced'⟩ := hadds'.placed ha
  obtain ⟨locs, hlen, hlocs⟩ := holds_of_run hrun hb
  obtain rfl := hadds.of_empty
  refine ⟨loc, locs, ?_, hlen, fun z => ?_⟩
  · obtain ⟨K, v⟩ := x
    cases K with
    | nil => exact absurd (Or.inl rfl) hparts
    | cons c K =>
        rw [hadds.of_empty_cons] at hadds'
        exact hadds'.of_leaf rfl hparts
  · have hnone : ¬ Holds empty z := fun ⟨_, hz⟩ => not_hasKey_empty hz
    rw [hlocs, hplaced'.holds, hplaced.holds, List.mem_cons, List.mem_cons]
    tauto

theorem ShapeFixed.parted {M : List (List UInt8 × ℕ)} (hM : (M.map Prod.fst).Nodup)
    (h : ShapeFixed M) : Parted M := by
  classical
  by_contra hbad
  unfold Parted at hbad
  push Not at hbad
  let bad := (M.map Prod.fst).toFinset.filter fun K => ∃ k ∈ M.map Prod.fst, K ≠ k ∧ ¬ PartsFrom K k
  have hmem : ∀ K, K ∈ bad ↔ K ∈ M.map Prod.fst ∧ ∃ k ∈ M.map Prod.fst, K ≠ k ∧ ¬ PartsFrom K k :=
    fun K => by rw [Finset.mem_filter, List.mem_toFinset]
  obtain ⟨K, hK, k, hk, hne, hparts⟩ := hbad
  obtain ⟨K, hK, hmax⟩ := bad.exists_max_image List.length ⟨K, (hmem K).mpr ⟨hK, k, hk, hne, hparts⟩⟩
  obtain ⟨hK, k, hk, hne, hparts⟩ := (hmem K).mp hK
  obtain ⟨x, hx, rfl⟩ := List.mem_map.mp hK
  obtain ⟨y, hy, rfl⟩ := List.mem_map.mp hk
  have hyx : y ∈ M.erase x := (List.mem_erase_of_ne fun hyx => hne (by rw [hyx])).mpr hy
  have horder : (x :: y :: (M.erase x).erase y).Perm M :=
    (((List.perm_cons_erase hyx).symm).cons x).trans (List.perm_cons_erase hx).symm
  obtain ⟨tree, hrun, hlocs⟩ := h.locs horder hM
  obtain ⟨loc, locs, ⟨s, rfl⟩, hlen, hholds⟩ := holds_of_not_partsFrom hrun hparts
  have hperm := hlocs (x.1 :: (x.1 ++ s) :: locs) (by simp [hlen]) hholds
  have hnodup := hperm.nodup_iff.mpr hM
  have hs : s ≠ [] := by
    rintro rfl
    simp at hnodup
  have hlong : ¬ FitsInt x.1 := fun hfits => hparts (Or.inr (Or.inl hfits))
  have hbelow : x.1 ++ s ∈ bad := by
    refine (hmem _).mpr ⟨hperm.subset (by simp), x.1, hK, by simpa using hs, ?_⟩
    exact not_partsFrom_append hlong
  have hle := hmax _ hbelow
  rw [List.length_append] at hle
  exact hs (List.eq_nil_of_length_eq_zero (by omega))

/-- **The shape of the tree depends on its contents only** for exactly those maps whose keys the code
tells apart. -/
theorem shape_iff {M : List (List UInt8 × ℕ)} (hM : (M.map Prod.fst).Nodup) :
    ShapeFixed M ↔ Parted M :=
  ⟨ShapeFixed.parted hM, shapeFixed_of_parted hM⟩

/-- Two keys that have their first byte in common. -/
theorem shape_iff_two :
    (([([97, 98], 1), ([97, 99], 2)] : List (List UInt8 × ℕ)).map Prod.fst).Nodup ∧
      ShapeFixed [([97, 98], 1), ([97, 99], 2)] := by
  refine ⟨by decide, (shape_iff (by decide)).mpr fun K hK k hk _ => Or.inr (Or.inl ?_)⟩
  have hlen : K.length = 2 := by
    fin_cases hK <;> rfl
  unfold FitsInt
  omega

/-- The key `"a"` and one of `2 ^ 31` bytes `'a'`.  Behind `"a"` the insertion of the long key, whose
length is `-2 ^ 31` as an `int`, splits `"a"` in front of its first byte for ever. -/
theorem long_key_order : ¬ ShapeFixed [(List.replicate (2 ^ 31) 97, 1), ([97], 2)] := by
  intro h
  obtain ⟨m, hm⟩ : ∃ m, 2 ^ 31 = m + 1 := ⟨2 ^ 31 - 1, by norm_num⟩
  rw [hm, List.replicate_succ] at h
  have hne : 97 :: List.replicate m 97 ≠ ([97] : List UInt8) := by
    intro heq
    have hlen := congrArg List.length heq
    rw [List.length_cons, List.length_replicate, List.length_singleton] at hlen
    omega
  have hnodup : [97 :: List.replicate m 97, ([97] : List UInt8)].Nodup := by
    rw [List.nodup_cons, List.mem_singleton]
    exact ⟨hne, List.nodup_singleton _⟩
  have hparts : PartsFrom (97 :: List.replicate m 97) [97] :=
    ShapeFixed.parted (by exact hnodup) h _ (List.mem_cons_self ..) [97]
      (List.mem_cons_of_mem _ (List.mem_singleton_self _)) hne
  unfold PartsFrom FitsInt at hparts
  rw [List.length_cons, List.length_replicate, ← hm] at hparts
  have hint : int32 (2 ^ 31) = -2 ^ 31 := by decide
  rw [hint] at hparts
  have hcommon : commonPrefixLoop (97 :: List.replicate m 97) [97] ≠ 0 := by
    simp [commonPrefixLoop]
  omega

end RadixNode

end HyveMind
