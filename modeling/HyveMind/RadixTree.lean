import HyveMind.CString

/-! # Radix trees

`lib/radix-tree.c`: a map from strings to numbers.  A node has the part of the keys that leads to it
from its parent and a slot for every first byte of what follows.

As long as the allocations succeed, adding a key changes the answer for that key and for no other
one (`radixTreeAdd_spec`). -/

namespace HyveMind

/-- `struct radix_node`; `prefix` is null in the root only. -/
structure RadixNode where
  nodePrefix : Option (List UInt8)
  children : UInt8 → Option RadixNode
  data : ℕ
  terminating : Bool

namespace RadixNode

/-- A node as `allocate_radix_node` returns it. -/
def empty : RadixNode := ⟨none, fun _ => none, 0, false⟩

/-- `node->children[index] = child`. -/
def setChild (node : RadixNode) (index : UInt8) (child : RadixNode) : RadixNode :=
  { node with children := Function.update node.children index (some child) }

/-- The loop of `get_common_prefix_length`. -/
def commonPrefixLoop : List UInt8 → List UInt8 → ℕ
  | c :: childPrefix, d :: key => if c ≠ d then 0 else commonPrefixLoop childPrefix key + 1
  | _, _ => 0

/-- `get_common_prefix_length`. -/
def getCommonPrefixLength (childPrefix key : List UInt8) : ℕ :=
  commonPrefixLoop (childPrefix.take (int32 childPrefix.length).toNat)
    (key.take (int32 key.length).toNat)

/-- The comparison of `common_prefix_len` with `child_prefix_len`. -/
def coversPrefix (commonPrefixLen : ℕ) (childPrefix : List UInt8) : Ordering :=
  compare (commonPrefixLen : ℤ) (int32 childPrefix.length)

/-- `__radix_tree_get`; no result if a null prefix is read. -/
def radixTreeGetImpl : ℕ → RadixNode → List UInt8 → Option (Option ℕ)
  | 0, _, _ => none
  | _ + 1, node, [] => some (if node.terminating then some node.data else none)
  | fuel + 1, node, index :: key =>
      match node.children index with
      | none => some none
      | some child => do
          let childPrefix ← child.nodePrefix
          let commonPrefixLen := getCommonPrefixLength childPrefix (index :: key)
          if coversPrefix commonPrefixLen childPrefix = .lt then some none
          else radixTreeGetImpl fuel child ((index :: key).drop commonPrefixLen)

/-- `radix_tree_get`: `some none` if it returns false. -/
def radixTreeGet (root : RadixNode) (key : List UInt8) : Option (Option ℕ) :=
  radixTreeGetImpl (key.length + 1) root key

/-- `radix_tree_contains`. -/
def radixTreeContains (root : RadixNode) (key : List UInt8) : Option Bool :=
  (radixTreeGet root key).map Option.isSome

/-- `__radix_tree_add`.  `alloc` says which allocations succeed, `n` counts them.  In a split the old child moves
below the new node, under what is left of its prefix. -/
def radixTreeAddImpl (alloc : ℕ → Bool) (data : ℕ) :
    ℕ → RadixNode → List UInt8 → ℕ → Option (RadixNode × Bool × ℕ)
  | 0, _, _, _ => none
  | _ + 1, node, [], n => some ({ node with terminating := true, data := data }, true, n)
  | fuel + 1, node, index :: key, n =>
      match node.children index with
      | none =>
          if alloc n then do
            let child := { empty with
              nodePrefix := if alloc (n + 1) then some (index :: key) else none }
            let (child, success, n) ← radixTreeAddImpl alloc data fuel child [] (n + 2)
            return (node.setChild index child, success, n)
          else some (node, false, n + 1)
      | some child => do
          let childPrefix ← child.nodePrefix
          let commonPrefixLen := getCommonPrefixLength childPrefix (index :: key)
          let rest := (index :: key).drop commonPrefixLen
          if coversPrefix commonPrefixLen childPrefix = .eq then
            let (child, success, n) ← radixTreeAddImpl alloc data fuel child rest n
            return (node.setChild index child, success, n)
          else if alloc n then
            let insertNode := { empty with
              nodePrefix := if alloc (n + 1) then some (childPrefix.take commonPrefixLen) else none }
            let splitSubtreePrefix ←
              if alloc (n + 2) then some (childPrefix.drop commonPrefixLen) else none
            let insertNode := insertNode.setChild (splitSubtreePrefix.headD 0)
              { child with nodePrefix := some splitSubtreePrefix }
            let (insertNode, success, n) ← radixTreeAddImpl alloc data fuel insertNode rest (n + 3)
            return (node.setChild index insertNode, success, n)
          else some (node, false, n + 1)

/-- `radix_tree_add`. -/
def radixTreeAdd (alloc : ℕ → Bool) (root : RadixNode) (key : List UInt8) (data n : ℕ) :
    Option (RadixNode × Bool × ℕ) :=
  radixTreeAddImpl alloc data (key.length + 1) root key n

/-! ### Common prefixes -/

variable {p key k : List UInt8} {c d : UInt8}

theorem commonPrefixLoop_eq (p key : List UInt8) : ∃ q p' key', p = q ++ p' ∧ key = q ++ key' ∧
    commonPrefixLoop p key = q.length ∧ ∀ c d s t, p' = c :: s → key' = d :: t → c ≠ d := by
  induction p generalizing key with
  | nil => exact ⟨[], [], key, rfl, rfl, by simp [commonPrefixLoop], by simp⟩
  | cons c p ih =>
      cases key with
      | nil => exact ⟨[], c :: p, [], rfl, rfl, by simp [commonPrefixLoop], by simp⟩
      | cons d key =>
          by_cases hcd : c = d
          · subst hcd
            obtain ⟨q, p', key', rfl, rfl, hlen, hne⟩ := ih key
            exact ⟨c :: q, p', key', rfl, rfl, by simp [commonPrefixLoop, hlen], hne⟩
          · refine ⟨[], c :: p, d :: key, rfl, rfl, by simp [commonPrefixLoop, hcd], ?_⟩
            intro c' d' s t hs ht
            cases hs
            cases ht
            exact hcd

/-- The common beginning of a prefix and a key, and what follows it in both. -/
theorem getCommonPrefixLength_eq (hp : FitsInt p) (hkey : FitsInt key) :
    ∃ q p' key', p = q ++ p' ∧ key = q ++ key' ∧ getCommonPrefixLength p key = q.length ∧
      ∀ c d s t, p' = c :: s → key' = d :: t → c ≠ d := by
  unfold getCommonPrefixLength
  rw [hp.int32_length, hkey.int32_length, Int.toNat_natCast, Int.toNat_natCast, List.take_length,
    List.take_length]
  exact commonPrefixLoop_eq p key

theorem coversPrefix_lt {n : ℕ} (hp : FitsInt p) : coversPrefix n p = .lt ↔ n < p.length := by
  rw [coversPrefix, hp.int32_length, compare_lt_iff_lt, Nat.cast_lt]

theorem coversPrefix_eq {n : ℕ} (hp : FitsInt p) : coversPrefix n p = .eq ↔ n = p.length := by
  rw [coversPrefix, hp.int32_length, compare_eq_iff_eq, Nat.cast_inj]

theorem getCommonPrefixLength_le (p key : List UInt8) : getCommonPrefixLength p key ≤ p.length := by
  obtain ⟨q, p', key', hp, -, hcommon, -⟩ :=
    commonPrefixLoop_eq (p.take (int32 p.length).toNat) (key.take (int32 key.length).toNat)
  rw [getCommonPrefixLength, hcommon]
  have hle := List.length_take_le' (int32 p.length).toNat p
  rw [hp, List.length_append] at hle
  omega

/-- The prefix of a child leads to a key, or the common part ends inside of it. -/
theorem prefix_cases (hp : FitsInt p) (hkey : FitsInt key) :
    (∃ rest, key = p ++ rest ∧ getCommonPrefixLength p key = p.length) ∨
      ∃ q d s rest, p = q ++ d :: s ∧ key = q ++ rest ∧ getCommonPrefixLength p key = q.length ∧
        ∀ t, rest ≠ d :: t := by
  obtain ⟨q, p', key', hpq, hkq, hcommon, hne⟩ := getCommonPrefixLength_eq hp hkey
  cases p' with
  | nil =>
      rw [List.append_nil] at hpq
      subst hpq
      exact .inl ⟨key', hkq, hcommon⟩
  | cons d s => exact .inr ⟨q, d, s, key', hpq, hkq, hcommon, fun t ht => hne d d s t rfl ht rfl⟩

theorem not_prefix_of_split {q s rest : List UInt8} (h : ∀ t, rest ≠ d :: t) :
    ¬ q ++ d :: s <+: q ++ rest := by
  rintro ⟨t, ht⟩
  rw [List.append_assoc, List.append_cancel_left_eq, List.cons_append] at ht
  exact h (s ++ t) ht.symm

theorem getCommonPrefixLength_split (hp : FitsInt p) (key : List UInt8) : ∃ q p', p = q ++ p' ∧
    q <+: key.take (int32 key.length).toNat ∧ getCommonPrefixLength p key = q.length := by
  obtain ⟨q, p', key', hpq, hkq, hcommon, -⟩ :=
    commonPrefixLoop_eq p (key.take (int32 key.length).toNat)
  refine ⟨q, p', hpq, ⟨key', hkq.symm⟩, ?_⟩
  rw [← hcommon, getCommonPrefixLength, hp.int32_length, Int.toNat_natCast, List.take_length]

theorem getCommonPrefixLength_ne_zero (hp : FitsInt (c :: p)) (hkey : FitsInt (c :: key)) :
    getCommonPrefixLength (c :: p) (c :: key) ≠ 0 := by
  unfold getCommonPrefixLength
  rw [hp.int32_length, hkey.int32_length, Int.toNat_natCast, Int.toNat_natCast, List.take_length,
    List.take_length]
  simp [commonPrefixLoop]

/-! ### Well-formed trees -/

/-- Every child sits in the slot of the first byte of its prefix, and no key is longer than `b`. -/
inductive WellFormed : ℕ → RadixNode → Prop
  | intro {b : ℕ} {node : RadixNode}
      (hhead : ∀ c child, node.children c = some child →
        ∃ p, child.nodePrefix = some (c :: p) ∧ (c :: p).length ≤ b)
      (hchild : ∀ c child p, node.children c = some child → child.nodePrefix = some p →
        WellFormed (b - p.length) child) : WellFormed b node

variable {node node' child : RadixNode} {b fuel fuel' : ℕ}

theorem WellFormed.of_child (h : WellFormed b node) (hc : node.children c = some child) :
    ∃ p, child.nodePrefix = some (c :: p) ∧ (c :: p).length ≤ b ∧
      WellFormed (b - (c :: p).length) child := by
  cases h with
  | intro hhead hchild =>
      obtain ⟨p, hp, hlen⟩ := hhead c child hc
      exact ⟨p, hp, hlen, hchild c child _ hc hp⟩

theorem wellFormed_empty (b : ℕ) : WellFormed b empty := ⟨nofun, nofun⟩

theorem WellFormed.congr (h : WellFormed b node) (hc : node'.children = node.children) :
    WellFormed b node' := by
  cases h with
  | intro hhead hchild => exact ⟨hc ▸ hhead, hc ▸ hchild⟩

theorem setChild_self : (node.setChild c child).children c = some child := Function.update_self ..

theorem setChild_of_ne (h : d ≠ c) : (node.setChild c child).children d = node.children d :=
  Function.update_of_ne h ..

theorem setChild_setChild (child' : RadixNode) :
    (node.setChild c child).setChild c child' = node.setChild c child' := by
  simp [RadixNode.setChild]

theorem WellFormed.setChild (h : WellFormed b node) (hp : child.nodePrefix = some (c :: p))
    (hlen : (c :: p).length ≤ b) (hwf : WellFormed (b - (c :: p).length) child) :
    WellFormed b (node.setChild c child) := by
  cases h with
  | intro hhead hchild =>
      constructor
      · intro d child' hd
        by_cases hdc : d = c
        · subst hdc
          rw [setChild_self, Option.some.injEq] at hd
          exact ⟨p, hd ▸ hp, hlen⟩
        · rw [setChild_of_ne hdc] at hd
          exact hhead d child' hd
      · intro d child' p' hd hp'
        by_cases hdc : d = c
        · subst hdc
          rw [setChild_self, Option.some.injEq] at hd
          subst hd
          rw [hp, Option.some.injEq] at hp'
          exact hp' ▸ hwf
        · rw [setChild_of_ne hdc] at hd
          exact hchild d child' p' hd hp'

/-! ### Lookup -/

theorem getImpl_none (hc : node.children c = none) :
    radixTreeGetImpl (fuel + 1) node (c :: key) = some none := by
  rw [radixTreeGetImpl, hc]

theorem getImpl_some (hc : node.children c = some child) (hp : child.nodePrefix = some p) :
    radixTreeGetImpl (fuel + 1) node (c :: key) =
      if coversPrefix (getCommonPrefixLength p (c :: key)) p = .lt then some none
      else radixTreeGetImpl fuel child ((c :: key).drop (getCommonPrefixLength p (c :: key))) := by
  rw [radixTreeGetImpl, hc]
  simp only [hp, Option.bind_eq_bind, Option.bind_some]

/-- A key that is longer than all keys of the tree is not found. -/
theorem getImpl_long (hb : b < 2 ^ 31) (hwf : WellFormed b node) (hlong : b < key.length)
    (h : key.length < fuel) : radixTreeGetImpl fuel node key = some none := by
  induction fuel generalizing b node key with
  | zero => omega
  | succ fuel ih =>
      cases key with
      | nil => cases hlong
      | cons c key =>
          cases hc : node.children c with
          | none => exact getImpl_none hc
          | some child =>
              obtain ⟨p, hp, hplen, hchild⟩ := hwf.of_child hc
              have hfits : FitsInt (c :: p) := Nat.lt_of_le_of_lt hplen hb
              rw [getImpl_some hc hp]
              simp only [coversPrefix_lt hfits]
              have hle := getCommonPrefixLength_le (c :: p) (c :: key)
              split
              · rfl
              · have hcommon : getCommonPrefixLength (c :: p) (c :: key) = (c :: p).length := by
                  omega
                have hpos : 0 < (c :: p).length := Nat.succ_pos _
                rw [hcommon]
                apply ih (Nat.lt_of_le_of_lt (Nat.sub_le ..) hb) hchild
                · rw [List.length_drop]
                  omega
                · rw [List.length_drop]
                  omega

theorem getImpl_cons (hc : node.children c = some child) (hp : child.nodePrefix = some p)
    (hplen : FitsInt p) (hlen : FitsInt (c :: key)) :
    radixTreeGetImpl (fuel + 1) node (c :: key) =
      if p <+: c :: key then radixTreeGetImpl fuel child ((c :: key).drop p.length)
      else some none := by
  rw [getImpl_some hc hp]
  simp only [coversPrefix_lt hplen]
  rcases prefix_cases hplen hlen with ⟨rest, hkey, hcommon⟩ | ⟨q, d, s, rest, rfl, hkey, hcommon, h⟩
  · rw [hcommon, if_neg (lt_irrefl _), if_pos (hkey ▸ List.prefix_append ..)]
  · rw [hcommon, if_pos (by simp), hkey, if_neg (not_prefix_of_split h)]

theorem getImpl_fuel (hb : b < 2 ^ 31) (hwf : WellFormed b node) (h : key.length < fuel) :
    radixTreeGetImpl fuel node key = radixTreeGet node key := by
  unfold radixTreeGet
  generalize hf : key.length + 1 = fuel'
  have h' : key.length < fuel' := by omega
  clear hf
  induction fuel generalizing b node key fuel' with
  | zero => omega
  | succ fuel ih =>
      obtain ⟨fuel', rfl⟩ := Nat.exists_eq_add_one_of_ne_zero (Nat.ne_of_gt (Nat.zero_lt_of_lt h'))
      by_cases hlong : b < key.length
      · rw [getImpl_long hb hwf hlong h, getImpl_long hb hwf hlong h']
      cases key with
      | nil => rfl
      | cons c key =>
          cases hc : node.children c with
          | none => rw [getImpl_none hc, getImpl_none hc]
          | some child =>
              obtain ⟨p, hp, hplen, hchild⟩ := hwf.of_child hc
              have hfits : FitsInt (c :: p) := Nat.lt_of_le_of_lt hplen hb
              have hfits' : FitsInt (c :: key) := Nat.lt_of_le_of_lt (Nat.le_of_not_lt hlong) hb
              have hdrop : ((c :: key).drop (c :: p).length).length ≤ key.length := by
                rw [List.length_drop, List.length_cons, List.length_cons]
                omega
              rw [List.length_cons] at h h'
              rw [getImpl_cons hc hp hfits hfits', getImpl_cons hc hp hfits hfits']
              split
              · exact ih (Nat.lt_of_le_of_lt (Nat.sub_le ..) hb) hchild (by omega) _ (by omega)
              · rfl

@[simp] theorem get_nil :
    radixTreeGet node [] = some (if node.terminating then some node.data else none) := rfl

theorem get_none (hc : node.children c = none) : radixTreeGet node (c :: key) = some none :=
  getImpl_none hc

theorem get_cons (hb : b < 2 ^ 31) (hwf : WellFormed b node) (hc : node.children c = some child)
    (hp : child.nodePrefix = some p) (key : List UInt8) :
    radixTreeGet node (c :: key) =
      if p <+: c :: key then radixTreeGet child ((c :: key).drop p.length) else some none := by
  obtain ⟨p', hp', hplen, hchild⟩ := hwf.of_child hc
  rw [hp, Option.some.injEq] at hp'
  subst hp'
  have hbc : b - (c :: p').length < 2 ^ 31 := Nat.lt_of_le_of_lt (Nat.sub_le ..) hb
  have hdrop : ((c :: key).drop (c :: p').length).length ≤ key.length := by
    rw [List.length_drop, List.length_cons, List.length_cons]
    omega
  have hfuel := getImpl_fuel hbc hchild (Nat.lt_succ_of_le hdrop)
  by_cases hlong : b < (c :: key).length
  · have hnone : radixTreeGet child ((c :: key).drop (c :: p').length) = some none := by
      rw [← hfuel]
      refine getImpl_long hbc hchild ?_ (Nat.lt_succ_of_le hdrop)
      rw [List.length_drop]
      omega
    rw [hnone, ite_self]
    exact getImpl_long hb hwf hlong (Nat.lt_succ_self _)
  · have hfits : FitsInt (c :: p') := Nat.lt_of_le_of_lt hplen hb
    have hfits' : FitsInt (c :: key) := Nat.lt_of_le_of_lt (Nat.le_of_not_lt hlong) hb
    rw [← hfuel]
    exact getImpl_cons hc hp hfits hfits'

/-- What is found below a node depends on its children only. -/
theorem get_cons_congr (hb : b < 2 ^ 31) (hwf : WellFormed b node)
    (hc : node'.children = node.children) (c : UInt8) (k : List UInt8) :
    radixTreeGet node' (c :: k) = radixTreeGet node (c :: k) := by
  cases hchild : node.children c with
  | none => rw [get_none hchild, get_none (hc ▸ hchild)]
  | some child =>
      obtain ⟨p, hp, -⟩ := hwf.of_child hchild
      rw [get_cons hb hwf hchild hp, get_cons hb (hwf.congr hc) (hc ▸ hchild) hp]

theorem get_setChild (hb : b < 2 ^ 31) (hwf : WellFormed b node)
    (hwf' : WellFormed b (node.setChild c child)) (hp : child.nodePrefix = some p)
    (k : List UInt8) : radixTreeGet (node.setChild c child) k =
      if k.head? = some c then if p <+: k then radixTreeGet child (k.drop p.length) else some none
      else radixTreeGet node k := by
  cases k with
  | nil => rfl
  | cons d k =>
      simp only [List.head?_cons, Option.some.injEq]
      by_cases hdc : d = c
      · subst hdc
        rw [if_pos rfl, get_cons hb hwf' setChild_self hp]
      · rw [if_neg hdc]
        have hslot : (node.setChild c child).children d = node.children d := setChild_of_ne hdc
        cases hchild : node.children d with
        | none => rw [get_none hchild, get_none (hslot.trans hchild)]
        | some child' =>
            obtain ⟨p', hp', -⟩ := hwf.of_child hchild
            rw [get_cons hb hwf hchild hp', get_cons hb hwf' (hslot.trans hchild) hp']

/-! ### Insertion -/

variable {alloc : ℕ → Bool} {data n : ℕ}

/-- The lookups after an insertion. -/
def Inserted (node node' : RadixNode) (key : List UInt8) (data : ℕ) : Prop :=
  ∀ k, radixTreeGet node' k = if k = key then some (some data) else radixTreeGet node k

theorem inserted_here (hb : b < 2 ^ 31) (hwf : WellFormed b node) (data : ℕ) :
    Inserted node { node with terminating := true, data := data } [] data := by
  intro k
  cases k with
  | nil => simp
  | cons c k =>
      rw [if_neg (List.cons_ne_nil c k)]
      exact get_cons_congr hb hwf rfl c k

theorem inserted_leaf (hb : b < 2 ^ 31) (hwf : WellFormed b node) (hc : node.children c = none)
    (hlen : (c :: key).length ≤ b) (data : ℕ) :
    WellFormed b (node.setChild c ⟨some (c :: key), fun _ => none, data, true⟩) ∧
      Inserted node (node.setChild c ⟨some (c :: key), fun _ => none, data, true⟩) (c :: key)
        data := by
  have hleaf : ∀ b, WellFormed b ⟨some (c :: key), fun _ => none, data, true⟩ := fun b =>
    ⟨nofun, nofun⟩
  have hwf' : WellFormed b (node.setChild c ⟨some (c :: key), fun _ => none, data, true⟩) :=
    hwf.setChild rfl hlen (hleaf _)
  refine ⟨hwf', fun k => ?_⟩
  rw [get_setChild hb hwf hwf' rfl]
  by_cases hk : k = c :: key
  · subst hk
    simp
  · rw [if_neg hk]
    split
    · rename_i hhead
      have hnone : radixTreeGet node k = some none := by
        cases k with
        | nil => cases hhead
        | cons d k =>
            cases hhead
            exact get_none hc
      rw [hnone]
      split
      · rename_i hpre
        obtain ⟨t, rfl⟩ := hpre
        cases t with
        | nil => exact absurd (List.append_nil _) hk
        | cons d t =>
            rw [List.drop_left]
            exact get_none rfl
      · rfl
    · rfl

/-- A lookup after the child in one slot was replaced by one with the same prefix. -/
theorem get_replaceChild (hb : b < 2 ^ 31) (hwf : WellFormed b node)
    (hc : node.children c = some child) (hp : child.nodePrefix = some (c :: p)) {child' : RadixNode}
    (hp' : child'.nodePrefix = some (c :: p)) (hwf' : WellFormed (b - (c :: p).length) child') :
    WellFormed b (node.setChild c child') ∧ ∀ k, radixTreeGet (node.setChild c child') k =
      if c :: p <+: k then radixTreeGet child' (k.drop (c :: p).length) else radixTreeGet node k := by
  obtain ⟨p₁, hp₁, hlen, -⟩ := hwf.of_child hc
  rw [hp, Option.some.injEq] at hp₁
  have hnode := hwf.setChild hp' (hp₁ ▸ hlen) hwf'
  refine ⟨hnode, fun k => ?_⟩
  rw [get_setChild hb hwf hnode hp']
  by_cases hpre : c :: p <+: k
  · obtain ⟨t, rfl⟩ := hpre
    have hhead : (c :: p ++ t).head? = some c := rfl
    rw [if_pos hhead, if_pos (List.prefix_append ..), if_pos (List.prefix_append ..)]
  · rw [if_neg hpre, if_neg hpre]
    split
    · rename_i hhead
      cases k with
      | nil => cases hhead
      | cons d k =>
          cases hhead
          rw [get_cons hb hwf hc hp, if_neg hpre]
    · rfl

theorem get_append (hb : b < 2 ^ 31) (hwf : WellFormed b node) (hc : node.children c = some child)
    (hp : child.nodePrefix = some (c :: p)) (t : List UInt8) :
    radixTreeGet node (c :: p ++ t) = radixTreeGet child t := by
  rw [List.cons_append, get_cons hb hwf hc hp, ← List.cons_append, if_pos (List.prefix_append ..),
    List.drop_left]

/-- An insertion below a child whose prefix leads to the key. -/
theorem inserted_below (hb : b < 2 ^ 31) (hwf : WellFormed b node)
    (hc : node.children c = some child) (hp : child.nodePrefix = some (c :: p)) {child' : RadixNode}
    {rest : List UInt8} (hp' : child'.nodePrefix = some (c :: p))
    (hwf' : WellFormed (b - (c :: p).length) child') (hins : Inserted child child' rest data) :
    WellFormed b (node.setChild c child') ∧
      Inserted node (node.setChild c child') (c :: p ++ rest) data := by
  obtain ⟨hnode, hget⟩ := get_replaceChild hb hwf hc hp hp' hwf'
  refine ⟨hnode, fun k => ?_⟩
  rw [hget k]
  split
  · rename_i hpre
    obtain ⟨t, rfl⟩ := hpre
    rw [List.drop_left, hins t, get_append hb hwf hc hp]
    simp only [List.append_cancel_left_eq]
  · rename_i hpre
    have hne : k ≠ c :: p ++ rest := fun hk => hpre (hk ▸ List.prefix_append ..)
    rw [if_neg hne]

/-- The node that takes over the first part of the prefix of a child. -/
def splitNode (child : RadixNode) (q : List UInt8) (d : UInt8) (s : List UInt8) : RadixNode :=
  { empty with nodePrefix := some q }.setChild d { child with nodePrefix := some (d :: s) }

theorem wellFormed_splitNode {q s : List UInt8} (hlen : (q ++ d :: s).length ≤ b)
    (hchild : WellFormed (b - (q ++ d :: s).length) child) :
    WellFormed (b - q.length) (splitNode child q d s) := by
  rw [List.length_append] at hlen hchild
  have hempty : WellFormed (b - q.length) { empty with nodePrefix := some q } :=
    (wellFormed_empty _).congr rfl
  refine hempty.setChild rfl (by omega) ?_
  rw [Nat.sub_sub]
  exact hchild.congr rfl

theorem get_split (hb : b < 2 ^ 31) (hwf : WellFormed b node) (hc : node.children c = some child)
    {q s : List UInt8} (hp : child.nodePrefix = some (c :: q ++ d :: s)) :
    WellFormed b (node.setChild c (splitNode child (c :: q) d s)) ∧
      WellFormed (b - (c :: q).length) (splitNode child (c :: q) d s) ∧
      ∀ k, radixTreeGet (node.setChild c (splitNode child (c :: q) d s)) k =
        radixTreeGet node k := by
  obtain ⟨p, hp', hlen, hchild⟩ := hwf.of_child hc
  rw [hp, Option.some.injEq] at hp'
  rw [← hp'] at hlen hchild
  have hb' : b - (c :: q).length < 2 ^ 31 := Nat.lt_of_le_of_lt (Nat.sub_le ..) hb
  have hmid := wellFormed_splitNode hlen hchild
  rw [List.length_append] at hlen hchild
  have hnode : WellFormed b (node.setChild c (splitNode child (c :: q) d s)) :=
    hwf.setChild rfl (by omega) hmid
  refine ⟨hnode, hmid, fun k => ?_⟩
  rw [get_setChild hb hwf hnode rfl]
  split
  swap
  · rfl
  rename_i hhead
  have hold : radixTreeGet node k = if c :: q ++ d :: s <+: k then
      radixTreeGet child (k.drop (c :: q ++ d :: s).length) else some none := by
    cases k with
    | nil => cases hhead
    | cons e k =>
        cases hhead
        exact get_cons hb hwf hc hp k
  rw [hold]
  by_cases hpre : c :: q <+: k
  · obtain ⟨t, rfl⟩ := hpre
    have hempty : WellFormed (b - (c :: q).length) { empty with nodePrefix := some (c :: q) } :=
      (wellFormed_empty _).congr rfl
    rw [if_pos (List.prefix_append ..), List.drop_left, List.length_append, ← List.drop_drop,
      List.drop_left]
    unfold splitNode at hmid ⊢
    rw [get_setChild hb' hempty hmid rfl]
    simp only [List.prefix_append_right_inj]
    split
    · split
      · cases t.drop (d :: s).length with
        | nil => rfl
        | cons e t' => exact get_cons_congr (Nat.lt_of_le_of_lt (Nat.sub_le ..) hb) hchild rfl e t'
      · rfl
    · rename_i hne
      have hno : ¬ d :: s <+: t := by
        rintro ⟨t', rfl⟩
        exact hne rfl
      rw [if_neg hno]
      cases t with
      | nil => rfl
      | cons e t => exact get_none rfl
  · have hno : ¬ c :: q ++ d :: s <+: k := fun h => hpre ((List.prefix_append ..).trans h)
    rw [if_neg hpre, if_neg hno]

/-- The call is passed on to a child whose prefix counts as covered. -/
theorem addImpl_covered (hc : node.children c = some child) (hp : child.nodePrefix = some p)
    (hcov : coversPrefix (getCommonPrefixLength p (c :: key)) p = .eq) :
    radixTreeAddImpl alloc data (fuel + 1) node (c :: key) n =
      (radixTreeAddImpl alloc data fuel child ((c :: key).drop (getCommonPrefixLength p (c :: key)))
        n).map (fun r => (node.setChild c r.1, r.2)) := by
  rw [radixTreeAddImpl, hc]
  simp only [hp, Option.bind_eq_bind, Option.bind_some, hcov, if_true]
  cases radixTreeAddImpl alloc data fuel child _ n <;> rfl

theorem addImpl_parted (h₀ : alloc n = true) (h₁ : alloc (n + 1) = true)
    (h₂ : alloc (n + 2) = true) (hc : node.children c = some child) {q s : List UInt8}
    (hp : child.nodePrefix = some (q ++ d :: s))
    (hcommon : getCommonPrefixLength (q ++ d :: s) (c :: key) = q.length)
    (hcov : coversPrefix q.length (q ++ d :: s) ≠ .eq) :
    radixTreeAddImpl alloc data (fuel + 1) node (c :: key) n =
      (radixTreeAddImpl alloc data fuel (splitNode child q d s) ((c :: key).drop q.length)
        (n + 3)).map (fun r => (node.setChild c r.1, r.2)) := by
  rw [radixTreeAddImpl, hc]
  simp only [hp, Option.bind_eq_bind, Option.bind_some, hcommon, if_neg hcov, h₀, h₁, h₂, if_true,
    List.take_left, List.drop_left, List.headD_cons]
  rw [splitNode]
  cases radixTreeAddImpl alloc data fuel _ ((c :: key).drop q.length) (n + 3) <;> rfl

theorem addImpl_below (hc : node.children c = some child) (hp : child.nodePrefix = some p)
    (hfits : FitsInt p) (hcommon : getCommonPrefixLength p (c :: key) = p.length) :
    radixTreeAddImpl alloc data (fuel + 1) node (c :: key) n =
      (radixTreeAddImpl alloc data fuel child ((c :: key).drop p.length) n).map
        (fun r => (node.setChild c r.1, r.2)) := by
  rw [addImpl_covered hc hp ((coversPrefix_eq hfits).mpr hcommon), hcommon]

theorem addImpl_split (halloc : ∀ i, alloc i = true) (hc : node.children c = some child)
    {q s : List UInt8} (hp : child.nodePrefix = some (q ++ d :: s)) (hfits : FitsInt (q ++ d :: s))
    (hcommon : getCommonPrefixLength (q ++ d :: s) (c :: key) = q.length) :
    radixTreeAddImpl alloc data (fuel + 1) node (c :: key) n =
      (radixTreeAddImpl alloc data fuel (splitNode child q d s) ((c :: key).drop q.length)
        (n + 3)).map (fun r => (node.setChild c r.1, r.2)) := by
  refine addImpl_parted (halloc _) (halloc _) (halloc _) hc hp hcommon fun hcov => ?_
  have hlen := (coversPrefix_eq hfits).mp hcov
  rw [List.length_append, List.length_cons] at hlen
  omega

/-- The part `q` of a key that it shares with the prefix of a child is all of the prefix, or the
prefix is split behind it. -/
theorem child_cases (hb : b < 2 ^ 31) (hwf : WellFormed b node) (hc : node.children c = some child)
    (key : List UInt8) :
    ∃ q rest, c :: key = q ++ rest ∧ q <+: (c :: key).take (int32 (c :: key).length).toNat ∧
      ((child.nodePrefix = some q ∧ FitsInt q ∧ getCommonPrefixLength q (c :: key) = q.length ∧
          WellFormed (b - q.length) child ∧ ∃ q', q = c :: q') ∨
        ∃ d s, child.nodePrefix = some (q ++ d :: s) ∧ FitsInt (q ++ d :: s) ∧
          getCommonPrefixLength (q ++ d :: s) (c :: key) = q.length ∧
          coversPrefix q.length (q ++ d :: s) ≠ .eq ∧
          WellFormed (b - q.length) (splitNode child q d s) ∧
          (FitsInt (c :: key) ∨ q ≠ [] → ∃ q', q = c :: q')) := by
  obtain ⟨p, hp, hplen, hchild⟩ := hwf.of_child hc
  have hfits : FitsInt (c :: p) := Nat.lt_of_le_of_lt hplen hb
  obtain ⟨q, p', hpq, hpre, hcommon⟩ := getCommonPrefixLength_split hfits (c :: key)
  refine ⟨q, (c :: key).drop q.length,
    List.prefix_append_drop (hpre.trans (List.take_prefix ..)), hpre, ?_⟩
  cases p' with
  | nil =>
      rw [List.append_nil] at hpq
      subst hpq
      exact .inl ⟨hp, hfits, hcommon, hchild, p, rfl⟩
  | cons d s =>
      have hhead : FitsInt (c :: key) ∨ q ≠ [] → ∃ q', q = c :: q' := by
        intro h
        have hq : q ≠ [] := by
          rintro rfl
          rcases h with hshort | hne
          · exact getCommonPrefixLength_ne_zero hfits hshort hcommon
          · exact hne rfl
        obtain ⟨e, q', rfl⟩ := List.exists_cons_of_ne_nil hq
        rw [List.cons_append, List.cons.injEq] at hpq
        exact ⟨q', by rw [hpq.1]⟩
      rw [hpq] at hp hfits hcommon hplen hchild
      refine .inr ⟨d, s, hp, hfits, hcommon, ?_, wellFormed_splitNode hplen hchild, hhead⟩
      rw [ne_eq, coversPrefix_eq hfits, List.length_append, List.length_cons]
      omega

/-- **Insertion** with enough memory: the key gets the data, nothing else changes. -/
theorem addImpl_spec (halloc : ∀ i, alloc i = true) (hb : b < 2 ^ 31) (hwf : WellFormed b node)
    (hlen : key.length ≤ b) (hfuel : key.length < fuel) :
    ∃ node' n', radixTreeAddImpl alloc data fuel node key n = some (node', true, n') ∧
      WellFormed b node' ∧ node'.nodePrefix = node.nodePrefix ∧ Inserted node node' key data := by
  induction fuel generalizing node key b n with
  | zero => omega
  | succ fuel ih =>
      cases key with
      | nil => exact ⟨_, n, rfl, hwf.congr rfl, rfl, inserted_here hb hwf data⟩
      | cons c key =>
          rw [List.length_cons] at hfuel
          cases hc : node.children c with
          | none =>
              obtain ⟨hwf', hins⟩ := inserted_leaf hb hwf hc hlen data
              obtain ⟨fuel, rfl⟩ : ∃ k, fuel = k + 1 := ⟨fuel - 1, by omega⟩
              refine ⟨_, n + 2, ?_, hwf', rfl, hins⟩
              simp only [radixTreeAddImpl, hc, halloc, if_true, Option.bind_eq_bind, Option.bind_some]
              rfl
          | some child =>
              obtain ⟨q, rest, hkey, -, hcase⟩ := child_cases hb hwf hc key
              have hb' : b - q.length < 2 ^ 31 := Nat.lt_of_le_of_lt (Nat.sub_le ..) hb
              have hfits' : FitsInt (c :: key) := Nat.lt_of_le_of_lt hlen hb
              have hlength := congrArg List.length hkey
              rw [hkey, List.length_append] at hlen
              rw [List.length_append, List.length_cons] at hlength
              have hrest : rest.length ≤ b - q.length := by omega
              rcases hcase with ⟨hp, hfits, hcommon, hchild, q', rfl⟩ |
                ⟨d, s, hp, hfits, hcommon, -, hmid, hhead⟩
              · rw [List.length_cons] at hlength
                obtain ⟨child', n', hadd, hwf', hp', hins⟩ :=
                  ih (n := n) hb' hchild hrest (by omega)
                obtain ⟨hnode, hins'⟩ := inserted_below hb hwf hc hp (hp'.trans hp) hwf' hins
                refine ⟨_, n', ?_, hnode, rfl, hkey ▸ hins'⟩
                rw [addImpl_below hc hp hfits hcommon, hkey, List.drop_left, hadd]
                rfl
              · obtain ⟨q', rfl⟩ := hhead (.inl hfits')
                rw [List.length_cons] at hlength
                obtain ⟨hnode, -, hsame⟩ := get_split hb hwf hc hp
                obtain ⟨mid, n', hadd, hwf', hp', hins⟩ :=
                  ih (n := n + 3) hb' hmid hrest (by omega)
                obtain ⟨hnode', hins'⟩ := inserted_below hb hnode setChild_self rfl hp' hwf' hins
                rw [setChild_setChild] at hnode' hins'
                refine ⟨_, n', ?_, hnode', rfl, fun k => ?_⟩
                · rw [addImpl_split halloc hc hp hfits hcommon, hkey, List.drop_left, hadd]
                  rfl
                · rw [hins' k, hsame k, hkey]

theorem radixTreeAdd_spec (halloc : ∀ i, alloc i = true) (hb : b < 2 ^ 31)
    (hwf : WellFormed b node) (hlen : key.length ≤ b) (data n : ℕ) :
    ∃ node' n', radixTreeAdd alloc node key data n = some (node', true, n') ∧ WellFormed b node' ∧
      Inserted node node' key data := by
  obtain ⟨node', n', hadd, hwf', -, hins⟩ :=
    addImpl_spec halloc hb hwf hlen (Nat.lt_succ_self key.length)
  exact ⟨node', n', hadd, hwf', hins⟩

/-! ### Keys whose length is not an `int` -/

/-- The number of bytes of a key that the code takes into account. -/
theorem int32_toNat_le {m : ℕ} (h : 2 ^ 31 ≤ m) :
    (int32 m).toNat = 0 ∨ (int32 m).toNat + 2 ^ 32 ≤ m := by
  have hmod : int32 m = Int.bmod m (2 ^ 32) := if_neg (Nat.not_lt.mpr h)
  rw [hmod, Int.bmod_def]
  split
  · omega
  · omega

theorem take_int32_ne_self {m : ℕ} (h : 2 ^ 31 ≤ m) : (int32 m).toNat < m := by
  rcases int32_toNat_le h with h0 | hle
  · omega
  · omega

theorem getCommonPrefixLength_self (key : List UInt8) :
    getCommonPrefixLength key key = (key.take (int32 key.length).toNat).length := by
  unfold getCommonPrefixLength
  generalize key.take (int32 key.length).toNat = s
  induction s with
  | nil => rfl
  | cons c s ih => simp [commonPrefixLoop, ih]

/-- What is left of a long key behind a common prefix is long. -/
theorem long_drop {m : ℕ} (h : 2 ^ 31 ≤ key.length) (hm : m ≤ (int32 key.length).toNat) :
    2 ^ 31 ≤ (key.drop m).length := by
  rw [List.length_drop]
  rcases int32_toNat_le h with h0 | hle
  · omega
  · omega

theorem commonPrefixLoop_append (q t : List UInt8) : commonPrefixLoop q (q ++ t) = q.length := by
  induction q with
  | nil => cases t <;> rfl
  | cons c q ih => simp [commonPrefixLoop, ih]

theorem getCommonPrefixLength_prefix {q : List UInt8} (hq : FitsInt q)
    (hpre : q <+: key.take (int32 key.length).toNat) :
    getCommonPrefixLength q key = q.length := by
  obtain ⟨t, ht⟩ := hpre
  rw [getCommonPrefixLength, hq.int32_length, Int.toNat_natCast, List.take_length, ← ht]
  exact commonPrefixLoop_append q t

/-- Below a child whose prefix is a part of the key that the code looks at. -/
theorem getImpl_below {q : List UInt8} (hc : node.children c = some child)
    (hp : child.nodePrefix = some q) (hq : FitsInt q)
    (hpre : q <+: (c :: key).take (int32 (c :: key).length).toNat) :
    radixTreeGetImpl (fuel + 1) node (c :: key) =
      radixTreeGetImpl fuel child ((c :: key).drop q.length) := by
  have hcommon := getCommonPrefixLength_prefix hq hpre
  rw [getImpl_some hc hp]
  simp only [hcommon, coversPrefix_lt hq, lt_irrefl, if_false]

theorem getImpl_long_leaf (hlong : 2 ^ 31 ≤ (c :: key).length) (hc : node.children c =
    some ⟨some (c :: key), fun _ => none, data, true⟩) (fuel : ℕ) :
    radixTreeGetImpl fuel node (c :: key) ≠ some (some data) := by
  cases fuel with
  | zero => exact nofun
  | succ fuel =>
      rw [getImpl_some hc rfl, getCommonPrefixLength_self]
      split
      · exact nofun
      · have hlt := take_int32_ne_self hlong
        have hne : (c :: key).drop ((c :: key).take (int32 (c :: key).length).toNat).length ≠ [] := by
          rw [ne_eq, List.drop_eq_nil_iff, List.length_take]
          omega
        obtain ⟨d, t, ht⟩ := List.exists_cons_of_ne_nil hne
        rw [ht]
        cases fuel with
        | zero => exact nofun
        | succ fuel =>
            rw [getImpl_none rfl]
            exact nofun

/-- A call for an occupied slot returns from a call on a node whose prefix is part of the key. -/
theorem addImpl_child (halloc : ∀ i, alloc i = true) (hb : b < 2 ^ 31) (hwf : WellFormed b node)
    (hc : node.children c = some child) {success : Bool} {n' : ℕ}
    (hadd : radixTreeAddImpl alloc data (fuel + 1) node (c :: key) n = some (node', success, n')) :
    ∃ q b' mid m mid', q <+: (c :: key).take (int32 (c :: key).length).toNat ∧ FitsInt q ∧
      b' < 2 ^ 31 ∧ WellFormed b' mid ∧ mid.nodePrefix = some q ∧
      radixTreeAddImpl alloc data fuel mid ((c :: key).drop q.length) m =
        some (mid', success, n') ∧ node' = node.setChild c mid' := by
  obtain ⟨q, rest, -, hpre, hcase⟩ := child_cases hb hwf hc key
  have hb' : b - q.length < 2 ^ 31 := Nat.lt_of_le_of_lt (Nat.sub_le ..) hb
  rcases hcase with ⟨hp, hfits, hcommon, hchild, -⟩ | ⟨d, s, hp, hfits, hcommon, -, hmid, -⟩
  · rw [addImpl_below hc hp hfits hcommon, Option.map_eq_some_iff] at hadd
    obtain ⟨⟨mid', r⟩, hcall, hr⟩ := hadd
    cases hr
    exact ⟨q, _, child, n, mid', hpre, hfits, hb', hchild, hp, hcall, rfl⟩
  · rw [addImpl_split halloc hc hp hfits hcommon, Option.map_eq_some_iff] at hadd
    obtain ⟨⟨mid', r⟩, hcall, hr⟩ := hadd
    cases hr
    have hq : FitsInt q := hfits.of_le (by rw [List.length_append]; omega)
    exact ⟨q, _, splitNode child q d s, n + 3, mid', hpre, hq, hb', hmid, rfl, hcall, rfl⟩

/-- **A key whose length is not an `int` is not found** after it was added. -/
theorem addImpl_long (halloc : ∀ i, alloc i = true) (hb : b < 2 ^ 31) (hwf : WellFormed b node)
    (hlong : 2 ^ 31 ≤ key.length) {success : Bool} {n' : ℕ}
    (hadd : radixTreeAddImpl alloc data fuel node key n = some (node', success, n')) :
    node'.nodePrefix = node.nodePrefix ∧
      ∀ fuel', radixTreeGetImpl fuel' node' key ≠ some (some data) := by
  induction fuel generalizing b node node' key n success n' with
  | zero => cases hadd
  | succ fuel ih =>
      cases key with
      | nil => cases hlong
      | cons c key =>
          cases hc : node.children c with
          | none =>
              cases fuel with
              | zero =>
                  simp [radixTreeAddImpl, hc, halloc] at hadd
              | succ fuel =>
                  simp only [radixTreeAddImpl, hc, halloc, if_true, Option.bind_eq_bind,
                    Option.bind_some, Option.pure_def, Option.some.injEq, Prod.mk.injEq] at hadd
                  obtain ⟨rfl, -⟩ := hadd
                  exact ⟨rfl, getImpl_long_leaf hlong setChild_self⟩
          | some child =>
              obtain ⟨q, b', mid, m, mid', hpre, hq, hb', hmid, hmidp, hcall, rfl⟩ :=
                addImpl_child halloc hb hwf hc hadd
              have hrest := long_drop hlong (hpre.length_le.trans (List.length_take_le ..))
              obtain ⟨hp', hget⟩ := ih hb' hmid hrest hcall
              refine ⟨rfl, fun fuel' => ?_⟩
              cases fuel' with
              | zero => exact nofun
              | succ fuel' =>
                  rw [getImpl_below setChild_self (hp'.trans hmidp) hq hpre]
                  exact hget fuel'

/-! ### Sequences of insertions -/

/-- One call of `radix_tree_add` that returns true; the state counts the allocations. -/
def addCall (alloc : ℕ → Bool) (s : RadixNode × ℕ) (a : List UInt8 × ℕ) :
    Option (RadixNode × ℕ) := do
  let (root, success, n) ← radixTreeAdd alloc s.1 a.1 a.2 s.2
  if success then some (root, n) else none

/-- The data of the last insertion of each key. -/
def lastAdded (adds : List (List UInt8 × ℕ)) : List UInt8 → Option ℕ :=
  adds.foldl (fun m a => Function.update m a.1 (some a.2)) (fun _ => none)

/-- All insertions into a new tree return true, and the tree then answers for every key as the
insertions say. -/
def IsMap (adds : List (List UInt8 × ℕ)) : Prop :=
  ∃ s, adds.foldlM (addCall fun _ => true) (empty, 0) = some s ∧
    ∀ k, radixTreeGet s.1 k = some (lastAdded adds k) ∧
      radixTreeContains s.1 k = some (lastAdded adds k).isSome

theorem lastAdded_concat (adds : List (List UInt8 × ℕ)) (a : List UInt8 × ℕ) (k : List UInt8) :
    lastAdded (adds ++ [a]) k = if k = a.1 then some a.2 else lastAdded adds k := by
  rw [lastAdded, List.foldl_append]
  exact Function.update_apply ..

theorem lastAdded_eq_none {adds : List (List UInt8 × ℕ)} {k : List UInt8}
    (h : k ∉ adds.map Prod.fst) : lastAdded adds k = none := by
  induction adds using List.reverseRecOn with
  | nil => rfl
  | append_singleton adds a ih =>
      rw [List.map_append, List.mem_append, not_or] at h
      rw [lastAdded_concat, if_neg (fun hk => h.2 (by simp [hk])), ih h.1]

/-- The tree after insertions of keys whose length is an `int`. -/
theorem addCalls_spec {adds : List (List UInt8 × ℕ)} (h : ∀ a ∈ adds, FitsInt a.1) :
    ∃ s, adds.foldlM (addCall fun _ => true) (empty, 0) = some s ∧ WellFormed (2 ^ 31 - 1) s.1 ∧
      ∀ k, radixTreeGet s.1 k = some (lastAdded adds k) := by
  induction adds using List.reverseRecOn with
  | nil =>
      refine ⟨(empty, 0), rfl, wellFormed_empty _, fun k => ?_⟩
      cases k with
      | nil => rfl
      | cons c k => exact get_none rfl
  | append_singleton adds a ih =>
      obtain ⟨s, hs, hwf, hget⟩ := ih fun a ha => h a (List.mem_append_left _ ha)
      have ha : a.1.length ≤ 2 ^ 31 - 1 :=
        Nat.le_sub_one_of_lt (h a (List.mem_append_right _ (List.mem_singleton_self a)))
      obtain ⟨root, n, hadd, hwf', hins⟩ :=
        radixTreeAdd_spec (fun _ => rfl : ∀ _ : ℕ, true = true) (by norm_num) hwf ha a.2 s.2
      refine ⟨(root, n), ?_, hwf', fun k => ?_⟩
      · rw [List.foldlM_append, hs]
        simp only [Option.bind_eq_bind, Option.bind_some, List.foldlM_cons, List.foldlM_nil, addCall,
          hadd, if_true, Option.pure_def]
      · rw [hins k, lastAdded_concat, hget k]
        split
        · rfl
        · rfl

theorem isMap_of_fits {adds : List (List UInt8 × ℕ)} (h : ∀ a ∈ adds, FitsInt a.1) :
    IsMap adds := by
  obtain ⟨s, hs, -, hget⟩ := addCalls_spec h
  refine ⟨s, hs, fun k => ⟨hget k, ?_⟩⟩
  rw [radixTreeContains, hget k]
  rfl

theorem not_isMap_of_long {adds : List (List UInt8 × ℕ)} {a : List UInt8 × ℕ}
    (h : ∀ a ∈ adds, FitsInt a.1) (ha : ¬ FitsInt a.1) : ¬ IsMap (adds ++ [a]) := by
  rintro ⟨s', hs', hget'⟩
  obtain ⟨s, hs, hwf, -⟩ := addCalls_spec h
  rw [List.foldlM_append, hs] at hs'
  simp only [Option.bind_eq_bind, Option.bind_some, List.foldlM_cons, List.foldlM_nil,
    Option.pure_def, Option.bind_fun_some] at hs'
  obtain ⟨⟨root, success, n⟩, hadd, hroot⟩ := Option.bind_eq_some_iff.mp hs'
  cases success with
  | false => cases hroot
  | true =>
      cases hroot
      have hlost := (addImpl_long (fun _ => rfl) (by norm_num) hwf (Nat.le_of_not_lt ha) hadd).2
      refine hlost (a.1.length + 1) ((hget' a.1).1.trans ?_)
      rw [lastAdded_concat, if_pos rfl]

/-- **The radix tree is a finite map** along a sequence of insertions exactly if the length of every
inserted key is an `int`. -/
theorem finite_map_iff (adds : List (List UInt8 × ℕ)) :
    (∀ p, p <+: adds → IsMap p) ↔ ∀ a ∈ adds, FitsInt a.1 := by
  constructor
  · intro hmap
    induction adds using List.reverseRecOn with
    | nil => exact nofun
    | append_singleton adds a ih =>
        have hbefore := ih fun p hp => hmap p (hp.trans (List.prefix_append ..))
        intro a' ha'
        rcases List.mem_append.mp ha' with ha' | ha'
        · exact hbefore a' ha'
        · rw [List.mem_singleton] at ha'
          subst ha'
          by_contra hlong
          exact not_isMap_of_long hbefore hlong (hmap _ (List.prefix_refl _))
  · intro h p hp
    exact isMap_of_fits fun a ha => h a (hp.subset ha)

theorem not_isMap_behind_a {key : List UInt8} (hkey : ¬ FitsInt key) :
    ¬ IsMap [([97], 0), (key, 1)] := by
  have hshort : ∀ a ∈ [(([97] : List UInt8), 0)], FitsInt a.1 := by
    intro a ha
    rw [List.mem_singleton.mp ha]
    unfold FitsInt
    norm_num
  exact not_isMap_of_long hshort (a := (key, 1)) hkey

/-- Behind `"a"` a key of `2 ^ 31` bytes `'a'` is not added: its length is `-2 ^ 31`, and the call splits
the edge `"a"` in front of its first byte for ever, with copies of one and two bytes. -/
theorem long_key_is_lost : ¬ IsMap [([97], 0), (List.replicate (2 ^ 31) 97, 1)] := by
  refine not_isMap_behind_a ?_
  unfold FitsInt
  rw [List.length_replicate]
  exact lt_irrefl _

end RadixNode

end HyveMind
