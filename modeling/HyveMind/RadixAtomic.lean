import HyveMind.RadixShape

/-! # Insertions that run out of memory

`radix_tree_add` when some of its allocations fail.  A node that cannot be allocated ends the call with
the answer false, and no lookup changes.  The copies of the prefixes are not checked: a copy that fails
leaves a node with a null prefix, or is read at once.

`CopiesSucceed` follows a call to the place of its key and says which of its allocations must not
fail.  Along a run of calls on a new tree every call is atomic exactly if that holds of every call
(`adds_atomic_iff`). -/

namespace HyveMind

namespace RadixNode

variable {node node' child child' root : RadixNode} {c d : UInt8} {p q s t k key rest : List UInt8}
  {alloc : ℕ → Bool} {data b fuel n n' : ℕ} {success : Bool}

/-! ### Atomic calls -/

/-- One call of `radix_tree_add`; `alloc` says which of its allocations succeed. -/
structure AddCall where
  key : List UInt8
  data : ℕ
  alloc : ℕ → Bool

/-- Every node below this one has a prefix, and it is not empty. -/
inductive Prefixed : RadixNode → Prop
  | intro {node : RadixNode}
      (hhead : ∀ c child, node.children c = some child →
        ∃ d p, child.nodePrefix = some (d :: p))
      (hchild : ∀ c child, node.children c = some child → Prefixed child) : Prefixed node

theorem Prefixed.ofChild (h : Prefixed node) (hc : node.children c = some child) :
    (∃ d p, child.nodePrefix = some (d :: p)) ∧ Prefixed child := by
  cases h with
  | intro hhead hchild => exact ⟨hhead c child hc, hchild c child hc⟩

theorem WellFormed.prefixed (h : WellFormed b node) : Prefixed node := by
  induction h with
  | intro hhead _ ih =>
      constructor
      · intro c child hc
        obtain ⟨p, hp, -⟩ := hhead c child hc
        exact ⟨c, p, hp⟩
      · intro c child hc
        obtain ⟨p, hp, -⟩ := hhead c child hc
        exact ih c child (c :: p) hc hp

/-- The lookups after a call that returns true or false. -/
def Answers (node node' : RadixNode) (key : List UInt8) (data : ℕ) : Bool → Prop
  | true => Inserted node node' key data
  | false => ∀ k, radixTreeGet node' k = radixTreeGet node k

/-- The call returns, the lookups are those before the call or those with the new key, and no prefix
is missing. -/
def Atomic (root : RadixNode) (a : AddCall) : Prop :=
  ∃ root' success n, radixTreeAdd a.alloc root a.key a.data 0 = some (root', success, n) ∧
    Answers root root' a.key a.data success ∧ Prefixed root'

theorem Answers.of_same {mid : RadixNode} (h : Answers mid node' key data success)
    (hsame : ∀ k, radixTreeGet mid k = radixTreeGet node k) :
    Answers node node' key data success := by
  cases success with
  | true =>
      intro k
      rw [h k, hsame k]
  | false =>
      intro k
      rw [h k, hsame k]

theorem answers_below (hb : b < 2 ^ 31) (hwf : WellFormed b node)
    (hc : node.children c = some child) (hp : child.nodePrefix = some (c :: p))
    (hp' : child'.nodePrefix = some (c :: p)) (hwf' : WellFormed (b - (c :: p).length) child')
    (h : Answers child child' rest data success) :
    WellFormed b (node.setChild c child') ∧
      Answers node (node.setChild c child') (c :: p ++ rest) data success := by
  cases success with
  | true => exact inserted_below hb hwf hc hp hp' hwf' h
  | false =>
      obtain ⟨hnode, hget⟩ := get_replaceChild hb hwf hc hp hp' hwf'
      refine ⟨hnode, fun k => ?_⟩
      rw [hget k]
      split
      · rename_i hpre
        obtain ⟨t, rfl⟩ := hpre
        rw [List.drop_left, h t, get_append hb hwf hc hp]
      · rfl

/-- A call that goes on in the node that was put in front of a child. -/
theorem answers_split (hb : b < 2 ^ 31) (hwf : WellFormed b node)
    (hc : node.children c = some child) (hp : child.nodePrefix = some (c :: q ++ d :: s))
    {mid : RadixNode} (hp' : mid.nodePrefix = some (c :: q))
    (hwf' : WellFormed (b - (c :: q).length) mid)
    (h : Answers (splitNode child (c :: q) d s) mid rest data success) :
    WellFormed b (node.setChild c mid) ∧
      Answers node (node.setChild c mid) (c :: q ++ rest) data success := by
  obtain ⟨hnode, -, hsame⟩ := get_split hb hwf hc hp
  obtain ⟨hnode', hans⟩ := answers_below hb hnode setChild_self rfl hp' hwf' h
  rw [setChild_setChild] at hnode' hans
  exact ⟨hnode', hans.of_same hsame⟩

/-! ### The allocations of a call -/

/-- The allocations of a call, at the place of its key: a leaf comes with the copy of its prefix, a
split with both parts of the old prefix and, if something is left of the key, with a leaf for it.  The
prefix of a leaf is shorter than `2 ^ 31` bytes, and no prefix is split in front of its first byte (a
longer key would do that). -/
def CopiesSucceed (alloc : ℕ → Bool) : ℕ → RadixNode → List UInt8 → ℕ → Prop
  | 0, _, _, _ => False
  | _ + 1, _, [], _ => True
  | fuel + 1, node, index :: key, n =>
      match node.children index with
      | none => alloc n → alloc (n + 1) ∧ FitsInt (index :: key)
      | some child =>
          match child.nodePrefix with
          | none => False
          | some childPrefix =>
              let commonPrefixLen := getCommonPrefixLength childPrefix (index :: key)
              let rest := (index :: key).drop commonPrefixLen
              if coversPrefix commonPrefixLen childPrefix = .eq then
                CopiesSucceed alloc fuel child rest n
              else
                alloc n → alloc (n + 1) ∧ alloc (n + 2) ∧ commonPrefixLen ≠ 0 ∧
                  (rest ≠ [] → alloc (n + 3) → alloc (n + 4) ∧ FitsInt rest)

/-- `CopiesSucceed` for a call of `radix_tree_add`. -/
def CopiesMade (root : RadixNode) (a : AddCall) : Prop :=
  CopiesSucceed a.alloc (a.key.length + 1) root a.key 0

theorem copiesSucceed_leaf (hc : node.children c = none) :
    CopiesSucceed alloc (fuel + 1) node (c :: key) n ↔
      (alloc n → alloc (n + 1) ∧ FitsInt (c :: key)) := by
  rw [CopiesSucceed, hc]

theorem copiesSucceed_covered (hc : node.children c = some child)
    (hp : child.nodePrefix = some p)
    (hcov : coversPrefix (getCommonPrefixLength p (c :: key)) p = .eq) :
    CopiesSucceed alloc (fuel + 1) node (c :: key) n ↔
      CopiesSucceed alloc fuel child ((c :: key).drop (getCommonPrefixLength p (c :: key))) n := by
  rw [CopiesSucceed, hc]
  simp only [hp, if_pos hcov]

theorem copiesSucceed_split (hc : node.children c = some child)
    (hp : child.nodePrefix = some p)
    (hcov : coversPrefix (getCommonPrefixLength p (c :: key)) p ≠ .eq) :
    CopiesSucceed alloc (fuel + 1) node (c :: key) n ↔
      (alloc n → alloc (n + 1) ∧ alloc (n + 2) ∧ getCommonPrefixLength p (c :: key) ≠ 0 ∧
        ((c :: key).drop (getCommonPrefixLength p (c :: key)) ≠ [] → alloc (n + 3) →
          alloc (n + 4) ∧ FitsInt ((c :: key).drop (getCommonPrefixLength p (c :: key))))) := by
  rw [CopiesSucceed, hc]
  simp only [hp, if_neg hcov]

/-- The condition behind a split is the one on the leaf for the rest of the key. -/
theorem copiesSucceed_splitNode (hfits : FitsInt (q ++ d :: s)) (hq : q ≠ [])
    (hcommon : getCommonPrefixLength (q ++ d :: s) (q ++ rest) = q.length) :
    CopiesSucceed alloc (fuel + 1) (splitNode child q d s) rest n ↔
      (rest ≠ [] → alloc n → alloc (n + 1) ∧ FitsInt rest) := by
  cases rest with
  | nil => simp [CopiesSucceed]
  | cons e t =>
      by_cases hed : e = d
      · subst hed
        have hlt : (q.length : ℤ) < int32 (q ++ e :: s).length := by
          rw [hfits.int32_length, List.length_append, List.length_cons]
          omega
        obtain ⟨hzero, hnone, hcov⟩ := common_behind_split hcommon hlt hq
        have hlong : ¬ FitsInt (e :: t) := by
          intro hshort
          rw [hshort.int32_length, List.length_cons] at hzero
          omega
        have hslot : (splitNode child q e s).children e =
            some { child with nodePrefix := some (e :: s) } := setChild_self
        rw [copiesSucceed_split hslot rfl (by rwa [hnone]), hnone]
        simp [hlong]
      · have hslot : (splitNode child q d s).children e = none := setChild_of_ne hed
        rw [copiesSucceed_leaf hslot]
        simp

/-! ### Calls for which the copies succeed -/

/-- What is left of a key below a prefix is as long as the tree allows if the key is. -/
theorem rest_le (hkey : key = q ++ rest) (hlen : FitsInt key → key.length ≤ b)
    (hpre : q <+: key.take (int32 key.length).toNat) (h : FitsInt rest) :
    rest.length ≤ b - q.length := by
  have hdrop : key.drop q.length = rest := by rw [hkey, List.drop_left]
  by_cases hshort : FitsInt key
  · have hle := hlen hshort
    rw [hkey, List.length_append] at hle
    omega
  · have hq := hpre.length_le.trans (List.length_take_le ..)
    exact absurd (hdrop ▸ h) (Nat.not_lt.mpr (long_drop (Nat.le_of_not_lt hshort) hq))

theorem addImpl_leaf_refused (hc : node.children c = none) (h₀ : alloc n = false) :
    radixTreeAddImpl alloc data (fuel + 1) node (c :: key) n = some (node, false, n + 1) := by
  simp only [radixTreeAddImpl, hc, h₀, Bool.false_eq_true, if_false]

theorem addImpl_split_refused (hc : node.children c = some child) (hp : child.nodePrefix = some p)
    (hcov : coversPrefix (getCommonPrefixLength p (c :: key)) p ≠ .eq) (h₀ : alloc n = false) :
    radixTreeAddImpl alloc data (fuel + 1) node (c :: key) n = some (node, false, n + 1) := by
  simp only [radixTreeAddImpl, hc, hp, Option.bind_eq_bind, Option.bind_some, if_neg hcov, h₀,
    Bool.false_eq_true, if_false]

/-- A call for which the copies succeed returns, and the lookups are as they should be. -/
theorem addImpl_answers (hb : b < 2 ^ 31) (hwf : WellFormed b node)
    (hlen : FitsInt key → key.length ≤ b) (hfuel : key.length < fuel)
    (hcopies : CopiesSucceed alloc fuel node key n) :
    ∃ node' success n', radixTreeAddImpl alloc data fuel node key n = some (node', success, n') ∧
      WellFormed b node' ∧ node'.nodePrefix = node.nodePrefix ∧
      Answers node node' key data success := by
  induction fuel generalizing node key b n with
  | zero => omega
  | succ fuel ih =>
      cases key with
      | nil => exact ⟨_, true, n, rfl, hwf.congr rfl, rfl, inserted_here hb hwf data⟩
      | cons c key =>
          rw [List.length_cons] at hfuel
          cases hc : node.children c with
          | none =>
              rw [copiesSucceed_leaf hc] at hcopies
              cases h₀ : alloc n with
              | false =>
                  exact ⟨node, false, n + 1, addImpl_leaf_refused hc h₀, hwf, rfl, fun _ => rfl⟩
              | true =>
                  obtain ⟨h₁, hshort⟩ := hcopies h₀
                  obtain ⟨hwf', hins⟩ := inserted_leaf hb hwf hc (hlen hshort) data
                  obtain ⟨fuel, rfl⟩ : ∃ k, fuel = k + 1 := ⟨fuel - 1, by omega⟩
                  exact ⟨_, true, n + 2, addImpl_leaf h₀ h₁ hc fuel, hwf', rfl, hins⟩
          | some child =>
              obtain ⟨q, rest, hkey, hpre, hcase⟩ := child_cases hb hwf hc key
              have hrest := rest_le hkey hlen hpre
              have hb' : b - q.length < 2 ^ 31 := Nat.lt_of_le_of_lt (Nat.sub_le ..) hb
              have hlength := congrArg List.length hkey
              rw [List.length_append, List.length_cons] at hlength
              rcases hcase with ⟨hp, hfits, hcommon, hchild, q', rfl⟩ |
                ⟨d, s, hp, hfits, hcommon, hcov, hmid, hhead⟩
              · have hcov := (coversPrefix_eq hfits).mpr hcommon
                rw [copiesSucceed_covered hc hp hcov, hcommon, hkey, List.drop_left] at hcopies
                rw [List.length_cons] at hlength
                obtain ⟨child', success, n', hadd, hwf', hp', hans⟩ :=
                  ih hb' hchild hrest (by omega) hcopies
                obtain ⟨hnode, hans'⟩ := answers_below hb hwf hc hp (hp'.trans hp) hwf' hans
                refine ⟨_, success, n', ?_, hnode, rfl, hkey ▸ hans'⟩
                rw [addImpl_below hc hp hfits hcommon, hkey, List.drop_left, hadd]
                rfl
              · have hcov' : coversPrefix (getCommonPrefixLength (q ++ d :: s) (c :: key))
                    (q ++ d :: s) ≠ .eq := by rwa [hcommon]
                rw [copiesSucceed_split hc hp hcov', hcommon] at hcopies
                cases h₀ : alloc n with
                | false =>
                    exact ⟨node, false, n + 1, addImpl_split_refused hc hp hcov' h₀, hwf, rfl,
                      fun _ => rfl⟩
                | true =>
                    obtain ⟨h₁, h₂, hpos, hleaf⟩ := hcopies h₀
                    have hne : q ≠ [] := List.ne_nil_of_length_pos (Nat.pos_of_ne_zero hpos)
                    obtain ⟨q', rfl⟩ := hhead (.inr hne)
                    obtain ⟨fuel, rfl⟩ : ∃ k, fuel = k + 1 := ⟨fuel - 1, by omega⟩
                    rw [hkey, List.drop_left] at hleaf
                    rw [List.length_cons] at hlength
                    obtain ⟨mid, success, n', hadd, hwf', hp', hans⟩ := ih hb' hmid hrest (by omega)
                      ((copiesSucceed_splitNode hfits hne (hkey ▸ hcommon)).mpr hleaf)
                    obtain ⟨hnode, hans'⟩ := answers_split hb hwf hc hp hp' hwf' hans
                    refine ⟨_, success, n', ?_, hnode, rfl, hkey ▸ hans'⟩
                    rw [addImpl_parted h₀ h₁ h₂ hc hp hcommon hcov, hkey, List.drop_left, hadd]
                    rfl

/-! ### Calls with a copy that fails -/

/-- A split reads the second copy at once; the first one may be missing. -/
theorem addImpl_split_eq (hc : node.children c = some child)
    (hp : child.nodePrefix = some (q ++ d :: s))
    (hcommon : getCommonPrefixLength (q ++ d :: s) (c :: key) = q.length)
    (hcov : coversPrefix q.length (q ++ d :: s) ≠ .eq) (h₀ : alloc n = true)
    (hadd : radixTreeAddImpl alloc data (fuel + 1) node (c :: key) n = some (node', success, n')) :
    alloc (n + 2) = true ∧ ∃ mid,
      radixTreeAddImpl alloc data fuel
        { splitNode child q d s with nodePrefix := if alloc (n + 1) then some q else none }
        ((c :: key).drop q.length) (n + 3) = some (mid, success, n') ∧
      node' = node.setChild c mid := by
  simp only [radixTreeAddImpl, hc, hp, Option.bind_eq_bind, Option.bind_some, hcommon, if_neg hcov,
    h₀, if_true, List.take_left, List.drop_left] at hadd
  cases h₂ : alloc (n + 2) with
  | false =>
      rw [h₂] at hadd
      cases hadd
  | true =>
      simp only [h₂, if_true, List.headD_cons] at hadd
      obtain ⟨⟨mid, r⟩, hcall, hr⟩ := Option.bind_eq_some_iff.mp hadd
      cases hr
      exact ⟨rfl, mid, hcall, rfl⟩

theorem addImpl_nodePrefix
    (hadd : radixTreeAddImpl alloc data fuel node key n = some (node', success, n')) :
    node'.nodePrefix = node.nodePrefix := by
  cases fuel with
  | zero => cases hadd
  | succ fuel =>
      cases key with
      | nil =>
          cases hadd
          rfl
      | cons c key =>
          rw [radixTreeAddImpl] at hadd
          split at hadd
          · split at hadd
            · obtain ⟨r, -, hr⟩ := Option.bind_eq_some_iff.mp hadd
              cases hr
              rfl
            · cases hadd
              rfl
          · obtain ⟨p, -, hadd⟩ := Option.bind_eq_some_iff.mp hadd
            simp only at hadd
            split at hadd
            · obtain ⟨r, -, hr⟩ := Option.bind_eq_some_iff.mp hadd
              cases hr
              rfl
            · split at hadd
              · split at hadd
                · obtain ⟨s, -, hcall⟩ := Option.bind_eq_some_iff.mp hadd
                  obtain ⟨r, -, hr⟩ := Option.bind_eq_some_iff.mp hcall
                  cases hr
                  rfl
                · cases hadd
              · cases hadd
                rfl

/-- A lookup that finds something below a child finds it in the child. -/
theorem getImpl_child {v : ℕ} (hc : node.children c = some child) (hp : child.nodePrefix = some p)
    (hget : ∃ fuel, radixTreeGetImpl fuel node (c :: key) = some (some v)) :
    ∃ fuel, radixTreeGetImpl fuel child ((c :: key).drop (getCommonPrefixLength p (c :: key))) =
      some (some v) := by
  obtain ⟨fuel, hget⟩ := hget
  cases fuel with
  | zero => cases hget
  | succ fuel =>
      rw [getImpl_some hc hp] at hget
      split at hget
      · cases hget
      · exact ⟨fuel, hget⟩

theorem copiesSucceed_of_leaf (hc : node.children c = none)
    (hadd : radixTreeAddImpl alloc data fuel node (c :: key) n = some (node', success, n'))
    (hprefixed : Prefixed node')
    (hget : success = true →
      ∃ fuel', radixTreeGetImpl fuel' node' (c :: key) = some (some data)) :
    alloc n → alloc (n + 1) ∧ FitsInt (c :: key) := by
  intro h₀
  cases fuel with
  | zero => cases hadd
  | succ fuel =>
      cases fuel with
      | zero => simp [radixTreeAddImpl, hc, h₀] at hadd
      | succ fuel =>
          simp only [radixTreeAddImpl, hc, h₀, if_true, Option.bind_eq_bind, Option.bind_some,
            Option.pure_def, Option.some.injEq, Prod.mk.injEq] at hadd
          obtain ⟨rfl, rfl, -⟩ := hadd
          obtain ⟨⟨d, p, hp⟩, -⟩ := hprefixed.ofChild setChild_self
          have h₁ : alloc (n + 1) = true := by
            by_contra h₁
            simp [h₁] at hp
          refine ⟨h₁, ?_⟩
          by_contra hlong
          obtain ⟨fuel', hget⟩ := hget rfl
          simp only [h₁, if_true] at hget
          exact getImpl_long_leaf (Nat.le_of_not_lt hlong) setChild_self fuel' hget

/-- The copies succeed for a call that returns with all prefixes in place and, if it returns true, an
answer for its key. -/
theorem copiesSucceed_of_answers (hb : b < 2 ^ 31) (hwf : WellFormed b node)
    (hadd : radixTreeAddImpl alloc data fuel node key n = some (node', success, n'))
    (hprefixed : Prefixed node')
    (hget : success = true → ∃ fuel', radixTreeGetImpl fuel' node' key = some (some data)) :
    CopiesSucceed alloc fuel node key n := by
  induction fuel generalizing node key b n node' with
  | zero => cases hadd
  | succ fuel ih =>
      cases key with
      | nil => trivial
      | cons c key =>
          cases hc : node.children c with
          | none =>
              rw [copiesSucceed_leaf hc]
              exact copiesSucceed_of_leaf hc hadd hprefixed hget
          | some child =>
              obtain ⟨q, rest, hkey, hpre, hcase⟩ := child_cases hb hwf hc key
              have hb' : b - q.length < 2 ^ 31 := Nat.lt_of_le_of_lt (Nat.sub_le ..) hb
              rcases hcase with ⟨hp, hfits, hcommon, hchild, -⟩ |
                ⟨d, s, hp, hfits, hcommon, hcov, hmid, -⟩
              · rw [addImpl_below hc hp hfits hcommon, Option.map_eq_some_iff] at hadd
                obtain ⟨⟨child', r⟩, hcall, hr⟩ := hadd
                cases hr
                have hp' := (addImpl_nodePrefix hcall).trans hp
                rw [copiesSucceed_covered hc hp ((coversPrefix_eq hfits).mpr hcommon), hcommon]
                refine ih hb' hchild hcall (hprefixed.ofChild setChild_self).2 fun hs => ?_
                obtain ⟨fuel', hfound⟩ := getImpl_child setChild_self hp' (hget hs)
                exact ⟨fuel', hcommon ▸ hfound⟩
              · rw [copiesSucceed_split hc hp (by rwa [hcommon]), hcommon]
                intro h₀
                obtain ⟨h₂, mid, hcall, rfl⟩ := addImpl_split_eq hc hp hcommon hcov h₀ hadd
                obtain ⟨⟨e, q', hmidp⟩, hmid'⟩ := hprefixed.ofChild setChild_self
                have hp' := (addImpl_nodePrefix hcall).symm.trans hmidp
                have h₁ : alloc (n + 1) = true := by
                  by_contra h₁
                  simp [h₁] at hp'
                simp only [h₁, if_true, Option.some.injEq] at hcall hp'
                have hne : q ≠ [] := hp' ▸ List.cons_ne_nil e q'
                refine ⟨h₁, h₂, (List.length_pos_of_ne_nil hne).ne', ?_⟩
                have hcopies := ih hb' hmid hcall hmid' fun hs => by
                  obtain ⟨fuel', hfound⟩ := getImpl_child setChild_self hmidp (hget hs)
                  rw [← hp', getCommonPrefixLength_prefix (hfits.of_le (by simp)) hpre] at hfound
                  exact ⟨fuel', hfound⟩
                cases fuel with
                | zero => cases hcall
                | succ fuel =>
                    rw [hkey, List.drop_left] at hcopies ⊢
                    exact (copiesSucceed_splitNode hfits hne (hkey ▸ hcommon)).mp hcopies

/-! ### Runs of calls -/

variable {calls : List AddCall} {a : AddCall}

/-- A call on a tree without long prefixes whose copies succeed. -/
theorem radixTreeAdd_answers (hwf : WellFormed (2 ^ 31 - 1) root) (hcopies : CopiesMade root a) :
    ∃ root' success n, radixTreeAdd a.alloc root a.key a.data 0 = some (root', success, n) ∧
      WellFormed (2 ^ 31 - 1) root' ∧ Answers root root' a.key a.data success := by
  obtain ⟨root', success, n, hadd, hwf', -, hans⟩ := addImpl_answers (by norm_num) hwf
    Nat.le_sub_one_of_lt (Nat.lt_succ_self _) hcopies
  exact ⟨root', success, n, hadd, hwf', hans⟩

/-- In a tree without long prefixes a call is atomic exactly if its copies succeed. -/
theorem atomic_iff_copiesMade (hwf : WellFormed (2 ^ 31 - 1) root) :
    Atomic root a ↔ CopiesMade root a := by
  constructor
  · rintro ⟨root', success, n, hadd, hans, hprefixed⟩
    refine copiesSucceed_of_answers (by norm_num) hwf hadd hprefixed fun hs => ?_
    subst hs
    exact ⟨a.key.length + 1, (hans a.key).trans (if_pos rfl)⟩
  · intro hcopies
    obtain ⟨root', success, n, hadd, hwf', hans⟩ := radixTreeAdd_answers hwf hcopies
    exact ⟨root', success, n, hadd, hans, hwf'.prefixed⟩

/-- The tree after a call that returns, whether true or false. -/
def addTree (root : RadixNode) (a : AddCall) : Option RadixNode :=
  (radixTreeAdd a.alloc root a.key a.data 0).map Prod.fst

/-- The tree after calls on a new tree. -/
def treeAfter (calls : List AddCall) : Option RadixNode := calls.foldlM addTree empty

/-- Every call of a run has the property `P` in the tree that the calls in front of it have built. -/
def Along (P : RadixNode → AddCall → Prop) (calls : List AddCall) : Prop :=
  ∀ earlier a, earlier ++ [a] <+: calls → ∀ root, treeAfter earlier = some root → P root a

theorem along_concat {P : RadixNode → AddCall → Prop} :
    Along P (calls ++ [a]) ↔ Along P calls ∧ ∀ root, treeAfter calls = some root → P root a := by
  constructor
  · intro h
    exact ⟨fun earlier a' hpre => h earlier a' (hpre.trans (List.prefix_append ..)),
      h calls a (List.prefix_refl _)⟩
  · rintro ⟨hcalls, hlast⟩ earlier a' hpre
    rcases List.prefix_concat_iff.mp hpre with heq | hbefore
    · obtain ⟨rfl, hlast'⟩ := List.append_inj' heq rfl
      cases hlast'
      exact hlast
    · exact hcalls earlier a' hbefore

/-- Calls whose copies succeed build a tree without long prefixes. -/
theorem treeAfter_wellFormed (h : Along CopiesMade calls) :
    ∃ root, treeAfter calls = some root ∧ WellFormed (2 ^ 31 - 1) root := by
  induction calls using List.reverseRecOn with
  | nil => exact ⟨empty, rfl, wellFormed_empty _⟩
  | append_singleton calls a ih =>
      obtain ⟨hcalls, hlast⟩ := along_concat.mp h
      obtain ⟨root, hroot, hwf⟩ := ih hcalls
      obtain ⟨root', success, n, hadd, hwf', -⟩ := radixTreeAdd_answers hwf (hlast root hroot)
      refine ⟨root', ?_, hwf'⟩
      rw [treeAfter] at hroot ⊢
      rw [List.foldlM_append, hroot]
      simp only [Option.bind_eq_bind, Option.bind_some, List.foldlM_cons, List.foldlM_nil, addTree,
        hadd, Option.map_some, Option.pure_def]

/-- **Insertion is atomic** along a run of calls, whatever allocations fail, exactly if no call gets a
node without the copies of the prefixes that go with it. -/
theorem adds_atomic_iff (calls : List AddCall) :
    Along Atomic calls ↔ Along CopiesMade calls := by
  induction calls using List.reverseRecOn with
  | nil =>
      have hno : ∀ (earlier : List AddCall) (a : AddCall), ¬ earlier ++ [a] <+: [] := by
        intro earlier a hpre
        simpa using List.prefix_nil.mp hpre
      exact ⟨fun _ earlier a hpre => absurd hpre (hno earlier a),
        fun _ earlier a hpre => absurd hpre (hno earlier a)⟩
  | append_singleton calls a ih =>
      rw [along_concat, along_concat, ih]
      refine and_congr_right fun hcalls => ?_
      obtain ⟨root, hroot, hwf⟩ := treeAfter_wellFormed hcalls
      simp only [hroot, Option.some.injEq, forall_eq']
      exact atomic_iff_copiesMade hwf

/-- The node for the key `a` is allocated and the copy of its prefix fails: the call returns true, and
the node has no prefix. -/
theorem missing_copy_is_ignored : ¬ Along Atomic [⟨[97], 7, fun i => i == 0⟩] := by
  intro h
  obtain ⟨root', success, n, hadd, -, hprefixed⟩ := h [] _ (List.prefix_refl _) empty rfl
  cases hadd
  obtain ⟨⟨d, p, hp⟩, -⟩ := hprefixed.ofChild setChild_self
  cases hp

end RadixNode

end HyveMind
