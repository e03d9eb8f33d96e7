import HyveMind.RadixTree

/-! # The shape of radix trees

A radix tree is in canonical form if every child sits in the slot of the first byte of its prefix and
every node below the root ends a key or branches.  A canonical tree is determined by its keys
(`Canonical.unique`), and every insertion that returns keeps the form (`Adds.canonical`).

`Adds` says what a returning call of `__radix_tree_add` does.  It puts a key where it belongs unless
the length of the prefix of some node is not an `int`: such a prefix counts as covered too early. -/

namespace HyveMind

namespace RadixNode

/-! ### Keys -/

/-- The node has `data` for the key `k`. -/
inductive HasKey : RadixNode → List UInt8 → ℕ → Prop
  | here {node : RadixNode} (ht : node.terminating = true) : HasKey node [] node.data
  | inChild {node child : RadixNode} {c : UInt8} {p k : List UInt8} {data : ℕ}
      (hc : node.children c = some child) (hp : child.nodePrefix = some p)
      (hk : HasKey child k data) : HasKey node (p ++ k) data

/-- Every child sits in the slot of the first byte of its prefix. -/
inductive Slotted : RadixNode → Prop
  | intro {node : RadixNode}
      (hslot : ∀ c child, node.children c = some child → ∃ p, child.nodePrefix = some (c :: p))
      (hchild : ∀ c child, node.children c = some child → Slotted child) : Slotted node

variable {node node' child child' a b : RadixNode} {c d e : UInt8} {p q s t k key loc : List UInt8}
  {v data : ℕ}

theorem Slotted.slot (h : Slotted node) (hc : node.children c = some child) :
    ∃ p, child.nodePrefix = some (c :: p) := by
  cases h with
  | intro hslot _ => exact hslot c child hc

theorem Slotted.ofChild (h : Slotted node) (hc : node.children c = some child) : Slotted child := by
  cases h with
  | intro _ hchild => exact hchild c child hc

theorem Slotted.congr (h : Slotted node) (hc : node'.children = node.children) : Slotted node' :=
  ⟨fun _ _ hch => h.slot (hc ▸ hch), fun _ _ hch => h.ofChild (hc ▸ hch)⟩

theorem slotted_empty : Slotted empty := ⟨nofun, nofun⟩

theorem not_hasKey_empty : ¬ HasKey empty k v := by
  intro hk
  cases hk with
  | here ht => cases ht
  | inChild hc _ _ => cases hc

theorem Slotted.setChild (h : Slotted node) (hp : child.nodePrefix = some (c :: p))
    (hchild : Slotted child) : Slotted (node.setChild c child) := by
  constructor
  · intro d child' hd
    by_cases hdc : d = c
    · subst hdc
      rw [setChild_self, Option.some.injEq] at hd
      exact ⟨p, hd ▸ hp⟩
    · rw [setChild_of_ne hdc] at hd
      exact h.slot hd
  · intro d child' hd
    by_cases hdc : d = c
    · subst hdc
      rw [setChild_self, Option.some.injEq] at hd
      exact hd ▸ hchild
    · rw [setChild_of_ne hdc] at hd
      exact h.ofChild hd

theorem hasKey_nil (h : Slotted node) :
    HasKey node [] v ↔ node.terminating = true ∧ node.data = v := by
  constructor
  · intro hk
    generalize hnil : ([] : List UInt8) = k at hk
    cases hk with
    | here ht => exact ⟨ht, rfl⟩
    | inChild hc hp _ =>
        obtain ⟨p, hp'⟩ := h.slot hc
        rw [hp, Option.some.injEq] at hp'
        subst hp'
        cases hnil
  · rintro ⟨ht, rfl⟩
    exact .here ht

theorem hasKey_cons (h : Slotted node) : HasKey node (c :: k) v ↔
    ∃ child p rest, node.children c = some child ∧ child.nodePrefix = some p ∧ c :: k = p ++ rest ∧
      HasKey child rest v := by
  constructor
  · intro hk
    generalize hcons : c :: k = key at hk
    cases hk with
    | here ht => cases hcons
    | inChild hc hp hk =>
        obtain ⟨p, hp'⟩ := h.slot hc
        rw [hp, Option.some.injEq] at hp'
        subst hp'
        cases hcons
        exact ⟨_, _, _, hc, hp, rfl, hk⟩
  · rintro ⟨child, p, rest, hc, hp, heq, hk⟩
    rw [heq]
    exact .inChild hc hp hk

theorem hasKey_child (h : Slotted node) (hc : node.children c = some child)
    (hp : child.nodePrefix = some p) (hhead : k.head? = some c) :
    HasKey node k v ↔ ∃ rest, k = p ++ rest ∧ HasKey child rest v := by
  cases k with
  | nil => cases hhead
  | cons d k =>
      cases hhead
      rw [hasKey_cons h]
      constructor
      · rintro ⟨child', p', rest, hc', hp', heq, hk⟩
        rw [hc, Option.some.injEq] at hc'
        subst hc'
        rw [hp, Option.some.injEq] at hp'
        subst hp'
        exact ⟨rest, heq, hk⟩
      · rintro ⟨rest, heq, hk⟩
        exact ⟨child, p, rest, hc, hp, heq, hk⟩

theorem HasKey.congr (h : Slotted node) (hc : node'.children = node.children)
    (ht : node'.terminating = node.terminating) (hd : node'.data = node.data) :
    HasKey node' k v ↔ HasKey node k v := by
  cases k with
  | nil => rw [hasKey_nil h, hasKey_nil (h.congr hc), ht, hd]
  | cons c k => rw [hasKey_cons h, hasKey_cons (h.congr hc), hc]

theorem hasKey_setChild (h : Slotted node) (hp : child.nodePrefix = some (c :: p))
    (hchild : Slotted child) : HasKey (node.setChild c child) k v ↔
      (∃ rest, k = c :: p ++ rest ∧ HasKey child rest v) ∨ (k.head? ≠ some c ∧ HasKey node k v) := by
  have h' := h.setChild hp hchild
  by_cases hhead : k.head? = some c
  · rw [hasKey_child h' setChild_self hp hhead]
    exact ⟨Or.inl, fun hor => hor.resolve_right fun hbad => hbad.1 hhead⟩
  · have hsame : HasKey (node.setChild c child) k v ↔ HasKey node k v := by
      cases k with
      | nil => rw [hasKey_nil h, hasKey_nil h']; rfl
      | cons d k =>
          have hdc : d ≠ c := fun hdc => hhead (by rw [hdc, List.head?_cons])
          rw [hasKey_cons h, hasKey_cons h', setChild_of_ne hdc]
    rw [hsame]
    constructor
    · exact fun hk => Or.inr ⟨hhead, hk⟩
    · rintro (⟨rest, rfl, -⟩ | ⟨-, hk⟩)
      · exact absurd rfl hhead
      · exact hk

/-! ### Canonical form -/

/-- The node has at least two children. -/
def Branches (node : RadixNode) : Prop :=
  ∃ d e, d ≠ e ∧ node.children d ≠ none ∧ node.children e ≠ none

/-- Every child sits in the slot of the first byte of its prefix, every node below the root ends a
key or has at least two children, and nodes that end no key have no data. -/
inductive Canonical : RadixNode → Prop
  | intro {node : RadixNode} (hdata : node.terminating = false → node.data = 0)
      (hslot : ∀ c child, node.children c = some child → ∃ p, child.nodePrefix = some (c :: p))
      (hbranch : ∀ c child, node.children c = some child →
        child.terminating = true ∨ Branches child)
      (hchild : ∀ c child, node.children c = some child → Canonical child) : Canonical node

theorem Canonical.slotted (h : Canonical node) : Slotted node := by
  induction h with
  | intro _ hslot _ _ ih => exact ⟨hslot, ih⟩

theorem Canonical.branch (h : Canonical node) (hc : node.children c = some child) :
    child.terminating = true ∨ Branches child := by
  cases h with
  | intro _ _ hbranch _ => exact hbranch c child hc

theorem Canonical.ofChild (h : Canonical node) (hc : node.children c = some child) :
    Canonical child := by
  cases h with
  | intro _ _ _ hchild => exact hchild c child hc

theorem Canonical.noData (h : Canonical node) (ht : node.terminating = false) : node.data = 0 := by
  cases h with
  | intro hdata _ _ _ => exact hdata ht

theorem canonical_empty : Canonical empty := ⟨fun _ => rfl, nofun, nofun, nofun⟩

theorem Canonical.exists_key (h : Canonical node)
    (hne : node.terminating = true ∨ Branches node) : ∃ k v, HasKey node k v := by
  induction h with
  | intro _ hslot hbranch _ ih =>
      rcases hne with ht | ⟨d, e, -, hd, -⟩
      · exact ⟨[], _, .here ht⟩
      · obtain ⟨child, hc⟩ := Option.ne_none_iff_exists'.mp hd
        obtain ⟨p, hp⟩ := hslot d child hc
        obtain ⟨k, v, hk⟩ := ih d child hc (hbranch d child hc)
        exact ⟨_, v, .inChild hc hp hk⟩

theorem Canonical.two_keys (h : Canonical node) (hb : Branches node) :
    ∃ d e s t v w, d ≠ e ∧ HasKey node (d :: s) v ∧ HasKey node (e :: t) w := by
  obtain ⟨d, e, hde, hd, he⟩ := hb
  obtain ⟨childd, hcd⟩ := Option.ne_none_iff_exists'.mp hd
  obtain ⟨childe, hce⟩ := Option.ne_none_iff_exists'.mp he
  obtain ⟨p, hp⟩ := h.slotted.slot hcd
  obtain ⟨q, hq⟩ := h.slotted.slot hce
  obtain ⟨s, v, hs⟩ := (h.ofChild hcd).exists_key (h.branch hcd)
  obtain ⟨t, w, ht⟩ := (h.ofChild hce).exists_key (h.branch hce)
  exact ⟨d, e, p ++ s, q ++ t, v, w, hde, .inChild hcd hp hs, .inChild hce hq ht⟩

/-! ### A canonical tree is determined by its keys -/

theorem prefix_of_fork (hde : d ≠ e) (hd : q <+: p ++ d :: s) (he : q <+: p ++ e :: t) :
    q <+: p := by
  rcases List.prefix_or_prefix_of_prefix hd (List.prefix_append p (d :: s)) with h | ⟨r, rfl⟩
  · exact h
  · rw [List.prefix_append_right_inj] at hd he
    cases r with
    | nil => simp
    | cons f r =>
        obtain rfl := (List.cons_prefix_cons.mp hd).1
        exact absurd (List.cons_prefix_cons.mp he).1 hde

/-- The prefix of a child is the longest common prefix of the keys below it. -/
theorem Canonical.prefix_le (ha : Canonical a) (hb : Slotted b)
    (h : ∀ k v, HasKey a k v → HasKey b k v) (hca : a.children c = some child)
    (hp : child.nodePrefix = some (c :: p)) (hcb : b.children c = some child')
    (hq : child'.nodePrefix = some q) : q <+: c :: p := by
  have hkey : ∀ k v, HasKey child k v → q <+: c :: p ++ k := by
    intro k v hk
    obtain ⟨rest, heq, -⟩ := (hasKey_child hb hcb hq (k := c :: p ++ k) rfl).mp
      (h _ _ (.inChild hca hp hk))
    exact heq ▸ List.prefix_append ..
  rcases ha.branch hca with ht | hbr
  · simpa using hkey [] _ (.here ht)
  · obtain ⟨d, e, s, t, v, w, hde, hd, he⟩ := (ha.ofChild hca).two_keys hbr
    exact prefix_of_fork hde (hkey _ _ hd) (hkey _ _ he)

theorem Canonical.child_of_key (hb : Slotted b) (h : ∀ k v, HasKey a k v → HasKey b k v)
    (ha : Canonical a) (hc : a.children c = some child) : ∃ child', b.children c = some child' := by
  obtain ⟨p, hp⟩ := ha.slotted.slot hc
  obtain ⟨k, v, hk⟩ := (ha.ofChild hc).exists_key (ha.branch hc)
  obtain ⟨child', -, -, hc', -⟩ := (hasKey_cons hb).mp (h _ _ (.inChild hc hp hk))
  exact ⟨child', hc'⟩

/-- **A canonical tree is determined by its keys.** -/
theorem Canonical.unique (ha : Canonical a) (hb : Canonical b) (hp : a.nodePrefix = b.nodePrefix)
    (h : ∀ k v, HasKey a k v ↔ HasKey b k v) : a = b := by
  induction ha generalizing b with
  | @intro a hdata hslot hbranch hchild ih =>
      have ha : Canonical a := ⟨hdata, hslot, hbranch, hchild⟩
      have hterm : a.terminating = b.terminating := by
        rw [Bool.eq_iff_iff]
        constructor
        · exact fun ht => ((hasKey_nil hb.slotted).mp ((h _ _).mp (.here ht))).1
        · exact fun ht => ((hasKey_nil ha.slotted).mp ((h _ _).mpr (.here ht))).1
      have hdat : a.data = b.data := by
        cases ht : a.terminating with
        | false => rw [hdata ht, hb.noData (hterm ▸ ht)]
        | true => exact ((hasKey_nil hb.slotted).mp ((h _ _).mp (.here ht))).2.symm
      have hchildren : a.children = b.children := by
        funext c
        cases hca : a.children c with
        | none =>
            cases hcb : b.children c with
            | none => rfl
            | some childb =>
                obtain ⟨child', hc'⟩ :=
                  hb.child_of_key ha.slotted (fun k v => (h k v).mpr) hcb
                rw [hca] at hc'
                cases hc'
        | some childa =>
            obtain ⟨childb, hcb⟩ := ha.child_of_key hb.slotted (fun k v => (h k v).mp) hca
            obtain ⟨pa, hpa⟩ := ha.slotted.slot hca
            obtain ⟨pb, hpb⟩ := hb.slotted.slot hcb
            have heq : c :: pa = c :: pb :=
              List.IsPrefix.eq_of_length_le
                (hb.prefix_le ha.slotted (fun k v => (h k v).mpr) hcb hpb hca hpa)
                (ha.prefix_le hb.slotted (fun k v => (h k v).mp) hca hpa hcb hpb).length_le
            rw [hcb, Option.some.injEq]
            refine ih c childa hca (hb.ofChild hcb) (by rw [hpa, hpb, heq]) fun k v => ?_
            have hk := h (c :: pa ++ k) v
            rw [hasKey_child ha.slotted hca hpa rfl, hasKey_child hb.slotted hcb (heq ▸ hpb) rfl] at hk
            simpa using hk
      obtain ⟨pa, cha, da, ta⟩ := a
      obtain ⟨pb, chb, db, tb⟩ := b
      simp only at hp hterm hdat hchildren
      rw [hp, hterm, hdat, hchildren]

/-! ### Insertions that return -/

/-- A new leaf. -/
def leafNode (key : List UInt8) (data : ℕ) : RadixNode := ⟨some key, fun _ => none, data, true⟩

/-- A call of `__radix_tree_add` that returns: the node, the key, the node afterwards, and where the
data is put.  `inChild` is the only case in which that is not the key: the prefix `p` counts as covered
after `m` bytes, and `m` is its length as an `int`. -/
inductive Adds (data : ℕ) : RadixNode → List UInt8 → RadixNode → List UInt8 → Prop
  | here {node : RadixNode} : Adds data node [] { node with terminating := true, data := data } []
  | leaf {node : RadixNode} {c : UInt8} {key : List UInt8} (hc : node.children c = none) :
      Adds data node (c :: key) (node.setChild c (leafNode (c :: key) data)) (c :: key)
  | inChild {node child child' : RadixNode} {c : UInt8} {p key rest loc : List UInt8} {m : ℕ}
      (hc : node.children c = some child) (hp : child.nodePrefix = some (c :: p))
      (hm : int32 (c :: p).length = m) (hkey : c :: key = (c :: p).take m ++ rest)
      (hadds : Adds data child rest child' loc) :
      Adds data node (c :: key) (node.setChild c child') (c :: p ++ loc)
  | stop {node child : RadixNode} {c d : UInt8} {q s : List UInt8}
      (hc : node.children c = some child) (hp : child.nodePrefix = some (c :: q ++ d :: s))
      (hm : ((c :: q).length : ℤ) < int32 (c :: q ++ d :: s).length) :
      Adds data node (c :: q)
        (node.setChild c { splitNode child (c :: q) d s with terminating := true, data := data })
        (c :: q)
  | fork {node child : RadixNode} {c d e : UInt8} {q s t : List UInt8}
      (hc : node.children c = some child) (hp : child.nodePrefix = some (c :: q ++ d :: s))
      (hm : ((c :: q).length : ℤ) < int32 (c :: q ++ d :: s).length) (hed : e ≠ d) :
      Adds data node (c :: q ++ e :: t)
        (node.setChild c ((splitNode child (c :: q) d s).setChild e (leafNode (e :: t) data)))
        (c :: q ++ e :: t)

theorem slotted_leafNode (key : List UInt8) (data : ℕ) : Slotted (leafNode key data) :=
  ⟨nofun, nofun⟩

theorem hasKey_leafNode : HasKey (leafNode key data) k v ↔ k = [] ∧ v = data := by
  cases k with
  | nil =>
      rw [hasKey_nil (slotted_leafNode key data)]
      exact ⟨fun h => ⟨rfl, h.2.symm⟩, fun h => ⟨rfl, h.2.symm⟩⟩
  | cons c k =>
      rw [hasKey_cons (slotted_leafNode key data)]
      constructor
      · rintro ⟨_, _, _, hc, -⟩
        cases hc
      · rintro ⟨hnil, -⟩
        cases hnil

theorem slotted_splitNode (h : Slotted child) : Slotted (splitNode child q d s) := by
  have hempty : Slotted { empty with nodePrefix := some q } := slotted_empty.congr rfl
  have hchild : Slotted { child with nodePrefix := some (d :: s) } := h.congr rfl
  exact hempty.setChild rfl hchild

theorem hasKey_splitNode (h : Slotted child) :
    HasKey (splitNode child q d s) k v ↔ ∃ rest, k = d :: s ++ rest ∧ HasKey child rest v := by
  have hempty : Slotted { empty with nodePrefix := some q } := slotted_empty.congr rfl
  have hchild : Slotted { child with nodePrefix := some (d :: s) } := h.congr rfl
  unfold splitNode
  rw [hasKey_setChild hempty rfl hchild]
  have hnone : ¬ HasKey { empty with nodePrefix := some q } k v := by
    intro hk
    cases hk with
    | here ht => cases ht
    | inChild hc _ _ => cases hc
  rw [or_iff_left fun hbad => hnone hbad.2]
  exact exists_congr fun rest => and_congr_right fun _ => HasKey.congr h rfl rfl rfl

/-- The keys and the data after an insertion. -/
def Placed (node node' : RadixNode) (loc : List UInt8) (data : ℕ) : Prop :=
  ∀ k v, HasKey node' k v ↔ (k = loc ∧ v = data) ∨ (k ≠ loc ∧ HasKey node k v)

theorem Placed.inChild (loc' : List UInt8) (h : Slotted node) (hc : node.children c = some child)
    (hp : child.nodePrefix = some (c :: p)) (hp' : child'.nodePrefix = some (c :: q))
    (hslot : Slotted child')
    (hkeys : ∀ rest v, HasKey child' rest v ↔ (c :: q ++ rest = loc ∧ v = data) ∨
      (c :: q ++ rest ≠ loc ∧ HasKey node (c :: q ++ rest) v))
    (hloc : loc = c :: q ++ loc') (hpq : c :: q <+: c :: p) :
    Placed node (node.setChild c child') loc data := by
  intro k v
  rw [hasKey_setChild h hp' hslot]
  subst hloc
  by_cases hhead : k.head? = some c
  · rw [or_iff_left fun hbad => hbad.1 hhead]
    constructor
    · rintro ⟨rest, rfl, hk⟩
      exact (hkeys rest v).mp hk
    · intro hk
      have hpre : c :: q <+: k := by
        rcases hk with ⟨rfl, -⟩ | ⟨-, hk⟩
        · exact List.prefix_append ..
        · obtain ⟨rest, rfl, -⟩ := (hasKey_child h hc hp hhead).mp hk
          exact hpq.trans (List.prefix_append ..)
      obtain ⟨rest, rfl⟩ := hpre
      exact ⟨rest, rfl, (hkeys rest v).mpr hk⟩
  · have hne : k ≠ c :: q ++ loc' := fun heq => hhead (by rw [heq]; rfl)
    constructor
    · rintro (⟨rest, rfl, -⟩ | ⟨-, hk⟩)
      · exact absurd rfl hhead
      · exact Or.inr ⟨hne, hk⟩
    · rintro (⟨heq, -⟩ | ⟨-, hk⟩)
      · exact absurd heq hne
      · exact Or.inr ⟨hhead, hk⟩

theorem hasKey_mark (h : Slotted node) :
    HasKey { node with terminating := true, data := data } k v ↔
      (k = [] ∧ v = data) ∨ (k ≠ [] ∧ HasKey node k v) := by
  have hslot : Slotted { node with terminating := true, data := data } := h.congr rfl
  cases k with
  | nil =>
      rw [hasKey_nil hslot]
      constructor
      · rintro ⟨-, rfl⟩
        exact Or.inl ⟨rfl, rfl⟩
      · rintro (⟨-, rfl⟩ | ⟨hne, -⟩)
        · exact ⟨rfl, rfl⟩
        · exact absurd rfl hne
  | cons c k =>
      rw [hasKey_cons h, hasKey_cons hslot]
      simp

theorem Placed.leaf (h : Slotted node) (hc : node.children c = none) (key : List UInt8) (data : ℕ) :
    Placed node (node.setChild c (leafNode (c :: key) data)) (c :: key) data := by
  intro k v
  rw [hasKey_setChild h rfl (slotted_leafNode (c :: key) data)]
  simp only [hasKey_leafNode]
  by_cases hhead : k.head? = some c
  · have hnone : ¬ HasKey node k v := by
      cases k with
      | nil => cases hhead
      | cons d k =>
          cases hhead
          rw [hasKey_cons h, hc]
          rintro ⟨_, _, _, hbad, -⟩
          cases hbad
    simp [hhead, hnone]
  · have hne : k ≠ c :: key := fun heq => hhead (by rw [heq]; rfl)
    simp [hhead, hne]

/-- **What a returning insertion does to the keys.** -/
theorem Adds.placed (hadds : Adds data node key node' loc) (h : Slotted node) :
    node'.nodePrefix = node.nodePrefix ∧ Slotted node' ∧ Placed node node' loc data := by
  induction hadds with
  | @here node =>
      exact ⟨rfl, h.congr rfl, fun k v => hasKey_mark h⟩
  | @leaf node c key hc =>
      exact ⟨rfl, h.setChild rfl (slotted_leafNode (c :: key) data), .leaf h hc key data⟩
  | @inChild node child child' c p key rest loc m hc hp hm hkey hadds ih =>
      obtain ⟨hp', hslot', hplaced⟩ := ih (h.ofChild hc)
      rw [hp] at hp'
      refine ⟨rfl, h.setChild hp' hslot', ?_⟩
      refine Placed.inChild _ h hc hp hp' hslot' (fun rest v => ?_) rfl (List.prefix_refl _)
      rw [hplaced rest v, hasKey_child h hc hp rfl]
      simp
  | @stop node child c d q s hc hp hm =>
      have hsplit : Slotted (splitNode child (c :: q) d s) := slotted_splitNode (h.ofChild hc)
      have hslot : Slotted
          { splitNode child (c :: q) d s with terminating := true, data := data } := hsplit.congr rfl
      refine ⟨rfl, h.setChild rfl hslot, ?_⟩
      refine Placed.inChild [] h hc hp rfl hslot (fun rest v => ?_) (by simp)
        (List.prefix_append (c :: q) (d :: s))
      rw [hasKey_mark hsplit, hasKey_splitNode (h.ofChild hc), hasKey_child h hc hp rfl]
      simp
  | @fork node child c d e q s t hc hp hm hed =>
      have hsplit : Slotted (splitNode child (c :: q) d s) := slotted_splitNode (h.ofChild hc)
      have hleaf := slotted_leafNode (e :: t) data
      have hslot : Slotted
          ((splitNode child (c :: q) d s).setChild e (leafNode (e :: t) data)) :=
        hsplit.setChild rfl hleaf
      refine ⟨rfl, h.setChild rfl hslot, ?_⟩
      refine Placed.inChild (e :: t) h hc hp rfl hslot (fun rest v => ?_) rfl
        (List.prefix_append (c :: q) (d :: s))
      have hfree : (splitNode child (c :: q) d s).children e = none := setChild_of_ne hed
      rw [Placed.leaf hsplit hfree t data rest v, hasKey_splitNode (h.ofChild hc),
        hasKey_child h hc hp rfl]
      simp

/-! ### Insertions keep the canonical form -/

theorem Adds.grows (hadds : Adds data node key node' loc) :
    (node.terminating = true → node'.terminating = true) ∧
      ∀ c, node.children c ≠ none → node'.children c ≠ none := by
  have hset : ∀ (node child : RadixNode) (c d : UInt8), node.children d ≠ none →
      (node.setChild c child).children d ≠ none := by
    intro node child c d hd
    by_cases hdc : d = c
    · rw [hdc, setChild_self]
      exact Option.some_ne_none _
    · rwa [setChild_of_ne hdc]
  cases hadds with
  | here => exact ⟨fun _ => rfl, fun _ h => h⟩
  | leaf hc => exact ⟨fun h => h, hset _ _ _⟩
  | inChild hc hp hm hkey hadds => exact ⟨fun h => h, hset _ _ _⟩
  | stop hc hp hm => exact ⟨fun h => h, hset _ _ _⟩
  | fork hc hp hm hed => exact ⟨fun h => h, hset _ _ _⟩

theorem Adds.ends_or_branches (hadds : Adds data node key node' loc)
    (h : node.terminating = true ∨ Branches node) :
    node'.terminating = true ∨ Branches node' := by
  obtain ⟨hterm, hslots⟩ := hadds.grows
  rcases h with h | ⟨d, e, hde, hd, he⟩
  · exact Or.inl (hterm h)
  · exact Or.inr ⟨d, e, hde, hslots d hd, hslots e he⟩

theorem Canonical.setChild (h : Canonical node) (hp : child.nodePrefix = some (c :: p))
    (hne : child.terminating = true ∨ Branches child) (hchild : Canonical child) :
    Canonical (node.setChild c child) := by
  refine ⟨h.noData, ?_, ?_, ?_⟩ <;> intro d child' hd <;> by_cases hdc : d = c
  · subst hdc
    rw [setChild_self, Option.some.injEq] at hd
    exact ⟨p, hd ▸ hp⟩
  · rw [setChild_of_ne hdc] at hd
    exact h.slotted.slot hd
  · subst hdc
    rw [setChild_self, Option.some.injEq] at hd
    exact hd ▸ hne
  · rw [setChild_of_ne hdc] at hd
    exact h.branch hd
  · subst hdc
    rw [setChild_self, Option.some.injEq] at hd
    exact hd ▸ hchild
  · rw [setChild_of_ne hdc] at hd
    exact h.ofChild hd

theorem Canonical.congr (h : Canonical node) (hc : node'.children = node.children)
    (hdata : node'.terminating = false → node'.data = 0) : Canonical node' :=
  ⟨hdata, fun _ _ hch => h.slotted.slot (hc ▸ hch), fun _ _ hch => h.branch (hc ▸ hch),
    fun _ _ hch => h.ofChild (hc ▸ hch)⟩

theorem canonical_leafNode (key : List UInt8) (data : ℕ) : Canonical (leafNode key data) :=
  ⟨nofun, nofun, nofun, nofun⟩

theorem canonical_splitNode (h : Canonical node) (hc : node.children c = some child) :
    Canonical (splitNode child q d s) := by
  have hempty : Canonical { empty with nodePrefix := some q } := canonical_empty.congr rfl fun _ => rfl
  have hchild : Canonical { child with nodePrefix := some (d :: s) } :=
    (h.ofChild hc).congr rfl (h.ofChild hc).noData
  have hne : child.terminating = true ∨ Branches { child with nodePrefix := some (d :: s) } :=
    h.branch hc
  exact hempty.setChild rfl hne hchild

/-- **A returning insertion keeps the canonical form.** -/
theorem Adds.canonical (hadds : Adds data node key node' loc) (h : Canonical node) :
    Canonical node' := by
  induction hadds with
  | here => exact h.congr rfl nofun
  | leaf hc => exact h.setChild rfl (Or.inl rfl) (canonical_leafNode _ _)
  | inChild hc hp hm hkey hadds ih =>
      have hp' := (hadds.placed (h.ofChild hc).slotted).1.trans hp
      exact h.setChild hp' (hadds.ends_or_branches (h.branch hc)) (ih (h.ofChild hc))
  | @stop node child c d q s hc hp hm =>
      have hsplit : Canonical
          { splitNode child (c :: q) d s with terminating := true, data := data } :=
        (canonical_splitNode h hc).congr rfl nofun
      exact h.setChild rfl (Or.inl rfl) hsplit
  | @fork node child c d e q s t hc hp hm hed =>
      have hsplit : Canonical ((splitNode child (c :: q) d s).setChild e (leafNode (e :: t) data)) :=
        (canonical_splitNode h hc).setChild rfl (Or.inl rfl) (canonical_leafNode _ _)
      refine h.setChild rfl (Or.inr ⟨e, d, hed, ?_, ?_⟩) hsplit
      · rw [setChild_self]
        exact Option.some_ne_none _
      · rw [setChild_of_ne hed.symm, splitNode, setChild_self]
        exact Option.some_ne_none _

/-! ### The number of nodes -/

instance : Fintype UInt8 :=
  Fintype.ofEquiv (Fin 256) ⟨UInt8.ofFin, UInt8.toFin, fun _ => rfl, fun _ => rfl⟩

mutual

/-- The number of nodes of a tree. -/
def nodeCount : RadixNode → ℕ
  | ⟨_, children, _, _⟩ => 1 + ∑ c : UInt8, slotCount (children c)

/-- The number of nodes below a slot. -/
def slotCount : Option RadixNode → ℕ
  | none => 0
  | some child => nodeCount child

end

theorem nodeCount_eq (node : RadixNode) :
    nodeCount node = 1 + ∑ c : UInt8, slotCount (node.children c) := by
  cases node
  rw [nodeCount]

theorem nodeCount_congr (hc : node'.children = node.children) : nodeCount node' = nodeCount node := by
  rw [nodeCount_eq, nodeCount_eq, hc]

theorem nodeCount_setChild (node child : RadixNode) (c : UInt8) :
    nodeCount (node.setChild c child) + slotCount (node.children c) =
      nodeCount node + nodeCount child := by
  have hrest : ∑ d ∈ Finset.univ.erase c, slotCount ((node.setChild c child).children d) =
      ∑ d ∈ Finset.univ.erase c, slotCount (node.children d) :=
    Finset.sum_congr rfl fun d hd => by rw [setChild_of_ne (Finset.ne_of_mem_erase hd)]
  rw [nodeCount_eq (node.setChild c child), nodeCount_eq node,
    ← Finset.add_sum_erase Finset.univ _ (Finset.mem_univ c),
    ← Finset.add_sum_erase Finset.univ (fun d => slotCount (node.children d)) (Finset.mem_univ c),
    hrest, setChild_self, slotCount]
  omega

theorem nodeCount_empty : nodeCount empty = 1 := by
  rw [nodeCount_eq]
  simp [empty, slotCount]

theorem nodeCount_leafNode (key : List UInt8) (data : ℕ) : nodeCount (leafNode key data) = 1 := by
  rw [nodeCount_eq]
  simp [leafNode, slotCount]

theorem nodeCount_splitNode (child : RadixNode) (q s : List UInt8) (d : UInt8) :
    nodeCount (splitNode child q d s) = nodeCount child + 1 := by
  have hset := nodeCount_setChild { empty with nodePrefix := some q }
    { child with nodePrefix := some (d :: s) } d
  have hempty : nodeCount { empty with nodePrefix := some q } = 1 := by
    rw [nodeCount_eq]
    simp [empty, slotCount]
  have hchild : nodeCount { child with nodePrefix := some (d :: s) } = nodeCount child :=
    nodeCount_congr rfl
  have hnone : slotCount (({ empty with nodePrefix := some q } : RadixNode).children d) = 0 := by
    rw [empty, slotCount]
  rw [hempty, hchild, hnone] at hset
  unfold splitNode
  omega

theorem Adds.nodeCount_le (hadds : Adds data node key node' loc) :
    nodeCount node' ≤ nodeCount node + 2 := by
  induction hadds with
  | @here node =>
      have hsame : nodeCount { node with terminating := true, data := data } = nodeCount node :=
        nodeCount_congr rfl
      omega
  | @leaf node c key hc =>
      have hset := nodeCount_setChild node (leafNode (c :: key) data) c
      rw [nodeCount_leafNode] at hset
      omega
  | @inChild node child child' c p key rest loc m hc hp hm hkey hadds ih =>
      have hset := nodeCount_setChild node child' c
      rw [hc, slotCount] at hset
      omega
  | @stop node child c d q s hc hp hm =>
      have hset := nodeCount_setChild node
        { splitNode child (c :: q) d s with terminating := true, data := data } c
      have hsame : nodeCount { splitNode child (c :: q) d s with terminating := true, data := data } =
          nodeCount (splitNode child (c :: q) d s) := nodeCount_congr rfl
      rw [hc, slotCount, hsame, nodeCount_splitNode] at hset
      omega
  | @fork node child c d e q s t hc hp hm hed =>
      have hset := nodeCount_setChild node
        ((splitNode child (c :: q) d s).setChild e (leafNode (e :: t) data)) c
      have hleaf := nodeCount_setChild (splitNode child (c :: q) d s) (leafNode (e :: t) data) e
      rw [nodeCount_leafNode, nodeCount_splitNode] at hleaf
      rw [hc, slotCount] at hset
      omega

end RadixNode

end HyveMind
