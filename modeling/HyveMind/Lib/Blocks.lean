import Mathlib.Tactic

/-! # Blocks of bytes

A block is a byte string and the address it is written to.  Blocks that are written one after the
other into a memory are all intact at the end if no two of them overlap (`placeAll_intact`); the last
one always is (`placeAll_last`).

The second part is about records in a byte string: little-endian numbers, and what a write into the
string does to the fields it covers and to the others.  A record that is filled by stores into
different fields holds all of them (`field_storeAll`). -/

namespace HyveMind.Lib

/-! ### Blocks in a memory -/

section Blocks

variable {β : Type*}

/-- The memory with the block `bs` written at `a`. -/
def place (mem : ℕ → β) (a : ℕ) (bs : List β) : ℕ → β :=
  fun b => if a ≤ b then bs.getD (b - a) (mem b) else mem b

/-- The memory holds `bs` at `a`. -/
def BytesAt (mem : ℕ → β) (a : ℕ) (bs : List β) : Prop := ∀ i b, bs[i]? = some b → mem (a + i) = b

/-- The `n` bytes from `a` on. -/
def bytesFrom (mem : ℕ → β) (a n : ℕ) : List β := (List.range n).map fun i => mem (a + i)

/-- `m` bytes from `a` on and `n` bytes from `b` on have no byte in common. -/
def Apart (a m b n : ℕ) : Prop := m = 0 ∨ n = 0 ∨ a + m ≤ b ∨ b + n ≤ a

instance (a m b n : ℕ) : Decidable (Apart a m b n) := inferInstanceAs (Decidable (_ ∨ _))

/-- The memory after the blocks were written in order. -/
def placeAll (mem : ℕ → β) (blocks : List (ℕ × List β)) : ℕ → β :=
  blocks.foldl (fun mem x => place mem x.1 x.2) mem

variable {mem mem' : ℕ → β} {a b : ℕ} {bs : List β}

theorem place_of_mem {i : ℕ} {v : β} (h : bs[i]? = some v) : place mem a bs (a + i) = v := by
  rw [place, if_pos (Nat.le_add_right a i), Nat.add_sub_cancel_left, List.getD_eq_getElem?_getD, h,
    Option.getD_some]

theorem place_of_notMem (h : b < a ∨ a + bs.length ≤ b) : place mem a bs b = mem b := by
  unfold place
  split_ifs with hle
  · rw [List.getD_eq_getElem?_getD, List.getElem?_eq_none (by omega), Option.getD_none]
  · rfl

theorem bytesAt_place : BytesAt (place mem a bs) a bs := fun _ _ h => place_of_mem h

theorem BytesAt.place_of_apart {cs : List β} (h : BytesAt mem b cs)
    (hapart : Apart b cs.length a bs.length) : BytesAt (place mem a bs) b cs := by
  intro i v hi
  obtain ⟨hlt, -⟩ := List.getElem?_eq_some_iff.mp hi
  rw [← h i v hi]
  apply place_of_notMem
  unfold Apart at hapart
  omega

/-- What the bytes of a block say depends on these bytes only. -/
theorem BytesAt.congr (h : BytesAt mem a bs)
    (heq : ∀ b, a ≤ b → b < a + bs.length → mem' b = mem b) : BytesAt mem' a bs := by
  intro i v hi
  obtain ⟨hlt, -⟩ := List.getElem?_eq_some_iff.mp hi
  rw [heq (a + i) (by omega) (by omega)]
  exact h i v hi

theorem BytesAt.bytesFrom_eq (h : BytesAt mem a bs) : bytesFrom mem a bs.length = bs := by
  apply List.ext_getElem
  · simp [bytesFrom]
  · intro i h1 h2
    simp only [bytesFrom, List.getElem_map, List.getElem_range]
    exact h i _ (List.getElem?_eq_getElem h2)

/-- Two strings at the same place agree where they both have a byte. -/
theorem BytesAt.agree {cs : List β} (h : BytesAt mem a bs) (h' : BytesAt mem b cs) {i j : ℕ} {v w : β}
    (hij : a + i = b + j) (hv : bs[i]? = some v) (hw : cs[j]? = some w) : v = w := by
  rw [← h i v hv, hij]
  exact h' j w hw

theorem placeAll_append (blocks : List (ℕ × List β)) (x : ℕ × List β) :
    placeAll mem (blocks ++ [x]) = place (placeAll mem blocks) x.1 x.2 := by
  simp only [placeAll, List.foldl_append, List.foldl_cons, List.foldl_nil]

/-- **Blocks that do not overlap stay intact.** -/
theorem placeAll_intact {blocks : List (ℕ × List β)}
    (h : blocks.Pairwise fun x y => Apart x.1 x.2.length y.1 y.2.length) :
    ∀ x ∈ blocks, BytesAt (placeAll mem blocks) x.1 x.2 := by
  induction blocks using List.reverseRecOn with
  | nil => exact fun x hx => absurd hx List.not_mem_nil
  | append_singleton blocks y ih =>
      intro x hx
      rw [List.pairwise_append] at h
      obtain ⟨hblocks, -, hlast⟩ := h
      rw [placeAll_append]
      rcases List.mem_append.mp hx with hx | hx
      · exact (ih hblocks x hx).place_of_apart (hlast x hx y (List.mem_singleton_self y))
      · obtain rfl := List.mem_singleton.mp hx
        exact bytesAt_place

theorem placeAll_last (blocks : List (ℕ × List β)) (x : ℕ × List β) :
    BytesAt (placeAll mem (blocks ++ [x])) x.1 x.2 := by
  rw [placeAll_append]
  exact bytesAt_place

end Blocks

/-! ### Records in a byte string -/

/-- The number with the given bytes, least significant byte first. -/
def ofBytes : List UInt8 → ℕ
  | [] => 0
  | b :: bs => b.toNat + 256 * ofBytes bs

/-- The `w` low bytes of `v`, least significant byte first. -/
def toBytes : ℕ → ℕ → List UInt8
  | 0, _ => []
  | w + 1, v => UInt8.ofNat v :: toBytes w (v / 256)

/-- The string with `ys` written over the bytes from `off` on. -/
def splice {β : Type*} (xs : List β) (off : ℕ) (ys : List β) : List β :=
  xs.take off ++ ys ++ xs.drop (off + ys.length)

/-- The number of `w` bytes at `off`. -/
def field (xs : List UInt8) (off w : ℕ) : ℕ := ofBytes ((xs.drop off).take w)

/-- The string with the number `v` stored in the `w` bytes at `off`. -/
def setField (xs : List UInt8) (off w v : ℕ) : List UInt8 := splice xs off (toBytes w v)

@[simp] theorem length_toBytes (w v : ℕ) : (toBytes w v).length = w := by
  induction w generalizing v with
  | zero => rfl
  | succ w ih => rw [toBytes, List.length_cons, ih]

theorem ofBytes_toBytes (w v : ℕ) : ofBytes (toBytes w v) = v % 256 ^ w := by
  induction w generalizing v with
  | zero => rw [toBytes, ofBytes, pow_zero, Nat.mod_one]
  | succ w ih =>
      have hmod : v % (256 * 256 ^ w) = v % 256 + 256 * (v / 256 % 256 ^ w) := Nat.mod_mul
      have hlow : (UInt8.ofNat v).toNat = v % 256 := UInt8.toNat_ofNat'
      rw [toBytes, ofBytes, ih, hlow, pow_succ', hmod]

theorem ofBytes_lt (bs : List UInt8) : ofBytes bs < 256 ^ bs.length := by
  induction bs with
  | nil => exact Nat.one_pos
  | cons b bs ih =>
      have hb := b.toNat_lt
      rw [ofBytes, List.length_cons, pow_succ']
      omega

theorem field_lt (xs : List UInt8) (off w : ℕ) : field xs off w < 256 ^ w :=
  (ofBytes_lt _).trans_le (Nat.pow_le_pow_right (by norm_num) (List.length_take_le _ _))

section Splice

variable {β : Type*} {xs ys : List β} {off : ℕ}

theorem length_splice (h : off + ys.length ≤ xs.length) : (splice xs off ys).length = xs.length := by
  simp only [splice, List.length_append, List.length_take, List.length_drop]
  omega

theorem slice_splice_of_disjoint (h : off + ys.length ≤ xs.length) {off' w : ℕ}
    (hdisj : off' + w ≤ off ∨ off + ys.length ≤ off') :
    ((splice xs off ys).drop off').take w = (xs.drop off').take w := by
  apply List.ext_getElem?
  intro i
  rw [List.getElem?_take, List.getElem?_take]
  split_ifs with hi
  · rw [List.getElem?_drop, List.getElem?_drop, splice]
    rcases hdisj with hlt | hge
    · rw [List.append_assoc, List.getElem?_append_left (by rw [List.length_take]; omega),
        List.getElem?_take, if_pos (by omega)]
    · have hlen : (xs.take off ++ ys).length = off + ys.length := by
        rw [List.length_append, List.length_take]
        omega
      rw [List.getElem?_append_right (by omega), hlen, List.getElem?_drop]
      congr 1
      omega
  · rfl

theorem slice_splice (h : off + ys.length ≤ xs.length) :
    ((splice xs off ys).drop off).take ys.length = ys := by
  have hlen : (xs.take off).length = off := by
    rw [List.length_take]
    omega
  rw [splice, List.append_assoc, List.drop_append_of_le_length (by omega), List.drop_of_length_le
    (by omega), List.nil_append, List.take_left]

end Splice

section Fields

variable {xs : List UInt8} {off w v : ℕ}

theorem length_setField (h : off + w ≤ xs.length) : (setField xs off w v).length = xs.length :=
  length_splice (by rwa [length_toBytes])

theorem field_setField (h : off + w ≤ xs.length) :
    field (setField xs off w v) off w = v % 256 ^ w := by
  have hslice : ((splice xs off (toBytes w v)).drop off).take (toBytes w v).length = toBytes w v :=
    slice_splice (by rwa [length_toBytes])
  rw [length_toBytes] at hslice
  rw [field, setField, hslice, ofBytes_toBytes]

theorem field_setField_of_disjoint (h : off + w ≤ xs.length) {off' w' : ℕ}
    (hdisj : off' + w' ≤ off ∨ off + w ≤ off') :
    field (setField xs off w v) off' w' = field xs off' w' := by
  rw [field, setField, slice_splice_of_disjoint (by rwa [length_toBytes]) (by rwa [length_toBytes]),
    field]

end Fields

/-! ### Filling a record -/

/-- A store of the number `val` into the `width` bytes at `off`. -/
structure Store where
  off : ℕ
  width : ℕ
  val : ℕ

/-- The string after the stores were made in order. -/
def storeAll (xs : List UInt8) (stores : List Store) : List UInt8 :=
  stores.foldl (fun xs st => setField xs st.off st.width st.val) xs

/-- The bytes that the stores write to. -/
def footprint (stores : List Store) : List (ℕ × ℕ) := stores.map fun st => (st.off, st.width)

section Stores

variable {xs : List UInt8} {stores : List Store}

theorem storeAll_nil : storeAll xs [] = xs := List.foldl_nil

theorem storeAll_cons (st : Store) :
    storeAll xs (st :: stores) = storeAll (setField xs st.off st.width st.val) stores :=
  List.foldl_cons ..

theorem storeAll_append (st : Store) :
    storeAll xs (stores ++ [st]) = setField (storeAll xs stores) st.off st.width st.val := by
  simp only [storeAll, List.foldl_append, List.foldl_cons, List.foldl_nil]

theorem footprint_append (st : Store) :
    footprint (stores ++ [st]) = footprint stores ++ [(st.off, st.width)] := List.map_append

theorem length_storeAll (h : ∀ p ∈ footprint stores, p.1 + p.2 ≤ xs.length) :
    (storeAll xs stores).length = xs.length := by
  induction stores using List.reverseRecOn with
  | nil => rfl
  | append_singleton stores st ih =>
      rw [footprint_append] at h
      have hlen := ih fun p hp => h p (List.mem_append_left _ hp)
      have hst := h _ (List.mem_append_right _ (List.mem_singleton_self _))
      rw [storeAll_append, length_setField (by rw [hlen]; exact hst), hlen]

theorem field_storeAll_of_disjoint (h : ∀ p ∈ footprint stores, p.1 + p.2 ≤ xs.length) {off w : ℕ}
    (hdisj : ∀ p ∈ footprint stores, off + w ≤ p.1 ∨ p.1 + p.2 ≤ off) :
    field (storeAll xs stores) off w = field xs off w := by
  induction stores using List.reverseRecOn with
  | nil => rfl
  | append_singleton stores st ih =>
      rw [footprint_append] at h hdisj
      have hlen := length_storeAll fun p hp => h p (List.mem_append_left _ hp)
      have hst := h _ (List.mem_append_right _ (List.mem_singleton_self _))
      rw [storeAll_append, field_setField_of_disjoint (by rw [hlen]; exact hst)
        (hdisj _ (List.mem_append_right _ (List.mem_singleton_self _)))]
      exact ih (fun p hp => h p (List.mem_append_left _ hp))
        fun p hp => hdisj p (List.mem_append_left _ hp)

theorem field_storeAll (h : ∀ p ∈ footprint stores, p.1 + p.2 ≤ xs.length)
    (hdisj : (footprint stores).Pairwise fun p q => p.1 + p.2 ≤ q.1 ∨ q.1 + q.2 ≤ p.1) :
    ∀ st ∈ stores, field (storeAll xs stores) st.off st.width = st.val % 256 ^ st.width := by
  induction stores using List.reverseRecOn with
  | nil => exact fun st hst => absurd hst List.not_mem_nil
  | append_singleton stores last ih =>
      intro st hst
      rw [footprint_append] at h hdisj
      have hlen := length_storeAll fun p hp => h p (List.mem_append_left _ hp)
      have hlast := h _ (List.mem_append_right _ (List.mem_singleton_self _))
      rw [storeAll_append]
      rcases List.mem_append.mp hst with hst | hst
      · have hapart := (List.pairwise_append.mp hdisj).2.2 _ (List.mem_map_of_mem hst) _
          (List.mem_singleton_self _)
        rw [field_setField_of_disjoint (by rw [hlen]; exact hlast) hapart]
        exact ih (fun p hp => h p (List.mem_append_left _ hp)) (List.pairwise_append.mp hdisj).1 st hst
      · obtain rfl := List.mem_singleton.mp hst
        exact field_setField (by rw [hlen]; exact hlast)

end Stores

end HyveMind.Lib
