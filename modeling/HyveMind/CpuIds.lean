import HyveMind.Types
import HyveMind.Lib.FirstSeen

/-! # CPU ids

`vmm.c`: the hypervisor numbers the CPUs itself.  A table of pairs maps a LAPIC id to the number of
its CPU, a second one the number to the LAPIC id, and both are written by the loop that searches the
first.  Writing behind the end of a table has no result.

`Holds`: the tables hold a list of distinct LAPIC ids, each at the position that is its number.  A
call presents its argument to that list. -/

namespace HyveMind.CpuTopology

open Lib

abbrev Cpuid := ℕ

abbrev Lapicid := UInt32

/-- `MAX_CPUS`. -/
abbrev maxCpus : ℕ := 64

/-- `INVALID_CPUID`. -/
def invalidCpuid : ℕ := 2 ^ 32 - 1

/-- `INVALID_LAPIC_ID`. -/
def invalidLapicId : Lapicid := ~~~0

theorem ne_invalidCpuid {c : ℕ} (hc : c < maxCpus) : c ≠ invalidCpuid := by
  unfold invalidCpuid maxCpus at *
  omega

/-- `struct cpuid_lapic_id_pair`. -/
structure CpuidLapicIdPair where
  cpuid : Cpuid
  lapicId : Lapicid
deriving DecidableEq, Repr

/-- What the entries of the first table are initialised to. -/
def freePair : CpuidLapicIdPair := ⟨invalidCpuid, invalidLapicId⟩

/-- `cpuid_counter` and the two tables. -/
structure IdTables where
  cpuidCounter : Cpuid
  cpuidLapicIdPairs : List CpuidLapicIdPair
  cpuidToLapicIdMap : List Lapicid
deriving DecidableEq, Repr

def IdTables.init : IdTables where
  cpuidCounter := 0
  cpuidLapicIdPairs := List.replicate maxCpus freePair
  cpuidToLapicIdMap := List.replicate maxCpus invalidLapicId

variable (s : IdTables)

/-- `cpuid_to_lapic_id`. -/
def cpuidToLapicId (cpuid : Cpuid) : Option Lapicid := s.cpuidToLapicIdMap[cpuid]?

/-- The branch of `__get_cpuid_for_lapic_id` that writes the free entry `i`. -/
def createPair (i : ℕ) (lapicId : Lapicid) : Option (IdTables × Cpuid) :=
  let cpuid := s.cpuidCounter
  if cpuid < s.cpuidToLapicIdMap.length then
    some ({ cpuidCounter := u32 (cpuid + 1)
            cpuidLapicIdPairs := s.cpuidLapicIdPairs.set i ⟨cpuid, lapicId⟩
            cpuidToLapicIdMap := s.cpuidToLapicIdMap.set cpuid lapicId }, cpuid)
  else none

/-- The loop of `__get_cpuid_for_lapic_id`, with the entries from `i` on still to be looked at. -/
def searchPairs (lapicId : Lapicid) (createIfMissing : Bool) :
    List CpuidLapicIdPair → ℕ → Option (IdTables × Cpuid)
  | [], _ => some (s, invalidCpuid)
  | entry :: entries, i =>
      if entry.lapicId = lapicId then some (s, entry.cpuid)
      else if entry.lapicId = invalidLapicId then
        if createIfMissing then createPair s i lapicId else some (s, invalidCpuid)
      else searchPairs lapicId createIfMissing entries (i + 1)

/-- `__get_cpuid_for_lapic_id`. -/
def getCpuidForLapicIdImpl (lapicId : Lapicid) (createIfMissing : Bool) :
    Option (IdTables × Cpuid) :=
  searchPairs s lapicId createIfMissing s.cpuidLapicIdPairs 0

/-- `get_cpuid_for_lapic_id`. -/
def getCpuidForLapicId (lapicId : Lapicid) : Option (IdTables × Cpuid) :=
  getCpuidForLapicIdImpl s lapicId true

/-- `lapic_id_to_cpuid`. -/
def lapicIdToCpuid (lapicId : Lapicid) : Option (IdTables × Cpuid) :=
  getCpuidForLapicIdImpl s lapicId false

/-- Calls of `get_cpuid_for_lapic_id`, one after the other, with what they return. -/
def getCpuids : IdTables → List Lapicid → Option (IdTables × List Cpuid)
  | s, [] => some (s, [])
  | s, x :: xs => do
      let (s, c) ← getCpuidForLapicId s x
      let (s, cs) ← getCpuids s xs
      return (s, c :: cs)

/-! ### What the tables hold -/

/-- The entries of `ids` in the first table when their numbers start at `k`. -/
def pairsFrom (k : ℕ) (ids : List Lapicid) : List CpuidLapicIdPair :=
  (ids.zipIdx k).map fun p => ⟨p.2, p.1⟩

/-- The tables hold `ids`. -/
structure Holds (ids : List Lapicid) : Prop where
  nodup : ids.Nodup
  valid : invalidLapicId ∉ ids
  length_le : ids.length ≤ maxCpus
  counter : s.cpuidCounter = ids.length
  pairs : s.cpuidLapicIdPairs =
    pairsFrom 0 ids ++ List.replicate (maxCpus - ids.length) freePair
  map : s.cpuidToLapicIdMap = ids ++ List.replicate (maxCpus - ids.length) invalidLapicId

/-- The number of `x` in a table that holds `ids`. -/
def cpuidIn (ids : List Lapicid) (x : Lapicid) : Cpuid :=
  if x ∈ ids then ids.idxOf x else invalidCpuid

variable {s} {ids : List Lapicid} {x : Lapicid} {create : Bool}

theorem holds_init : Holds .init [] where
  nodup := List.nodup_nil
  valid := List.not_mem_nil
  length_le := Nat.zero_le _
  counter := rfl
  pairs := rfl
  map := rfl

theorem pairsFrom_cons (k : ℕ) (y : Lapicid) (ids : List Lapicid) :
    pairsFrom k (y :: ids) = ⟨k, y⟩ :: pairsFrom (k + 1) ids := by
  simp [pairsFrom, List.zipIdx_cons]

theorem pairsFrom_concat (ids : List Lapicid) (x : Lapicid) :
    pairsFrom 0 (ids ++ [x]) = pairsFrom 0 ids ++ [⟨ids.length, x⟩] := by
  simp [pairsFrom, List.zipIdx_append]

theorem pairsFrom_length (k : ℕ) (ids : List Lapicid) : (pairsFrom k ids).length = ids.length := by
  simp [pairsFrom]

/-! ### The search -/

theorem searchPairs_of_mem (hids : invalidLapicId ∉ ids) (hx : x ∈ ids)
    (rest : List CpuidLapicIdPair) (k : ℕ) :
    searchPairs s x create (pairsFrom k ids ++ rest) k = some (s, k + ids.idxOf x) := by
  induction ids generalizing k with
  | nil => simp at hx
  | cons y ids ih =>
      rw [List.mem_cons, not_or] at hids
      rw [pairsFrom_cons, List.cons_append, searchPairs]
      by_cases hy : y = x
      · simp [hy]
      · have hmem : x ∈ ids := (List.mem_cons.mp hx).resolve_left (Ne.symm hy)
        rw [if_neg hy, if_neg (Ne.symm hids.1), ih hids.2 hmem, List.idxOf_cons_ne _ hy]
        congr 2
        omega

theorem searchPairs_of_not_mem (hids : invalidLapicId ∉ ids) (hx : x ∉ ids)
    (rest : List CpuidLapicIdPair) (k : ℕ) :
    searchPairs s x create (pairsFrom k ids ++ rest) k =
      searchPairs s x create rest (k + ids.length) := by
  induction ids generalizing k with
  | nil => rfl
  | cons y ids ih =>
      rw [List.mem_cons, not_or] at hids hx
      rw [pairsFrom_cons, List.cons_append, searchPairs, if_neg (Ne.symm hx.1),
        if_neg (Ne.symm hids.1), ih hids.2 hx.2, List.length_cons]
      congr 1
      omega

theorem lapicIdToCpuid_state (s : IdTables) (x : Lapicid) : ∃ c, lapicIdToCpuid s x = some (s, c) := by
  unfold lapicIdToCpuid getCpuidForLapicIdImpl
  generalize s.cpuidLapicIdPairs = entries, 0 = k
  induction entries generalizing k with
  | nil => exact ⟨_, rfl⟩
  | cons entry entries ih =>
      simp only [searchPairs, Bool.false_eq_true, if_false]
      split_ifs with h₁ h₂
      · exact ⟨_, rfl⟩
      · exact ⟨_, rfl⟩
      · exact ih (k + 1)

variable (h : Holds s ids)
include h

theorem Holds.search_of_mem (hx : x ∈ ids) :
    getCpuidForLapicIdImpl s x create = some (s, ids.idxOf x) := by
  rw [getCpuidForLapicIdImpl, h.pairs, searchPairs_of_mem h.valid hx, Nat.zero_add]

theorem Holds.search_of_full (hx : x ∉ ids) (hfull : maxCpus ≤ ids.length) :
    getCpuidForLapicIdImpl s x create = some (s, invalidCpuid) := by
  rw [getCpuidForLapicIdImpl, h.pairs, searchPairs_of_not_mem h.valid hx,
    Nat.sub_eq_zero_of_le hfull]
  rfl

/-- The invalid id meets the first free entry and gets the number that stands there. -/
theorem Holds.search_invalid :
    getCpuidForLapicIdImpl s invalidLapicId create = some (s, invalidCpuid) := by
  rw [getCpuidForLapicIdImpl, h.pairs, searchPairs_of_not_mem h.valid h.valid]
  cases maxCpus - ids.length with
  | zero => rfl
  | succ n => simp [List.replicate_succ, searchPairs, freePair]

/-- With room in the table a new id takes the first free entry. -/
theorem Holds.search_of_room (hx : x ∉ ids) (hvalid : x ≠ invalidLapicId)
    (hroom : ids.length < maxCpus) :
    getCpuidForLapicIdImpl s x create =
      if create then createPair s ids.length x else some (s, invalidCpuid) := by
  obtain ⟨n, hn⟩ : ∃ n, maxCpus - ids.length = n + 1 := ⟨maxCpus - ids.length - 1, by omega⟩
  have hfree : freePair.lapicId ≠ x := hvalid.symm
  have hinvalid : freePair.lapicId = invalidLapicId := rfl
  rw [getCpuidForLapicIdImpl, h.pairs, searchPairs_of_not_mem h.valid hx, hn, List.replicate_succ,
    searchPairs, if_neg hfree, if_pos hinvalid, Nat.zero_add]

/-- The new id is appended to the list that the tables hold. -/
theorem Holds.createPair (hx : x ∉ ids) (hvalid : x ≠ invalidLapicId)
    (hroom : ids.length < maxCpus) :
    ∃ s', createPair s ids.length x = some (s', ids.length) ∧ Holds s' (ids ++ [x]) := by
  obtain ⟨n, hn⟩ : ∃ n, maxCpus - ids.length = n + 1 := ⟨maxCpus - ids.length - 1, by omega⟩
  have hlen : (ids ++ [x]).length = ids.length + 1 := List.length_append
  have hn' : maxCpus - (ids ++ [x]).length = n := by
    rw [hlen]
    omega
  have hcall : CpuTopology.createPair s ids.length x = some (
      { cpuidCounter := ids.length + 1
        cpuidLapicIdPairs := s.cpuidLapicIdPairs.set ids.length ⟨ids.length, x⟩
        cpuidToLapicIdMap := s.cpuidToLapicIdMap.set ids.length x }, ids.length) := by
    have hin : ids.length < s.cpuidToLapicIdMap.length := by
      rw [h.map, List.length_append, List.length_replicate]
      omega
    have hword : u32 (ids.length + 1) = ids.length + 1 :=
      u32_of_lt (lt_of_le_of_lt hroom (by norm_num))
    simp only [CpuTopology.createPair, h.counter, if_pos hin, hword]
  refine ⟨_, hcall, ?_, ?_, ?_, ?_, ?_, ?_⟩
  · rw [← List.concat_eq_append]
    exact h.nodup.concat hx
  · simpa using ⟨h.valid, hvalid.symm⟩
  · rw [hlen]
    omega
  · exact hlen.symm
  · rw [hn', h.pairs, hn, List.replicate_succ, pairsFrom_concat,
      List.set_append_right _ _ (pairsFrom_length 0 ids).le, pairsFrom_length, Nat.sub_self,
      List.set_cons_zero, List.append_assoc, List.singleton_append]
  · rw [hn', h.map, hn, List.replicate_succ, List.set_append_right _ _ le_rfl, Nat.sub_self,
      List.set_cons_zero, List.append_assoc, List.singleton_append]

/-- One call of `get_cpuid_for_lapic_id` presents its argument to the list that the tables hold. -/
theorem Holds.getCpuid (hvalid : x ≠ invalidLapicId) :
    ∃ s', getCpuidForLapicId s x = some (s', cpuidIn (present maxCpus ids x) x) ∧
      Holds s' (present maxCpus ids x) := by
  rcases present_cases maxCpus ids x with ⟨hkept, hpresent⟩ | ⟨hx, hroom, hpresent⟩
  · rw [hpresent, cpuidIn]
    by_cases hx : x ∈ ids
    · rw [if_pos hx]
      exact ⟨s, h.search_of_mem hx, h⟩
    · rw [if_neg hx]
      exact ⟨s, h.search_of_full hx (hkept.resolve_left hx), h⟩
  · obtain ⟨s', hcall, hs'⟩ := h.createPair hx hvalid hroom
    have hnum : (ids ++ [x]).idxOf x = ids.length := by
      rw [List.idxOf_append_of_notMem hx, List.idxOf_cons_self, Nat.add_zero]
    rw [hpresent, cpuidIn, if_pos (by simp), hnum]
    refine ⟨s', ?_, hs'⟩
    rw [getCpuidForLapicId, h.search_of_room hx hvalid hroom, if_pos rfl, hcall]

theorem Holds.lapicIdToCpuid_eq (x : Lapicid) : lapicIdToCpuid s x = some (s, cpuidIn ids x) := by
  rw [lapicIdToCpuid, cpuidIn]
  by_cases hx : x ∈ ids
  · rw [if_pos hx, h.search_of_mem hx]
  · rw [if_neg hx]
    by_cases hvalid : x = invalidLapicId
    · rw [hvalid, h.search_invalid]
    · by_cases hroom : ids.length < maxCpus
      · rw [h.search_of_room hx hvalid hroom, if_neg Bool.false_ne_true]
      · exact h.search_of_full hx (Nat.not_lt.mp hroom)

theorem Holds.cpuidToLapicId_eq {c : Cpuid} (hc : c < ids.length) :
    cpuidToLapicId s c = some ids[c] := by
  rw [cpuidToLapicId, h.map, List.getElem?_append_left hc, List.getElem?_eq_getElem hc]

omit h

/-! ### Sequences of calls -/

/-- The ids that are registered after the calls for `xs`. -/
def registered (xs : List Lapicid) : List Lapicid := xs.eraseDups.take maxCpus

/-- The number of `x` when the calls for `xs` have been made: its place among the distinct ids in
the order of their first appearance, as long as there is room in the tables. -/
def assigned (xs : List Lapicid) (x : Lapicid) : Cpuid :=
  if xs.eraseDups.idxOf x < maxCpus then xs.eraseDups.idxOf x else invalidCpuid

theorem cpuidIn_registered {xs : List Lapicid} (hx : x ∈ xs) :
    cpuidIn (registered xs) x = assigned xs x := by
  have hmem : x ∈ xs.eraseDups := List.mem_eraseDups.mpr hx
  have hiff : x ∈ registered xs ↔ xs.eraseDups.idxOf x < maxCpus :=
    List.mem_take_iff_idxOf_lt hmem
  rw [cpuidIn, assigned]
  by_cases hreg : x ∈ registered xs
  · have hpos : (registered xs).idxOf x = xs.eraseDups.idxOf x := by
      conv_rhs => rw [← List.take_append_drop maxCpus xs.eraseDups]
      exact (List.idxOf_append_of_mem hreg).symm
    rw [if_pos hreg, if_pos (hiff.mp hreg), hpos]
  · rw [if_neg hreg, if_neg (hiff.not.mp hreg)]

/-- Later calls do not change the number of an id that has been asked for. -/
theorem assigned_append {xs : List Lapicid} (hx : x ∈ xs) (ys : List Lapicid) :
    assigned (xs ++ ys) x = assigned xs x := by
  rw [assigned, assigned, idxOf_eraseDups_append hx]

/-- A run: with the calls for `done` behind it and those for `xs` ahead. -/
theorem getCpuids_spec {done xs : List Lapicid} (h : Holds s (registered done))
    (hxs : invalidLapicId ∉ xs) :
    ∃ s', getCpuids s xs = some (s', xs.map (assigned (done ++ xs))) ∧
      Holds s' (registered (done ++ xs)) := by
  induction xs generalizing s done with
  | nil => exact ⟨s, rfl, by simpa using h⟩
  | cons x xs ih =>
      rw [List.mem_cons, not_or] at hxs
      have happ : done ++ x :: xs = (done ++ [x]) ++ xs := by simp
      have hlast : x ∈ done ++ [x] := by simp
      obtain ⟨s₁, hcall, h₁⟩ := h.getCpuid (Ne.symm hxs.1)
      have hreg : present maxCpus (registered done) x = registered (done ++ [x]) :=
        (take_eraseDups_concat maxCpus done x).symm
      rw [hreg] at hcall h₁
      rw [cpuidIn_registered hlast, ← assigned_append hlast xs] at hcall
      obtain ⟨s₂, hcalls, h₂⟩ := ih h₁ hxs.2
      rw [happ]
      refine ⟨s₂, ?_, h₂⟩
      simp only [getCpuids, hcall, hcalls, Option.bind_eq_bind, Option.bind_some, List.map_cons,
        Option.pure_def]

theorem mem_of_mem_registered {xs : List Lapicid} (hx : x ∈ registered xs) : x ∈ xs :=
  List.mem_eraseDups.mp (List.mem_of_mem_take hx)

theorem assigned_of_registered {xs : List Lapicid} (hx : x ∈ registered xs) :
    assigned xs x = (registered xs).idxOf x := by
  rw [← cpuidIn_registered (mem_of_mem_registered hx), cpuidIn, if_pos hx]

theorem map_assigned_registered (xs : List Lapicid) :
    (registered xs).map (assigned xs) = List.range (registered xs).length := by
  have hnodup : (registered xs).Nodup := (nodup_eraseDups xs).sublist (List.take_sublist _ _)
  apply List.ext_getElem
  · simp
  intro i hi _
  rw [List.length_map] at hi
  rw [List.getElem_map, List.getElem_range, assigned_of_registered (List.getElem_mem hi),
    hnodup.idxOf_getElem i hi]

theorem assigned_inj {xs : List Lapicid} {y : Lapicid} (hx : x ∈ xs)
    (heq : assigned xs x = assigned xs y) : x = y ∨ assigned xs x = invalidCpuid := by
  unfold assigned at heq ⊢
  split_ifs at heq ⊢ with h₁ h₂ h₂
  · exact .inl ((List.idxOf_inj (List.mem_eraseDups.mpr hx)).mp heq)
  · exact absurd heq (ne_invalidCpuid h₁)
  · exact .inr rfl
  · exact .inr rfl

/-- LAPIC ids and CPU ids are in bijection after any calls of `get_cpuid_for_lapic_id`. -/
theorem cpuid_lapic_id_bijection (xs : List Lapicid) (hxs : invalidLapicId ∉ xs) :
    ∃ s, getCpuids .init xs = some (s, xs.map (assigned xs)) ∧
      (∀ x ∈ xs, ∀ y ∈ xs, assigned xs x = assigned xs y →
        x = y ∨ assigned xs x = invalidCpuid) ∧
      (registered xs).map (assigned xs) = List.range (registered xs).length ∧
      (∀ y, y ≠ invalidLapicId → y ∉ registered xs → (registered xs).length = maxCpus →
        getCpuidForLapicId s y = some (s, invalidCpuid)) ∧
      (∀ x ∈ registered xs, lapicIdToCpuid s x = some (s, assigned xs x) ∧
        cpuidToLapicId s (assigned xs x) = some x) ∧
      (∀ c < (registered xs).length, ∃ x, cpuidToLapicId s c = some x ∧
        lapicIdToCpuid s x = some (s, c)) ∧
      ∀ s y, ∃ c, lapicIdToCpuid s y = some (s, c) := by
  have h₀ : Holds .init (registered []) := holds_init
  obtain ⟨s, hcalls, h⟩ := getCpuids_spec h₀ hxs
  rw [List.nil_append] at hcalls h
  refine ⟨s, hcalls, fun x hx y _ heq => assigned_inj hx heq, map_assigned_registered xs, ?_, ?_,
    ?_, lapicIdToCpuid_state⟩
  · intro y _ hy hfull
    exact h.search_of_full hy hfull.ge
  · intro x hx
    rw [assigned_of_registered hx, h.lapicIdToCpuid_eq, cpuidIn, if_pos hx]
    refine ⟨rfl, ?_⟩
    rw [h.cpuidToLapicId_eq (List.idxOf_lt_length_iff.mpr hx), List.getElem_idxOf]
  · intro c hc
    refine ⟨_, h.cpuidToLapicId_eq hc, ?_⟩
    have hpos := h.nodup.idxOf_getElem c hc
    rw [h.lapicIdToCpuid_eq, cpuidIn, if_pos (List.getElem_mem hc), hpos]

/-- Two CPUs, with a call that repeats the first one. -/
theorem cpuid_lapic_id_bijection_two_cpus :
    invalidLapicId ∉ ([4, 0, 4] : List Lapicid) ∧
      ∃ s, getCpuids .init [4, 0, 4] = some (s, [0, 1, 0]) ∧ cpuidToLapicId s 1 = some 0 := by
  have hxs : invalidLapicId ∉ ([4, 0, 4] : List Lapicid) := by decide
  obtain ⟨s, hcalls, -, -, -, hinv, -⟩ := cpuid_lapic_id_bijection [4, 0, 4] hxs
  have hmap : [4, 0, 4].map (assigned [4, 0, 4]) = [0, 1, 0] := by decide
  have hzero : assigned [4, 0, 4] 0 = 1 := by decide
  rw [hmap] at hcalls
  have := (hinv 0 (by decide)).2
  rw [hzero] at this
  exact ⟨hxs, s, hcalls, this⟩

end HyveMind.CpuTopology
