import HyveMind.TimerHeap

/-! # The indices that the heap functions use

For each function of the heap the list of the indices at which it reads or writes `flattened_tree`, the
loads of `heapify_down` that come before the comparison with `max_idx` included.

`heapify_down` reads behind the array exactly when it gets to a place from 256 on.  Which places it gets
to is a matter of the heap before the deletion: `GivesWay` is the condition on one place, and the last
timer goes to a place when it and all places above it give way (`SinksTo`). -/

namespace HyveMind.TimerCpu

open Lib Lib.ArrayHeap

/-! ### The indices -/

/-- `heap_swap`. -/
def heapSwapIndices (idx1 idx2 : ℕ) : List ℕ := [idx1, idx1, idx2, idx2]

/-- `heapify_up`. -/
def heapifyUpIndices (deadline : ℕ → ℕ) : ℕ → (ℕ → ℕ) → ℕ → List ℕ
  | 0, _, _ => []
  | fuel + 1, tree, idx =>
      let parentIdx := heapParentIdx idx
      if 0 < parentIdx then
        [idx, parentIdx] ++
          if deadline (tree parentIdx) ≤ deadline (tree idx) then []
          else heapSwapIndices idx parentIdx ++
            heapifyUpIndices deadline fuel (heapSwap tree idx parentIdx) parentIdx
      else []

/-- `heapify_down`: every round first loads both children. -/
def heapifyDownIndices (deadline : ℕ → ℕ) (maxIdx : ℕ) : ℕ → (ℕ → ℕ) → ℕ → List ℕ
  | 0, _, _ => []
  | fuel + 1, tree, idx =>
      let largest := pickLargest deadline maxIdx tree idx
      [heapLeftIdx idx, heapRightIdx idx, idx] ++
        if largest = idx then []
        else heapSwapIndices idx largest ++
          heapifyDownIndices deadline maxIdx fuel (heapSwap tree idx largest) largest

/-- `delete_heap_element`. -/
def deleteHeapElementIndices (s : TimerCpu) (idx : ℕ) : List ℕ :=
  if s.insertionIdx ≤ idx then []
  else
    let tree := Function.update s.flattenedTree idx (s.flattenedTree s.heapMaxIdx)
    let s' := { s with flattenedTree := tree, insertionIdx := s.insertionIdx - 1 }
    [s.heapMaxIdx, idx] ++ heapifyDownIndices s'.deadline s'.heapMaxIdx (s'.insertionIdx + 1) tree idx

/-- `delete_root`. -/
def deleteRootIndices (s : TimerCpu) : List ℕ := s.deleteHeapElementIndices heapRootIndex

/-- `get_heap_root`. -/
def getHeapRootIndices (s : TimerCpu) : List ℕ :=
  if s.insertionIdx ≤ heapRootIndex then [] else [heapRootIndex]

/-- `heap_add_timer`. -/
def heapAddTimerIndices (s : TimerCpu) (timer : ℕ) : List ℕ :=
  if s.capacity ≤ s.insertionIdx then []
  else
    let tree := Function.update s.flattenedTree s.insertionIdx timer
    s.insertionIdx :: heapifyUpIndices s.deadline (s.insertionIdx + 1) tree s.insertionIdx

/-- `add_timer`. -/
def addTimerIndices (s : TimerCpu) (timer : ℕ) : List ℕ :=
  s.heapAddTimerIndices timer ++
    match s.heapAddTimer timer with
    | some (s', .success) => s'.getHeapRootIndices
    | _ => []

/-- One call of a timer action. -/
def runCmdIndices (s : TimerCpu) : Cmd → List ℕ
  | .init _ _ => []
  | .add timer => s.addTimerIndices timer

/-- The calls of a timer action. -/
def runCmdsIndices : TimerCpu → List Cmd → List ℕ
  | _, [] => []
  | s, c :: cs => s.runCmdIndices c ++ (s.runCmd c).elim [] fun s' => runCmdsIndices s' cs

/-- One round of `irq_timer_handler`, for a timer that has expired. -/
def expireIndices (act : Actions) (now earliest : ℕ) (s : TimerCpu) : List ℕ :=
  runCmdsIndices { s with invoked := s.invoked ++ [(earliest, s.timers earliest)] } (act now earliest s) ++
    (s.timerAction act now earliest).elim [] fun s =>
      s.deleteRootIndices ++
        s.deleteRoot.elim [] fun s =>
          if (s.timers earliest).type = .periodic then
            (s.setTimer earliest (s.timers earliest).advanced).addTimerIndices earliest
          else []

/-- The loop of `irq_timer_handler`. -/
def handlerLoopIndices (act : Actions) (now : ℕ) : List ℕ → TimerCpu → List ℕ
  | [], s => s.getHeapRootIndices
  | tsc :: tscs, s =>
      s.getHeapRootIndices ++
        s.getHeapRoot.elim [] fun earliest =>
          if tsc < s.deadline earliest then []
          else s.expireIndices act now earliest ++
            (s.expire act now earliest).elim [] (handlerLoopIndices act now tscs)

/-- `irq_timer_handler`. -/
def irqTimerHandlerIndices (act : Actions) (tscs : List ℕ) (s : TimerCpu) : List ℕ :=
  match tscs with
  | [] => []
  | now :: tscs => s.handlerLoopIndices act now tscs

/-- The indices are those of entries of the array. -/
def InBounds (capacity : ℕ) (indices : List ℕ) : Prop := ∀ i ∈ indices, 1 ≤ i ∧ i < capacity

/-- The number of timers is within the bounds. -/
structure Sized (s : TimerCpu) : Prop where
  capacity : s.capacity = 512
  pos : 1 ≤ s.insertionIdx
  le : s.insertionIdx ≤ 512

theorem HeapOk.sized {s : TimerCpu} (ok : HeapOk s) : s.Sized := ⟨ok.capacity, ok.pos, ok.le⟩

variable {s s' : TimerCpu} {capacity fuel idx n p : ℕ} {l₁ l₂ : List ℕ} {deadline tree : ℕ → ℕ}

theorem inBounds_append : InBounds capacity (l₁ ++ l₂) ↔ InBounds capacity l₁ ∧ InBounds capacity l₂ :=
  List.forall_mem_append

theorem inBounds_nil : InBounds capacity [] := fun _ h => absurd h List.not_mem_nil

/-! ### Adding -/

theorem heapifyUp_returns (deadline tree : ℕ → ℕ) (hfuel : idx < fuel) :
    ∃ tree', heapifyUp deadline fuel tree idx = some tree' := by
  induction fuel generalizing idx tree with
  | zero => omega
  | succ fuel ih =>
      unfold heapifyUp heapParentIdx
      dsimp only
      split_ifs
      · exact ⟨_, rfl⟩
      · exact ih _ (by omega)
      · exact ⟨_, rfl⟩

theorem heapifyUp_inBounds (deadline : ℕ → ℕ) (fuel : ℕ) (tree : ℕ → ℕ) (hidx : idx < 512) :
    InBounds 512 (heapifyUpIndices deadline fuel tree idx) := by
  induction fuel generalizing idx tree with
  | zero => exact inBounds_nil
  | succ fuel ih =>
      unfold heapifyUpIndices heapParentIdx heapSwapIndices
      dsimp only
      split_ifs
      · simp [InBounds]
        omega
      · have hrest := ih (heapSwap tree idx (idx / 2)) (show idx / 2 < 512 by omega)
        rw [inBounds_append, inBounds_append]
        refine ⟨?_, ?_, hrest⟩ <;> simp [InBounds] <;> omega
      · exact inBounds_nil

theorem getHeapRoot_inBounds (s : TimerCpu) : InBounds 512 s.getHeapRootIndices := by
  unfold getHeapRootIndices
  split <;> simp [InBounds]

theorem heapAddTimer_returns (hroom : s.insertionIdx < s.capacity) (p : ℕ) :
    ∃ tree, s.heapAddTimer p =
      some ({ s with flattenedTree := tree, insertionIdx := s.insertionIdx + 1 }, .success) := by
  obtain ⟨tree, hcall⟩ := heapifyUp_returns s.deadline
    (Function.update s.flattenedTree s.insertionIdx p) (Nat.lt_add_one s.insertionIdx)
  refine ⟨tree, ?_⟩
  rw [heapAddTimer, if_neg (by omega)]
  simp only [hcall, Option.bind_eq_bind, Option.bind_some, Option.pure_def]

/-- `add_timer` returns, with the number of timers within the bounds. -/
theorem addTimer_sized (h : s.Sized) (p : ℕ) : ∃ s' ret, s.addTimer p = some (s', ret) ∧ s'.Sized := by
  have hcap := h.capacity
  have hpos := h.pos
  rcases Nat.lt_or_ge s.insertionIdx s.capacity with hroom | hfull
  · obtain ⟨tree, hcall⟩ := heapAddTimer_returns hroom p
    set s₁ : TimerCpu := { s with flattenedTree := tree, insertionIdx := s.insertionIdx + 1 } with hs₁
    have hget : s₁.getHeapRoot = some (tree 1) := getHeapRoot_eq_some.mpr ⟨by simp [hs₁]; omega, rfl⟩
    have hsized : ∀ hw, Sized { s₁ with hwDeadline := hw } := fun hw =>
      ⟨hcap, by simp [hs₁], by simp [hs₁]; omega⟩
    simp only [addTimer, hcall, Option.bind_eq_bind, Option.bind_some, ne_eq, not_true_eq_false,
      if_false, hget, archReprogramTimer, Option.pure_def]
    split
    · exact ⟨_, _, rfl, hsized _⟩
    · exact ⟨_, _, rfl, hsized s₁.hwDeadline⟩
  · exact ⟨s, .error, addTimer_full hfull p, h⟩

theorem addTimer_inBounds (h : s.Sized) (p : ℕ) : InBounds 512 (s.addTimerIndices p) := by
  have hcap := h.capacity
  have hpos := h.pos
  rw [addTimerIndices, inBounds_append]
  constructor
  · rw [heapAddTimerIndices]
    split
    · exact inBounds_nil
    · rename_i hroom
      have hup := heapifyUp_inBounds s.deadline (s.insertionIdx + 1)
        (Function.update s.flattenedTree s.insertionIdx p) (show s.insertionIdx < 512 by omega)
      intro i hi
      rcases List.mem_cons.mp hi with rfl | hi
      · omega
      · exact hup i hi
  · split
    · exact getHeapRoot_inBounds _
    · exact inBounds_nil

/-! ### Moving down -/

/-- The place is in the heap without its last timer, and its timer is earlier than the last one and
than its sibling: a last timer above the place would go to it. -/
def GivesWay (s : TimerCpu) (q : ℕ) : Prop :=
  q < s.heapMaxIdx ∧ s.deadline (s.flattenedTree q) < s.deadline (s.flattenedTree s.heapMaxIdx) ∧
    if q % 2 = 0 then
      q + 1 < s.heapMaxIdx → s.deadline (s.flattenedTree q) ≤ s.deadline (s.flattenedTree (q + 1))
    else s.deadline (s.flattenedTree q) < s.deadline (s.flattenedTree (q - 1))

/-- The place and all places above it give way, up to the root. -/
def SinksTo (s : TimerCpu) (q : ℕ) : Prop := 1 ≤ q ∧ ∀ j, 2 ≤ q / 2 ^ j → s.GivesWay (q / 2 ^ j)

/-- One round. -/
def Below (s : TimerCpu) (i q : ℕ) : Prop := 2 ≤ q ∧ q / 2 = i ∧ s.GivesWay q

/-- The array while the last timer is at `idx`: the places behind it are as before. -/
def Sinking (s : TimerCpu) (tree : ℕ → ℕ) (idx : ℕ) : Prop :=
  tree idx = s.flattenedTree s.heapMaxIdx ∧ ∀ q, idx < q → tree q = s.flattenedTree q

theorem sinksTo_step {q : ℕ} (hq : 2 ≤ q) : s.SinksTo q ↔ s.GivesWay q ∧ s.SinksTo (q / 2) := by
  have hdiv : ∀ j, q / 2 / 2 ^ j = q / 2 ^ (j + 1) := fun j => by
    rw [Nat.div_div_eq_div_mul, Nat.pow_succ']
  constructor
  · rintro ⟨h1, h⟩
    refine ⟨by simpa using h 0 (by simpa using hq), by omega, fun j hj => ?_⟩
    rw [hdiv] at hj ⊢
    exact h (j + 1) hj
  · rintro ⟨hgives, -, h⟩
    refine ⟨by omega, fun j hj => ?_⟩
    cases j with
    | zero => simpa using hgives
    | succ j =>
        rw [← hdiv] at hj ⊢
        exact h j hj

theorem sinksTo_one (s : TimerCpu) : s.SinksTo 1 := by
  refine ⟨le_rfl, fun j hj => ?_⟩
  have hle : 1 / 2 ^ j ≤ 1 := Nat.div_le_self 1 _
  omega

/-- The places that the last timer goes to, as the rounds go through them. -/
theorem sinksTo_iff (q : ℕ) : s.SinksTo q ↔ Relation.ReflTransGen s.Below 1 q := by
  induction q using Nat.strong_induction_on with
  | _ q ih =>
      rw [Relation.ReflTransGen.cases_tail_iff]
      rcases Nat.lt_or_ge q 2 with hlt | hge
      · constructor
        · rintro ⟨h1, -⟩
          exact Or.inl (by omega)
        · rintro (rfl | ⟨b, -, h2, -⟩)
          · exact sinksTo_one s
          · omega
      · rw [sinksTo_step hge, ih (q / 2) (by omega)]
        constructor
        · rintro ⟨hgives, hpath⟩
          exact Or.inr ⟨q / 2, hpath, hge, rfl, hgives⟩
        · rintro (rfl | ⟨b, hpath, -, rfl, hgives⟩)
          · omega
          · exact ⟨hgives, hpath⟩

theorem pickLargest_eq_iff (h : s.Sinking tree idx) (h1 : 1 ≤ idx) {q : ℕ} (hq : q / 2 = idx) :
    pickLargest s.deadline (s.insertionIdx - 2) tree idx = q ↔ s.GivesWay q := by
  have hleft := h.2 (idx * 2) (by omega)
  have hright := h.2 (idx * 2 + 1) (by omega)
  have hlast := h.1
  have hlt : ∀ i, 2 ≤ i → (i ≤ s.insertionIdx - 2 ↔ i < s.heapMaxIdx) := fun i hi => by
    unfold heapMaxIdx
    omega
  simp only [pickLargest, heapLeftIdx, heapRightIdx, hlt (idx * 2) (by omega),
    hlt (idx * 2 + 1) (by omega)]
  by_cases hl : idx * 2 < s.heapMaxIdx ∧ s.deadline (tree (idx * 2)) < s.deadline (tree idx)
  · simp only [if_pos hl]
    rw [hleft, hlast] at hl
    rw [hleft, hright]
    obtain rfl | rfl : q = idx * 2 ∨ q = idx * 2 + 1 := by omega
    · unfold GivesWay
      rw [if_pos (show idx * 2 % 2 = 0 by omega)]
      split <;> constructor <;> intro _ <;> omega
    · unfold GivesWay
      rw [if_neg (show ¬ (idx * 2 + 1) % 2 = 0 by omega), Nat.add_sub_cancel]
      split <;> constructor <;> intro _ <;> omega
  · simp only [if_neg hl]
    rw [hleft, hlast] at hl
    rw [hright, hlast]
    obtain rfl | rfl : q = idx * 2 ∨ q = idx * 2 + 1 := by omega
    · unfold GivesWay
      rw [if_pos (show idx * 2 % 2 = 0 by omega)]
      split <;> constructor <;> intro _ <;> omega
    · unfold GivesWay
      rw [if_neg (show ¬ (idx * 2 + 1) % 2 = 0 by omega), Nat.add_sub_cancel]
      split <;> constructor <;> intro _ <;> omega

theorem Sinking.swap (h : s.Sinking tree idx) {q : ℕ} (hq : idx < q) :
    s.Sinking (heapSwap tree idx q) q := by
  constructor
  · rw [heapSwap, swap_apply, if_pos rfl, h.1]
  · intro r hr
    rw [heapSwap, swap_apply, if_neg (by omega), if_neg (by omega), h.2 r (by omega)]

theorem heapifyDown_returns (deadline tree : ℕ → ℕ) (hfuel : n + 2 ≤ fuel + idx) (h1 : 1 ≤ idx)
    (hidx : idx ≤ n + 1) : ∃ tree', heapifyDown deadline n fuel tree idx = some tree' := by
  induction fuel generalizing idx tree with
  | zero => omega
  | succ fuel ih =>
      unfold heapifyDown
      rcases pickLargest_spec deadline n tree h1 with ⟨hpick, -⟩ | ⟨m, hpick, hne, hm, hmn, -⟩
      · exact ⟨tree, by simp only [hpick, if_true]⟩
      · simp only [hpick, if_neg hne]
        exact ih _ (by omega) (by omega) (by omega)

/-- The children of every place that the last timer goes to are loaded. -/
theorem left_mem_heapifyDownIndices (h : s.Sinking tree idx) (h1 : 1 ≤ idx)
    (hfuel : s.insertionIdx ≤ fuel + idx) (hidx : idx < s.insertionIdx)
    (hpath : Relation.ReflTransGen s.Below idx p) :
    heapLeftIdx p ∈ heapifyDownIndices s.deadline (s.insertionIdx - 2) fuel tree idx := by
  induction hpath using Relation.ReflTransGen.head_induction_on generalizing tree fuel with
  | refl =>
      obtain ⟨fuel, rfl⟩ := Nat.exists_eq_add_one_of_ne_zero (show fuel ≠ 0 by omega)
      exact List.mem_append_left _ (List.mem_cons_self ..)
  | @head idx q hbelow _ ih =>
      obtain ⟨h2, hq, hgives⟩ := hbelow
      obtain ⟨fuel, rfl⟩ := Nat.exists_eq_add_one_of_ne_zero (show fuel ≠ 0 by omega)
      have hpick := (pickLargest_eq_iff h h1 hq).mpr hgives
      have hlt : q < s.insertionIdx := hgives.1.trans_le (Nat.sub_le ..)
      rw [heapifyDownIndices]
      simp only [hpick, if_neg (show q ≠ idx by omega)]
      have hrest := ih (h.swap (show idx < q by omega)) (by omega) (show s.insertionIdx ≤ fuel + q by omega)
        hlt
      exact List.mem_append_right _ (List.mem_append_right _ hrest)

/-- All indices are in bounds when the last timer stays above the last level. -/
theorem heapifyDown_inBounds (h : s.Sinking tree idx) (h1 : 1 ≤ idx)
    (hpath : ∀ q, Relation.ReflTransGen s.Below idx q → q < 256) (fuel : ℕ) :
    InBounds 512 (heapifyDownIndices s.deadline (s.insertionIdx - 2) fuel tree idx) := by
  induction fuel generalizing tree idx with
  | zero => exact inBounds_nil
  | succ fuel ih =>
      have hidx := hpath idx .refl
      have hloads : InBounds 512 [heapLeftIdx idx, heapRightIdx idx, idx] := by
        simp [InBounds, heapLeftIdx, heapRightIdx]
        omega
      rw [heapifyDownIndices]
      refine inBounds_append.mpr ⟨hloads, ?_⟩
      rcases pickLargest_spec s.deadline (s.insertionIdx - 2) tree h1 with
        ⟨hpick, -⟩ | ⟨q, hpick, hne, hq, -⟩
      · rw [if_pos hpick]
        exact inBounds_nil
      · have hbelow : s.Below idx q := ⟨by omega, hq, (pickLargest_eq_iff h h1 hq).mp hpick⟩
        have hqidx := hpath q (.single hbelow)
        rw [hpick, if_neg hne, inBounds_append]
        refine ⟨?_, ih (h.swap (by omega)) (by omega) fun r hr => hpath r (.head hbelow hr)⟩
        simp [InBounds, heapSwapIndices]
        omega

/-- No place of the last level is one that the last timer goes to. -/
def Shallow (s : TimerCpu) : Prop := ∀ q, s.SinksTo q → q < 256

theorem deleteRoot_inBounds_iff (h : s.Sized) : InBounds 512 s.deleteRootIndices ↔ s.Shallow := by
  have hle := h.le
  have hpos := h.pos
  rw [deleteRootIndices, deleteHeapElementIndices]
  split
  · rename_i hempty
    refine iff_of_true inBounds_nil fun q hq => ?_
    by_contra hge
    obtain ⟨hgives, -⟩ := (sinksTo_step (by omega)).mp hq
    have hlt := hgives.1
    unfold heapMaxIdx at hlt
    unfold heapRootIndex at hempty
    omega
  · rename_i hlt
    unfold heapRootIndex at hlt
    have hsink : s.Sinking (Function.update s.flattenedTree 1 (s.flattenedTree s.heapMaxIdx)) 1 :=
      ⟨Function.update_self .., fun q hq => Function.update_of_ne (by omega) _ _⟩
    have hfuel : s.insertionIdx - 1 + 1 = s.insertionIdx := by omega
    have hends : InBounds 512 [s.heapMaxIdx, heapRootIndex] := by
      simp [InBounds, heapMaxIdx]
      omega
    have hmax : s.insertionIdx - 1 - 1 = s.insertionIdx - 2 := by omega
    simp only [heapMaxIdx, hfuel, hmax] at hends hsink ⊢
    rw [inBounds_append]
    constructor
    · rintro ⟨-, hin⟩ q hq
      have hmem := left_mem_heapifyDownIndices hsink le_rfl (Nat.le_add_right s.insertionIdx 1) (by omega)
        ((sinksTo_iff q).mp hq)
      have hlt512 := (hin _ hmem).2
      unfold heapLeftIdx at hlt512
      omega
    · intro hshallow
      exact ⟨hends, heapifyDown_inBounds hsink le_rfl
        (fun q hq => hshallow q ((sinksTo_iff q).mpr hq)) _⟩

/-- `delete_root` returns, with the number of timers within the bounds. -/
theorem deleteRoot_sized (h : s.Sized) : ∃ s', s.deleteRoot = some s' ∧ s'.Sized := by
  have hle := h.le
  rcases Nat.lt_or_ge 1 s.insertionIdx with hlt | hempty
  · obtain ⟨tree, hcall⟩ := heapifyDown_returns s.deadline
      (Function.update s.flattenedTree 1 (s.flattenedTree s.heapMaxIdx))
      (show s.insertionIdx - 2 + 2 ≤ s.insertionIdx + 1 by omega) le_rfl (Nat.le_add_left ..)
    refine ⟨{ s with flattenedTree := tree, insertionIdx := s.insertionIdx - 1 }, ?_, h.capacity, ?_, ?_⟩
    · rw [deleteRoot, deleteHeapElement_eq hlt, hcall]
      rfl
    · simp
      omega
    · simp
      omega
  · exact ⟨s, by rw [deleteRoot, deleteHeapElement, if_pos hempty], h⟩

/-! ### The handler -/

theorem runCmd_sized (h : s.Sized) (c : Cmd) : ∃ s', s.runCmd c = some s' ∧ s'.Sized := by
  cases c with
  | init timer val => exact ⟨_, rfl, h.capacity, h.pos, h.le⟩
  | add timer =>
      obtain ⟨s', ret, hcall, hsized⟩ := addTimer_sized h timer
      simp only [runCmd, hcall, Option.bind_eq_bind, Option.bind_some, Option.pure_def]
      split
      · exact ⟨_, rfl, hsized.capacity, hsized.pos, hsized.le⟩
      · exact ⟨_, rfl, hsized⟩

theorem runCmds_sized (h : s.Sized) (cs : List Cmd) :
    InBounds 512 (s.runCmdsIndices cs) ∧ ∃ s', cs.foldlM runCmd s = some s' ∧ s'.Sized := by
  induction cs generalizing s with
  | nil => exact ⟨inBounds_nil, s, rfl, h⟩
  | cons c cs ih =>
      obtain ⟨s₁, hcall, hsized⟩ := runCmd_sized h c
      obtain ⟨hin, s', hrest, hsized'⟩ := ih hsized
      rw [runCmdsIndices, inBounds_append, hcall, List.foldlM_cons, hcall]
      refine ⟨⟨?_, hin⟩, s', hrest, hsized'⟩
      cases c with
      | init timer val => exact inBounds_nil
      | add timer => exact addTimer_inBounds h timer

theorem timerAction_sized (h : s.Sized) (act : Actions) (now timer : ℕ) :
    ∃ s', s.timerAction act now timer = some s' ∧ s'.Sized :=
  (runCmds_sized (s := { s with invoked := s.invoked ++ [(timer, s.timers timer)] })
    ⟨h.capacity, h.pos, h.le⟩ (act now timer s)).2

theorem setTimer_sized (h : s.Sized) (timer : ℕ) (val : Timer) : (s.setTimer timer val).Sized :=
  ⟨h.capacity, h.pos, h.le⟩

/-- A round returns; its indices are in bounds if those of its deletion are. -/
theorem expire_sized (h : s.Sized) (act : Actions) (now earliest : ℕ) :
    ∃ s₁ s', s.timerAction act now earliest = some s₁ ∧ s.expire act now earliest = some s' ∧ s'.Sized ∧
      (InBounds 512 (s.expireIndices act now earliest) ↔ s₁.Shallow) := by
  have hcmds := runCmds_sized (s := { s with invoked := s.invoked ++ [(earliest, s.timers earliest)] })
    ⟨h.capacity, h.pos, h.le⟩ (act now earliest s)
  obtain ⟨s₁, haction, hsized₁⟩ := timerAction_sized h act now earliest
  obtain ⟨s₂, hdelete, hsized₂⟩ := deleteRoot_sized hsized₁
  have hindices : InBounds 512 (s.expireIndices act now earliest) ↔ s₁.Shallow := by
    rw [expireIndices, inBounds_append, haction, Option.elim_some, inBounds_append, hdelete,
      Option.elim_some, ← deleteRoot_inBounds_iff hsized₁]
    refine ⟨fun hin => hin.2.1, fun hin => ⟨hcmds.1, hin, ?_⟩⟩
    split
    · exact addTimer_inBounds (setTimer_sized hsized₂ _ _) earliest
    · exact inBounds_nil
  obtain ⟨s₃, ret, hadd, hsized₃⟩ :=
    addTimer_sized (setTimer_sized hsized₂ earliest (s₂.timers earliest).advanced) earliest
  by_cases hperiodic : (s₂.timers earliest).type = .periodic
  · refine ⟨s₁, s₃, haction, ?_, hsized₃, hindices⟩
    simp only [expire, haction, hdelete, Option.bind_eq_bind, Option.bind_some, if_pos hperiodic, hadd,
      Option.pure_def]
  · refine ⟨s₁, s₂, haction, ?_, hsized₂, hindices⟩
    simp only [expire, haction, hdelete, Option.bind_eq_bind, Option.bind_some, if_neg hperiodic,
      Option.pure_def]

/-- The states in which the loop of `irq_timer_handler` calls `delete_root`. -/
def handlerLoopDeletions (act : Actions) (now : ℕ) : List ℕ → TimerCpu → List TimerCpu
  | [], _ => []
  | tsc :: tscs, s =>
      s.getHeapRoot.elim [] fun earliest =>
        if tsc < s.deadline earliest then []
        else (s.timerAction act now earliest).toList ++
          (s.expire act now earliest).elim [] (handlerLoopDeletions act now tscs)

/-- The states in which `irq_timer_handler` calls `delete_root`. -/
def irqTimerHandlerDeletions (act : Actions) (tscs : List ℕ) (s : TimerCpu) : List TimerCpu :=
  match tscs with
  | [] => []
  | now :: tscs => s.handlerLoopDeletions act now tscs

theorem handlerLoop_inBounds_iff (h : s.Sized) (act : Actions) (now : ℕ) (tscs : List ℕ) :
    InBounds 512 (s.handlerLoopIndices act now tscs) ↔
      ∀ t ∈ s.handlerLoopDeletions act now tscs, t.Shallow := by
  induction tscs generalizing s with
  | nil => exact iff_of_true (getHeapRoot_inBounds s) fun _ ht => absurd ht List.not_mem_nil
  | cons tsc tscs ih =>
      rw [handlerLoopIndices, handlerLoopDeletions, inBounds_append]
      refine (and_iff_right (getHeapRoot_inBounds s)).trans ?_
      cases hroot : s.getHeapRoot with
      | none => exact iff_of_true inBounds_nil fun _ ht => absurd ht List.not_mem_nil
      | some earliest =>
          rw [Option.elim_some, Option.elim_some]
          split
          · exact iff_of_true inBounds_nil fun _ ht => absurd ht List.not_mem_nil
          · obtain ⟨s₁, s', haction, hexpire, hsized, hindices⟩ := expire_sized h act now earliest
            rw [haction, hexpire, Option.elim_some, Option.elim_some, inBounds_append, hindices, ih hsized,
              Option.toList_some, List.singleton_append, List.forall_mem_cons]

/-- A heap without places on the last level, or with one timer there. -/
theorem shallow_of_le (h : s.heapMaxIdx ≤ 256) : s.Shallow := by
  intro q hq
  by_contra hge
  obtain ⟨hgives, -⟩ := (sinksTo_step (by omega)).mp hq
  have hlt := hgives.1
  omega

/-- **When the indices are in bounds**: `add_timer` uses entries of the array only, and `delete_root` does
unless the last timer goes to a place of the last level, whose children are not in the array.  So does the
handler, which deletes as often as a timer expires. -/
theorem heap_indices_iff (h : s.Sized) :
    (∀ p, (∃ s' ret, s.addTimer p = some (s', ret) ∧ s'.Sized) ∧
      InBounds s.capacity (s.addTimerIndices p)) ∧
    (∃ s', s.deleteRoot = some s' ∧ s'.Sized) ∧
    (InBounds s.capacity s.deleteRootIndices ↔ s.Shallow) ∧
    ∀ act tscs, InBounds s.capacity (s.irqTimerHandlerIndices act tscs) ↔
      ∀ t ∈ s.irqTimerHandlerDeletions act tscs, t.Shallow := by
  rw [h.capacity]
  refine ⟨fun p => ⟨addTimer_sized h p, addTimer_inBounds h p⟩, deleteRoot_sized h,
    deleteRoot_inBounds_iff h, fun act tscs => ?_⟩
  cases tscs with
  | nil => exact iff_of_true inBounds_nil fun _ ht => absurd ht List.not_mem_nil
  | cons now tscs => exact handlerLoop_inBounds_iff h act now tscs

/-- A heap of `n` timers with the deadlines from 1 to `n`. -/
def growing (n : ℕ) : TimerCpu where
  timers p := ⟨p, 0, .oneshot⟩
  flattenedTree i := i
  capacity := 512
  insertionIdx := n + 1
  hwDeadline := none
  accepted := []
  invoked := []

theorem growing_heapOk (hn : n ≤ 511) : (growing n).HeapOk :=
  ⟨rfl, Nat.le_add_left 1 n, Nat.succ_le_succ hn, fun i _ _ => Nat.div_le_self i 2⟩

theorem heap_indices_256_timers :
    (growing 256).Sized ∧ InBounds 512 (growing 256).deleteRootIndices :=
  have h := (growing_heapOk (show 256 ≤ 511 by norm_num)).sized
  ⟨h, (heap_indices_iff h).2.2.1.mpr (shallow_of_le le_rfl)⟩

/-- With one timer more the last timer goes to the place 256, and the entry 512 is loaded. -/
theorem heap_indices_257_timers :
    (growing 257).HeapOk ∧ (growing 257).pending.card ≤ 511 ∧
      ¬ InBounds (growing 257).capacity (growing 257).deleteRootIndices := by
  have hok := growing_heapOk (show 257 ≤ 511 by norm_num)
  refine ⟨hok, by rw [card_pending]; decide, fun hin => ?_⟩
  have hsinks : (growing 257).SinksTo 256 := by
    refine ⟨by norm_num, fun j hj => ?_⟩
    have hj7 : j < 8 := by
      by_contra hge
      have hpow : 2 ^ 8 ≤ 2 ^ j := Nat.pow_le_pow_right (by norm_num) (by omega)
      have hdiv : 256 / 2 ^ j ≤ 1 := Nat.div_le_of_le_mul (by omega)
      omega
    interval_cases j <;> exact ⟨by decide, by decide, by decide⟩
  exact absurd ((deleteRoot_inBounds_iff hok.sized).mp hin 256 hsinks) (by norm_num)

end HyveMind.TimerCpu
