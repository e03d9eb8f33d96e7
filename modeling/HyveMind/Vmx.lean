import HyveMind.PfAllocRun

/-! # Ownership of VMCS areas

The part of `arch/x64/vmx/vmx.c` that makes vCPUs current on a CPU and clears them again.  The
software keeps track of the processor: `active_cpu` of a vCPU is the CPU on which its VMCS is active,
that is, was loaded by `vmptrld` and not yet written back by `vmclear`.  `Vmx.active` is that hidden
state of the processors.

A vCPU is there from `allocate_vcpu`, which calls `vmx_vcpu_allocate`, to `destroy_vcpu`, which calls
`vmx_destroy_vcpu`; the other functions are called in between.

`vmcs_owned` says that the records stay true as long as no `vmptrld` fails for a VMCS that is active on
that CPU already: `vmx_make_vcpu_current` then forgets that it is. -/

namespace HyveMind

open Lib PfAlloc

/-- `enum vmcs_launch_state`. -/
inductive VmcsLaunchState
  | clear
  | launched
deriving DecidableEq, Repr

/-- The fields of `struct vmx_vcpu_state` that say where a VMCS is.  `none` is `INVALID_CPUID`. -/
structure VmxVcpuState where
  vmcsPtr : ℕ
  activeCpu : Option ℕ
  launchState : VmcsLaunchState
deriving DecidableEq, Repr

/-- The page-frame allocator, the vCPUs and which of them exist, the per-CPU variable `curr_vcpu`, the
VMCS areas that are active on each CPU, and the CPUs that have died. -/
structure Vmx where
  alloc : PfAlloc
  vcpus : ℕ → VmxVcpuState
  live : ℕ → Bool
  currVcpu : ℕ → Option ℕ
  active : ℕ → ℕ → Bool
  dead : ℕ → Bool

/-- Why a function does not return: it dies, or the page-frame allocator reads outside of its bitmap. -/
inductive VmxFault
  | die
  | pfAlloc
deriving DecidableEq, Repr

namespace Vmx

/-! ### The processor -/

/-- `vmclear`, which succeeds. -/
def vmclear (s : Vmx) (cpu vmcsPtr : ℕ) : Vmx :=
  { s with active := Function.update s.active cpu (Function.update (s.active cpu) vmcsPtr false) }

/-- A `vmptrld` that succeeds. -/
def vmptrld (s : Vmx) (cpu vmcsPtr : ℕ) : Vmx :=
  { s with active := Function.update s.active cpu (Function.update (s.active cpu) vmcsPtr true) }

theorem active_vmclear (s : Vmx) (cpu vmcsPtr c p : ℕ) : (s.vmclear cpu vmcsPtr).active c p =
    if c = cpu ∧ p = vmcsPtr then false else s.active c p := by
  simp only [vmclear, Function.update_apply]
  split_ifs <;> simp_all

theorem active_vmptrld (s : Vmx) (cpu vmcsPtr c p : ℕ) : (s.vmptrld cpu vmcsPtr).active c p =
    if c = cpu ∧ p = vmcsPtr then true else s.active c p := by
  simp only [vmptrld, Function.update_apply]
  split_ifs <;> simp_all

/-! ### The functions of `vmx.c` on the CPU `cpu` -/

/-- An assignment to fields of a vCPU. -/
def setVcpu (s : Vmx) (vcpu : ℕ) (x : VmxVcpuState) : Vmx :=
  { s with vcpus := Function.update s.vcpus vcpu x }

/-- `set_percpu_val(curr_vcpu, …)`. -/
def setCurrVcpu (s : Vmx) (cpu : ℕ) (vcpu : Option ℕ) : Vmx :=
  { s with currVcpu := Function.update s.currVcpu cpu vcpu }

/-- `__vmx_clear_vcpu`. -/
def vmxClearVcpuImpl (s : Vmx) (cpu vcpu : ℕ) : Vmx :=
  let x := s.vcpus vcpu
  if x.activeCpu ≠ some cpu then s
  else
    let s := s.vmclear cpu x.vmcsPtr
    let s := s.setVcpu vcpu { x with activeCpu := none, launchState := .clear }
    if s.currVcpu cpu = some vcpu then s.setCurrVcpu cpu none else s

/-- `vmx_clear_vcpu`. -/
def vmxClearVcpu (s : Vmx) (cpu vcpu : ℕ) : Except VmxFault Vmx :=
  if (s.vcpus vcpu).activeCpu = none then .ok s
  else if (s.vcpus vcpu).activeCpu = some cpu then .ok (s.vmxClearVcpuImpl cpu vcpu)
  else .error .die

/-- `vmx_load_vcpu`; `res` is the result of `vmptrld`. -/
def vmxLoadVcpu (s : Vmx) (cpu vcpu : ℕ) (res : ℤ) : Vmx × ℤ :=
  if res ≠ 0 then (s, res)
  else
    let s := s.vmptrld cpu (s.vcpus vcpu).vmcsPtr
    (s.setVcpu vcpu { s.vcpus vcpu with activeCpu := some cpu }, 0)

/-- `vmx_make_vcpu_current`; `res` is the result of `vmptrld`. -/
def vmxMakeVcpuCurrent (s : Vmx) (cpu vcpu : ℕ) (res : ℤ) : Except VmxFault (Vmx × ℤ) :=
  if s.currVcpu cpu = some vcpu then .ok (s, 0)
  else do
    let s :=
      if (s.vcpus vcpu).activeCpu = none then
        s.setVcpu vcpu { s.vcpus vcpu with activeCpu := some cpu }
      else s
    let s ← if (s.vcpus vcpu).activeCpu ≠ some cpu then s.vmxClearVcpu cpu vcpu else .ok s
    let (s, res) := s.vmxLoadVcpu cpu vcpu res
    if res ≠ 0 then .ok (s.setVcpu vcpu { s.vcpus vcpu with activeCpu := none }, res)
    else .ok (s.setCurrVcpu cpu (some vcpu), 0)

/-- `free_page_raw`. -/
def freePageRaw (s : Vmx) (addr : ℕ) : Except VmxFault Vmx :=
  match s.alloc.freePageRaw addr with
  | none => .error .pfAlloc
  | some a => .ok { s with alloc := a }

/-- `vmx_destroy_vcpu`. -/
def vmxDestroyVcpu (s : Vmx) (cpu vcpu : ℕ) : Except VmxFault Vmx := do
  let s ← s.vmxClearVcpu cpu vcpu
  let s ← s.freePageRaw (s.vcpus vcpu).vmcsPtr
  return s.setVcpu vcpu { s.vcpus vcpu with vmcsPtr := 0 }

/-- `create_new_vmcs_area`: the address of the area, `0` for a failure. -/
def createNewVmcsArea (s : Vmx) : Except VmxFault (Vmx × ℕ) :=
  match s.alloc.getPages 1 with
  | none => .error .pfAlloc
  | some (a, none) => .ok ({ s with alloc := a }, 0)
  | some (a, some vaddr) => .ok ({ s with alloc := a }, virtToPhys vaddr)

/-- `vmx_vcpu_allocate`; `true` for the result `0`. -/
def vmxVcpuAllocate (s : Vmx) (cpu vcpu : ℕ) : Except VmxFault (Vmx × Bool) := do
  let (s, vmcsPtr) ← s.createNewVmcsArea
  if vmcsPtr = 0 then return (s, false)
  else
    let s := s.vmclear cpu vmcsPtr
    return (s.setVcpu vcpu ⟨vmcsPtr, none, .clear⟩, true)

/-! ### Steps -/

/-- An operation on the CPU `cpu`. -/
inductive Op
  | makeCurrent (vcpu : ℕ) (res : ℤ)
  | clear (vcpu : ℕ)
  | allocate (vcpu : ℕ)
  | destroy (vcpu : ℕ)

/-- The state after a function has returned or died. -/
def finish (s : Vmx) (cpu : ℕ) : Except VmxFault Vmx → Option Vmx
  | .ok s' => some s'
  | .error .die => some { s with dead := Function.update s.dead cpu true }
  | .error .pfAlloc => none

/-- The vCPU exists, or exists no longer. -/
def setLive (s : Vmx) (vcpu : ℕ) (b : Bool) : Vmx :=
  { s with live := Function.update s.live vcpu b }

/-- One operation of a CPU that has not died.  A vCPU is allocated when it is new, and the other
operations are done on existing vCPUs. -/
def call (s : Vmx) (l : ℕ × Op) : Option Vmx :=
  if s.dead l.1 then none
  else
    match l.2 with
    | .makeCurrent vcpu res =>
        if s.live vcpu then
          s.finish l.1 ((s.vmxMakeVcpuCurrent l.1 vcpu res).map Prod.fst)
        else none
    | .clear vcpu =>
        if s.live vcpu then s.finish l.1 (s.vmxClearVcpu l.1 vcpu) else none
    | .allocate vcpu =>
        if s.live vcpu then none
        else s.finish l.1 ((s.vmxVcpuAllocate l.1 vcpu).map fun r =>
          if r.2 then r.1.setLive vcpu true else r.1)
    | .destroy vcpu =>
        if s.live vcpu then
          s.finish l.1 ((s.vmxDestroyVcpu l.1 vcpu).map fun s => s.setLive vcpu false)
        else none

/-- The steps of the system. -/
def Step (s : Vmx) (l : ℕ × Op) (s' : Vmx) : Prop := s.call l = some s'

/-- No vCPU exists, and nothing is active. -/
def init (a : PfAlloc) : Vmx :=
  ⟨a, fun _ => ⟨0, none, .clear⟩, fun _ => false, fun _ => none, fun _ _ => false, fun _ => false⟩

/-! ### Ownership -/

/-- The records are true: the VMCS of a vCPU is active on its `active_cpu` only and so on one CPU at
most, `curr_vcpu` of a CPU is a vCPU with that `active_cpu`, and the pages of active VMCS areas are in
use. -/
structure Owned (s : Vmx) : Prop where
  activeCpu : ∀ c v, s.live v = true → s.active c (s.vcpus v).vmcsPtr = true →
    (s.vcpus v).activeCpu = some c
  once : ∀ c c' v, s.live v = true → s.active c (s.vcpus v).vmcsPtr = true →
    s.active c' (s.vcpus v).vmcsPtr = true → c = c'
  curr : ∀ c v, s.currVcpu c = some v → s.live v = true ∧ (s.vcpus v).activeCpu = some c
  inUse : ∀ c p, s.active c p = true → bitSet s.alloc.bitmap (p / 4096) = true

/-- A `vmptrld` fails only for a vCPU that is not active on this CPU yet. -/
def LoadOk (s : Vmx) : ℕ × Op → Prop
  | (cpu, .makeCurrent vcpu res) =>
      res = 0 ∨ s.currVcpu cpu = some vcpu ∨ (s.vcpus vcpu).activeCpu ≠ some cpu
  | _ => True

/-- The invariant behind `Owned`: a VMCS area is active on `c` iff it belongs to a vCPU whose
`active_cpu` is `c`. -/
structure Tracked (mm : List LimineMemmapEntry) (md : ℕ × ℕ) (live : List (ℕ × ℕ)) (s : Vmx) :
    Prop where
  alloc : PfAlloc.Inv mm md s.alloc live
  page : ∀ v, s.live v = true → ∃ q, (s.vcpus v).vmcsPtr = q * 4096 ∧ (q, 1) ∈ live
  inj : ∀ v w, s.live v = true → s.live w = true → (s.vcpus v).vmcsPtr = (s.vcpus w).vmcsPtr → v = w
  active : ∀ c p, s.active c p = true ↔
    ∃ v, s.live v = true ∧ (s.vcpus v).vmcsPtr = p ∧ (s.vcpus v).activeCpu = some c
  curr : ∀ c v, s.currVcpu c = some v → s.live v = true ∧ (s.vcpus v).activeCpu = some c

section Tracked

variable {mm : List LimineMemmapEntry} {md : ℕ × ℕ} {live : List (ℕ × ℕ)} {s s' : Vmx}

theorem Tracked.owned (h : Tracked mm md live s) : Owned s where
  activeCpu := by
    intro c v hv hc
    obtain ⟨w, hw, hptr, hcpu⟩ := (h.active c _).mp hc
    rwa [h.inj v w hv hw hptr.symm]
  once := by
    intro c c' v hv hc hc'
    obtain ⟨w, hw, hptr, hcpu⟩ := (h.active c _).mp hc
    obtain ⟨w', hw', hptr', hcpu'⟩ := (h.active c' _).mp hc'
    obtain rfl := h.inj w w' hw hw' (hptr.trans hptr'.symm)
    exact Option.some.inj (hcpu.symm.trans hcpu')
  curr := h.curr
  inUse := by
    intro c p hc
    obtain ⟨v, hv, rfl, -⟩ := (h.active c p).mp hc
    obtain ⟨q, hq, hmem⟩ := h.page v hv
    rw [hq, Nat.mul_div_cancel _ (by norm_num), ← Bool.not_eq_false, h.alloc.bits]
    rintro ⟨-, -, hnot⟩
    exact hnot _ hmem (mem_frames.mpr ⟨le_refl q, Nat.lt_succ_self q⟩)

theorem Tracked.finish (h : Tracked mm md live s) {c : ℕ} {e : VmxFault}
    (hfin : s.finish c (.error e) = some s') : Tracked mm md live s' := by
  cases e with
  | die =>
      obtain rfl := Option.some.inj hfin
      exact ⟨h.alloc, h.page, h.inj, h.active, h.curr⟩
  | pfAlloc => cases hfin

/-- The vCPU `v`, which is active on `c` or nowhere, becomes active on `c` (`b`) or inactive. -/
theorem Tracked.retarget (h : Tracked mm md live s) {c v : ℕ} {b : Bool} (hv : s.live v = true)
    (hfrom : (s.vcpus v).activeCpu = none ∨ (s.vcpus v).activeCpu = some c)
    (halloc : s'.alloc = s.alloc) (hlive : s'.live = s.live)
    (hptr : ∀ w, (s'.vcpus w).vmcsPtr = (s.vcpus w).vmcsPtr)
    (hcpu : ∀ w, (s'.vcpus w).activeCpu =
      if w = v then (if b then some c else none) else (s.vcpus w).activeCpu)
    (hact : ∀ c' p, s'.active c' p =
      if c' = c ∧ p = (s.vcpus v).vmcsPtr then b else s.active c' p)
    (hcurr : ∀ c' w, s'.currVcpu c' = some w → (c' = c ∧ w = v ∧ b = true) ∨
      (s.currVcpu c' = some w ∧ ¬ (c' = c ∧ w = v ∧ b = false))) : Tracked mm md live s' where
  alloc := halloc ▸ h.alloc
  page := by
    intro w hw
    rw [hptr]
    exact h.page w (hlive ▸ hw)
  inj := by
    intro w w' hw hw' heq
    rw [hptr, hptr] at heq
    exact h.inj w w' (hlive ▸ hw) (hlive ▸ hw') heq
  active := by
    intro c' p
    rw [hact, hlive]
    simp only [hptr, hcpu]
    by_cases hp : p = (s.vcpus v).vmcsPtr
    · subst hp
      have hother : ∀ w, s.live w = true → (s.vcpus w).vmcsPtr = (s.vcpus v).vmcsPtr → w = v :=
        fun w hw heq => h.inj w v hw hv heq
      have hold := h.active c' (s.vcpus v).vmcsPtr
      constructor
      · intro hact'
        refine ⟨v, hv, rfl, ?_⟩
        rw [if_pos rfl]
        split_ifs at hact' with hc
        · rw [hact', hc.1, if_pos rfl]
        · obtain ⟨w, hw, heq, hwc⟩ := hold.mp hact'
          obtain rfl := hother w hw heq
          rcases hfrom with hnone | hsome
          · rw [hnone] at hwc
            cases hwc
          · exact absurd ⟨Option.some.inj (hwc.symm.trans hsome), rfl⟩ hc
      · rintro ⟨w, hw, heq, hwc⟩
        obtain rfl := hother w hw heq
        rw [if_pos rfl] at hwc
        cases b with
        | false => cases hwc
        | true => rw [if_pos ⟨(Option.some.inj hwc).symm, rfl⟩]
    · rw [if_neg fun hc => hp hc.2, h.active]
      refine exists_congr fun w => and_congr_right fun _ => and_congr_right fun heq => ?_
      rw [if_neg fun hwv => hp (by rw [← heq, hwv])]
  curr := by
    intro c' w hw
    rw [hlive, hcpu]
    rcases hcurr c' w hw with ⟨rfl, rfl, rfl⟩ | ⟨hold, hnot⟩
    · exact ⟨hv, by simp⟩
    · obtain ⟨hlw, hcw⟩ := h.curr c' w hold
      refine ⟨hlw, ?_⟩
      split_ifs with hwv hb
      · subst hwv
        rcases hfrom with hnone | hsome
        · rw [hnone] at hcw
          cases hcw
        · rw [← hsome, hcw]
      · subst hwv
        rcases hfrom with hnone | hsome
        · rw [hnone] at hcw
          cases hcw
        · exact absurd ⟨Option.some.inj (hcw.symm.trans hsome), rfl, by simpa using hb⟩ hnot
      · exact hcw

/-- An assignment to `active_cpu` and `launch_state` of a vCPU. -/
theorem setVcpu_vcpus (s : Vmx) (v : ℕ) (x : VmxVcpuState)
    (hx : x.vmcsPtr = (s.vcpus v).vmcsPtr) (w : ℕ) :
    ((s.setVcpu v x).vcpus w).vmcsPtr = (s.vcpus w).vmcsPtr ∧
      ((s.setVcpu v x).vcpus w).activeCpu =
        if w = v then x.activeCpu else (s.vcpus w).activeCpu := by
  simp only [setVcpu, Function.update_apply]
  split_ifs with hw
  · exact ⟨by rw [hx, hw], rfl⟩
  · exact ⟨rfl, rfl⟩

theorem Tracked.clear (h : Tracked mm md live s) {c v : ℕ} (hv : s.live v = true)
    (hc : (s.vcpus v).activeCpu = some c) : Tracked mm md live (s.vmxClearVcpuImpl c v) := by
  simp only [vmxClearVcpuImpl, hc, ne_eq, not_true_eq_false, if_false]
  have hupd := s.setVcpu_vcpus v ⟨(s.vcpus v).vmcsPtr, none, .clear⟩ rfl
  split_ifs with hcur
  · refine h.retarget (b := false) hv (Or.inr hc) rfl rfl (fun w => (hupd w).1)
      (fun w => (hupd w).2) (active_vmclear s c _) fun c' w hw => Or.inr ?_
    simp only [setCurrVcpu, Function.update_apply] at hw
    split_ifs at hw with hcc
    exact ⟨hw, fun hbad => hcc hbad.1⟩
  · refine h.retarget (b := false) hv (Or.inr hc) rfl rfl (fun w => (hupd w).1)
      (fun w => (hupd w).2) (active_vmclear s c _) fun c' w hw => Or.inr ?_
    refine ⟨hw, ?_⟩
    rintro ⟨rfl, rfl, -⟩
    exact hcur hw

theorem vmxClearVcpu_tracked (h : Tracked mm md live s) {c v : ℕ} (hv : s.live v = true)
    (hcall : s.vmxClearVcpu c v = .ok s') :
    Tracked mm md live s' ∧ s'.live = s.live ∧ (s'.vcpus v).activeCpu = none ∧
      (s'.vcpus v).vmcsPtr = (s.vcpus v).vmcsPtr := by
  unfold vmxClearVcpu at hcall
  split_ifs at hcall with hnone hc
  · obtain rfl := Except.ok.inj hcall
    exact ⟨h, rfl, hnone, rfl⟩
  · obtain rfl := Except.ok.inj hcall
    refine ⟨h.clear hv hc, ?_⟩
    simp only [vmxClearVcpuImpl, hc, ne_eq, not_true_eq_false, if_false]
    split_ifs <;> simp [vmclear, setVcpu, setCurrVcpu]

theorem vmxMakeVcpuCurrent_cases {c v : ℕ} {res ret : ℤ}
    (hcall : s.vmxMakeVcpuCurrent c v res = .ok (s', ret)) :
    (s.currVcpu c = some v ∧ s' = s) ∨
    (((s.vcpus v).activeCpu = none ∨ (s.vcpus v).activeCpu = some c) ∧ s.currVcpu c ≠ some v ∧
      ((res = 0 ∧ s' = ((s.vmptrld c (s.vcpus v).vmcsPtr).setVcpu v
          { s.vcpus v with activeCpu := some c }).setCurrVcpu c (some v)) ∨
        (res ≠ 0 ∧ s' = s.setVcpu v { s.vcpus v with activeCpu := none }))) := by
  unfold vmxMakeVcpuCurrent at hcall
  by_cases hcur : s.currVcpu c = some v
  · rw [if_pos hcur] at hcall
    exact Or.inl ⟨hcur, (Prod.mk.inj (Except.ok.inj hcall)).1.symm⟩
  rw [if_neg hcur] at hcall
  refine Or.inr ?_
  by_cases hnone : (s.vcpus v).activeCpu = none
  · refine ⟨Or.inl hnone, hcur, ?_⟩
    by_cases hres : res = 0
    · refine Or.inl ⟨hres, ?_⟩
      simp [hnone, hres, setVcpu, vmxLoadVcpu, vmptrld, setCurrVcpu, bind, Except.bind] at hcall ⊢
      exact hcall.1.symm
    · refine Or.inr ⟨hres, ?_⟩
      simp [hnone, hres, setVcpu, vmxLoadVcpu, bind, Except.bind] at hcall ⊢
      exact hcall.1.symm
  · by_cases hc : (s.vcpus v).activeCpu = some c
    · refine ⟨Or.inr hc, hcur, ?_⟩
      by_cases hres : res = 0
      · refine Or.inl ⟨hres, ?_⟩
        simp [hc, hres, setVcpu, vmxLoadVcpu, vmptrld, setCurrVcpu, bind, Except.bind] at hcall ⊢
        exact hcall.1.symm
      · refine Or.inr ⟨hres, ?_⟩
        simp [hc, hres, setVcpu, vmxLoadVcpu, bind, Except.bind] at hcall ⊢
        exact hcall.1.symm
    · simp [hnone, hc, vmxClearVcpu, bind, Except.bind] at hcall

theorem Tracked.makeCurrent (h : Tracked mm md live s) {c v : ℕ} {res ret : ℤ} (hv : s.live v = true)
    (hcall : s.vmxMakeVcpuCurrent c v res = .ok (s', ret)) (hok : LoadOk s (c, .makeCurrent v res)) :
    Tracked mm md live s' := by
  rcases vmxMakeVcpuCurrent_cases hcall with ⟨-, rfl⟩ | ⟨hfrom, hcur, ⟨-, rfl⟩ | ⟨hres, rfl⟩⟩
  · exact h
  · have hupd := s.setVcpu_vcpus v { s.vcpus v with activeCpu := some c } rfl
    refine h.retarget (b := true) hv hfrom rfl rfl (fun w => (hupd w).1) (fun w => (hupd w).2)
      (active_vmptrld s c _) fun c' w hw => ?_
    simp only [setCurrVcpu, Function.update_apply] at hw
    split_ifs at hw with hcc
    · exact Or.inl ⟨hcc, (Option.some.inj hw).symm, rfl⟩
    · exact Or.inr ⟨hw, fun hbad => hcc hbad.1⟩
  · have hnone : (s.vcpus v).activeCpu = none := by
      rcases hok with h0 | h0 | h0
      · exact absurd h0 hres
      · exact absurd h0 hcur
      · exact hfrom.resolve_right h0
    have hsame : s.setVcpu v { s.vcpus v with activeCpu := none } = s := by
      rw [← hnone, setVcpu, Function.update_eq_self]
    rwa [hsame]

/-- The allocator changes, and the ranges of the vCPUs stay live. -/
theorem Tracked.withAlloc (h : Tracked mm md live s) {a' : PfAlloc} {live' : List (ℕ × ℕ)}
    (inv : PfAlloc.Inv mm md a' live') (hsub : ∀ r ∈ live, r ∈ live') :
    Tracked mm md live' { s with alloc := a' } where
  alloc := inv
  page := by
    intro v hv
    obtain ⟨q, hq, hmem⟩ := h.page v hv
    exact ⟨q, hq, hsub _ hmem⟩
  inj := h.inj
  active := h.active
  curr := h.curr

theorem Tracked.insert (h : Tracked mm md live s) {c v q : ℕ} (hv : s.live v = false)
    (hmem : (q, 1) ∈ live) (hnew : ∀ w, s.live w = true → (s.vcpus w).vmcsPtr ≠ q * 4096) :
    Tracked mm md live
      (((s.vmclear c (q * 4096)).setVcpu v ⟨q * 4096, none, .clear⟩).setLive v true) := by
  have hne : ∀ {w}, s.live w = true → w ≠ v := by
    rintro w hw rfl
    exact Bool.false_ne_true (hv.symm.trans hw)
  have hsame : s.vmclear c (q * 4096) = s := by
    have hoff : s.active c (q * 4096) = false := by
      rw [← Bool.not_eq_true, h.active]
      rintro ⟨w, hw, hptr, -⟩
      exact hnew w hw hptr
    rw [vmclear, ← hoff, Function.update_eq_self, Function.update_eq_self]
  rw [hsame]
  have hlive : ∀ w, (Function.update s.live v true) w = true ↔ w = v ∨ s.live w = true := by
    intro w
    rw [Function.update_apply]
    split_ifs with hw
    · exact ⟨fun _ => Or.inl hw, fun _ => rfl⟩
    · exact ⟨Or.inr, fun hor => hor.resolve_left hw⟩
  have hold : ∀ {w}, s.live w = true →
      (Function.update s.vcpus v ⟨q * 4096, none, .clear⟩) w = s.vcpus w :=
    fun hw => Function.update_of_ne (hne hw) _ _
  have hself : (Function.update s.vcpus v ⟨q * 4096, none, .clear⟩) v = ⟨q * 4096, none, .clear⟩ :=
    Function.update_self ..
  refine ⟨h.alloc, ?_, ?_, ?_, ?_⟩ <;> simp only [setVcpu, setLive]
  · intro w hw
    rcases (hlive w).mp hw with rfl | hw
    · exact ⟨q, by rw [hself], hmem⟩
    · rw [hold hw]
      exact h.page w hw
  · intro w w' hw hw' heq
    rcases (hlive w).mp hw with rfl | hwl <;> rcases (hlive w').mp hw' with rfl | hwl'
    · rfl
    · rw [hself, hold hwl'] at heq
      exact absurd heq.symm (hnew w' hwl')
    · rw [hself, hold hwl] at heq
      exact absurd heq (hnew w hwl)
    · rw [hold hwl, hold hwl'] at heq
      exact h.inj w w' hwl hwl' heq
  · intro c' p
    rw [h.active]
    constructor
    · rintro ⟨w, hw, hptr, hcpu⟩
      exact ⟨w, (hlive w).mpr (Or.inr hw), by rwa [hold hw], by rwa [hold hw]⟩
    · rintro ⟨w, hw, hptr, hcpu⟩
      rcases (hlive w).mp hw with rfl | hw
      · rw [hself] at hcpu
        cases hcpu
      · exact ⟨w, hw, by rwa [hold hw] at hptr, by rwa [hold hw] at hcpu⟩
  · intro c' w hw
    obtain ⟨hlw, hcpu⟩ := h.curr c' w hw
    exact ⟨(hlive w).mpr (Or.inr hlw), by rwa [hold hlw]⟩

/-- `create_new_vmcs_area` fails, or allocates a free frame. -/
theorem createNewVmcsArea_spec (inv : PfAlloc.Inv mm md s.alloc live) :
    s.createNewVmcsArea = .ok (s, 0) ∨
    ∃ a' q, s.createNewVmcsArea = .ok ({ s with alloc := a' }, q * 4096) ∧
      bitSet s.alloc.bitmap q = false ∧ PfAlloc.Inv mm md a' ((q, 1) :: live) := by
  obtain ⟨a', res, hpages, hnone, hsome⟩ := inv.getPagesImpl 1
  have hget : s.alloc.getPages 1 = some (a', res.map physToVirt) := by
    rw [PfAlloc.getPages, hpages, Option.bind_eq_bind, Option.bind_some, Option.pure_def]
  rw [createNewVmcsArea, hget]
  cases res with
  | none => exact Or.inl (by rw [hnone rfl, Option.map_none])
  | some addr =>
      obtain ⟨q, rfl, hle, hfree, inv'⟩ := hsome addr rfl
      have hsize := inv.size_le
      have hptr : virtToPhys (physToVirt (q * 4096)) = q * 4096 :=
        virtToPhys_physToVirt (by omega)
      refine Or.inr ⟨a', q, ?_, hfree q le_rfl (Nat.lt_succ_self q), inv'⟩
      simp only [Option.map_some, hptr]

theorem Tracked.allocate (h : Tracked mm md live s) {c v : ℕ} (hv : s.live v = false) {r : Vmx × Bool}
    (hcall : s.vmxVcpuAllocate c v = .ok r) :
    ∃ live', Tracked mm md live' (if r.2 then r.1.setLive v true else r.1) := by
  unfold vmxVcpuAllocate at hcall
  rcases createNewVmcsArea_spec h.alloc with hnew | ⟨a', q, hnew, hfree, inv'⟩
  · rw [hnew] at hcall
    obtain rfl := Except.ok.inj hcall
    exact ⟨live, h⟩
  · rw [hnew] at hcall
    simp only [bind, Except.bind] at hcall
    have h' := h.withAlloc inv' fun _ => List.mem_cons_of_mem _
    refine ⟨(q, 1) :: live, ?_⟩
    split_ifs at hcall with hzero
    · obtain rfl := Except.ok.inj hcall
      exact h'
    · obtain rfl := Except.ok.inj hcall
      refine h'.insert hv List.mem_cons_self fun w hw heq => ?_
      obtain ⟨q', hq', hmem⟩ := h.page w hw
      obtain rfl : q' = q := Nat.eq_of_mul_eq_mul_right (by norm_num) (hq'.symm.trans heq)
      exact ((h.alloc.bits q').mp hfree).2.2 _ hmem
        (mem_frames.mpr ⟨le_rfl, Nat.lt_succ_self q'⟩)

/-- A vCPU that is not active ceases to exist, and its page is free again. -/
theorem Tracked.remove (h : Tracked mm md live s) {v q : ℕ} {a' : PfAlloc} {x : VmxVcpuState}
    (hv : s.live v = true) (hnone : (s.vcpus v).activeCpu = none)
    (hq : (s.vcpus v).vmcsPtr = q * 4096) (inv : PfAlloc.Inv mm md a' (live.erase (q, 1))) :
    Tracked mm md (live.erase (q, 1))
      ((Vmx.setVcpu { s with alloc := a' } v x).setLive v false) := by
  have hlive : ∀ w, (Function.update s.live v false) w = true ↔ w ≠ v ∧ s.live w = true := by
    intro w
    rw [Function.update_apply]
    split_ifs with hw
    · exact ⟨False.elim, fun hand => absurd hw hand.1⟩
    · exact ⟨fun hlw => ⟨hw, hlw⟩, fun hand => hand.2⟩
  have hold : ∀ {w}, w ≠ v → (Function.update s.vcpus v x) w = s.vcpus w :=
    fun hw => Function.update_of_ne hw _ _
  refine ⟨inv, ?_, ?_, ?_, ?_⟩ <;> simp only [setVcpu, setLive]
  · intro w hw
    obtain ⟨hne, hlw⟩ := (hlive w).mp hw
    obtain ⟨q', hq', hmem⟩ := h.page w hlw
    rw [hold hne]
    refine ⟨q', hq', (List.mem_erase_of_ne ?_).mpr hmem⟩
    intro heq
    obtain rfl : q' = q := (Prod.mk.inj heq).1
    exact hne (h.inj w v hlw hv (hq'.trans hq.symm))
  · intro w w' hw hw' heq
    obtain ⟨hne, hlw⟩ := (hlive w).mp hw
    obtain ⟨hne', hlw'⟩ := (hlive w').mp hw'
    rw [hold hne, hold hne'] at heq
    exact h.inj w w' hlw hlw' heq
  · intro c' p
    rw [h.active]
    constructor
    · rintro ⟨w, hw, hptr, hcpu⟩
      have hne : w ≠ v := by
        rintro rfl
        rw [hnone] at hcpu
        cases hcpu
      exact ⟨w, (hlive w).mpr ⟨hne, hw⟩, by rwa [hold hne], by rwa [hold hne]⟩
    · rintro ⟨w, hw, hptr, hcpu⟩
      obtain ⟨hne, hlw⟩ := (hlive w).mp hw
      rw [hold hne] at hptr hcpu
      exact ⟨w, hlw, hptr, hcpu⟩
  · intro c' w hw
    obtain ⟨hlw, hcpu⟩ := h.curr c' w hw
    have hne : w ≠ v := by
      rintro rfl
      rw [hnone] at hcpu
      cases hcpu
    exact ⟨(hlive w).mpr ⟨hne, hlw⟩, by rwa [hold hne]⟩

theorem Tracked.destroy (h : Tracked mm md live s) {c v : ℕ} (hv : s.live v = true)
    (hcall : s.vmxDestroyVcpu c v = .ok s') :
    ∃ live', Tracked mm md live' (s'.setLive v false) := by
  unfold vmxDestroyVcpu at hcall
  cases hclear : s.vmxClearVcpu c v with
  | error e =>
      rw [hclear] at hcall
      cases hcall
  | ok s₁ =>
      obtain ⟨h₁, hlive, hnone, hptr⟩ := vmxClearVcpu_tracked h hv hclear
      have hv₁ : s₁.live v = true := hlive ▸ hv
      obtain ⟨q, hq, hmem⟩ := h₁.page v hv₁
      obtain ⟨a', hfree, inv'⟩ := h₁.alloc.freePagesRaw hmem
      rw [hclear] at hcall
      simp only [bind, Except.bind, Vmx.freePageRaw, PfAlloc.freePageRaw, hq, hfree] at hcall
      obtain rfl := Except.ok.inj hcall
      exact ⟨live.erase (q, 1), h₁.remove hv₁ hnone hq inv'⟩

/-- **One step** that meets the condition keeps the records true. -/
theorem Tracked.step (h : Tracked mm md live s) {l : ℕ × Op} (hstep : Step s l s')
    (hok : LoadOk s l) : ∃ live', Tracked mm md live' s' := by
  obtain ⟨c, op⟩ := l
  unfold Step call at hstep
  split_ifs at hstep with hdead
  cases op with
  | makeCurrent v res =>
      simp only at hstep
      split_ifs at hstep with hv
      cases hcall : s.vmxMakeVcpuCurrent c v res with
      | error e =>
          rw [hcall] at hstep
          exact ⟨live, h.finish hstep⟩
      | ok r =>
          rw [hcall] at hstep
          obtain rfl := Option.some.inj hstep
          exact ⟨live, h.makeCurrent hv hcall hok⟩
  | clear v =>
      simp only at hstep
      split_ifs at hstep with hv
      cases hcall : s.vmxClearVcpu c v with
      | error e =>
          rw [hcall] at hstep
          exact ⟨live, h.finish hstep⟩
      | ok r =>
          rw [hcall] at hstep
          obtain rfl := Option.some.inj hstep
          exact ⟨live, (vmxClearVcpu_tracked h hv hcall).1⟩
  | allocate v =>
      simp only at hstep
      split_ifs at hstep with hv
      cases hcall : s.vmxVcpuAllocate c v with
      | error e =>
          rw [hcall] at hstep
          exact ⟨live, h.finish hstep⟩
      | ok r =>
          rw [hcall] at hstep
          obtain rfl := Option.some.inj hstep
          exact h.allocate (Bool.eq_false_of_not_eq_true hv) hcall
  | destroy v =>
      simp only at hstep
      split_ifs at hstep with hv
      cases hcall : s.vmxDestroyVcpu c v with
      | error e =>
          rw [hcall] at hstep
          exact ⟨live, h.finish hstep⟩
      | ok r =>
          rw [hcall] at hstep
          obtain rfl := Option.some.inj hstep
          exact h.destroy hv hcall

theorem Tracked.not_owned (h : Tracked mm md live s) {l : ℕ × Op} (hstep : Step s l s')
    (hbad : ¬ LoadOk s l) : ¬ Owned s' := by
  obtain ⟨c, op⟩ := l
  cases op with
  | makeCurrent v res =>
      obtain ⟨hres, hcur, hcpu⟩ : res ≠ 0 ∧ s.currVcpu c ≠ some v ∧
          (s.vcpus v).activeCpu = some c := by
        simpa only [LoadOk, not_or, not_not] using hbad
      have hret : s.vmxMakeVcpuCurrent c v res =
          .ok (s.setVcpu v { s.vcpus v with activeCpu := none }, res) := by
        simp [vmxMakeVcpuCurrent, vmxLoadVcpu, hcur, hcpu, hres, bind, Except.bind]
      unfold Step call at hstep
      split_ifs at hstep with hdead
      simp only at hstep
      split_ifs at hstep with hv
      rw [hret] at hstep
      obtain rfl := Option.some.inj hstep
      intro howned
      have hact : s.active c (s.vcpus v).vmcsPtr = true := (h.active c _).mpr ⟨v, hv, rfl, hcpu⟩
      have hnone := howned.activeCpu c v hv (by simpa [setVcpu] using hact)
      simp [setVcpu] at hnone
  | clear v => exact absurd trivial hbad
  | allocate v => exact absurd trivial hbad
  | destroy v => exact absurd trivial hbad

theorem init_tracked {a : PfAlloc} (inv : PfAlloc.Inv mm md a live) : Tracked mm md live (init a) where
  alloc := inv
  page := by simp [init]
  inj := by simp [init]
  active := by simp [init]
  curr := by simp [init]

end Tracked

/-- **Ownership of VMCS areas.**  In every run in which no `vmptrld` fails for a VMCS that is active on
that CPU already, the records are true; and the next step keeps them true iff it is no such failure. -/
theorem vmcs_owned {mm : List LimineMemmapEntry} {md : ℕ × ℕ} {live : List (ℕ × ℕ)} {a : PfAlloc}
    (inv : PfAlloc.Inv mm md a live) {ls : List (ℕ × Op)} {s : Vmx}
    (hrun : Run (fun s l s' => Step s l s' ∧ LoadOk s l) (init a) ls s) :
    Owned s ∧ ∀ l s', Step s l s' → (Owned s' ↔ LoadOk s l) := by
  obtain ⟨live', h⟩ : ∃ live', Tracked mm md live' s := by
    refine Run.invariant_of (I := fun s => ∃ live', Tracked mm md live' s) ?_ hrun
      ⟨live, init_tracked inv⟩
    rintro s l s' ⟨live', h⟩ hok hstep
    exact h.step hstep hok
  refine ⟨h.owned, fun l s' hstep => ⟨fun howned => ?_, fun hok => ?_⟩⟩
  · by_contra hbad
    exact h.not_owned hstep hbad howned
  · obtain ⟨live'', h'⟩ := h.step hstep hok
    exact h'.owned

/-! ### Runs on a machine with eight frames -/

/-- A memory map of eight usable frames. -/
def eightFrames : List LimineMemmapEntry := [⟨0, 32768, .usable⟩]

/-- The allocator after initialisation on `eightFrames`. -/
def eightFramesInit : PfAlloc := ⟨[0x80#8], 1, 0, 0, 7, 1⟩

theorem eightFrames_inv : PfAlloc.Inv eightFrames
    (metadataRange (initSystemMemoryInfo (getBootMemInfo eightFrames)) eightFrames)
    eightFramesInit [] := by
  have hmm : MemmapOk eightFrames := by
    refine ⟨?_, ?_, ?_, ?_⟩ <;> simp [eightFrames]
  exact inv_run hmm (show earlyInitPageFrameAllocator _ _ 0 = some (some eightFramesInit) from rfl)
    (Run.nil _)

instance (s : Vmx) : (l : ℕ × Op) → Decidable (LoadOk s l)
  | (cpu, .makeCurrent vcpu res) => inferInstanceAs (Decidable
      (res = 0 ∨ s.currVcpu cpu = some vcpu ∨ (s.vcpus vcpu).activeCpu ≠ some cpu))
  | (_, .clear _) => inferInstanceAs (Decidable True)
  | (_, .allocate _) => inferInstanceAs (Decidable True)
  | (_, .destroy _) => inferInstanceAs (Decidable True)

/-- Two vCPUs are made current on CPU `1`; the first one is then cleared and made current on CPU `2`. -/
def migrateOps : List (ℕ × Op) :=
  [(1, .allocate 0), (1, .allocate 1), (1, .makeCurrent 0 0), (1, .makeCurrent 1 0), (1, .clear 0),
    (2, .makeCurrent 0 0)]

/-- After `migrateOps` the VMCS of vCPU `0` is active on CPU `2` only. -/
theorem vmcs_owned_migrated :
    ∃ s, Run (fun s l s' => Step s l s' ∧ LoadOk s l) (init eightFramesInit) migrateOps s ∧
      s.active 2 (s.vcpus 0).vmcsPtr = true ∧ s.active 1 (s.vcpus 0).vmcsPtr = false ∧ Owned s := by
  have hend : (migrateOps.foldlM (fun s l => if LoadOk s l then call s l else none)
      (init eightFramesInit)).map (fun s => (s.active 2 (s.vcpus 0).vmcsPtr,
        s.active 1 (s.vcpus 0).vmcsPtr)) = some (true, false) := by decide +kernel
  obtain ⟨s, hs, hobs⟩ := Option.map_eq_some_iff.mp hend
  obtain ⟨h2, h1⟩ := Prod.mk.inj hobs
  have hrun : Run (fun s l s' => Step s l s' ∧ LoadOk s l) (init eightFramesInit) migrateOps s := by
    refine Run.of_foldlM _ (fun s l s' _ hcall => ?_) hs
    split_ifs at hcall with hok
    exact ⟨hcall, hok⟩
  exact ⟨s, hrun, h2, h1, (vmcs_owned eightFrames_inv hrun).1⟩

/-- In place of the `vmx_clear_vcpu` a `vmptrld` fails on CPU `1`. -/
def failedLoadOps : List (ℕ × Op) :=
  [(1, .allocate 0), (1, .allocate 1), (1, .makeCurrent 0 0), (1, .makeCurrent 1 0),
    (1, .makeCurrent 0 (-1)), (2, .makeCurrent 0 0)]

/-- The VMCS of vCPU `0` is then active on two CPUs. -/
theorem failed_load_is_forgotten :
    ∃ s, Run Step (init eightFramesInit) failedLoadOps s ∧ s.live 0 = true ∧
      s.active 1 (s.vcpus 0).vmcsPtr = true ∧ s.active 2 (s.vcpus 0).vmcsPtr = true ∧
      (s.vcpus 0).activeCpu = some 2 ∧ ¬ Owned s := by
  have hend : (failedLoadOps.foldlM call (init eightFramesInit)).map
      (fun s => (s.live 0, s.active 1 (s.vcpus 0).vmcsPtr, s.active 2 (s.vcpus 0).vmcsPtr,
        (s.vcpus 0).activeCpu)) = some (true, true, true, some 2) := by decide +kernel
  obtain ⟨s, hs, hobs⟩ := Option.map_eq_some_iff.mp hend
  obtain ⟨hlive, h1, h2, hcpu⟩ : _ ∧ _ ∧ _ ∧ _ := by simpa only [Prod.mk.injEq] using hobs
  refine ⟨s, Run.of_foldlM _ (fun _ _ _ _ h => h) hs, hlive, h1, h2, hcpu, fun howned => ?_⟩
  exact absurd (howned.once 1 2 0 hlive h1 h2) (by norm_num)

end Vmx

end HyveMind
