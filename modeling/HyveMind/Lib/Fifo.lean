import HyveMind.Lib.Run

/-! # A queue with one server

A server takes the elements of a queue one after the other, runs each of them and puts it back behind
the others or lets it go; new elements come in at any time.  `Fifo.Step` is what can happen, with a name
for each kind of event.

`Fifo.account` says where every element is.  `Fifo.launches_between` is the fairness of the queue: between
two launches of an element the server launches what was queued at the first one, in this order, and then
what came in before the element was back. -/

namespace HyveMind.Lib

variable {α : Type*}

/-- The server. -/
inductive Slot (α : Type*)
  | free
  /-- It has found the queue empty. -/
  | empty
  /-- It has taken an element and not yet launched it. -/
  | picked (u : α)
  | launched (u : α)
deriving DecidableEq, Repr

namespace Slot

/-- The element that the server has. -/
def toList : Slot α → List α
  | free | empty => []
  | picked u | launched u => [u]

/-- The element that is about to be launched. -/
def waiting : Slot α → List α
  | picked u => [u]
  | _ => []

end Slot

structure Fifo (α : Type*) where
  queue : List α
  slot : Slot α
  /-- The elements that were let go. -/
  gone : List α

namespace Fifo

inductive Event (α : Type*)
  | look
  | take (u : α)
  | enter (u : α)
  | launch (u : α)
  | back (u : α)
  | out (u : α)
  | put (u : α)
deriving DecidableEq, Repr

/-- The elements with the server or in the queue. -/
def held (f : Fifo α) : List α := f.slot.toList ++ f.queue

inductive Step : Fifo α → Event α → Fifo α → Prop
  | look {gone : List α} : Step ⟨[], .free, gone⟩ .look ⟨[], .empty, gone⟩
  | take {u : α} {queue gone : List α} :
      Step ⟨u :: queue, .free, gone⟩ (.take u) ⟨queue, .picked u, gone⟩
  /-- A server that has found the queue empty takes a new element. -/
  | enter {u : α} {queue gone : List α} (hu : u ∉ queue ++ gone) :
      Step ⟨queue, .empty, gone⟩ (.enter u) ⟨queue, .picked u, gone⟩
  | launch {u : α} {queue gone : List α} :
      Step ⟨queue, .picked u, gone⟩ (.launch u) ⟨queue, .launched u, gone⟩
  | back {u : α} {queue gone : List α} :
      Step ⟨queue, .launched u, gone⟩ (.back u) ⟨queue ++ [u], .free, gone⟩
  | out {u : α} {queue gone : List α} :
      Step ⟨queue, .launched u, gone⟩ (.out u) ⟨queue, .free, u :: gone⟩
  | put {u : α} {queue gone : List α} {slot : Slot α} (hu : u ∉ slot.toList ++ queue ++ gone) :
      Step ⟨queue, slot, gone⟩ (.put u) ⟨queue ++ [u], slot, gone⟩

/-- The elements that are launched. -/
def launches (es : List (Event α)) : List α := es.filterMap fun
  | .launch u => some u
  | _ => none

/-- The elements that come in. -/
def entered (es : List (Event α)) : List α := es.filterMap fun
  | .enter u | .put u => some u
  | _ => none

/-- The elements that are let go. -/
def left (es : List (Event α)) : List α := es.filterMap fun
  | .out u => some u
  | _ => none

variable {f f' : Fifo α} {e : Event α} {es : List (Event α)} {u : α} {q : List α}

theorem launches_append (es es' : List (Event α)) : launches (es ++ es') = launches es ++ launches es' :=
  List.filterMap_append ..

theorem entered_append (es es' : List (Event α)) : entered (es ++ es') = entered es ++ entered es' :=
  List.filterMap_append ..

theorem left_append (es es' : List (Event α)) : left (es ++ es') = left es ++ left es' :=
  List.filterMap_append ..

/-! ### The account -/

/-- No element is at two places. -/
def Distinct (f : Fifo α) : Prop := (f.held ++ f.gone).Nodup

theorem Distinct.step (h : Distinct f) (hstep : Step f e f') : Distinct f' := by
  cases hstep with
  | look | take | launch => exact h
  | enter hu => exact List.nodup_cons.mpr ⟨hu, h⟩
  | back => exact (List.perm_append_singleton _ _).symm.append_right _ |>.nodup_iff.mp h
  | out => exact List.perm_middle.symm.nodup_iff.mp h
  | @put u queue gone slot hu =>
      have hperm : (slot.toList ++ (queue ++ [u]) ++ gone).Perm (u :: (slot.toList ++ queue ++ gone)) := by
        rw [← List.append_assoc, List.append_assoc (slot.toList ++ queue), List.singleton_append]
        exact List.perm_middle
      exact hperm.nodup_iff.mpr (List.nodup_cons.mpr ⟨hu, h⟩)

theorem Step.account (hstep : Step f e f') (v : α) :
    (v ∈ f'.held ++ f'.gone ↔ v ∈ f.held ++ f.gone ∨ v ∈ entered [e]) ∧
      (v ∈ f'.gone ↔ v ∈ f.gone ∨ v ∈ left [e]) := by
  cases hstep <;> simp [held, Slot.toList, entered, left] <;> grind

theorem Distinct.run (h : Distinct f) (hrun : Run Step f es f') : Distinct f' :=
  Run.invariant (fun _ _ _ hd hstep => hd.step hstep) hrun h

theorem run_account (hrun : Run Step f es f') (v : α) :
    (v ∈ f'.held ++ f'.gone ↔ v ∈ f.held ++ f.gone ∨ v ∈ entered es) ∧
      (v ∈ f'.gone ↔ v ∈ f.gone ∨ v ∈ left es) := by
  induction hrun with
  | nil => simp [entered, left]
  | snoc _ hstep ih =>
      obtain ⟨hall, hgone⟩ := hstep.account v
      constructor
      · rw [hall, ih.1, entered_append, List.mem_append (s := entered _), or_assoc]
      · rw [hgone, ih.2, left_append, List.mem_append, or_assoc]

/-- **The account**: what the server and the queue hold is what was there or came in and was not let go, each
element once. -/
theorem account (h : Distinct f) (hgone : f.gone = []) (hrun : Run Step f es f') :
    f'.held.Nodup ∧ ∀ v, v ∈ f'.held ↔ (v ∈ f.held ∨ v ∈ entered es) ∧ v ∉ left es := by
  have hd := h.run hrun
  refine ⟨(List.nodup_append.mp hd).1, fun v => ?_⟩
  have hall := (run_account hrun v).1
  have hleft := (run_account hrun v).2
  have hdisj := List.disjoint_of_nodup_append hd
  rw [hgone, List.append_nil, List.mem_append] at hall
  rw [hgone, List.mem_nil_iff, false_or] at hleft
  rw [← hall, ← hleft]
  constructor
  · exact fun hheld => ⟨Or.inl hheld, fun hg => hdisj hheld hg⟩
  · rintro ⟨hheld | hg, hnot⟩
    · exact hheld
    · exact absurd hg hnot

theorem not_launched_of_gone (h : Distinct f) (hu : u ∈ f.gone) (hrun : Run Step f es f') :
    u ∉ launches es := by
  have hinv : u ∉ launches es ∧ u ∈ f'.gone ∧ Distinct f' := by
    induction hrun with
    | nil => exact ⟨List.not_mem_nil, hu, h⟩
    | @snoc f₁ f₂ es e _ hstep ih =>
        obtain ⟨hnot, hgone, hd⟩ := ih
        refine ⟨?_, (hstep.account u).2.mpr (Or.inl hgone), hd.step hstep⟩
        rw [launches_append, List.mem_append, not_or]
        refine ⟨hnot, ?_⟩
        cases hstep with
        | launch =>
            intro hmem
            obtain rfl := List.mem_singleton.mp hmem
            exact List.disjoint_of_nodup_append hd (List.mem_cons_self ..) hgone
        | look | take | enter | back | out | put => exact List.not_mem_nil
  exact hinv.1

/-! ### Between two launches -/

/-- Since `u` was launched with the queue `q`: `u` still runs; or it waits behind the ones that are `ahead`;
or it is taken again; or it was let go.  `news` came in before `u` was put back. -/
inductive Between (u : α) (q : List α) (es : List (Event α)) (f : Fifo α) : Prop
  | running (news : List α) (hslot : f.slot = .launched u) (hqueue : f.queue = q ++ news)
      (hnews : ∀ v ∈ news, v ∈ entered es) (hes : launches es = [])
  | queued (news ahead behind : List α) (hslot : f.slot ≠ .empty)
      (hqueue : f.queue = ahead ++ u :: behind) (hnews : ∀ v ∈ news, v ∈ entered es)
      (hnodup : (u :: (q ++ news)).Nodup) (hes : launches es ++ f.slot.waiting ++ ahead = q ++ news)
  | picked (news : List α) (hslot : f.slot = .picked u) (hnews : ∀ v ∈ news, v ∈ entered es)
      (hnodup : (u :: (q ++ news)).Nodup) (hes : launches es = q ++ news)
  | gone (hgone : u ∈ f.gone)

theorem Between.step_running {news : List α} (hslot : f.slot = .launched u) (hqueue : f.queue = q ++ news)
    (hnews : ∀ v ∈ news, v ∈ entered es) (hes : launches es = []) (hd : Distinct f)
    (hstep : Step f e f') : Between u q (es ++ [e]) f' := by
  have hmore : ∀ v ∈ news, v ∈ entered (es ++ [e]) := fun v hv => by
    rw [entered_append]
    exact List.mem_append_left _ (hnews v hv)
  cases hstep with
  | look | take | enter | launch => cases hslot
  | back =>
      cases hslot
      obtain rfl : _ = q ++ news := hqueue
      refine .queued news (q ++ news) [] nofun rfl hmore ?_ ?_
      · exact (List.nodup_append.mp hd).1
      · rw [launches_append, hes]
        rfl
  | out =>
      cases hslot
      exact .gone (List.mem_cons_self ..)
  | @put v queue gone slot hv =>
      obtain rfl : queue = q ++ news := hqueue
      refine .running (news ++ [v]) hslot (List.append_assoc ..) (fun w hw => ?_) ?_
      · rcases List.mem_append.mp hw with hw | hw
        · exact hmore w hw
        · rw [entered_append]
          exact List.mem_append_right _ hw
      · rw [launches_append, hes]
        rfl

/-- An event while `u` waits: the one in front of the queue is next. -/
theorem Between.step_queued {news ahead behind : List α} (hslot : f.slot ≠ .empty)
    (hqueue : f.queue = ahead ++ u :: behind) (hnews : ∀ v ∈ news, v ∈ entered es)
    (hnodup : (u :: (q ++ news)).Nodup) (hes : launches es ++ f.slot.waiting ++ ahead = q ++ news)
    (hstep : Step f e f') : Between u q (es ++ [e]) f' := by
  have hmore : ∀ v ∈ news, v ∈ entered (es ++ [e]) := fun v hv => by
    rw [entered_append]
    exact List.mem_append_left _ (hnews v hv)
  cases hstep with
  | look => simp at hqueue
  | @take v queue gone =>
      cases ahead with
      | nil =>
          obtain ⟨rfl, rfl⟩ := List.cons_eq_cons.mp hqueue
          refine .picked news rfl hmore hnodup ?_
          rw [launches_append, ← hes]
          simp [launches, Slot.waiting]
      | cons w ahead =>
          obtain ⟨rfl, hrest⟩ := List.cons_eq_cons.mp hqueue
          refine .queued news ahead behind nofun hrest hmore hnodup ?_
          rw [launches_append, ← hes]
          simp [launches, Slot.waiting]
  | enter => exact absurd rfl hslot
  | launch =>
      refine .queued news ahead behind nofun hqueue hmore hnodup ?_
      rw [launches_append, ← hes]
      simp [launches, Slot.waiting]
  | @back v queue gone =>
      obtain rfl : queue = ahead ++ u :: behind := hqueue
      refine .queued news ahead (behind ++ [v]) nofun (by simp) hmore hnodup ?_
      rw [launches_append, ← hes]
      simp [launches, Slot.waiting]
  | out =>
      refine .queued news ahead behind nofun hqueue hmore hnodup ?_
      rw [launches_append, ← hes]
      simp [launches, Slot.waiting]
  | @put v queue gone slot hv =>
      obtain rfl : queue = ahead ++ u :: behind := hqueue
      refine .queued news ahead (behind ++ [v]) hslot (by simp) hmore hnodup ?_
      rw [launches_append, ← hes]
      simp [launches]

theorem Between.step (h : Between u q es f) (hd : Distinct f) (hstep : Step f e f')
    (he : e ≠ .launch u) : Between u q (es ++ [e]) f' := by
  cases h with
  | running news hslot hqueue hnews hes => exact step_running hslot hqueue hnews hes hd hstep
  | queued news ahead behind hslot hqueue hnews hnodup hes =>
      exact step_queued hslot hqueue hnews hnodup hes hstep
  | picked news hslot hnews hnodup hes =>
      cases hstep with
      | look | take | enter | back | out => cases hslot
      | launch =>
          cases hslot
          exact absurd rfl he
      | put =>
          refine .picked news hslot (fun v hv => ?_) hnodup ?_
          · rw [entered_append]
            exact List.mem_append_left _ (hnews v hv)
          · rw [launches_append, hes]
            exact List.append_nil _
  | gone hgone => exact .gone ((hstep.account u).2.mpr (Or.inl hgone))

/-- **Between two launches** of `u`: what was queued at the first one is launched, in order and once, and then
what came in while `u` ran. -/
theorem launches_between (hd : Distinct f) (hslot : f.slot = .launched u) (hrun : Run Step f es f')
    (hes : u ∉ launches es) (hslot' : f'.slot = .picked u) :
    ∃ news, launches es = f.queue ++ news ∧ (u :: (f.queue ++ news)).Nodup ∧
      ∀ v ∈ news, v ∈ entered es := by
  have hbetween : Between u f.queue es f' ∧ Distinct f' := by
    clear hslot'
    induction hrun with
    | nil => exact ⟨.running [] hslot (List.append_nil _).symm nofun rfl, hd⟩
    | @snoc f₁ f₂ es e _ hstep ih =>
        rw [launches_append, List.mem_append, not_or] at hes
        obtain ⟨hbetween, hd₁⟩ := ih hes.1
        refine ⟨hbetween.step hd₁ hstep ?_, hd₁.step hstep⟩
        rintro rfl
        exact hes.2 (List.mem_singleton_self u)
  obtain ⟨hbetween, hd'⟩ := hbetween
  have hheld : u ∈ f'.slot.toList := by
    rw [hslot']
    exact List.mem_singleton_self u
  cases hbetween with
  | running _ hslot => rw [hslot'] at hslot; cases hslot
  | queued _ ahead behind _ hqueue =>
      have hmem : u ∈ f'.queue := by
        rw [hqueue]
        exact List.mem_append_right _ (List.mem_cons_self ..)
      exact absurd hmem (List.disjoint_of_nodup_append (List.nodup_append.mp hd').1 hheld)
  | picked news _ hnews hnodup hes => exact ⟨news, hes, hnodup, hnews⟩
  | gone hgone =>
      exact absurd hgone (List.disjoint_of_nodup_append hd' (List.mem_append_left _ hheld))

end Fifo

end HyveMind.Lib
