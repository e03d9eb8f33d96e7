import HyveMind.VmConfigConvert
import HyveMind.Lib.Run

/-! # Runs of the configuration parser

`Moves` says what a round of the parser that goes on does, one case for each transition.  A file that
is parsed successfully is a run of such rounds over all its tokens (`run_of_success`), so that what
every round keeps holds of the requests of every accepted file.

The first use is the table of the serial devices: it is keyed by the numbers of the requests, and
`serial_exclusive` says that no device ends up in two requests, nor its port and interrupt in two
configurations. -/

namespace HyveMind.VmConfig

open Lib MemFile RadixNode

variable {alloc : ℕ → Bool} {keys : RadixNode} {state state' : Parser} {token value : List UInt8}
variable {reqVec reqVec' : List VmRequest} {request request' : VmRequest} {env env' : Env}
variable {key : ConfigKey}

/-! ### Rounds -/

/-- A round of the parser that goes on. -/
inductive Moves (alloc : ℕ → Bool) (keys : RadixNode) :
    Parser × List VmRequest → List UInt8 → Parser × List VmRequest → Prop
  | start {state : Parser} {reqVec : List VmRequest} {token : List UInt8}
      (hs : state.tokenState = .searchStartMarker) :
      Moves alloc keys (state, reqVec) token
        ({ state with tokenState := .searchConfigEntryStart }, reqVec)
  | key {state : Parser} {reqVec : List VmRequest} {token text name : List UInt8} {key : ConfigKey}
      {keyVal : ℕ} (hs : state.tokenState = .searchConfigEntryStart)
      (hend : isTokenEqualTo configSectionEnd token = false) (htext : getToken token = .ok text)
      (hget : radixTreeGet keys text = some (some keyVal))
      (hkey : configKeyStrings[keyVal]? = some (key, name)) :
      Moves alloc keys (state, reqVec) token
        ({ state with key := key, tokenState := .searchEntryDelim }, reqVec)
  | finish {state : Parser} {reqVec : List VmRequest} {token : List UInt8}
      (hs : state.tokenState = .searchConfigEntryStart)
      (hend : isTokenEqualTo configSectionEnd token = true)
      (hvalid : validConfigRequest state.request = true) :
      Moves alloc keys (state, reqVec) token
        ({ state with tokenState := .searchStartMarker, request := VmRequest.zero (state.request.id + 1) },
          reqVec ++ [state.request])
  | delim {state : Parser} {reqVec : List VmRequest} {token : List UInt8}
      (hs : state.tokenState = .searchEntryDelim) :
      Moves alloc keys (state, reqVec) token ({ state with tokenState := .searchEntryVal }, reqVec)
  | value {state : Parser} {reqVec : List VmRequest} {token value : List UInt8} {request : VmRequest}
      {env : Env} (hs : state.tokenState = .searchEntryVal) (hvalue : getToken token = .ok value)
      (hset : setVmRequestVal alloc state.env state.request state.key value = (true, request, env)) :
      Moves alloc keys (state, reqVec) token
        (⟨request, state.key, .searchConfigEntryStart, env⟩, reqVec)

/-- **What a round can do.** -/
theorem moves_of_round
    (h : parseRound alloc keys state reqVec .token token = .ok (.again state' reqVec')) :
    Moves alloc keys (state, reqVec) token (state', reqVec') := by
  rw [parseRound, if_neg (by decide)] at h
  obtain ⟨⟨parsingState, next⟩, hhandle, h⟩ := exists_of_bind_eq_ok h
  unfold handle at hhandle
  cases hs : state.tokenState with
  | searchStartMarker =>
      simp only [hs, handleSearchStartMarker, reduceCtorEq, if_false] at hhandle
      split_ifs at hhandle
      · cases hhandle
        cases h
        exact .start hs
      · obtain ⟨_, -, hret⟩ := exists_of_bind_eq_ok hhandle
        cases hret
        cases h
  | searchConfigEntryStart =>
      simp only [hs, handleSearchConfigEntryStart, reduceCtorEq, if_false] at hhandle
      split_ifs at hhandle with hend
      · cases hhandle
        by_cases hvalid : validConfigRequest state.request = true
        · simp only [hvalid, if_true] at h
          obtain ⟨v, hpush, hret⟩ := exists_of_bind_eq_ok h
          unfold pushBackVmReqVector at hpush
          split_ifs at hpush
          cases hpush
          cases hret
          exact .finish hs hend hvalid
        · simp only [hvalid] at h
          cases h
      · obtain ⟨text, htext, hkey⟩ := exists_of_bind_eq_ok hhandle
        split at hkey
        · cases hkey
        · cases hkey
          cases h
        · next keyVal hget =>
            split at hkey
            · cases hkey
            · next key name hname =>
                cases hkey
                cases h
                exact .key hs (Bool.eq_false_of_not_eq_true hend) htext hget hname
  | searchEntryDelim =>
      simp only [hs, handleSearchDelim, reduceCtorEq, if_false] at hhandle
      split_ifs at hhandle
      · cases hhandle
        cases h
        exact .delim hs
      · obtain ⟨_, -, hret⟩ := exists_of_bind_eq_ok hhandle
        cases hret
        cases h
  | searchEntryVal =>
      simp only [hs, handleSearchValue, reduceCtorEq, if_false] at hhandle
      split_ifs at hhandle
      · cases hhandle
        cases h
      · obtain ⟨text, htext, hval⟩ := exists_of_bind_eq_ok hhandle
        rcases hset : setVmRequestVal alloc state.env state.request state.key text with
          ⟨success, request, env⟩
        simp only [hset] at hval
        split_ifs at hval with hok
        · cases hval
          cases h
          exact .value hs htext (by rw [hset, hok])
        · cases hval
          cases h

theorem run_of_feed {tokens : List (List UInt8)}
    (h : feed alloc keys state reqVec tokens = .ok (.again state' reqVec')) :
    Run (Moves alloc keys) (state, reqVec) tokens (state', reqVec') := by
  induction tokens generalizing state reqVec with
  | nil =>
      cases h
      exact .nil _
  | cons token tokens ih =>
      rw [feed] at h
      split at h
      · next hround => exact .cons (moves_of_round hround) (ih h)
      · next hstop => exact absurd h (hstop _ _)

/-- **An accepted file** is a run over all its tokens, which ends between two sections. -/
theorem run_of_success {bytes : List UInt8} {last : Seek}
    (h : parseVmConfigFile alloc keys (configFile bytes) = .ok ⟨.success, reqVec, last⟩) :
    ∃ state, Run (Moves alloc keys) (Parser.init, []) (tokensOf configOps bytes).1 (state, reqVec) ∧
      state.tokenState = .searchStartMarker := by
  have hspec := parseVmConfigFile_spec alloc keys bytes
  rw [h] at hspec
  cases hfeed : feed alloc keys Parser.init [] (tokensOf configOps bytes).1 with
  | error fault =>
      rw [hfeed] at hspec
      cases hspec
  | ok round =>
      rw [hfeed] at hspec
      cases round with
      | stop result v =>
          obtain ⟨last', hparse, -⟩ := hspec
          cases hparse
          exact absurd hfeed feed_ne_success
      | again state v =>
          cases hend : (tokensOf configOps bytes).2 with
          | unterminated =>
              rw [hend] at hspec
              cases hspec
          | invalid =>
              rw [hend] at hspec
              obtain ⟨last', hparse, -⟩ := hspec
              cases hparse
          | token t rest =>
              rw [hend] at hspec
              exact hspec.elim
          | done =>
              rw [hend] at hspec
              obtain ⟨last', hparse, -⟩ := hspec
              simp only [Except.ok.injEq, Parsed.mk.injEq] at hparse
              obtain ⟨hstate, rfl, -⟩ := hparse
              refine ⟨state, run_of_feed hfeed, ?_⟩
              by_contra hne
              rw [if_neg hne] at hstate
              cases hstate

/-! ### Serial devices -/

/-- What an assignment does to the table of the devices: nothing, or a device that is free or belongs
to the request already goes to the request. -/
theorem setVmRequestVal_serial
    (h : setVmRequestVal alloc env request key value = (true, request', env')) :
    (env'.assignee = env.assignee ∧ request'.serialId = request.serialId) ∨
      ∃ dev, (env.assignee dev = -1 ∨ env.assignee dev = request.id) ∧ request'.serialId = dev ∧
        env'.assignee = Function.update env.assignee dev request.id := by
  cases key <;> simp only [setVmRequestVal, strdupNt] at h
  case vmDevSerial =>
      split_ifs at h with hok hdev
      · cases h
      · cases h
        rw [not_and_or, not_not, not_not] at hdev
        exact Or.inr ⟨_, hdev, rfl, rfl⟩
      · cases h
  case vmType | vmMemGranularity =>
      split at h
      · cases h
      · cases h
        exact Or.inl ⟨rfl, rfl⟩
  all_goals
    obtain ⟨-, rfl, rfl⟩ := Prod.mk.injEq .. ▸ h
    exact Or.inl ⟨rfl, rfl⟩

/-- The table knows the requests by their numbers, which are all different. -/
structure SerialInv (s : Parser × List VmRequest) : Prop where
  nonneg : 0 ≤ s.1.request.id
  ids : ∀ r ∈ s.2, 0 ≤ r.id ∧ r.id < s.1.request.id
  increasing : s.2.Pairwise fun r t => r.id < t.id
  done : ∀ r ∈ s.2, r.serialId ≠ 0 → s.1.env.assignee r.serialId = r.id
  current : s.1.request.serialId ≠ 0 → s.1.env.assignee s.1.request.serialId = s.1.request.id

theorem serialInv_init : SerialInv (Parser.init, []) where
  nonneg := le_refl 0
  ids := nofun
  increasing := .nil
  done := nofun
  current := fun h => absurd rfl h

theorem SerialInv.assign {tokenState : TokenState} (inv : SerialInv (state, reqVec))
    (h : setVmRequestVal alloc state.env state.request key value = (true, request, env)) :
    SerialInv (⟨request, state.key, tokenState, env⟩, reqVec) := by
  have hid := setVmRequestVal_id h
  rcases setVmRequestVal_serial h with ⟨hsame, hserial⟩ | ⟨dev, hfree, hserial, hupdate⟩
  · refine ⟨?_, ?_, inv.increasing, ?_, ?_⟩ <;> simp only [hid, hsame, hserial]
    · exact inv.nonneg
    · exact inv.ids
    · exact inv.done
    · exact inv.current
  · refine ⟨?_, ?_, inv.increasing, ?_, ?_⟩ <;> simp only [hid, hupdate, hserial]
    · exact inv.nonneg
    · exact inv.ids
    · intro r hr hne
      have hr' := inv.done r hr hne
      obtain ⟨h0, hlt⟩ := inv.ids r hr
      have hdev : r.serialId ≠ dev := by
        intro heq
        rw [heq] at hr'
        dsimp only at hr' hlt
        omega
      rw [Function.update_of_ne hdev]
      exact hr'
    · intro _
      exact Function.update_self ..

theorem SerialInv.moves {s s' : Parser × List VmRequest} (inv : SerialInv s)
    (h : Moves alloc keys s token s') : SerialInv s' := by
  cases h with
  | start hs => exact ⟨inv.nonneg, inv.ids, inv.increasing, inv.done, inv.current⟩
  | key hs hend htext hget hkey => exact ⟨inv.nonneg, inv.ids, inv.increasing, inv.done, inv.current⟩
  | delim hs => exact ⟨inv.nonneg, inv.ids, inv.increasing, inv.done, inv.current⟩
  | value hs hvalue hset => exact inv.assign hset
  | @finish state reqVec token hs hend hvalid =>
      have hnonneg : 0 ≤ state.request.id := inv.nonneg
      have hids : ∀ r ∈ reqVec, 0 ≤ r.id ∧ r.id < state.request.id := inv.ids
      refine ⟨by show 0 ≤ state.request.id + 1; omega, ?_, ?_, ?_, fun h => absurd rfl h⟩
      · intro r hr
        show 0 ≤ r.id ∧ r.id < state.request.id + 1
        rcases List.mem_append.mp hr with hr | hr
        · have := hids r hr
          omega
        · rw [List.mem_singleton.mp hr]
          omega
      · refine List.pairwise_append.mpr ⟨inv.increasing, List.pairwise_singleton _ _, ?_⟩
        intro r hr t ht
        rw [List.mem_singleton.mp ht]
        exact (hids r hr).2
      · intro r hr hne
        rcases List.mem_append.mp hr with hr | hr
        · exact inv.done r hr hne
        · rw [List.mem_singleton.mp hr] at hne ⊢
          exact inv.current hne

theorem SerialInv.exclusive {s : Parser × List VmRequest} (inv : SerialInv s) :
    s.2.Pairwise fun r t => r.serialId ≠ 0 → r.serialId ≠ t.serialId := by
  refine inv.increasing.imp_of_mem fun {r t} hr ht hlt hne heq => ?_
  have hr' := inv.done r hr hne
  have ht' := inv.done t ht (heq ▸ hne)
  rw [heq, ht'] at hr'
  omega

theorem serialDevices_ne {i j : ℕ} (hi : (serialDevices i).configured = true)
    (hj : (serialDevices j).configured = true) (hne : i ≠ j) :
    (serialDevices i).hostBasePort ≠ (serialDevices j).hostBasePort ∧
      (serialDevices i).hostIrq ≠ (serialDevices j).hostIrq := by
  have hrange : ∀ k, (serialDevices k).configured = true → k = 1 ∨ k = 2 ∨ k = 3 := by
    intro k hk
    unfold serialDevices at hk
    split at hk <;> simp at hk ⊢
  rcases hrange i hi with rfl | rfl | rfl <;> rcases hrange j hj with rfl | rfl | rfl <;>
    first | exact absurd rfl hne | decide

theorem pairwise_of_forall₂ {α β : Type*} {R : α → β → Prop} {P : α → α → Prop} {Q : β → β → Prop}
    (h : ∀ a b c d, R a c → R b d → P a b → Q c d) {l : List α} {m : List β}
    (hlm : List.Forall₂ R l m) (hl : l.Pairwise P) : m.Pairwise Q := by
  induction hlm with
  | nil => exact .nil
  | @cons a c l m hac hlm ih =>
      obtain ⟨ha, hl⟩ := List.pairwise_cons.mp hl
      refine List.pairwise_cons.mpr ⟨fun d hd => ?_, ih hl⟩
      obtain ⟨i, hi, rfl⟩ := List.getElem_of_mem hd
      have hil : i < l.length := hlm.length_eq ▸ hi
      exact h a (l[i]) c (m[i]) hac (hlm.get hil hi) (ha _ (List.getElem_mem hil))

/-- **Serial devices are assigned exclusively**: in every file that is parsed successfully two requests
have different devices, and the configurations made from them different ports and interrupts. -/
theorem serial_exclusive {bytes : List UInt8} {last : Seek}
    (h : parseVmConfigFile alloc keys (configFile bytes) = .ok ⟨.success, reqVec, last⟩) :
    (reqVec.Pairwise fun r t => r.serialId ≠ 0 → r.serialId ≠ t.serialId) ∧
      ∀ allocConf mods env configs, convertRequests allocConf mods reqVec [] env = .ok (some configs) →
        configs.Pairwise fun c d => c.uartInfo.configured = true → d.uartInfo.configured = true →
          c.uartInfo.hostBasePort ≠ d.uartInfo.hostBasePort ∧
            c.uartInfo.hostIrq ≠ d.uartInfo.hostIrq := by
  obtain ⟨state, hrun, -⟩ := run_of_success h
  have inv : SerialInv (state, reqVec) :=
    hrun.invariant (I := SerialInv) (fun _ _ _ => SerialInv.moves) serialInv_init
  refine ⟨inv.exclusive, fun allocConf mods env configs hconv => ?_⟩
  obtain ⟨new, rfl, hnew⟩ := forall₂_of_convertRequests hconv
  refine pairwise_of_forall₂ ?_ hnew inv.exclusive
  rintro r t c d ⟨_, _, hc⟩ ⟨_, _, hd⟩ hrt hcc hdd
  rw [(sameData_of_converted hc).uartInfo] at hcc ⊢
  rw [(sameData_of_converted hd).uartInfo] at hdd ⊢
  refine serialDevices_ne hcc hdd (hrt ?_)
  intro hzero
  rw [hzero] at hcc
  cases hcc

/-- A field of the requests of a text that the parser accepts. -/
theorem exists_success {β : Type} (text : List UInt8) (f : VmRequest → β) (xs : List β)
    (h : (getConfigKeyRadix enoughMemory).map (fun kn =>
      (parseVmConfigFile enoughMemory kn.1 (configFile text)).toOption.map fun p =>
        (p.result, p.reqVec.map f)) = some (some (.success, xs))) :
    ∃ keys n reqVec last, getConfigKeyRadix enoughMemory = some (keys, n) ∧
      parseVmConfigFile enoughMemory keys (configFile text) = .ok ⟨.success, reqVec, last⟩ ∧
      reqVec.map f = xs := by
  obtain ⟨keys, n, hkeys⟩ := getConfigKeyRadix_isSome
  rw [hkeys, Option.map_some, Option.some.injEq] at h
  cases hparse : parseVmConfigFile enoughMemory keys (configFile text) with
  | error fault =>
      rw [hparse] at h
      cases h
  | ok p =>
      obtain ⟨result, reqVec, last⟩ := p
      rw [hparse] at h
      simp only [Except.toOption, Option.map_some, Option.some.injEq, Prod.mk.injEq] at h
      obtain ⟨rfl, hf⟩ := h
      exact ⟨keys, n, reqVec, last, hkeys, hparse, hf⟩

/-- Two VMs, of which the second asks for its device first. -/
def twoVms : List UInt8 :=
  bytesOf "[start]\nvm.name = a\nvm.type = MIRROR_VMM\nvm.vcpus = 1\nvm.mem.size = 1\n" ++
    bytesOf "vm.dev.serial = 2\n[end]\n[start]\nvm.dev.serial = 1\nvm.name = b\n" ++
    bytesOf "vm.type = MIRROR_VMM\nvm.vcpus = 1\nvm.mem.size = 1\n[end]\n"

/-- The devices of `twoVms`. -/
theorem serial_exclusive_two : ∃ keys reqVec last,
    parseVmConfigFile enoughMemory keys (configFile twoVms) = .ok ⟨.success, reqVec, last⟩ ∧
      reqVec.map VmRequest.serialId = [2, 1] ∧
      reqVec.Pairwise fun r t => r.serialId ≠ 0 → r.serialId ≠ t.serialId := by
  obtain ⟨keys, n, reqVec, last, -, hparse, hids⟩ :=
    exists_success twoVms VmRequest.serialId [2, 1] (by decide +kernel)
  exact ⟨keys, reqVec, last, hparse, hids, (serial_exclusive hparse).1⟩

end HyveMind.VmConfig
