import HyveMind.VmConfigLexing

/-! # The grammar of the configuration file

A configuration is a list of sections, a section a list of assignments.  `render` writes it down as
tokens, `requests` is what it means: every section is applied to a request of zeros, in which later
assignments win, and the result is checked.

The parser accepts the renderings of the configurations that have a meaning and of no more than 512
sections (`accepts_iff`), if no token is too long for the `int` in which the code keeps its
length. -/

namespace HyveMind.VmConfig

open MemFile RadixNode

/-- A key and the text of its value. -/
abbrev Assignment := ConfigKey × List UInt8

/-- The text of a key. -/
def ConfigKey.text : ConfigKey → List UInt8
  | .vmName => bytesOf "vm.name"
  | .vmType => bytesOf "vm.type"
  | .vmVcpus => bytesOf "vm.vcpus"
  | .vmMemSize => bytesOf "vm.mem.size"
  | .vmMemGranularity => bytesOf "vm.mem.granularity"
  | .vmBootLinuxBzimage => bytesOf "vm.boot.linux.bzimage"
  | .vmBootLinuxInitramfs => bytesOf "vm.boot.linux.initramfs"
  | .vmBootLinuxCmdline => bytesOf "vm.boot.linux.cmdline"
  | .vmDevSerial => bytesOf "vm.dev.serial"

/-- `key = value` for each assignment. -/
def renderAssignments (assignments : List Assignment) : List (List UInt8) :=
  assignments.flatMap fun a => [a.1.text, configSectionDelim, a.2]

/-- `[start] … [end]` for each section. -/
def render (sections : List (List Assignment)) : List (List UInt8) :=
  sections.flatMap fun assignments =>
    configSectionStart :: (renderAssignments assignments ++ [configSectionEnd])

/-- All allocations succeed. -/
abbrev enoughMemory : ℕ → Bool := fun _ => true

/-- The assignments of a section, one after the other. -/
def assign (env : Env) (request : VmRequest) : List Assignment → Option (VmRequest × Env)
  | [] => some (request, env)
  | (key, value) :: assignments =>
      match setVmRequestVal enoughMemory env request key value with
      | (true, request, env) => assign env request assignments
      | (false, _, _) => none

/-- The requests of the sections from number `id` on. -/
def requests (env : Env) (id : ℤ) : List (List Assignment) → Option (List VmRequest)
  | [] => some []
  | assignments :: sections => do
      let (request, env) ← assign env (VmRequest.zero id) assignments
      if validConfigRequest request then
        let reqVec ← requests env (id + 1) sections
        return request :: reqVec
      else none

/-- No value is a reserved token. -/
def Unreserved (assignments : List Assignment) : Prop := ∀ a ∈ assignments, a.2 ∉ reservedTokens

/-! ### The keys -/

/-- The key with a text. -/
def keyOf (text : List UInt8) : Option ConfigKey :=
  (configKeyStrings.find? fun entry => entry.2 = text).map Prod.fst

theorem keyOf_eq_some {text : List UInt8} {key : ConfigKey} :
    keyOf text = some key ↔ text = key.text := by
  constructor
  · intro h
    obtain ⟨⟨key', text'⟩, hfind, rfl⟩ := Option.map_eq_some_iff.mp h
    have htext : text' = text := by simpa using List.find?_some hfind
    have hmem := List.mem_of_find?_eq_some hfind
    rw [← htext]
    revert hmem
    simp only [configKeyStrings, List.mem_cons, Prod.mk.injEq, List.not_mem_nil, or_false]
    rintro (⟨rfl, rfl⟩ | ⟨rfl, rfl⟩ | ⟨rfl, rfl⟩ | ⟨rfl, rfl⟩ | ⟨rfl, rfl⟩ | ⟨rfl, rfl⟩ | ⟨rfl, rfl⟩ |
      ⟨rfl, rfl⟩ | ⟨rfl, rfl⟩) <;> rfl
  · rintro rfl
    cases key <;> decide

theorem ConfigKey.text_ne_end (key : ConfigKey) : key.text ≠ configSectionEnd := by
  cases key <;> decide

/-- The insertions of `get_config_key_radix`. -/
def keyInsertions : List (List UInt8 × ℕ) :=
  configKeyStrings.zipIdx.map fun entry => (entry.1.2, entry.2)

theorem lastAdded_key (key : ConfigKey) :
    ∃ i, lastAdded keyInsertions key.text = some i ∧ configKeyStrings[i]? = some (key, key.text) := by
  refine ⟨configKeyStrings.idxOf (key, key.text), ?_⟩
  cases key <;> decide

theorem lastAdded_of_keyOf_none {text : List UInt8} (h : keyOf text = none) :
    lastAdded keyInsertions text = none := by
  apply lastAdded_eq_none
  intro hmem
  obtain ⟨⟨t, i⟩, hentry, rfl⟩ := List.mem_map.mp hmem
  obtain ⟨⟨⟨key, t⟩, i⟩, hidx, hentry⟩ := List.mem_map.mp hentry
  cases hentry
  rw [keyOf, Option.map_eq_none_iff, List.find?_eq_none] at h
  exact h (key, t) (List.fst_mem_of_mem_zipIdx hidx) (by simp)

theorem radixTreeGet_keys {keys : RadixNode} {n : ℕ}
    (hkeys : getConfigKeyRadix enoughMemory = some (keys, n)) (text : List UInt8) :
    radixTreeGet keys text = some (lastAdded keyInsertions text) := by
  have hfits : ∀ a ∈ keyInsertions, FitsInt a.1 := by
    unfold FitsInt
    decide
  obtain ⟨s, hs, -, hget⟩ := addCalls_spec hfits
  rw [keyInsertions, List.foldlM_map] at hs
  have heq : s = (keys, n) := Option.some.inj (hs.symm.trans hkeys)
  rw [← hget text, heq]

/-! ### A round -/

theorem isTokenEqualTo_iff {target token : List UInt8} (htarget : target ∈ reservedTokens)
    (hfits : FitsInt token) : isTokenEqualTo target token = true ↔ token = target := by
  have hshort : ∀ t ∈ reservedTokens, t.length < 2 ^ 31 ∧ 0 ∉ t := by decide
  obtain ⟨hlen, hnul⟩ := hshort target htarget
  rw [isTokenEqualTo, hfits.int32_length, int32_of_lt hlen, Bool.and_eq_true, decide_eq_true_iff,
    decide_eq_true_iff, Nat.cast_inj]
  constructor
  · rintro ⟨hlen', hcmp⟩
    rw [strncmp_eq_zero hnul hlen'.ge, ← hlen', List.take_length] at hcmp
    exact hcmp.symm
  · rintro rfl
    refine ⟨rfl, (strncmp_eq_zero hnul le_rfl).mpr ?_⟩
    rw [List.take_length]

theorem getToken_eq {token : List UInt8} (hfits : FitsInt token) (hnul : 0 ∉ token) :
    getToken token = .ok token := by
  rw [getToken, hfits.int32_length, if_neg (by omega), Int.toNat_natCast, List.take_length,
    cstr_eq hnul]

section Rounds

variable (keys : RadixNode) (reqVec : List VmRequest) {state : Parser} {token : List UInt8}

theorem parseRound_start (hstate : state.tokenState = .searchStartMarker) (hfits : FitsInt token)
    (hnul : 0 ∉ token) :
    parseRound enoughMemory keys state reqVec .token token =
      if token = configSectionStart then
        .ok (.again { state with tokenState := .searchConfigEntryStart } reqVec)
      else .ok (.stop .errMalformedFile reqVec) := by
  have hmem : configSectionStart ∈ reservedTokens := by decide
  by_cases htoken : token = configSectionStart
  · rw [if_pos htoken]
    simp [parseRound, handle, hstate, handleSearchStartMarker,
      (isTokenEqualTo_iff hmem hfits).mpr htoken, bind, Except.bind, pure, Except.pure]
  · rw [if_neg htoken]
    simp [parseRound, handle, hstate, handleSearchStartMarker, getToken_eq hfits hnul,
      mt (isTokenEqualTo_iff hmem hfits).mp htoken, bind, Except.bind, pure, Except.pure]

theorem parseRound_delim (hstate : state.tokenState = .searchEntryDelim) (hfits : FitsInt token)
    (hnul : 0 ∉ token) :
    parseRound enoughMemory keys state reqVec .token token =
      if token = configSectionDelim then
        .ok (.again { state with tokenState := .searchEntryVal } reqVec)
      else .ok (.stop .errMalformedFile reqVec) := by
  have hmem : configSectionDelim ∈ reservedTokens := by decide
  by_cases htoken : token = configSectionDelim
  · rw [if_pos htoken]
    simp [parseRound, handle, hstate, handleSearchDelim,
      (isTokenEqualTo_iff hmem hfits).mpr htoken, bind, Except.bind, pure, Except.pure]
  · rw [if_neg htoken]
    simp [parseRound, handle, hstate, handleSearchDelim, getToken_eq hfits hnul,
      mt (isTokenEqualTo_iff hmem hfits).mp htoken, bind, Except.bind, pure, Except.pure]

theorem parseRound_end (hstate : state.tokenState = .searchConfigEntryStart) :
    parseRound enoughMemory keys state reqVec .token configSectionEnd =
      if validConfigRequest state.request then
        if 512 ≤ reqVec.length then .error .die
        else .ok (.again ⟨VmRequest.zero (state.request.id + 1), state.key, .searchStartMarker,
          state.env⟩ (reqVec ++ [state.request]))
      else .ok (.stop .errInvalidEntry reqVec) := by
  have hend : isTokenEqualTo configSectionEnd configSectionEnd = true := by decide
  simp only [parseRound, handle, hstate, handleSearchConfigEntryStart, hend, pushBackVmReqVector,
    defaultVecInitCapacity, bind, Except.bind, pure, Except.pure, reduceCtorEq, if_false, if_true]
  by_cases hfull : 512 ≤ reqVec.length
  · simp only [hfull, if_true]
  · simp only [hfull, if_false]

theorem parseRound_key {keys : RadixNode} {n : ℕ} (reqVec : List VmRequest)
    (hkeys : getConfigKeyRadix enoughMemory = some (keys, n))
    (hstate : state.tokenState = .searchConfigEntryStart) (hfits : FitsInt token)
    (hnul : 0 ∉ token) (hend : token ≠ configSectionEnd) :
    parseRound enoughMemory keys state reqVec .token token =
      match keyOf token with
      | none => .ok (.stop .errMalformedFile reqVec)
      | some key => .ok (.again { state with key := key, tokenState := .searchEntryDelim } reqVec) := by
  have hmem : configSectionEnd ∈ reservedTokens := by decide
  have hne : isTokenEqualTo configSectionEnd token = false :=
    Bool.eq_false_iff.mpr (mt (isTokenEqualTo_iff hmem hfits).mp hend)
  simp only [parseRound, handle, hstate, handleSearchConfigEntryStart, hne, getToken_eq hfits hnul,
    radixTreeGet_keys hkeys token, bind, Except.bind, pure, Except.pure, reduceCtorEq, if_false]
  cases hkey : keyOf token with
  | none => simp [lastAdded_of_keyOf_none hkey]
  | some key =>
      obtain rfl := keyOf_eq_some.mp hkey
      obtain ⟨i, hlast, hi⟩ := lastAdded_key key
      simp [hlast, hi]

theorem parseRound_val (hstate : state.tokenState = .searchEntryVal) (hfits : FitsInt token)
    (hnul : 0 ∉ token) :
    parseRound enoughMemory keys state reqVec .token token =
      if token ∈ reservedTokens then .ok (.stop .errMalformedFile reqVec)
      else match setVmRequestVal enoughMemory state.env state.request state.key token with
        | (true, request, env) =>
            .ok (.again ⟨request, state.key, .searchConfigEntryStart, env⟩ reqVec)
        | (false, _, _) => .ok (.stop .errMalformedFile reqVec) := by
  have hany : reservedTokens.any (isTokenEqualTo · token) = true ↔ token ∈ reservedTokens := by
    rw [List.any_eq_true]
    constructor
    · rintro ⟨target, hmem, heq⟩
      rw [(isTokenEqualTo_iff hmem hfits).mp heq]
      exact hmem
    · intro hmem
      exact ⟨token, hmem, (isTokenEqualTo_iff hmem hfits).mpr rfl⟩
  by_cases hres : token ∈ reservedTokens
  · rw [if_pos hres]
    simp only [parseRound, handle, hstate, handleSearchValue, hany.mpr hres, bind, Except.bind, pure,
      Except.pure, reduceCtorEq, if_false, if_true]
  · rw [if_neg hres]
    have hany' := Bool.eq_false_iff.mpr (mt hany.mp hres)
    simp only [parseRound, handle, hstate, handleSearchValue, hany', getToken_eq hfits hnul, bind,
      Except.bind, pure, Except.pure, reduceCtorEq, if_false, Bool.false_eq_true]
    rcases hset : setVmRequestVal enoughMemory state.env state.request state.key token with
      ⟨success, request, env⟩
    cases success with
    | true => simp
    | false => simp

end Rounds

/-! ### Prefixes of the grammar

What has to follow for the parser to be successful, in each of its states. -/

section Grammar

variable {env : Env} {request : VmRequest} {id : ℤ} {key : ConfigKey} {token : List UInt8}
  {tokens : List (List UInt8)} {new : List VmRequest}

/-- The tokens are sections that mean `new`. -/
def IsSections (env : Env) (id : ℤ) (tokens : List (List UInt8)) (new : List VmRequest) : Prop :=
  ∃ sections, tokens = render sections ∧ (∀ a ∈ sections, Unreserved a) ∧
    requests env id sections = some new

/-- The tokens are the rest of a section of which `request` is what is read so far, and sections. -/
def IsRest (env : Env) (request : VmRequest) (tokens : List (List UInt8)) (new : List VmRequest) :
    Prop :=
  ∃ assignments request' env' rest new',
    tokens = renderAssignments assignments ++ configSectionEnd :: rest ∧ Unreserved assignments ∧
    assign env request assignments = some (request', env') ∧ validConfigRequest request' = true ∧
    IsSections env' (request'.id + 1) rest new' ∧ new = request' :: new'

/-- The tokens are a value for `key` and then the rest of a section. -/
def IsValue (env : Env) (request : VmRequest) (key : ConfigKey) (tokens : List (List UInt8))
    (new : List VmRequest) : Prop :=
  ∃ value rest request' env', tokens = value :: rest ∧ value ∉ reservedTokens ∧
    setVmRequestVal enoughMemory env request key value = (true, request', env') ∧
    IsRest env' request' rest new

theorem setVmRequestVal_id {alloc : ℕ → Bool} {value : List UInt8} {request' : VmRequest} {env' : Env}
    (h : setVmRequestVal alloc env request key value = (true, request', env')) :
    request'.id = request.id := by
  cases key <;> simp only [setVmRequestVal, strdupNt] at h
  case vmDevSerial =>
      split at h
      · split at h
        · cases h
        · cases h
          rfl
      · cases h
  case vmType | vmMemGranularity =>
      split at h
      · cases h
      · cases h
        rfl
  all_goals
    obtain ⟨-, rfl, -⟩ := Prod.mk.injEq .. ▸ h
    rfl

theorem assign_id {assignments : List Assignment} {request' : VmRequest} {env' : Env}
    (h : assign env request assignments = some (request', env')) : request'.id = request.id := by
  induction assignments generalizing env request with
  | nil =>
      cases h
      rfl
  | cons a assignments ih =>
      rw [assign] at h
      split at h
      · rename_i hset
        rw [ih h, setVmRequestVal_id hset]
      · cases h

theorem isSections_nil : IsSections env id [] new ↔ new = [] := by
  constructor
  · rintro ⟨sections, htokens, -, hnew⟩
    cases sections with
    | nil =>
        cases hnew
        rfl
    | cons assignments sections => cases htokens
  · rintro rfl
    exact ⟨[], rfl, nofun, rfl⟩

theorem requests_cons {assignments : List Assignment} {sections : List (List Assignment)} :
    requests env id (assignments :: sections) = some new ↔
      ∃ request' env' new', assign env (VmRequest.zero id) assignments = some (request', env') ∧
        validConfigRequest request' = true ∧ requests env' (id + 1) sections = some new' ∧
        new = request' :: new' := by
  rw [requests]
  cases hassign : assign env (VmRequest.zero id) assignments with
  | none => simp
  | some p =>
      obtain ⟨request', env'⟩ := p
      by_cases hvalid : validConfigRequest request' = true
      · simp only [Option.bind_eq_bind, Option.bind_some, hvalid, if_true, Option.pure_def,
          Option.bind_eq_some_iff, Option.some.injEq, Prod.mk.injEq]
        constructor
        · rintro ⟨new', hnew', rfl⟩
          exact ⟨request', env', new', ⟨rfl, rfl⟩, hvalid, hnew', rfl⟩
        · rintro ⟨_, _, new', ⟨rfl, rfl⟩, -, hnew', rfl⟩
          exact ⟨new', hnew', rfl⟩
      · simp [hvalid]

theorem render_cons (assignments : List Assignment) (sections : List (List Assignment)) :
    render (assignments :: sections) = configSectionStart ::
      (renderAssignments assignments ++ configSectionEnd :: render sections) := by
  rw [render, List.flatMap_cons, List.cons_append, List.append_assoc]
  rfl

theorem isSections_cons : IsSections env id (token :: tokens) new ↔
    token = configSectionStart ∧ IsRest env (VmRequest.zero id) tokens new := by
  constructor
  · rintro ⟨sections, htokens, hres, hnew⟩
    cases sections with
    | nil => cases htokens
    | cons assignments sections =>
        obtain ⟨request', env', new', hassign, hvalid, hnew', rfl⟩ := requests_cons.mp hnew
        have hid : request'.id = id := assign_id hassign
        rw [render_cons] at htokens
        cases htokens
        refine ⟨rfl, assignments, request', env', render sections, new', rfl, ?_, hassign, hvalid, ?_,
          rfl⟩
        · exact hres assignments (List.mem_cons_self ..)
        · rw [hid]
          exact ⟨sections, rfl, fun a ha => hres a (List.mem_cons_of_mem _ ha), hnew'⟩
  · rintro ⟨rfl, assignments, request', env', rest, new', rfl, hun, hassign, hvalid, hrest, rfl⟩
    obtain ⟨sections, rfl, hres, hnew⟩ := hrest
    have hid : request'.id = id := assign_id hassign
    rw [hid] at hnew
    refine ⟨assignments :: sections, (render_cons ..).symm, ?_, ?_⟩
    · exact List.forall_mem_cons.mpr ⟨hun, hres⟩
    · exact requests_cons.mpr ⟨request', env', new', hassign, hvalid, hnew, rfl⟩

theorem not_isRest_nil : ¬ IsRest env request [] new := by
  rintro ⟨assignments, request', env', rest, new', htokens, -⟩
  simp at htokens

theorem isRest_end : IsRest env request (configSectionEnd :: tokens) new ↔
    validConfigRequest request = true ∧
      ∃ new', IsSections env (request.id + 1) tokens new' ∧ new = request :: new' := by
  constructor
  · rintro ⟨assignments, request', env', rest, new', htokens, -, hassign, hvalid, hrest, rfl⟩
    cases assignments with
    | nil =>
        cases htokens
        cases hassign
        exact ⟨hvalid, new', hrest, rfl⟩
    | cons a assignments =>
        exact absurd (List.cons.inj htokens).1.symm (ConfigKey.text_ne_end a.1)
  · rintro ⟨hvalid, new', hrest, rfl⟩
    exact ⟨[], request, env, tokens, new', rfl, nofun, rfl, hvalid, hrest, rfl⟩

theorem isRest_cons (hend : token ≠ configSectionEnd) :
    IsRest env request (token :: tokens) new ↔
      ∃ key rest, keyOf token = some key ∧ tokens = configSectionDelim :: rest ∧
        IsValue env request key rest new := by
  constructor
  · rintro ⟨assignments, request', env', rest, new', htokens, hun, hassign, hvalid, hrest, rfl⟩
    cases assignments with
    | nil =>
        cases htokens
        exact absurd rfl hend
    | cons a assignments =>
        obtain ⟨key, value⟩ := a
        cases htokens
        obtain ⟨hval, hun⟩ := List.forall_mem_cons.mp hun
        rw [assign] at hassign
        split at hassign
        · rename_i request'' env'' hset
          refine ⟨key, _, keyOf_eq_some.mpr rfl, rfl, value, _, request'', env'', rfl, hval, hset, ?_⟩
          exact ⟨assignments, request', env', rest, new', rfl, hun, hassign, hvalid, hrest, rfl⟩
        · cases hassign
  · rintro ⟨key, _, hkey, rfl, value, _, request'', env'', rfl, hval, hset, assignments, request', env',
      rest, new', rfl, hun, hassign, hvalid, hrest, rfl⟩
    obtain rfl := keyOf_eq_some.mp hkey
    refine ⟨(key, value) :: assignments, request', env', rest, new', rfl, ?_, ?_, hvalid, hrest, rfl⟩
    · exact List.forall_mem_cons.mpr ⟨hval, hun⟩
    · rw [assign, hset]
      exact hassign

end Grammar

/-! ### Runs of the parser -/

section Accept

variable {keys : RadixNode} {n : ℕ} {state : Parser} {reqVec out : List VmRequest}
  {token : List UInt8} {tokens : List (List UInt8)}

/-- The parser takes all tokens and is then between two sections. -/
def Accepts (keys : RadixNode) (state : Parser) (reqVec : List VmRequest)
    (tokens : List (List UInt8)) (out : List VmRequest) : Prop :=
  ∃ state', feed enoughMemory keys state reqVec tokens = .ok (.again state' out) ∧
    state'.tokenState = .searchStartMarker

/-- In every round the length of the token that the parser looks at is an `int`. -/
def ShortTokens (keys : RadixNode) : Parser → List VmRequest → List (List UInt8) → Prop
  | _, _, [] => True
  | state, reqVec, token :: tokens =>
      FitsInt token ∧
        match parseRound enoughMemory keys state reqVec .token token with
        | .ok (.again state reqVec) => ShortTokens keys state reqVec tokens
        | _ => True

theorem accepts_again {state' : Parser} {reqVec' : List VmRequest}
    (h : parseRound enoughMemory keys state reqVec .token token = .ok (.again state' reqVec')) :
    Accepts keys state reqVec (token :: tokens) out ↔ Accepts keys state' reqVec' tokens out := by
  rw [Accepts, feed, h]
  rfl

theorem not_accepts_stop {result : ConfigParsingStatus} {reqVec' : List VmRequest}
    (h : parseRound enoughMemory keys state reqVec .token token = .ok (.stop result reqVec')) :
    ¬ Accepts keys state reqVec (token :: tokens) out := by
  rw [Accepts, feed, h]
  rintro ⟨state', heq, -⟩
  cases heq

theorem ShortTokens.again {state' : Parser} {reqVec' : List VmRequest}
    (hshort : ShortTokens keys state reqVec (token :: tokens))
    (h : parseRound enoughMemory keys state reqVec .token token = .ok (.again state' reqVec')) :
    ShortTokens keys state' reqVec' tokens := by
  have hnext := hshort.2
  rw [h] at hnext
  exact hnext

/-- What the tokens have to be in a state of the parser. -/
def Described (state : Parser) (tokens : List (List UInt8)) (new : List VmRequest) : Prop :=
  match state.tokenState with
  | .searchStartMarker =>
      state.request = VmRequest.zero state.request.id ∧
        IsSections state.env state.request.id tokens new
  | .searchConfigEntryStart => IsRest state.env state.request tokens new
  | .searchEntryDelim => ∃ rest, tokens = configSectionDelim :: rest ∧
      IsValue state.env state.request state.key rest new
  | .searchEntryVal => IsValue state.env state.request state.key tokens new

theorem accepts_nil : Accepts keys state reqVec [] out ↔
    state.tokenState = .searchStartMarker ∧ out = reqVec := by
  constructor
  · rintro ⟨state', heq, hstate⟩
    cases heq
    exact ⟨hstate, rfl⟩
  · rintro ⟨hstate, rfl⟩
    exact ⟨state, rfl, hstate⟩

/-- Between two sections the request is a new one. -/
def Fresh (state : Parser) : Prop :=
  state.tokenState = .searchStartMarker → state.request = VmRequest.zero state.request.id

theorem fresh_of_ne (h : state.tokenState ≠ .searchStartMarker) : Fresh state :=
  fun hstate => absurd hstate h

/-- The parser takes the tokens that its state calls for, from any state. -/
def Exact (keys : RadixNode) (tokens : List (List UInt8)) (out : List VmRequest) : Prop :=
  ∀ state reqVec, ShortTokens keys state reqVec tokens → Fresh state → reqVec.length ≤ 512 →
    (Accepts keys state reqVec tokens out ↔
      ∃ new, Described state tokens new ∧ out = reqVec ++ new ∧ out.length ≤ 512)

theorem exact_nil (keys : RadixNode) (out : List VmRequest) : Exact keys [] out := by
  intro state reqVec _ hfresh hlen
  rw [accepts_nil]
  unfold Described
  cases hstate : state.tokenState with
  | searchStartMarker =>
      simp only [isSections_nil, true_and, and_assoc, exists_and_left]
      constructor
      · rintro rfl
        exact ⟨hfresh hstate, [], rfl, by simp, hlen⟩
      · rintro ⟨-, new, rfl, rfl, -⟩
        simp
  | searchConfigEntryStart => simp [not_isRest_nil]
  | searchEntryDelim => simp
  | searchEntryVal => simp [IsValue]

section Round

variable (hnul : 0 ∉ token) (hshort : ShortTokens keys state reqVec (token :: tokens)) (hfresh : Fresh state)
  (hlen : reqVec.length ≤ 512) (ih : Exact keys tokens out)
include hnul hshort hlen ih

include hfresh in
theorem accepts_start (hstate : state.tokenState = .searchStartMarker) :
    Accepts keys state reqVec (token :: tokens) out ↔
      ∃ new, (state.request = VmRequest.zero state.request.id ∧
        IsSections state.env state.request.id (token :: tokens) new) ∧ out = reqVec ++ new ∧ out.length ≤ 512 := by
  have hround := parseRound_start keys reqVec hstate hshort.1 hnul
  by_cases htoken : token = configSectionStart
  · rw [if_pos htoken] at hround
    rw [accepts_again hround, ih _ _ (hshort.again hround) (fresh_of_ne (by simp)) hlen]
    simp only [Described, isSections_cons, htoken, true_and, ← hfresh hstate]
  · rw [if_neg htoken] at hround
    simp only [isSections_cons, htoken, false_and, and_false, exists_false, not_accepts_stop hround]

omit hnul in
theorem accepts_end (hstate : state.tokenState = .searchConfigEntryStart) (htoken : token = configSectionEnd) :
    Accepts keys state reqVec (token :: tokens) out ↔
      ∃ new, IsRest state.env state.request (token :: tokens) new ∧ out = reqVec ++ new ∧ out.length ≤ 512 := by
  subst htoken
  have hround := parseRound_end keys reqVec hstate
  simp only [isRest_end]
  by_cases hvalid : validConfigRequest state.request = true
  · rw [if_pos hvalid] at hround
    by_cases hfull : 512 ≤ reqVec.length
    · rw [if_pos hfull] at hround
      constructor
      · rintro ⟨state', heq, -⟩
        rw [feed, hround] at heq
        cases heq
      · rintro ⟨_, ⟨-, new', -, rfl⟩, rfl, hle⟩
        rw [List.length_append, List.length_cons] at hle
        omega
    · rw [if_neg hfull] at hround
      have hlen' : (reqVec ++ [state.request]).length ≤ 512 := by
        rw [List.length_append, List.length_singleton]
        omega
      rw [accepts_again hround, ih _ _ (hshort.again hround) (fun _ => rfl) hlen']
      simp only [Described, VmRequest.zero, true_and, hvalid]
      constructor
      · rintro ⟨new, hnew, rfl, hle⟩
        exact ⟨state.request :: new, ⟨new, hnew, rfl⟩, by simp, hle⟩
      · rintro ⟨_, ⟨new, hnew, rfl⟩, rfl, hle⟩
        exact ⟨new, hnew, by simp, hle⟩
  · rw [if_neg hvalid] at hround
    simp [hvalid, not_accepts_stop hround]

theorem accepts_key (hkeys : getConfigKeyRadix enoughMemory = some (keys, n))
    (hstate : state.tokenState = .searchConfigEntryStart) (htoken : token ≠ configSectionEnd) :
    Accepts keys state reqVec (token :: tokens) out ↔
      ∃ new, IsRest state.env state.request (token :: tokens) new ∧ out = reqVec ++ new ∧ out.length ≤ 512 := by
  have hround := parseRound_key reqVec hkeys hstate hshort.1 hnul htoken
  simp only [isRest_cons htoken]
  cases hkey : keyOf token with
  | none =>
      rw [hkey] at hround
      simp [not_accepts_stop hround]
  | some key =>
      rw [hkey] at hround
      rw [accepts_again hround, ih _ _ (hshort.again hround) (fresh_of_ne (by simp)) hlen]
      simp only [Described, Option.some.injEq, exists_eq_left', exists_and_left]

theorem accepts_delim (hstate : state.tokenState = .searchEntryDelim) :
    Accepts keys state reqVec (token :: tokens) out ↔
      ∃ new, (∃ rest, token :: tokens = configSectionDelim :: rest ∧
        IsValue state.env state.request state.key rest new) ∧ out = reqVec ++ new ∧ out.length ≤ 512 := by
  have hround := parseRound_delim keys reqVec hstate hshort.1 hnul
  by_cases htoken : token = configSectionDelim
  · rw [if_pos htoken] at hround
    rw [accepts_again hround, ih _ _ (hshort.again hround) (fresh_of_ne (by simp)) hlen]
    simp [Described, htoken]
  · rw [if_neg htoken] at hround
    simp [htoken, not_accepts_stop hround]

theorem accepts_val (hstate : state.tokenState = .searchEntryVal) :
    Accepts keys state reqVec (token :: tokens) out ↔
      ∃ new, IsValue state.env state.request state.key (token :: tokens) new ∧ out = reqVec ++ new ∧
        out.length ≤ 512 := by
  have hround := parseRound_val keys reqVec hstate hshort.1 hnul
  by_cases hres : token ∈ reservedTokens
  · rw [if_pos hres] at hround
    simp [IsValue, hres, not_accepts_stop hround]
  · rw [if_neg hres] at hround
    rcases hset : setVmRequestVal enoughMemory state.env state.request state.key token with
      ⟨success, request, env⟩
    rw [hset] at hround
    cases success with
    | false => simp [IsValue, hset, not_accepts_stop hround]
    | true =>
        rw [accepts_again hround, ih _ _ (hshort.again hround) (fresh_of_ne (by simp)) hlen]
        simp [Described, IsValue, hset, hres]

end Round

/-- **Runs of the parser.** It takes the tokens that its state calls for, and no others. -/
theorem accepts_iff_described (hkeys : getConfigKeyRadix enoughMemory = some (keys, n))
    (hnul : ∀ t ∈ tokens, 0 ∉ t) (hshort : ShortTokens keys state reqVec tokens)
    (hfresh : Fresh state) (hlen : reqVec.length ≤ 512) :
    Accepts keys state reqVec tokens out ↔
      ∃ new, Described state tokens new ∧ out = reqVec ++ new ∧ out.length ≤ 512 := by
  suffices hexact : Exact keys tokens out from hexact _ _ hshort hfresh hlen
  clear hshort hfresh hlen
  induction tokens with
  | nil => exact exact_nil keys out
  | cons token tokens ih =>
      obtain ⟨hnul, hnul'⟩ := List.forall_mem_cons.mp hnul
      intro state reqVec hshort hfresh hlen
      unfold Described
      cases hstate : state.tokenState with
      | searchStartMarker => exact accepts_start hnul hshort hfresh hlen (ih hnul') hstate
      | searchConfigEntryStart =>
          by_cases htoken : token = configSectionEnd
          · exact accepts_end hshort hlen (ih hnul') hstate htoken
          · exact accepts_key hnul hshort hlen (ih hnul') hkeys hstate htoken
      | searchEntryDelim => exact accepts_delim hnul hshort hlen (ih hnul') hstate
      | searchEntryVal => exact accepts_val hnul hshort hlen (ih hnul') hstate

end Accept

/-! ### The grammar -/

section Main

variable {keys : RadixNode} {n : ℕ} {bytes : List UInt8} {reqVec : List VmRequest}

theorem handle_ne_doneSuccess {alloc : ℕ → Bool} {state state' : Parser} {token : List UInt8} :
    handle alloc keys state .token token ≠ .ok (.doneSuccess, state') := by
  intro h
  unfold handle at h
  cases hstate : state.tokenState <;> rw [hstate] at h
  case searchStartMarker =>
      simp only [handleSearchStartMarker, reduceCtorEq, if_false] at h
      split at h
      · cases h
      · cases htoken : getToken token <;> rw [htoken] at h <;> cases h
  case searchConfigEntryStart =>
      simp only [handleSearchConfigEntryStart, reduceCtorEq, if_false] at h
      split at h
      · cases h
      · cases htoken : getToken token <;> rw [htoken] at h
        · cases h
        · simp only [bind, Except.bind] at h
          split at h
          · cases h
          · cases h
          · split at h <;> cases h
  case searchEntryDelim =>
      simp only [handleSearchDelim, reduceCtorEq, if_false] at h
      split at h
      · cases h
      · cases htoken : getToken token <;> rw [htoken] at h <;> cases h
  case searchEntryVal =>
      simp only [handleSearchValue, reduceCtorEq, if_false] at h
      split at h
      · cases h
      · cases htoken : getToken token <;> rw [htoken] at h
        · cases h
        · simp only [bind, Except.bind] at h
          split at h <;> cases h

theorem feed_ne_success {alloc : ℕ → Bool} {state : Parser} {v out : List VmRequest}
    {tokens : List (List UInt8)} : feed alloc keys state v tokens ≠ .ok (.stop .success out) := by
  induction tokens generalizing state v with
  | nil => simp [feed]
  | cons token tokens ih =>
      rw [feed]
      split
      · exact ih
      · intro h
        rw [parseRound, if_neg (by decide)] at h
        cases hhandle : handle alloc keys state .token token with
        | error fault =>
            rw [hhandle] at h
            cases h
        | ok r =>
            obtain ⟨parsingState, state'⟩ := r
            rw [hhandle] at h
            simp only [bind, Except.bind] at h
            cases parsingState with
            | «continue» => cases h
            | doneSuccess => exact handle_ne_doneSuccess hhandle
            | stopError => cases h
            | configEntryCompleted =>
                simp only [pushBackVmReqVector] at h
                split at h
                · split at h
                  · cases h
                  · cases h
                · cases h

theorem success_iff_accepts (hdone : (tokensOf configOps bytes).2 = .done) :
    (∃ last, parseVmConfigFile enoughMemory keys (configFile bytes) =
        .ok ⟨.success, reqVec, last⟩) ↔
      Accepts keys Parser.init [] (tokensOf configOps bytes).1 reqVec := by
  have hspec := parseVmConfigFile_spec enoughMemory keys bytes
  rw [hdone] at hspec
  unfold Accepts
  cases hfeed : feed enoughMemory keys Parser.init [] (tokensOf configOps bytes).1 with
  | error fault =>
      rw [hfeed] at hspec
      rw [show parseVmConfigFile .. = _ from hspec]
      simp
  | ok round =>
      rw [hfeed] at hspec
      cases round with
      | stop result v =>
          obtain ⟨last, hparse, -⟩ := hspec
          rw [hparse]
          constructor
          · rintro ⟨last', heq⟩
            cases heq
            exact absurd hfeed feed_ne_success
          · rintro ⟨state', heq, -⟩
            cases heq
      | again state v =>
          obtain ⟨last, hparse, -⟩ := hspec
          rw [hparse]
          constructor
          · rintro ⟨last', heq⟩
            simp only [Except.ok.injEq, Parsed.mk.injEq] at heq
            obtain ⟨hstate, rfl, -⟩ := heq
            refine ⟨state, rfl, ?_⟩
            by_contra hne
            rw [if_neg hne] at hstate
            cases hstate
          · rintro ⟨state', heq, hstate⟩
            cases heq
            rw [if_pos hstate]
            exact ⟨last, rfl⟩

theorem requests_ids {env : Env} {id : ℤ} {sections : List (List Assignment)}
    (h : requests env id sections = some reqVec) :
    reqVec.map VmRequest.id = (List.range sections.length).map fun i : ℕ => id + i := by
  induction sections generalizing env id reqVec with
  | nil =>
      cases h
      rfl
  | cons assignments sections ih =>
      obtain ⟨request, env', new, hassign, -, hnew, rfl⟩ := requests_cons.mp h
      rw [List.map_cons, ih hnew, assign_id hassign, List.length_cons, List.range_succ_eq_map,
        List.map_cons, List.map_map]
      simp only [VmRequest.zero, Function.comp_def, Nat.cast_zero, add_zero, Nat.succ_eq_add_one,
        Nat.cast_add, Nat.cast_one, add_assoc, add_comm (1 : ℤ)]

/-- **The grammar.** If every token that the parser looks at has a length that is an `int`, the parser
is successful exactly on the configurations of at most 512 sections that have a meaning, and returns
their requests. -/
theorem accepts_iff (hkeys : getConfigKeyRadix enoughMemory = some (keys, n))
    (hdone : (tokensOf configOps bytes).2 = .done) (hnul : ∀ t ∈ (tokensOf configOps bytes).1, 0 ∉ t)
    (hshort : ShortTokens keys Parser.init [] (tokensOf configOps bytes).1) :
    (∃ last, parseVmConfigFile enoughMemory keys (configFile bytes) =
        .ok ⟨.success, reqVec, last⟩) ↔
      ∃ sections, sections.length ≤ 512 ∧ (tokensOf configOps bytes).1 = render sections ∧
        (∀ a ∈ sections, Unreserved a) ∧ requests Env.init 0 sections = some reqVec ∧
        reqVec.map VmRequest.id = (List.range sections.length).map fun i : ℕ => (i : ℤ) := by
  rw [success_iff_accepts hdone,
    accepts_iff_described hkeys hnul hshort (fun _ => rfl) (Nat.zero_le _)]
  have hids : ∀ {sections}, requests Env.init 0 sections = some reqVec →
      reqVec.map VmRequest.id = (List.range sections.length).map fun i : ℕ => (i : ℤ) := by
    intro sections h
    simpa using requests_ids h
  constructor
  · rintro ⟨_, ⟨-, sections, htokens, hun, hreq⟩, rfl, hle⟩
    have hlen := congrArg List.length (hids hreq)
    rw [List.length_map, List.length_map, List.length_range] at hlen
    exact ⟨sections, hlen ▸ hle, htokens, hun, hreq, hids hreq⟩
  · rintro ⟨sections, hle, htokens, hun, hreq, -⟩
    have hlen := congrArg List.length (hids hreq)
    rw [List.length_map, List.length_map, List.length_range] at hlen
    exact ⟨reqVec, ⟨rfl, sections, htokens, hun, hreq⟩, rfl, hlen ▸ hle⟩

end Main

/-- The line breaks and assignments of a small section, and its end. -/
def sampleRest : List UInt8 :=
  bytesOf "\nvm.name = ab\nvm.type = MIRROR_VMM\nvm.vcpus = 1\nvm.mem.size = 2\n[end]\n"

/-- The assignments of `sampleRest`. -/
def sampleAssignments : List Assignment :=
  [(.vmName, bytesOf "ab"), (.vmType, bytesOf "MIRROR_VMM"), (.vmVcpus, bytesOf "1"),
    (.vmMemSize, bytesOf "2")]

def sampleRequest : VmRequest :=
  { VmRequest.zero 0 with name := some (bytesOf "ab"), type := .mirrorVmm, vcpus := 1, memSize := 2 }

theorem shortTokens_of_fits {keys : RadixNode} {state : Parser} {reqVec : List VmRequest}
    {tokens : List (List UInt8)} (h : ∀ t ∈ tokens, FitsInt t) :
    ShortTokens keys state reqVec tokens := by
  induction tokens generalizing state reqVec with
  | nil => trivial
  | cons token tokens ih =>
      obtain ⟨htoken, htokens⟩ := List.forall_mem_cons.mp h
      refine ⟨htoken, ?_⟩
      split
      · exact ih htokens
      · trivial

theorem getConfigKeyRadix_isSome : ∃ keys n, getConfigKeyRadix enoughMemory = some (keys, n) := by
  have hfits : ∀ a ∈ keyInsertions, FitsInt a.1 := by
    unfold FitsInt
    decide
  obtain ⟨s, hs, -⟩ := addCalls_spec hfits
  rw [keyInsertions, List.foldlM_map] at hs
  exact ⟨s.1, s.2, hs⟩

theorem tokensOf_sampleRest : tokensOf configOps sampleRest =
    (renderAssignments sampleAssignments ++ [configSectionEnd], .done) := by
  rw [tokensOf_eq_within (le_refl sampleRest.length)]
  decide +kernel

theorem requests_sample : requests Env.init 0 [sampleAssignments] = some [sampleRequest] := by
  rfl

theorem unreserved_sample : Unreserved sampleAssignments := by
  unfold Unreserved
  decide

/-- A file with one section. -/
theorem accepts_iff_sample : ∃ keys n, getConfigKeyRadix enoughMemory = some (keys, n) ∧
    ∃ last, parseVmConfigFile enoughMemory keys (configFile (configSectionStart ++ sampleRest)) =
      .ok ⟨.success, [sampleRequest], last⟩ := by
  obtain ⟨keys, n, hkeys⟩ := getConfigKeyRadix_isSome
  have htokens : tokensOf configOps (configSectionStart ++ sampleRest) =
      (render [sampleAssignments], .done) := by
    have hnext : nextToken configOps (configSectionStart ++ sampleRest) =
        .token configSectionStart sampleRest := by
      rfl
    rw [tokensOf_token hnext, tokensOf_sampleRest]
    rfl
  refine ⟨keys, n, hkeys, (accepts_iff hkeys ?_ ?_ ?_).mpr ?_⟩
  · rw [htokens]
  · rw [htokens]
    decide
  · rw [htokens]
    apply shortTokens_of_fits
    unfold FitsInt
    decide
  · rw [htokens]
    refine ⟨[sampleAssignments], by decide, rfl, ?_, requests_sample, rfl⟩
    simpa using unreserved_sample

/-! ### A token that is too long -/

/-- `[start]`, followed by `2 ^ 32` letters. -/
def longStart : List UInt8 := configSectionStart ++ List.replicate (2 ^ 32) 97

theorem length_longStart : longStart.length = 7 + 2 ^ 32 := by
  rw [longStart, List.length_append, List.length_replicate]
  rfl

theorem scanWord_replicate (text rest : List UInt8) (m : ℕ) :
    scanWord configOps text (List.replicate m 97 ++ lineBreak :: rest) =
      .token (text ++ List.replicate m 97) (lineBreak :: rest) := by
  induction m generalizing text with
  | zero => simp [scanWord]
  | succ m ih =>
      have hletter : (97 = lineBreak || isConfigWhitespace 97 || isConfigDelim 97) = false := by
        decide
      have hvalid : isValidConfigTokenChar 97 = true := by decide
      rw [List.replicate_succ, List.cons_append, scanWord]
      simp only [configOps, hletter, hvalid, Bool.false_eq_true, if_false, if_true]
      rw [show (⟨isConfigWhitespace, isConfigDelim, isValidConfigTokenChar⟩ : MemFileOps) =
        configOps from rfl, ih]
      simp

theorem nextToken_start_replicate (rest : List UInt8) (m : ℕ) :
    nextToken configOps (configSectionStart ++ List.replicate m 97 ++ lineBreak :: rest) =
      .token (configSectionStart ++ List.replicate m 97) (lineBreak :: rest) := by
  rw [List.append_assoc]
  exact scanWord_replicate configSectionStart rest m

theorem isTokenEqualTo_longStart : isTokenEqualTo configSectionStart longStart = true := by
  have hlen : int32 (7 + 2 ^ 32) = int32 configSectionStart.length := by decide
  have hnul : (0 : UInt8) ∉ configSectionStart := by decide
  rw [isTokenEqualTo, length_longStart, Bool.and_eq_true, decide_eq_true_iff, decide_eq_true_iff]
  refine ⟨hlen, (strncmp_eq_zero hnul ?_).mpr ?_⟩
  · rw [longStart, List.length_append]
    exact Nat.le_add_right ..
  · rw [longStart, List.take_left]

/-- **A file outside of the grammar is accepted.** Its first token is not `[start]`, but has the same
length as an `int`. -/
theorem long_start_is_accepted : ∃ keys n, getConfigKeyRadix enoughMemory = some (keys, n) ∧
    tokensOf configOps (longStart ++ sampleRest) =
      (longStart :: (renderAssignments sampleAssignments ++ [configSectionEnd]), .done) ∧
    (∃ last, parseVmConfigFile enoughMemory keys (configFile (longStart ++ sampleRest)) =
      .ok ⟨.success, [sampleRequest], last⟩) ∧
    ∀ sections, (tokensOf configOps (longStart ++ sampleRest)).1 ≠ render sections := by
  obtain ⟨keys, n, hkeys⟩ := getConfigKeyRadix_isSome
  have hnext : nextToken configOps (longStart ++ sampleRest) = .token longStart sampleRest := by
    have hbreak : sampleRest = lineBreak :: sampleRest.tail := by rfl
    rw [longStart, hbreak]
    exact nextToken_start_replicate sampleRest.tail _
  have htokens : tokensOf configOps (longStart ++ sampleRest) =
      (longStart :: (renderAssignments sampleAssignments ++ [configSectionEnd]), .done) := by
    rw [tokensOf_token hnext, tokensOf_sampleRest]
  refine ⟨keys, n, hkeys, htokens, ?_, ?_⟩
  · rw [success_iff_accepts (by rw [htokens]), htokens]
    have hround : parseRound enoughMemory keys Parser.init [] .token longStart =
        .ok (.again { Parser.init with tokenState := .searchConfigEntryStart } []) := by
      rw [parseRound, if_neg (by decide), handle, handleSearchStartMarker, if_neg (by decide),
        if_pos isTokenEqualTo_longStart]
      rfl
    have hfresh : Fresh { Parser.init with tokenState := .searchConfigEntryStart } :=
      fresh_of_ne (by simp)
    rw [accepts_again hround, accepts_iff_described hkeys (by decide)
      (shortTokens_of_fits (by unfold FitsInt; decide)) hfresh (Nat.zero_le _)]
    refine ⟨[sampleRequest], ?_, rfl, by decide⟩
    refine ⟨sampleAssignments, sampleRequest, ⟨fun _ => -1, 1⟩, [], [], rfl, unreserved_sample, rfl,
      by decide, isSections_nil.mpr rfl, rfl⟩
  · intro sections hrender
    rw [htokens] at hrender
    have hlen : longStart = configSectionStart := by
      cases sections with
      | nil => cases hrender
      | cons assignments sections =>
          rw [render_cons] at hrender
          exact (List.cons.inj hrender).1
    have := congrArg List.length hlen
    rw [length_longStart] at this
    revert this
    decide

end HyveMind.VmConfig
