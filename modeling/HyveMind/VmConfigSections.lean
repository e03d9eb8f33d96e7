import HyveMind.VmConfigRun

/-! # From sections to configurations

`sectionsOf` reads the sections of a text as lists of assignments, without looking at the values.
Every request of an accepted file is what its section means (`Means`): in each field the last
assignment of the key counts.

`valid_config_request` and the conversions do not agree on the command line of a Linux guest: the
first does not ask for it, the second copies it.  `getVmConfigs_iff` says that an accepted file is
converted as it is written exactly if every section for a Linux guest has a command line. -/

namespace HyveMind.VmConfig

open Lib MemFile RadixNode

variable {keys : RadixNode} {n : ℕ} {state : Parser} {token value : List UInt8}
variable {reqVec : List VmRequest} {request request' : VmRequest} {env env' : Env} {key : ConfigKey}
variable {assignments : List Assignment} {mods : List LimineFile}

/-! ### Reading the sections -/

/-- The string that `get_token` copies. -/
def textOf (token : List UInt8) : List UInt8 := cstr (token.take (int32 token.length).toNat)

theorem textOf_eq (h : getToken token = .ok value) : textOf token = value := by
  unfold getToken at h
  split_ifs at h
  exact Except.ok.inj h

/-- A reader of tokens, with the assignments of the section that it is in and the sections before. -/
structure Reader where
  tokenState : TokenState
  key : ConfigKey
  current : List Assignment
  sections : List (List Assignment)

/-- The reader at the beginning of the file. -/
def Reader.init : Reader := ⟨.searchStartMarker, .vmName, [], []⟩

/-- The next token. -/
def Reader.read (r : Reader) (token : List UInt8) : Reader :=
  match r.tokenState with
  | .searchStartMarker => { r with tokenState := .searchConfigEntryStart }
  | .searchConfigEntryStart =>
      if isTokenEqualTo configSectionEnd token then
        ⟨.searchStartMarker, r.key, [], r.sections ++ [r.current]⟩
      else { r with key := (keyOf (textOf token)).getD r.key, tokenState := .searchEntryDelim }
  | .searchEntryDelim => { r with tokenState := .searchEntryVal }
  | .searchEntryVal =>
      { r with
        current := r.current ++ [(r.key, textOf token)], tokenState := .searchConfigEntryStart }

/-- The sections of a text. -/
def sectionsOf (bytes : List UInt8) : List (List Assignment) :=
  ((tokensOf configOps bytes).1.foldl Reader.read Reader.init).sections

/-! ### The meaning of a section -/

/-- The value of a key in a section. -/
def lastValue (key : ConfigKey) (assignments : List Assignment) : Option (List UInt8) :=
  assignments.foldl (fun v a => if a.1 = key then some a.2 else v) none

theorem lastValue_concat (key : ConfigKey) (a : Assignment) :
    lastValue key (assignments ++ [a]) = if a.1 = key then some a.2 else lastValue key assignments := by
  rw [lastValue, List.foldl_append]
  rfl

/-- The request that a section means. -/
structure Means (assignments : List Assignment) (request : VmRequest) : Prop where
  name : request.name = lastValue .vmName assignments
  type : request.type =
    ((lastValue .vmType assignments).bind getGuestTypeFromString).getD .unspecified
  vcpus : request.vcpus =
    ((lastValue .vmVcpus assignments).map fun text => (strtoul text).1 % 2 ^ 32).getD 0
  memSize : request.memSize =
    ((lastValue .vmMemSize assignments).map fun text => (strtoul text).1 % 2 ^ 32).getD 0
  granularity : request.granularity =
    ((lastValue .vmMemGranularity assignments).bind getMemGranularityFromString).getD .bytes
  bzImageName : request.bzImageName = lastValue .vmBootLinuxBzimage assignments
  initramfsName : request.initramfsName = lastValue .vmBootLinuxInitramfs assignments
  cmdlineStr : request.cmdlineStr = lastValue .vmBootLinuxCmdline assignments
  serialId : request.serialId =
    ((lastValue .vmDevSerial assignments).map fun text => (int32 (strtoul text).1).toNat).getD 0

theorem means_nil (id : ℤ) : Means [] (VmRequest.zero id) := by
  constructor <;> rfl

theorem Means.assign (h : Means assignments request)
    (hset : setVmRequestVal enoughMemory env request key value = (true, request', env')) :
    Means (assignments ++ [(key, value)]) request' := by
  obtain ⟨hname, htype, hvcpus, hmemSize, hgranularity, hbzImage, hinitramfs, hcmdline, hserial⟩ := h
  cases key
  case vmType | vmMemGranularity =>
      simp only [setVmRequestVal] at hset
      split at hset
      · cases hset
      · next v hv =>
          cases hset
          constructor <;> simp [lastValue_concat, *]
  case vmDevSerial =>
      simp only [setVmRequestVal] at hset
      split_ifs at hset
      · cases hset
      · cases hset
        constructor <;> simp [lastValue_concat, *]
      · cases hset
  all_goals
    simp only [setVmRequestVal, strdupNt, if_true] at hset
    obtain ⟨-, rfl, -⟩ := Prod.mk.injEq .. ▸ hset
    constructor <;> simp [lastValue_concat, *]

theorem mem_of_lastValue (h : lastValue key assignments = some value) :
    (key, value) ∈ assignments := by
  induction assignments using List.reverseRecOn with
  | nil => cases h
  | append_singleton assignments a ih =>
      rw [lastValue_concat] at h
      split_ifs at h with hkey
      · rw [← hkey, ← Option.some.inj h]
        exact List.mem_append_right _ (List.mem_singleton_self a)
      · exact List.mem_append_left _ (ih h)

/-! ### The reader and the parser -/

/-- The reader has read what the parser has parsed. -/
structure Follows (r : Reader) (s : Parser × List VmRequest) : Prop where
  tokenState : r.tokenState = s.1.tokenState
  key : r.key = s.1.key
  current : Means r.current s.1.request
  sections : List.Forall₂ (fun a req => Means a req ∧ validConfigRequest req = true) r.sections s.2
  strings : ∀ a ∈ r.sections ++ [r.current], ∀ x ∈ a, 0 ∉ x.2

theorem follows_init : Follows Reader.init (Parser.init, []) where
  tokenState := rfl
  key := rfl
  current := means_nil 0
  sections := .nil
  strings := by simp [Reader.init]

/-- The key that the parser finds is the one with that text. -/
theorem keyOf_of_get (hkeys : getConfigKeyRadix enoughMemory = some (keys, n)) {text name : List UInt8}
    {keyVal : ℕ} (hget : radixTreeGet keys text = some (some keyVal))
    (hkey : configKeyStrings[keyVal]? = some (key, name)) : keyOf text = some key := by
  rw [radixTreeGet_keys hkeys, Option.some.injEq] at hget
  cases hk : keyOf text with
  | none =>
      rw [lastAdded_of_keyOf_none hk] at hget
      cases hget
  | some k =>
      obtain ⟨i, hlast, hi⟩ := lastAdded_key k
      rw [← keyOf_eq_some.mp hk, hget, Option.some.injEq] at hlast
      rw [← hlast, hkey, Option.some.injEq, Prod.mk.injEq] at hi
      rw [hi.1]

theorem nul_notMem_textOf (token : List UInt8) : 0 ∉ textOf token := by
  intro h
  have := List.mem_takeWhile_imp h
  simp at this

theorem Follows.moves (hkeys : getConfigKeyRadix enoughMemory = some (keys, n)) {r : Reader}
    {s s' : Parser × List VmRequest} (f : Follows r s) (h : Moves enoughMemory keys s token s') :
    Follows (r.read token) s' := by
  cases h with
  | start hs =>
      rw [Reader.read, f.tokenState.trans hs]
      exact ⟨rfl, f.key, f.current, f.sections, f.strings⟩
  | key hs hend htext hget hkey =>
      rw [Reader.read, f.tokenState.trans hs]
      simp only [hend, Bool.false_eq_true, if_false, textOf_eq htext, keyOf_of_get hkeys hget hkey,
        Option.getD_some]
      exact ⟨rfl, rfl, f.current, f.sections, f.strings⟩
  | delim hs =>
      rw [Reader.read, f.tokenState.trans hs]
      exact ⟨rfl, f.key, f.current, f.sections, f.strings⟩
  | value hs hvalue hset =>
      have hcurrent : Means r.current _ := f.current
      have hkey : r.key = _ := f.key
      rw [← hkey] at hset
      rw [Reader.read, f.tokenState.trans hs]
      refine ⟨rfl, f.key, ?_, f.sections, ?_⟩
      · rw [textOf_eq hvalue]
        exact hcurrent.assign hset
      · intro a ha x hx
        rcases List.mem_append.mp ha with ha | ha
        · exact f.strings a (List.mem_append_left _ ha) x hx
        · rw [List.mem_singleton.mp ha] at hx
          rcases List.mem_append.mp hx with hx | hx
          · exact f.strings _ (List.mem_append_right _ (List.mem_singleton_self _)) x hx
          · rw [List.mem_singleton.mp hx]
            exact nul_notMem_textOf token
  | finish hs hend hvalid =>
      rw [Reader.read, f.tokenState.trans hs]
      simp only [hend, if_true]
      refine ⟨rfl, f.key, means_nil _, ?_, ?_⟩
      · exact List.rel_append f.sections (.cons ⟨f.current, hvalid⟩ .nil)
      · intro a ha x hx
        rcases List.mem_append.mp ha with ha | ha
        · exact f.strings a ha x hx
        · rw [List.mem_singleton.mp ha] at hx
          cases hx

theorem follows_run (hkeys : getConfigKeyRadix enoughMemory = some (keys, n))
    {tokens : List (List UInt8)} {s : Parser × List VmRequest}
    (h : Run (Moves enoughMemory keys) (Parser.init, []) tokens s) :
    Follows (tokens.foldl Reader.read Reader.init) s := by
  induction h with
  | nil => exact follows_init
  | snoc hrun hmove ih =>
      rw [List.foldl_append]
      exact ih.moves hkeys hmove

/-- **The requests of an accepted file** are what its sections mean. -/
theorem means_of_success (hkeys : getConfigKeyRadix enoughMemory = some (keys, n))
    {bytes : List UInt8} {last : Seek}
    (h : parseVmConfigFile enoughMemory keys (configFile bytes) = .ok ⟨.success, reqVec, last⟩) :
    List.Forall₂ (fun a req => Means a req ∧ validConfigRequest req = true) (sectionsOf bytes) reqVec ∧
      ∀ a ∈ sectionsOf bytes, ∀ x ∈ a, 0 ∉ x.2 := by
  obtain ⟨state, hrun, -⟩ := run_of_success h
  have f := follows_run hkeys hrun
  exact ⟨f.sections, fun a ha => f.strings a (List.mem_append_left _ ha)⟩

/-! ### Converting the requests -/

/-- The section describes a Linux guest. -/
def IsLinux (assignments : List Assignment) : Prop :=
  (lastValue .vmType assignments).bind getGuestTypeFromString = some .linuxDirectBoot32bit

/-- The modules that the section names are there. -/
def ModulesPresent (mods : List LimineFile) (assignments : List Assignment) : Prop :=
  ∀ key ∈ [ConfigKey.vmBootLinuxBzimage, .vmBootLinuxInitramfs], ∀ name,
    lastValue key assignments = some name → (moduleNamed mods name).isSome

theorem modulesPresent_iff : ModulesPresent mods assignments ↔
    ∀ key ∈ [ConfigKey.vmBootLinuxBzimage, .vmBootLinuxInitramfs],
      ((lastValue key assignments).all fun name => (moduleNamed mods name).isSome) = true := by
  refine forall_congr' fun key => imp_congr_right fun _ => ?_
  cases lastValue key assignments <;> simp

/-- The address and the size of the module that the section names. -/
def NamesFile (mods : List LimineFile) (assignments : List Assignment) (key : ConfigKey)
    (info : FileInfo) : Prop :=
  ∃ name file, lastValue key assignments = some name ∧ moduleNamed mods name = some file ∧
    info = ⟨file.address, file.size⟩

/-- The configuration that a section describes. -/
structure Describes (mods : List LimineFile) (assignments : List Assignment) (config : Config) :
    Prop where
  name : ∃ name, lastValue .vmName assignments = some name ∧ config.name = some name
  type : config.type =
    ((lastValue .vmType assignments).bind getGuestTypeFromString).getD .unspecified
  nrVcpus : config.nrVcpus =
    ((lastValue .vmVcpus assignments).map fun text => (strtoul text).1 % 2 ^ 32).getD 0
  memSize : config.memSize =
    ((lastValue .vmMemSize assignments).map fun text => (strtoul text).1 % 2 ^ 32).getD 0
  granularity : config.granularity =
    ((lastValue .vmMemGranularity assignments).bind getMemGranularityFromString).getD .bytes
  uartInfo : config.uartInfo = serialDevices
    (((lastValue .vmDevSerial assignments).map fun text => (int32 (strtoul text).1).toNat).getD 0)
  bzImage : IsLinux assignments → NamesFile mods assignments .vmBootLinuxBzimage config.bzImage
  initramfs : IsLinux assignments → NamesFile mods assignments .vmBootLinuxInitramfs config.initramfs
  cmdlineStr : IsLinux assignments → ∃ cmdline,
    lastValue .vmBootLinuxCmdline assignments = some cmdline ∧ config.cmdlineStr = some cmdline ∧
      0 ∉ cmdline

theorem validConfigRequest_iff : validConfigRequest request = true ↔
    request.name ≠ none ∧ request.type ≠ .unspecified ∧ request.vcpus ≠ 0 ∧ request.memSize ≠ 0 ∧
      (request.type = .linuxDirectBoot32bit →
        request.bzImageName ≠ none ∧ request.initramfsName ≠ none) := by
  unfold validConfigRequest
  cases request.type <;> simp

theorem Means.isLinux_iff (h : Means assignments request) :
    request.type = .linuxDirectBoot32bit ↔ IsLinux assignments := by
  rw [h.type, IsLinux]
  cases (lastValue .vmType assignments).bind getGuestTypeFromString with
  | none => simp
  | some guestType => simp

/-- A configuration that was made is the one that the section describes. -/
theorem Means.describes (h : Means assignments request) (hstrings : ∀ x ∈ assignments, 0 ∉ x.2)
    {config : Config} (hconv : Becomes enoughMemory mods request config) :
    Describes mods assignments config := by
  obtain ⟨env, env', hconv⟩ := hconv
  have hdata := sameData_of_converted hconv
  obtain ⟨name, hname⟩ := exists_name hconv
  rw [vmReqToVmConfig_eq hname] at hconv
  have hboot : IsLinux assignments → ∃ bzImage initramfs cmdlineStr,
      LinuxBoot mods request bzImage initramfs cmdlineStr ∧ config.bzImage = bzImage ∧
        config.initramfs = initramfs ∧ config.cmdlineStr = some cmdlineStr := by
    intro hlinux
    rw [h.isLinux_iff.mpr hlinux] at hconv
    obtain ⟨bzImage, initramfs, cmdlineStr, hboot, rfl, -⟩ := getLinuxBootInfo_true hconv
    exact ⟨bzImage, initramfs, cmdlineStr, hboot, rfl, rfl, rfl⟩
  have hcopy : config.name = some name := by
    cases htype : request.type with
    | unspecified =>
        rw [htype] at hconv
        cases hconv
    | mirrorVmm =>
        rw [htype] at hconv
        cases hconv
        rfl
    | linuxDirectBoot32bit =>
        rw [htype] at hconv
        obtain ⟨_, _, _, -, rfl, -⟩ := getLinuxBootInfo_true hconv
        rfl
  refine ⟨⟨name, h.name ▸ hname, hcopy⟩, hdata.type.trans h.type, hdata.nrVcpus.trans h.vcpus,
    hdata.memSize.trans h.memSize, hdata.granularity.trans h.granularity,
    hdata.uartInfo.trans (by rw [h.serialId]), ?_, ?_, ?_⟩
  · intro hlinux
    obtain ⟨bzImage, -, -, ⟨⟨name, file, hfile⟩, -, -⟩, rfl, -, -⟩ := hboot hlinux
    exact ⟨name, file, h.bzImageName ▸ hfile⟩
  · intro hlinux
    obtain ⟨-, initramfs, -, ⟨-, ⟨name, file, hfile⟩, -⟩, -, rfl, -⟩ := hboot hlinux
    exact ⟨name, file, h.initramfsName ▸ hfile⟩
  · intro hlinux
    obtain ⟨-, -, cmdline, ⟨-, -, hcmd⟩, -, -, hcopied⟩ := hboot hlinux
    have hlast := h.cmdlineStr ▸ hcmd
    exact ⟨cmdline, hlast, hcopied, hstrings _ (mem_of_lastValue hlast)⟩

/-- An accepted request converts exactly if it has the command line that its type needs. -/
theorem Means.converts_iff (h : Means assignments request) (hvalid : validConfigRequest request = true)
    (hmods : IsLinux assignments → ModulesPresent mods assignments) :
    (∀ env, ∃ config env', vmReqToVmConfig enoughMemory mods request env = .ok (true, config, env')) ↔
      (IsLinux assignments → lastValue .vmBootLinuxCmdline assignments ≠ none) := by
  obtain ⟨hname, htype, -, -, hfiles⟩ := validConfigRequest_iff.mp hvalid
  constructor
  · intro hconv hlinux hnone
    obtain ⟨config, env', hconv⟩ := hconv Env.init
    obtain ⟨name, hname⟩ := exists_name hconv
    rw [vmReqToVmConfig_eq hname, h.isLinux_iff.mpr hlinux] at hconv
    obtain ⟨_, _, cmdline, hboot, -⟩ := getLinuxBootInfo_true hconv
    have hcmd := hboot.cmdline
    rw [h.cmdlineStr, hnone] at hcmd
    cases hcmd
  · intro hcmd env
    obtain ⟨name, hname⟩ := Option.ne_none_iff_exists'.mp hname
    rw [vmReqToVmConfig_eq hname]
    cases hguest : request.type with
    | unspecified => exact absurd hguest htype
    | mirrorVmm => exact ⟨_, _, rfl⟩
    | linuxDirectBoot32bit =>
        have hlinux := h.isLinux_iff.mp hguest
        obtain ⟨hbz, hir⟩ := hfiles hguest
        obtain ⟨bz, hbz⟩ := Option.ne_none_iff_exists'.mp hbz
        obtain ⟨ir, hir⟩ := Option.ne_none_iff_exists'.mp hir
        obtain ⟨cmdline, hcmdline⟩ := Option.ne_none_iff_exists'.mp (hcmd hlinux)
        obtain ⟨bzFile, hbzFile⟩ := Option.isSome_iff_exists.mp
          (hmods hlinux .vmBootLinuxBzimage (by simp) bz (h.bzImageName ▸ hbz))
        obtain ⟨irFile, hirFile⟩ := Option.isSome_iff_exists.mp
          (hmods hlinux .vmBootLinuxInitramfs (by simp) ir (h.initramfsName ▸ hir))
        exact ⟨_, _, getLinuxBootInfo_of_boot ⟨⟨bz, bzFile, hbz, hbzFile, rfl⟩,
          ⟨ir, irFile, hir, hirFile, rfl⟩, h.cmdlineStr.trans hcmdline⟩⟩

theorem convertRequests_total (h : ∀ r ∈ reqVec, ∀ env, ∃ config env',
      vmReqToVmConfig enoughMemory mods r env = .ok (true, config, env')) (acc : List Config)
    (env : Env) : ∃ configs, convertRequests enoughMemory mods reqVec acc env = .ok (some configs) := by
  induction reqVec generalizing acc env with
  | nil => exact ⟨acc, rfl⟩
  | cons r reqVec ih =>
      obtain ⟨hr, hreqs⟩ := List.forall_mem_cons.mp h
      obtain ⟨config, env', hconv⟩ := hr env
      obtain ⟨configs, hrest⟩ := ih hreqs (acc ++ [config]) env'
      refine ⟨configs, ?_⟩
      rw [convertRequests, hconv]
      exact hrest

section Main

variable {mem : ℕ → UInt8} {file : LimineFile} {last : Seek}

/-- All requests convert, and `get_vm_configs` returns the configurations that the sections of the
file describe, in their order.  (It returns the null pointer if there are none.) -/
structure Converted (mem : ℕ → UInt8) (mods : List LimineFile) (file : LimineFile)
    (reqVec : List VmRequest) : Prop where
  requests : ∀ r ∈ reqVec, ∀ env, ∃ config env',
    vmReqToVmConfig enoughMemory mods r env = .ok (true, config, env')
  configs : reqVec ≠ [] → ∃ configs,
    getVmConfigs enoughMemory enoughMemory mem mods = .ok (some configs) ∧
      List.Forall₂ (Describes mods) (sectionsOf (contents mem file)) configs

theorem getVmConfigs_eq (hkeys : getConfigKeyRadix enoughMemory = some (keys, n))
    (hfile : moduleNamed mods hyvemindConfigFile = some file)
    (hparse : parseVmConfigFile enoughMemory keys (configFile (contents mem file)) =
      .ok ⟨.success, reqVec, last⟩) (hne : reqVec ≠ []) :
    getVmConfigs enoughMemory enoughMemory mem mods =
      convertRequests enoughMemory mods reqVec [] ⟨fun _ => -1, 2⟩ := by
  have hreqs : getVmRequests enoughMemory mem mods = .ok (some reqVec) := by
    unfold getVmRequests
    rw [getLimineFile_some, hfile, hkeys]
    simp only [bind, Except.bind, Bool.and_self, if_true]
    rw [show (fun i => enoughMemory (n + 2 + i)) = enoughMemory from rfl, hparse]
    rfl
  have hlen : ¬ reqVec.length < 1 := by
    have := List.length_pos_of_ne_nil hne
    omega
  unfold getVmConfigs
  rw [hreqs]
  simp only [bind, Except.bind, hlen, if_false, Bool.and_self, if_true]

/-- **Every accepted file converts** exactly if every section for a Linux guest has a command line. -/
theorem getVmConfigs_iff (hkeys : getConfigKeyRadix enoughMemory = some (keys, n))
    (hfile : moduleNamed mods hyvemindConfigFile = some file)
    (hparse : parseVmConfigFile enoughMemory keys (configFile (contents mem file)) =
      .ok ⟨.success, reqVec, last⟩)
    (hmods : ∀ a ∈ sectionsOf (contents mem file), IsLinux a → ModulesPresent mods a) :
    Converted mem mods file reqVec ↔
      ∀ a ∈ sectionsOf (contents mem file), IsLinux a → lastValue .vmBootLinuxCmdline a ≠ none := by
  obtain ⟨hmeans, hstrings⟩ := means_of_success hkeys hparse
  constructor
  · intro hconv a ha
    obtain ⟨i, hi, rfl⟩ := List.getElem_of_mem ha
    have hlen : i < reqVec.length := hmeans.length_eq ▸ hi
    obtain ⟨hm, hvalid⟩ := hmeans.get hi hlen
    exact (hm.converts_iff hvalid (hmods _ ha)).mp (hconv.requests _ (List.getElem_mem hlen))
  · intro hcmd
    have hreqs : ∀ r ∈ reqVec, ∀ env, ∃ config env',
        vmReqToVmConfig enoughMemory mods r env = .ok (true, config, env') := by
      intro r hr
      obtain ⟨i, hi, rfl⟩ := List.getElem_of_mem hr
      have hlen : i < (sectionsOf (contents mem file)).length := hmeans.length_eq ▸ hi
      obtain ⟨hm, hvalid⟩ := hmeans.get hlen hi
      exact (hm.converts_iff hvalid (hmods _ (List.getElem_mem hlen))).mpr
        (hcmd _ (List.getElem_mem hlen))
    refine ⟨hreqs, fun hne => ?_⟩
    obtain ⟨configs, hcall⟩ := convertRequests_total hreqs [] ⟨fun _ => -1, 2⟩
    obtain ⟨new, rfl, hnew⟩ := forall₂_of_convertRequests hcall
    refine ⟨_, (getVmConfigs_eq hkeys hfile hparse hne).trans hcall, ?_⟩
    rw [List.forall₂_iff_get]
    refine ⟨hmeans.length_eq.trans hnew.length_eq, fun i h1 h2 => ?_⟩
    have hlen : i < reqVec.length := hmeans.length_eq ▸ h1
    exact (hmeans.get h1 hlen).1.describes (hstrings _ (List.getElem_mem h1)) (hnew.get hlen h2)

end Main

/-- The beginning of a section for a Linux guest. -/
def linuxVm : List UInt8 :=
  bytesOf "[start]\nvm.name = a\nvm.type = LINUX_DIRECT_BOOT_32BIT\nvm.vcpus = 1\nvm.mem.size = 1\n" ++
    bytesOf "vm.boot.linux.bzimage = bz\nvm.boot.linux.initramfs = ir\n"

/-- A Linux guest with a command line. -/
def withCmdline : List UInt8 := linuxVm ++ bytesOf "vm.boot.linux.cmdline = quiet\n[end]\n"

/-- A Linux guest without a command line. -/
def withoutCmdline : List UInt8 := linuxVm ++ bytesOf "[end]\n"

/-- The configuration file at address `0`. -/
def configModule (text : List UInt8) : LimineFile := ⟨hyvemindConfigFile, 0, text.length⟩

/-- The configuration file and the two files that `linuxVm` names. -/
def linuxModules (text : List UInt8) : List LimineFile :=
  [configModule text, ⟨bytesOf "bz", 4096, 1⟩, ⟨bytesOf "ir", 8192, 1⟩]

/-- A memory that starts with the text. -/
def memOf (text : List UInt8) : ℕ → UInt8 := fun a => text.getD a 0

/-- The assignments of `linuxVm`. -/
def linuxAssignments : List Assignment :=
  [(.vmName, bytesOf "a"), (.vmType, bytesOf "LINUX_DIRECT_BOOT_32BIT"), (.vmVcpus, bytesOf "1"),
    (.vmMemSize, bytesOf "1"), (.vmBootLinuxBzimage, bytesOf "bz"),
    (.vmBootLinuxInitramfs, bytesOf "ir")]

theorem contents_configModule (text : List UInt8) :
    contents (memOf text) (configModule text) = text := by
  refine List.ext_getElem (by simp [contents, configModule]) fun i h1 h2 => ?_
  simp [contents, configModule, memOf, h2]

theorem sectionsOf_withCmdline :
    sectionsOf withCmdline = [linuxAssignments ++ [(.vmBootLinuxCmdline, bytesOf "quiet")]] := by
  rw [sectionsOf, tokensOf_eq_within (le_refl withCmdline.length)]
  decide +kernel

theorem sectionsOf_withoutCmdline : sectionsOf withoutCmdline = [linuxAssignments] := by
  rw [sectionsOf, tokensOf_eq_within (le_refl withoutCmdline.length)]
  decide +kernel

/-- `withCmdline` is converted. -/
theorem getVmConfigs_iff_withCmdline : ∃ keys n reqVec last,
    getConfigKeyRadix enoughMemory = some (keys, n) ∧
      parseVmConfigFile enoughMemory keys (configFile withCmdline) = .ok ⟨.success, reqVec, last⟩ ∧
      reqVec.map VmRequest.vcpus = [1] ∧
      Converted (memOf withCmdline) (linuxModules withCmdline) (configModule withCmdline) reqVec := by
  obtain ⟨keys, n, reqVec, last, hkeys, hparse, hvcpus⟩ :=
    exists_success withCmdline VmRequest.vcpus [1] (by decide +kernel)
  refine ⟨keys, n, reqVec, last, hkeys, hparse, hvcpus, ?_⟩
  have hcontents := contents_configModule withCmdline
  refine (getVmConfigs_iff hkeys (by decide +kernel) (by rw [hcontents]; exact hparse) ?_).mpr ?_
  · intro a ha _
    rw [hcontents, sectionsOf_withCmdline, List.mem_singleton] at ha
    rw [ha, modulesPresent_iff]
    decide +kernel
  · rw [hcontents, sectionsOf_withCmdline]
    unfold IsLinux
    decide +kernel

/-- The parser accepts `withoutCmdline`, and `get_vm_configs` copies a string from the null pointer. -/
theorem missing_cmdline_is_copied : ∃ keys n reqVec last,
    getConfigKeyRadix enoughMemory = some (keys, n) ∧
      parseVmConfigFile enoughMemory keys (configFile withoutCmdline) =
        .ok ⟨.success, reqVec, last⟩ ∧
      (∀ a ∈ sectionsOf withoutCmdline, ModulesPresent (linuxModules withoutCmdline) a) ∧
      getVmConfigs enoughMemory enoughMemory (memOf withoutCmdline) (linuxModules withoutCmdline) =
        .error .outside ∧
      ¬ Converted (memOf withoutCmdline) (linuxModules withoutCmdline) (configModule withoutCmdline)
        reqVec := by
  obtain ⟨keys, n, reqVec, last, hkeys, hparse, hvcpus⟩ :=
    exists_success withoutCmdline VmRequest.vcpus [1] (by decide +kernel)
  have hcall : getVmConfigs enoughMemory enoughMemory (memOf withoutCmdline)
      (linuxModules withoutCmdline) = .error .outside := by
    have hfault : (match getVmConfigs enoughMemory enoughMemory (memOf withoutCmdline)
        (linuxModules withoutCmdline) with
      | .error fault => some fault
      | .ok _ => none) = some .outside := by decide +kernel
    cases hres : getVmConfigs enoughMemory enoughMemory (memOf withoutCmdline)
        (linuxModules withoutCmdline) with
    | error fault =>
        rw [hres] at hfault
        rw [Option.some.inj hfault]
    | ok configs =>
        rw [hres] at hfault
        cases hfault
  refine ⟨keys, n, reqVec, last, hkeys, hparse, ?_, hcall, fun hconv => ?_⟩
  · intro a ha
    rw [sectionsOf_withoutCmdline, List.mem_singleton] at ha
    rw [ha, modulesPresent_iff]
    decide +kernel
  · have hne : reqVec ≠ [] := by
      rintro rfl
      cases hvcpus
    obtain ⟨configs, hok, -⟩ := hconv.configs hne
    rw [hcall] at hok
    cases hok

end HyveMind.VmConfig
