import HyveMind.MemFile
import HyveMind.RadixTree

/-! # The configuration file

`vm_config.c`: the parser of the file that describes the VMs.  Its four states are driven by the
tokens that `seek_next_token` delivers; a section is collected in one request, which is checked and
copied into a vector at the end of the section. -/

namespace HyveMind

/-- `enum mem_granularity`. -/
inductive MemGranularity
  | bytes | kb | mb | gb
deriving DecidableEq, Repr

/-- `get_vm_config_req_bytes`. -/
def getVmConfigReqBytes (memSize : ℕ) : MemGranularity → ℕ
  | .bytes => memSize
  | .kb => u64 (memSize <<< 10)
  | .mb => u64 (memSize <<< 20)
  | .gb => u64 (memSize <<< 30)

namespace VmConfig

open MemFile RadixNode

/-- `enum guest_type`. -/
inductive GuestType
  | unspecified
  | mirrorVmm
  | linuxDirectBoot32bit
deriving DecidableEq, Repr

/-- `vm_type_strings`. -/
def vmTypeStrings : List (GuestType × List UInt8) :=
  [(.mirrorVmm, bytesOf "MIRROR_VMM"), (.linuxDirectBoot32bit, bytesOf "LINUX_DIRECT_BOOT_32BIT")]

/-- `mem_granularity_strings`. -/
def memGranularityStrings : List (MemGranularity × List UInt8) :=
  [(.bytes, bytesOf "bytes"), (.kb, bytesOf "kb"), (.mb, bytesOf "mb"), (.gb, bytesOf "gb")]

/-- `CONFIG_SECTION_START`. -/
def configSectionStart : List UInt8 := bytesOf "[start]"

/-- `CONFIG_SECTION_END`. -/
def configSectionEnd : List UInt8 := bytesOf "[end]"

/-- `CONFIG_SECTION_DELIM`. -/
def configSectionDelim : List UInt8 := bytesOf "="

/-- `reserved_tokens`. -/
def reservedTokens : List (List UInt8) := [configSectionStart, configSectionEnd, configSectionDelim]

/-- `enum config_key`. -/
inductive ConfigKey
  | vmName
  | vmType
  | vmVcpus
  | vmMemSize
  | vmMemGranularity
  | vmBootLinuxBzimage
  | vmBootLinuxInitramfs
  | vmBootLinuxCmdline
  | vmDevSerial
deriving DecidableEq, Repr

/-- `config_key_strings`, in the order of the enumeration. -/
def configKeyStrings : List (ConfigKey × List UInt8) :=
  [(.vmName, bytesOf "vm.name"), (.vmType, bytesOf "vm.type"), (.vmVcpus, bytesOf "vm.vcpus"),
    (.vmMemSize, bytesOf "vm.mem.size"), (.vmMemGranularity, bytesOf "vm.mem.granularity"),
    (.vmBootLinuxBzimage, bytesOf "vm.boot.linux.bzimage"),
    (.vmBootLinuxInitramfs, bytesOf "vm.boot.linux.initramfs"),
    (.vmBootLinuxCmdline, bytesOf "vm.boot.linux.cmdline"),
    (.vmDevSerial, bytesOf "vm.dev.serial")]

/-- `is_config_whitespace`. -/
def isConfigWhitespace (c : UInt8) : Bool :=
  c = ' '.toUInt8 || c = '\r'.toUInt8 || c = '\t'.toUInt8

/-- `is_config_delim`. -/
def isConfigDelim (c : UInt8) : Bool := c = '='.toUInt8

/-- `is_valid_config_token_char`. -/
def isValidConfigTokenChar (c : UInt8) : Bool :=
  'A'.toUInt8 ≤ c && c ≤ 'Z'.toUInt8 || 'a'.toUInt8 ≤ c && c ≤ 'z'.toUInt8 || isDigit c
    || c = '['.toUInt8 || c = ']'.toUInt8 || c = '-'.toUInt8 || c = '_'.toUInt8 || c = '.'.toUInt8

/-- The operations that `get_vm_config_file` sets. -/
def configOps : MemFileOps := ⟨isConfigWhitespace, isConfigDelim, isValidConfigTokenChar⟩

/-- `get_vm_config_file`: the cursor is at the beginning. -/
def configFile (bytes : List UInt8) : MemFile := ⟨bytes, 0, bytes.length, configOps⟩

/-! ### Requests -/

/-- `struct vm_request`. -/
structure VmRequest where
  id : ℤ
  name : Option (List UInt8)
  type : GuestType
  vcpus : ℕ
  memSize : ℕ
  granularity : MemGranularity
  bzImageName : Option (List UInt8)
  initramfsName : Option (List UInt8)
  cmdlineStr : Option (List UInt8)
  serialId : ℕ
deriving DecidableEq, Repr

/-- A request of zeros, but for its number. -/
def VmRequest.zero (id : ℤ) : VmRequest :=
  ⟨id, none, .unspecified, 0, 0, .bytes, none, none, none, 0⟩

/-- `valid_config_request`. -/
def validConfigRequest (request : VmRequest) : Bool :=
  if request.name = none then false
  else if request.type = .unspecified then false
  else if request.vcpus = 0 then false
  else if request.memSize = 0 then false
  else match request.type with
    | .linuxDirectBoot32bit =>
        if request.bzImageName = none then false else request.initramfsName ≠ none
    | _ => true

/-- The search in a table of strings that ends with a null pointer. -/
def lookupString {α : Type} (table : List (α × List UInt8)) (str : List UInt8) : Option α :=
  (table.find? fun entry => strcmp entry.2 str = 0).map Prod.fst

/-- `get_guest_type_from_string`; `none` is `-1`. -/
def getGuestTypeFromString (str : List UInt8) : Option GuestType := lookupString vmTypeStrings str

/-- `get_mem_granularity_from_string`; `none` is `-1`. -/
def getMemGranularityFromString (str : List UInt8) : Option MemGranularity :=
  lookupString memGranularityStrings str

/-- `is_only_digits`; `endptr` is a position in `value`. -/
def isOnlyDigits (value : List UInt8) (endptr : ℕ) (overflow : Bool) : Bool :=
  !((endptr = 0 || value.getD endptr 0 ≠ 0) && value.getD endptr 0 ≠ '-'.toUInt8 && !overflow)

/-- `is_positive_integer`, for the string in which `endptr` points. -/
def isPositiveInteger (number : ℤ) (value : List UInt8) (endptr : ℕ) (overflow : Bool) : Bool :=
  !(overflow || value.getD endptr 0 = '-'.toUInt8 || number = 0)

/-- `is_valid_serial_dev_id`. -/
def isValidSerialDevId (id : ℤ) : Bool := 1 ≤ id && id ≤ 3

/-- What requests share: the assignees of the serial devices, and how many allocations there were. -/
structure Env where
  assignee : ℕ → ℤ
  allocs : ℕ

/-- `serial_devices` before the file is parsed. -/
def Env.init : Env := ⟨fun _ => -1, 0⟩

variable (alloc : ℕ → Bool)

/-- `strdup_nt`. -/
def strdupNt (env : Env) (s : List UInt8) : Option (List UInt8) × Env :=
  (if alloc env.allocs then some s else none, { env with allocs := env.allocs + 1 })

/-- `set_vm_request_val`. -/
def setVmRequestVal (env : Env) (request : VmRequest) (key : ConfigKey) (value : List UInt8) :
    Bool × VmRequest × Env :=
  let (number, endptr, overflow) := strtoul value
  match key with
  | .vmName =>
      let (copy, env) := strdupNt alloc env value
      (true, { request with name := copy }, env)
  | .vmType =>
      match getGuestTypeFromString value with
      | none => (false, request, env)
      | some guestType => (true, { request with type := guestType }, env)
  | .vmVcpus =>
      let vcpus := number % 2 ^ 32
      (isOnlyDigits value endptr overflow && isPositiveInteger (int32 vcpus) value endptr overflow,
        { request with vcpus := vcpus }, env)
  | .vmMemSize =>
      let memSize := number % 2 ^ 32
      (isOnlyDigits value endptr overflow &&
          isPositiveInteger (int32 memSize) value endptr overflow,
        { request with memSize := memSize }, env)
  | .vmMemGranularity =>
      match getMemGranularityFromString value with
      | none => (false, request, env)
      | some memGran => (true, { request with granularity := memGran }, env)
  | .vmBootLinuxBzimage =>
      let (copy, env) := strdupNt alloc env value
      (true, { request with bzImageName := copy }, env)
  | .vmBootLinuxInitramfs =>
      let (copy, env) := strdupNt alloc env value
      (true, { request with initramfsName := copy }, env)
  | .vmBootLinuxCmdline =>
      let (copy, env) := strdupNt alloc env value
      (true, { request with cmdlineStr := copy }, env)
  | .vmDevSerial =>
      let serialDevId := int32 number
      if isOnlyDigits value endptr overflow &&
          isPositiveInteger serialDevId value endptr overflow && isValidSerialDevId serialDevId then
        let dev := serialDevId.toNat
        if env.assignee dev ≠ -1 ∧ env.assignee dev ≠ request.id then (false, request, env)
        else (true, { request with serialId := dev },
          { env with assignee := Function.update env.assignee dev request.id })
      else (false, request, env)

/-! ### The parser -/

/-- `enum token_state`. -/
inductive TokenState
  | searchStartMarker
  | searchConfigEntryStart
  | searchEntryDelim
  | searchEntryVal
deriving DecidableEq, Repr

/-- `enum parsing_state`. -/
inductive ParsingState
  | continue
  | doneSuccess
  | stopError
  | configEntryCompleted
deriving DecidableEq, Repr

/-- `enum config_parsing_status`. -/
inductive ConfigParsingStatus
  | success
  | errInvalidEntry
  | errMalformedFile
deriving DecidableEq, Repr

/-- `struct parser_state` without the file and the token, and with the key of `curr_line`. -/
structure Parser where
  request : VmRequest
  key : ConfigKey
  tokenState : TokenState
  env : Env

/-- The parser at the beginning of the file. -/
def Parser.init : Parser := ⟨VmRequest.zero 0, .vmName, .searchStartMarker, Env.init⟩

/-- `__is_token_equal_to`; `token` are the bytes from `token_start` to `token_end`. -/
def isTokenEqualTo (target token : List UInt8) : Bool :=
  int32 token.length = int32 target.length && strncmp target token target.length = 0

/-- `get_token`: the string that the copy of the token holds. -/
def getToken (token : List UInt8) : Except Fault (List UInt8) :=
  if int32 token.length < 0 then .error .wildCopy
  else .ok (cstr (token.take (int32 token.length).toNat))

/-- `__handle_search_start_marker`. -/
def handleSearchStartMarker (state : Parser) (status : SeekStatus) (token : List UInt8) :
    Except Fault (ParsingState × Parser) :=
  if status = .oom then .ok (.doneSuccess, state)
  else if isTokenEqualTo configSectionStart token then
    .ok (.continue, { state with tokenState := .searchConfigEntryStart })
  else do
    let _ ← getToken token
    return (.stopError, state)

/-- `__handle_search_config_entry_start`. -/
def handleSearchConfigEntryStart (supportedKeys : RadixNode) (state : Parser) (status : SeekStatus)
    (token : List UInt8) : Except Fault (ParsingState × Parser) :=
  if status = .oom then .ok (.stopError, state)
  else if isTokenEqualTo configSectionEnd token then
    .ok (.configEntryCompleted, { state with tokenState := .searchStartMarker })
  else do
    let token ← getToken token
    match radixTreeGet supportedKeys token with
    | none => .error .outside
    | some none => return (.stopError, state)
    | some (some keyVal) =>
        match configKeyStrings[keyVal]? with
        | none => .error .die
        | some (key, _) =>
            return (.continue, { state with key := key, tokenState := .searchEntryDelim })

/-- `__handle_search_delim`. -/
def handleSearchDelim (state : Parser) (status : SeekStatus) (token : List UInt8) :
    Except Fault (ParsingState × Parser) :=
  if status = .oom then .ok (.stopError, state)
  else if isTokenEqualTo configSectionDelim token then
    .ok (.continue, { state with tokenState := .searchEntryVal })
  else do
    let _ ← getToken token
    return (.stopError, state)

/-- `__handle_search_value`. -/
def handleSearchValue (state : Parser) (status : SeekStatus) (token : List UInt8) :
    Except Fault (ParsingState × Parser) :=
  if status = .oom then .ok (.stopError, state)
  else if reservedTokens.any (isTokenEqualTo · token) then .ok (.stopError, state)
  else do
    let value ← getToken token
    let (success, request, env) := setVmRequestVal alloc state.env state.request state.key value
    let state := { state with request := request, env := env }
    if success then return (.continue, { state with tokenState := .searchConfigEntryStart })
    else return (.stopError, state)

/-- The handler of the current state. -/
def handle (supportedKeys : RadixNode) (state : Parser) (status : SeekStatus) (token : List UInt8) :
    Except Fault (ParsingState × Parser) :=
  match state.tokenState with
  | .searchStartMarker => handleSearchStartMarker state status token
  | .searchConfigEntryStart => handleSearchConfigEntryStart supportedKeys state status token
  | .searchEntryDelim => handleSearchDelim state status token
  | .searchEntryVal => handleSearchValue alloc state status token

/-- `DEFAULT_VEC_INIT_CAPACITY`. -/
def defaultVecInitCapacity : ℕ := 512

/-- `push_back_vm_req_vector`. -/
def pushBackVmReqVector (reqVec : List VmRequest) (request : VmRequest) :
    Except Fault (List VmRequest) :=
  if defaultVecInitCapacity ≤ reqVec.length then .error .die else .ok (reqVec ++ [request])

/-- How a round of the parser ends. -/
inductive Round
  | again (state : Parser) (reqVec : List VmRequest)
  | stop (result : ConfigParsingStatus) (reqVec : List VmRequest)

/-- A round of `parse_vm_config_file` after `seek_next_token`. -/
def parseRound (supportedKeys : RadixNode) (state : Parser) (reqVec : List VmRequest)
    (status : SeekStatus) (token : List UInt8) : Except Fault Round :=
  if status = .invalidSymbol then .ok (.stop .errMalformedFile reqVec)
  else do
    let (parsingState, state) ← handle alloc supportedKeys state status token
    match parsingState with
    | .continue => return .again state reqVec
    | .configEntryCompleted =>
        if validConfigRequest state.request then
          let reqVec ← pushBackVmReqVector reqVec state.request
          return .again { state with request := VmRequest.zero (state.request.id + 1) } reqVec
        else return .stop .errInvalidEntry reqVec
    | .doneSuccess => return .stop .success reqVec
    | .stopError => return .stop .errMalformedFile reqVec

/-- The result of the parser and what the last call of the lexer returned. -/
structure Parsed where
  result : ConfigParsingStatus
  reqVec : List VmRequest
  last : Seek

/-- The loop of `parse_vm_config_file`. -/
def parseLoop (supportedKeys : RadixNode) :
    ℕ → MemFile → (tokenStart tokenEnd : ℕ) → Parser → List VmRequest → Except Fault Parsed
  | 0, _, _, _, _, _ => .error .fuel
  | fuel + 1, file, tokenStart, tokenEnd, state, reqVec => do
      let seek ← file.seekNextToken tokenStart tokenEnd
      let token := (seek.file.f.drop seek.start).take (seek.stop - seek.start + 1)
      match ← parseRound alloc supportedKeys state reqVec seek.status token with
      | .again state reqVec =>
          parseLoop supportedKeys fuel seek.file seek.start seek.stop state reqVec
      | .stop result reqVec => return ⟨result, reqVec, seek⟩

/-- `parse_vm_config_file` with an empty vector.  Every round but the last one takes a token. -/
def parseVmConfigFile (supportedKeys : RadixNode) (file : MemFile) : Except Fault Parsed :=
  parseLoop alloc supportedKeys (file.f.length + 2) file 0 0 Parser.init []

/-- `get_config_key_radix`: the tree and the number of allocations, if all insertions succeed. -/
def getConfigKeyRadix : Option (RadixNode × ℕ) :=
  configKeyStrings.zipIdx.foldlM (fun s entry => addCall alloc s (entry.1.2, entry.2)) (empty, 0)

end VmConfig

end HyveMind
