import HyveMind.VmConfigGrammar
import HyveMind.Lib.Prog

/-! # From requests to configurations

The second half of `vm_config.c`: every request of a file that was parsed becomes a `struct vm_config`,
with the files that it names looked up among the modules of the boot loader.

Strings are pointers that may be null.  `Fault.outside` is a string function that is called with the
null pointer. -/

namespace HyveMind.VmConfig

open Lib MemFile RadixNode

/-- `struct limine_file`. -/
structure LimineFile where
  string : List UInt8
  address : ℕ
  size : ℕ
deriving DecidableEq, Repr

/-- `struct file_info`. -/
structure FileInfo where
  addr : ℕ
  size : ℕ
deriving DecidableEq, Repr

/-- `struct guest_uart_info`. -/
structure GuestUartInfo where
  configured : Bool
  hostBasePort : ℕ
  hostIrq : ℕ
  vmIrq : ℕ
deriving DecidableEq, Repr

/-- The `info` of `serial_devices`. -/
def serialDevices : ℕ → GuestUartInfo
  | 1 => ⟨true, 0x3F8, 0x04, 0x04⟩
  | 2 => ⟨true, 0x2F8, 0x05, 0x04⟩
  | 3 => ⟨true, 0x3E8, 0x06, 0x04⟩
  | _ => ⟨false, 0, 0, 0⟩

/-- `struct vm_config`. -/
structure Config where
  name : Option (List UInt8)
  type : GuestType
  nrVcpus : ℕ
  memSize : ℕ
  granularity : MemGranularity
  bzImage : FileInfo
  initramfs : FileInfo
  cmdlineStr : Option (List UInt8)
  uartInfo : GuestUartInfo
deriving DecidableEq, Repr

/-- A configuration of zeros. -/
def Config.zero : Config :=
  ⟨none, .unspecified, 0, 0, .bytes, ⟨0, 0⟩, ⟨0, 0⟩, none, ⟨false, 0, 0, 0⟩⟩

/-- `get_vm_config_req_bytes` of a configuration. -/
def Config.reqBytes (config : Config) : ℕ := getVmConfigReqBytes config.memSize config.granularity

/-- The string behind a pointer. -/
def deref : Option (List UInt8) → Except Fault (List UInt8)
  | none => .error .outside
  | some s => .ok s

/-- `__get_limine_file`. -/
def getLimineFile (mods : List LimineFile) (fileName : Option (List UInt8)) :
    Except Fault (Option LimineFile) :=
  if mods.isEmpty then .ok none
  else do
    let fileName ← deref fileName
    return mods.find? fun mod => strcmp fileName mod.string = 0

section Convert

variable (alloc : ℕ → Bool) (mods : List LimineFile)

/-- `get_linux_boot_info`. -/
def getLinuxBootInfo (request : VmRequest) (config : Config) (env : Env) :
    Except Fault (Bool × Config × Env) := do
  match ← getLimineFile mods request.bzImageName with
  | none => return (false, config, env)
  | some rawBzimage =>
      let config := { config with bzImage := ⟨rawBzimage.address, rawBzimage.size⟩ }
      match ← getLimineFile mods request.initramfsName with
      | none => return (false, config, env)
      | some rawInitramfs =>
          let config := { config with initramfs := ⟨rawInitramfs.address, rawInitramfs.size⟩ }
          let cmdlineStr ← deref request.cmdlineStr
          let (copy, env) := strdupNt alloc env cmdlineStr
          return (true, { config with cmdlineStr := copy }, env)

/-- `get_serial_dev_info`. -/
def getSerialDevInfo (config : Config) (req : VmRequest) : Config :=
  if req.serialId = 0 then config else { config with uartInfo := serialDevices req.serialId }

/-- `vm_req_to_vm_config`. -/
def vmReqToVmConfig (req : VmRequest) (env : Env) : Except Fault (Bool × Config × Env) := do
  let name ← deref req.name
  let (copy, env) := strdupNt alloc env name
  let config := { Config.zero with
    name := copy, type := req.type, nrVcpus := req.vcpus, memSize := req.memSize,
    granularity := req.granularity }
  let config := getSerialDevInfo config req
  match config.type with
  | .linuxDirectBoot32bit => getLinuxBootInfo alloc mods req config env
  | .mirrorVmm => return (true, config, env)
  | .unspecified => .error .die

/-- The loop of `get_vm_configs`; `none` is the null pointer. -/
def convertRequests : List VmRequest → List Config → Env → Except Fault (Option (List Config))
  | [], vmConfigs, _ => .ok (some vmConfigs)
  | request :: requests, vmConfigs, env => do
      let (success, config, env) ← vmReqToVmConfig alloc mods request env
      if success then convertRequests requests (vmConfigs ++ [config]) env else return none

end Convert

/-- `HYVEMIND_CONFIG_FILE`. -/
def hyvemindConfigFile : List UInt8 := bytesOf "hyvemind_config"

/-- The bytes of a file; `mem` are the bytes of the memory. -/
def contents (mem : ℕ → UInt8) (file : LimineFile) : List UInt8 :=
  (List.range file.size).map fun i => mem (file.address + i)

/-- `get_vm_requests`; `mem` are the bytes of the memory.  The allocations are those for the keys, the
two for the vector and those of the parser. -/
def getVmRequests (alloc : ℕ → Bool) (mem : ℕ → UInt8) (mods : List LimineFile) :
    Except Fault (Option (List VmRequest)) := do
  match ← getLimineFile mods (some hyvemindConfigFile) with
  | none => return none
  | some rawFile =>
      match getConfigKeyRadix alloc with
      | none => return none
      | some (supportedKeys, n) =>
          if alloc n && alloc (n + 1) then
            let parsed ← parseVmConfigFile (fun i => alloc (n + 2 + i)) supportedKeys
              (configFile (contents mem rawFile))
            match parsed.result with
            | .success => return some parsed.reqVec
            | _ => return none
          else return none

/-- `get_vm_configs`; `allocConf` answers the allocations after the parser: two for the vector, then
those of the conversions. -/
def getVmConfigs (alloc allocConf : ℕ → Bool) (mem : ℕ → UInt8) (mods : List LimineFile) :
    Except Fault (Option (List Config)) := do
  match ← getVmRequests alloc mem mods with
  | none => return none
  | some requests =>
      if requests.length < 1 then return none
      else if allocConf 0 && allocConf 1 then
        convertRequests allocConf mods requests [] ⟨fun _ => -1, 2⟩
      else return none

/-! ### What a conversion does -/

section Spec

variable {alloc : ℕ → Bool} {mods : List LimineFile} {req : VmRequest} {config config' : Config}
variable {env env' : Env} {name : List UInt8}

/-- The first module with a name. -/
def moduleNamed (mods : List LimineFile) (name : List UInt8) : Option LimineFile :=
  mods.find? fun mod => strcmp name mod.string = 0

theorem getLimineFile_some : getLimineFile mods (some name) = .ok (moduleNamed mods name) := by
  unfold getLimineFile
  cases mods with
  | nil => rfl
  | cons mod mods => rfl

theorem getLimineFile_eq_some {fileName : Option (List UInt8)} {file : LimineFile}
    (h : getLimineFile mods fileName = .ok (some file)) :
    ∃ name, fileName = some name ∧ moduleNamed mods name = some file := by
  unfold getLimineFile at h
  split_ifs at h
  · cases h
  · obtain ⟨name, hname, hfind⟩ := exists_of_bind_eq_ok h
    cases fileName with
    | none => cases hname
    | some s =>
        cases hname
        exact ⟨name, rfl, Except.ok.inj hfind⟩

/-- A Linux guest has its three strings and both files. -/
structure LinuxBoot (mods : List LimineFile) (req : VmRequest) (bzImage initramfs : FileInfo)
    (cmdlineStr : List UInt8) : Prop where
  bzImage : ∃ name file, req.bzImageName = some name ∧ moduleNamed mods name = some file ∧
    bzImage = ⟨file.address, file.size⟩
  initramfs : ∃ name file, req.initramfsName = some name ∧ moduleNamed mods name = some file ∧
    initramfs = ⟨file.address, file.size⟩
  cmdline : req.cmdlineStr = some cmdlineStr

theorem getLinuxBootInfo_true
    (h : getLinuxBootInfo alloc mods req config env = .ok (true, config', env')) :
    ∃ bzImage initramfs cmdlineStr, LinuxBoot mods req bzImage initramfs cmdlineStr ∧
      config' = { config with
        bzImage := bzImage, initramfs := initramfs, cmdlineStr := (strdupNt alloc env cmdlineStr).1 } ∧
      env' = (strdupNt alloc env cmdlineStr).2 := by
  obtain ⟨bz, hbz, h⟩ := exists_of_bind_eq_ok h
  cases bz with
  | none => cases h
  | some bz =>
      obtain ⟨ir, hir, h⟩ := exists_of_bind_eq_ok h
      cases ir with
      | none => cases h
      | some ir =>
          obtain ⟨cmdlineStr, hcmd, h⟩ := exists_of_bind_eq_ok h
          obtain ⟨bzName, hbzName, hbz⟩ := getLimineFile_eq_some hbz
          obtain ⟨irName, hirName, hir⟩ := getLimineFile_eq_some hir
          cases hc : req.cmdlineStr with
          | none =>
              rw [hc] at hcmd
              cases hcmd
          | some s =>
              rw [hc] at hcmd
              cases hcmd
              cases h
              exact ⟨_, _, cmdlineStr, ⟨⟨bzName, bz, hbzName, hbz, rfl⟩,
                ⟨irName, ir, hirName, hir, rfl⟩, hc⟩, rfl, rfl⟩

theorem getLinuxBootInfo_of_boot {bzImage initramfs : FileInfo} {cmdlineStr : List UInt8}
    (h : LinuxBoot mods req bzImage initramfs cmdlineStr) :
    getLinuxBootInfo alloc mods req config env = .ok (true,
      { config with
        bzImage := bzImage, initramfs := initramfs, cmdlineStr := (strdupNt alloc env cmdlineStr).1 },
      (strdupNt alloc env cmdlineStr).2) := by
  obtain ⟨⟨bzName, bz, hbzName, hbz, rfl⟩, ⟨irName, ir, hirName, hir, rfl⟩, hcmd⟩ := h
  unfold getLinuxBootInfo
  rw [hbzName, hirName, hcmd, getLimineFile_some, getLimineFile_some, hbz, hir]
  rfl

/-- What a configuration has from its request, whatever the guest is. -/
structure SameData (req : VmRequest) (config : Config) : Prop where
  type : config.type = req.type
  nrVcpus : config.nrVcpus = req.vcpus
  memSize : config.memSize = req.memSize
  granularity : config.granularity = req.granularity
  uartInfo : config.uartInfo = serialDevices req.serialId

/-- The configuration before the guest type is looked at. -/
def copiedConfig (req : VmRequest) (copy : Option (List UInt8)) : Config :=
  { Config.zero with
    name := copy, type := req.type, nrVcpus := req.vcpus, memSize := req.memSize,
    granularity := req.granularity, uartInfo := serialDevices req.serialId }

theorem getSerialDevInfo_eq (req : VmRequest) (copy : Option (List UInt8)) :
    getSerialDevInfo { Config.zero with
      name := copy, type := req.type, nrVcpus := req.vcpus, memSize := req.memSize,
      granularity := req.granularity } req = copiedConfig req copy := by
  unfold getSerialDevInfo copiedConfig
  split_ifs with hid
  · rw [hid]
    rfl
  · rfl

theorem vmReqToVmConfig_eq (hname : req.name = some name) :
    vmReqToVmConfig alloc mods req env =
      match req.type with
      | .linuxDirectBoot32bit => getLinuxBootInfo alloc mods req
          (copiedConfig req (strdupNt alloc env name).1) (strdupNt alloc env name).2
      | .mirrorVmm =>
          .ok (true, copiedConfig req (strdupNt alloc env name).1, (strdupNt alloc env name).2)
      | .unspecified => .error .die := by
  unfold vmReqToVmConfig
  rw [hname]
  simp only [deref, bind, Except.bind, getSerialDevInfo_eq]
  rfl

theorem exists_name (h : vmReqToVmConfig alloc mods req env = .ok (true, config, env')) :
    ∃ name, req.name = some name := by
  obtain ⟨name, hname, -⟩ := exists_of_bind_eq_ok h
  cases hreq : req.name with
  | none =>
      rw [hreq] at hname
      cases hname
  | some s => exact ⟨s, rfl⟩

/-- A conversion keeps the numbers, the types and the device. -/
theorem sameData_of_converted (h : vmReqToVmConfig alloc mods req env = .ok (true, config, env')) :
    SameData req config := by
  obtain ⟨name, hname⟩ := exists_name h
  rw [vmReqToVmConfig_eq hname] at h
  cases htype : req.type with
  | unspecified =>
      rw [htype] at h
      cases h
  | mirrorVmm =>
      rw [htype] at h
      cases h
      exact ⟨rfl, rfl, rfl, rfl, rfl⟩
  | linuxDirectBoot32bit =>
      rw [htype] at h
      obtain ⟨bzImage, initramfs, cmdlineStr, -, rfl, -⟩ := getLinuxBootInfo_true h
      exact ⟨rfl, rfl, rfl, rfl, rfl⟩

/-- The request becomes a configuration. -/
def Becomes (alloc : ℕ → Bool) (mods : List LimineFile) (req : VmRequest) (config : Config) : Prop :=
  ∃ env env', vmReqToVmConfig alloc mods req env = .ok (true, config, env')

theorem forall₂_of_convertRequests {reqs : List VmRequest} {acc configs : List Config}
    (h : convertRequests alloc mods reqs acc env = .ok (some configs)) :
    ∃ new, configs = acc ++ new ∧ List.Forall₂ (Becomes alloc mods) reqs new := by
  induction reqs generalizing acc env with
  | nil =>
      cases h
      exact ⟨[], (List.append_nil _).symm, .nil⟩
  | cons req reqs ih =>
      obtain ⟨⟨success, config, env'⟩, hconv, h⟩ := exists_of_bind_eq_ok h
      cases success with
      | false => cases h
      | true =>
          obtain ⟨new, rfl, hnew⟩ := ih h
          exact ⟨config :: new, List.append_assoc .., .cons ⟨env, env', hconv⟩ hnew⟩

end Spec

end HyveMind.VmConfig
