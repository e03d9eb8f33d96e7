import HyveMind.LinuxLayout

/-! # Which images the Linux loader accepts

The checks of a bzImage are spread over `valid_linux_setup_header`, `verify_bzImage` and
`load_linux_32bit_direct_boot_for_vm`.  Here they are collected along a load that returns `0`
(`Checked`); the state does not matter, so every assertion on it is `True`.

Two of the properties of `WellFormedImage` are not among them.  `valid_linux_setup_header` refuses a header
of another length by `return -1;`, which is `true` for a function that returns a `bool`, and the
length of the command line is compared modulo `2 ^ 32`.  `wellFormed_iff` says that nothing else is
missing. -/

namespace HyveMind

open Lib Lib.Prog

variable {vm : VmPhysicalMemory} {info : LinuxBootInfo}

/-! ### Well-formed images -/

/-- A bzImage that can be booted with the command line. -/
structure WellFormedImage (info : LinuxBootInfo) : Prop where
  complete : setupHeaderOffset + setupHeaderSize ≤ info.bzImage.size
  bootFlag : info.hdr .bootFlag = 0xAA55
  /-- The characters `HdrS`. -/
  header : info.hdr .header = 0x53726448
  jumpOpcode : info.hdr .jump % 256 = 0xEB
  headerEnd : 0x202 + info.hdr .jump / 256 = setupHeaderOffset + setupHeaderSize
  loadedHigh : (info.hdr .loadflags).testBit 0 = true
  version : 0x020F ≤ info.hdr .version
  code32Start : info.hdr .code32Start ≠ 0
  kernelNonempty : info.declaredSize ≠ 0
  kernelInImage : info.pmKernelOffset + info.declaredSize ≤ info.bzImage.size
  cmdline : info.cmdlineStr.length ≤ info.hdr .cmdlineSize

/-- What the loader checks, as it computes it. -/
structure Checked (info : LinuxBootInfo) : Prop where
  complete : setupHeaderOffset + setupHeaderSize ≤ info.bzImage.size
  bootFlag : info.hdr .bootFlag = setupHeaderMagicNumber
  header : info.hdr .header = setupHeaderMagicSigRaw
  jumpOpcode : info.hdr .jump &&& 0xFF = setupHeaderJmpOpcode
  loadedHigh : info.hdr .loadflags &&& setupLoadflagsLoadedHigh ≠ 0
  version : linuxBootMinProtocolVersion ≤ info.hdr .version
  code32Start : info.hdr .code32Start ≠ 0
  kernelNonempty : info.declaredSize ≠ 0
  kernelInImage : info.pmKernelOffset + info.declaredSize ≤ info.bzImage.size
  cmdline : info.cmdlineStr.length % 2 ^ 32 ≤ info.hdr .cmdlineSize

/-! ### The checks of the parts -/

section Parts

/-- Any state. -/
abbrev anyState : LoaderState → Prop := fun _ => True

/-- Any early return. -/
abbrev anyExit : Exit → LoaderState → Prop := fun _ _ => True

theorem leave {P : LoaderState → Prop} {c : Prop} {e : Exit} : ∀ s, P s → c → anyExit e s :=
  fun _ _ _ => trivial

theorem refused {c : Prop} : ∀ s, anyState s → (false = true → c) :=
  fun _ _ hvalid => absurd hvalid (by decide)

theorem meets_any {α : Type} (m : Loader α) : Meets anyState m (fun _ => anyState) anyExit := by
  refine ⟨fun s _ => ?_⟩
  generalize m s = out
  obtain ⟨e | a, s'⟩ := out <;> trivial

theorem readHdr_any (info : LinuxBootInfo) (f : SetupField) : ∀ s, anyState s →
    ∃ s', readHdr info f s = (.ok (info.hdr f), s') ∧ anyState s' := fun _ _ => ⟨_, rfl, trivial⟩

theorem validLinuxSetupHeader_checks : Meets anyState (validLinuxSetupHeader info)
    (fun valid _ => valid = true → info.hdr .bootFlag = setupHeaderMagicNumber ∧
      info.hdr .header = setupHeaderMagicSigRaw ∧
      info.hdr .jump &&& 0xFF = setupHeaderJmpOpcode) anyExit := by
  apply Meets.bind_step (readHdr_any info .bootFlag)
  split_ifs with hboot
  · exact Meets.pure refused
  apply Meets.bind_step (readHdr_any info .header)
  split_ifs with hheader
  · exact Meets.pure refused
  apply Meets.bind_step (readHdr_any info .jump)
  split_ifs with hjump
  · exact Meets.pure refused
  apply Meets.bind_step (readHdr_any info .jump)
  have hchecked := And.intro (not_not.mp hboot) (And.intro (not_not.mp hheader) (not_not.mp hjump))
  dsimp only
  split_ifs <;> exact Meets.pure fun _ _ _ => hchecked

theorem verifyBzImage_checks : Meets anyState (verifyBzImage info)
    (fun isBzImage _ => isBzImage = true → info.hdr .loadflags &&& setupLoadflagsLoadedHigh ≠ 0)
    anyExit := by
  apply Meets.bind_step (readHdr_any info .version)
  split_ifs
  · exact Meets.pure refused
  apply Meets.bind_step (readHdr_any info .loadflags)
  split_ifs with hflags
  · exact Meets.pure refused
  · exact Meets.pure fun _ _ _ => hflags

/-- The checks up to the copy of the kernel: all of them but that of the command line. -/
theorem loadPmKernel_checks : Meets anyState (loadPmKernel vm info)
    (fun _ _ => info.cmdlineStr.length % 2 ^ 32 ≤ info.hdr .cmdlineSize → Checked info) anyExit := by
  have hsys : info.hdr .syssize < 2 ^ 32 := hdr_lt info .syssize
  have hdecl : u64 (info.hdr .syssize <<< 4) = info.declaredSize := by
    rw [Nat.shiftLeft_eq, LinuxBootInfo.declaredSize, u64_of_lt (by omega)]
    omega
  unfold loadPmKernel
  apply Meets.bind_exitIf leave
  intro hsize
  apply Meets.bind validLinuxSetupHeader_checks
  intro valid
  apply Meets.bind_exitIf leave
  intro hvalid
  have hvalid : valid = true := Bool.eq_true_of_not_eq_false hvalid
  apply Meets.of_pre
  intro s hhdr
  obtain ⟨hboot, hheader, hjump⟩ := hhdr hvalid
  refine ⟨anyState, trivial, ?_⟩
  apply Meets.bind verifyBzImage_checks
  intro isBzImage
  apply Meets.bind_exitIf leave
  intro hbz
  have hbz : isBzImage = true := Bool.eq_true_of_not_eq_false hbz
  apply Meets.of_pre
  intro s hflags
  refine ⟨anyState, trivial, ?_⟩
  apply Meets.bind_step (readHdr_any info .version)
  apply Meets.bind_exitIf leave
  intro hversion
  apply Meets.bind_step (readHdr_any info .setupSects)
  apply Meets.bind_exitIf leave
  intro hoffset
  apply Meets.bind_step (readHdr_any info .syssize)
  apply Meets.bind_exitIf leave
  intro hnonempty
  apply Meets.bind_exitIf leave
  intro havail
  rw [hdecl] at hnonempty havail
  apply Meets.bind_step (readHdr_any info .code32Start)
  apply Meets.bind_exitIf leave
  intro hcode
  apply Meets.bind (meets_any _)
  intro initSize
  have hmem : info.bzImage.addr + info.bzImage.size < 2 ^ 64 := info.bzImage.inMemory
  have hoffset : info.pmKernelOffset < info.bzImage.size := Nat.lt_of_not_le hoffset
  have havail : info.declaredSize ≤ u64Sub info.bzImage.size info.pmKernelOffset :=
    Nat.le_of_not_lt havail
  rw [u64Sub_of_le (by omega) hoffset.le] at havail
  have hchecked : info.cmdlineStr.length % 2 ^ 32 ≤ info.hdr .cmdlineSize → Checked info :=
    fun hcmd => ⟨Nat.le_of_not_lt hsize, hboot, hheader, hjump, hflags hbz, Nat.le_of_not_lt hversion,
      hcode, hnonempty, by omega, hcmd⟩
  apply Meets.bind_exitIf leave
  intro _
  apply Meets.bind (meets_any _)
  intro ret
  apply Meets.bind_exitIf leave
  intro _
  exact Meets.pure fun _ _ => hchecked

theorem loadCommandLine_checks : Meets anyState (loadCommandLine vm info)
    (fun _ _ => info.cmdlineStr.length % 2 ^ 32 ≤ info.hdr .cmdlineSize) anyExit := by
  apply Meets.bind_step (readHdr_any info .cmdlineSize)
  apply Meets.bind_exitIf leave
  intro hcmd
  apply Meets.bind (meets_any _)
  intro ret
  exact Meets.exitIf leave fun _ _ _ => Nat.le_of_not_lt hcmd

theorem loadLinux32bitDirectBootForVm_checks :
    Meets anyState (loadLinux32bitDirectBootForVm vm info) (fun _ _ => Checked info) anyExit := by
  apply Meets.bind loadPmKernel_checks
  rintro ⟨pmKernelLoadAddr, declaredPmKernelSize, effectivePmKernelLoadSize⟩
  apply Meets.of_pre
  intro s hchecked
  refine ⟨anyState, trivial, ?_⟩
  apply Meets.bind (meets_any _)
  intro initramfsGpaddr
  apply Meets.bind (meets_any _)
  intro ret
  apply Meets.bind_exitIf leave
  intro _
  apply Meets.bind loadCommandLine_checks
  intro _
  apply Meets.of_pre
  intro s hcmd
  refine ⟨anyState, trivial, ?_⟩
  apply Meets.bind (meets_any _)
  intro _
  exact Meets.pure fun _ _ => hchecked hcmd

end Parts

/-! ### A load that returns `0` -/

variable {alloc : PfAlloc} {mem : ℕ → UInt8} {loadInfo : LinuxLoadInfo}

theorem checked_of_load
    (h : (loadLinux32bitDirectBootForVm vm info ⟨alloc, mem, []⟩).1 = .ok loadInfo) : Checked info :=
  loadLinux32bitDirectBootForVm_checks.of_ok trivial h

/-- **When an accepted image is well formed.**  Whenever the loader returns `0`: the image is well formed
iff the jump over the header has the displacement `0x6A`, with which it lands behind a
`struct setup_header`, and the command line has less than 4 GiB.  No other image gets through. -/
theorem wellFormed_iff
    (h : (loadLinux32bitDirectBootForVm vm info ⟨alloc, mem, []⟩).1 = .ok loadInfo) :
    WellFormedImage info ↔ info.hdr .jump / 256 = 0x6A ∧ info.cmdlineStr.length < 2 ^ 32 := by
  have hchecked := checked_of_load h
  have hend : setupHeaderOffset + setupHeaderSize = 0x202 + 0x6A := rfl
  constructor
  · intro hwf
    have hsize : info.hdr .cmdlineSize < 2 ^ 32 := hdr_lt info .cmdlineSize
    have hhdr := hwf.headerEnd
    have hcmd := hwf.cmdline
    rw [hend] at hhdr
    exact ⟨by omega, by omega⟩
  · rintro ⟨hjump, hlen⟩
    have hopcode : info.hdr .jump % 256 = 0xEB := by
      rw [← Nat.and_two_pow_sub_one_eq_mod _ 8]
      exact hchecked.jumpOpcode
    have hflag : (info.hdr .loadflags).testBit 0 = true := by
      have hflags := hchecked.loadedHigh
      rw [Nat.and_one_is_mod] at hflags
      rw [Nat.testBit_zero, decide_eq_true_eq]
      omega
    have hcmd := hchecked.cmdline
    rw [Nat.mod_eq_of_lt hlen] at hcmd
    exact ⟨hchecked.complete, hchecked.bootFlag, hchecked.header, hopcode, by rw [hend, hjump], hflag,
      hchecked.version, hchecked.code32Start, hchecked.kernelNonempty, hchecked.kernelInImage, hcmd⟩

/-- The image with a kernel at 1 MiB is well formed. -/
theorem wellFormed_iff_kernel_at_1M :
    (loadLinux32bitDirectBootForVm smallVm (smallBoot 0x100000 0x100000)
      ⟨Ept.sixteenFramesInit.alloc, fun _ => 0, []⟩).1 =
        .ok ⟨0x100000, 16, 0x100000, 0x10000, 0x30000, 0x20000⟩ ∧
    WellFormedImage (smallBoot 0x100000 0x100000) := by
  have hload : (loadLinux32bitDirectBootForVm smallVm (smallBoot 0x100000 0x100000)
      ⟨Ept.sixteenFramesInit.alloc, fun _ => 0, []⟩).1 =
        .ok ⟨0x100000, 16, 0x100000, 0x10000, 0x30000, 0x20000⟩ := by decide +kernel
  exact ⟨hload, (wellFormed_iff hload).mpr ⟨by decide +kernel, by decide⟩⟩

/-- The same image with a jump to `0x202`, as if the header ended in front of its signature. -/
def shortHeaderImage : List UInt8 :=
  setField (smallImage 0x100000 0x100000) (setupHeaderOffset + SetupField.jump.offset) 2 0x00EB

/-- A configuration with that image. -/
def shortHeaderBoot : LinuxBootInfo :=
  { smallBoot 0x100000 0x100000 with
    bzImage := ⟨0xFFFF800000500000, shortHeaderImage, by decide +kernel⟩ }

/-- A header that declares another length is loaded, and the loader returns `0`. -/
theorem short_header_is_loaded :
    (loadLinux32bitDirectBootForVm smallVm shortHeaderBoot
      ⟨Ept.sixteenFramesInit.alloc, fun _ => 0, []⟩).1 =
        .ok ⟨0x100000, 16, 0x100000, 0x10000, 0x30000, 0x20000⟩ ∧
    ¬ WellFormedImage shortHeaderBoot := by
  refine ⟨by decide +kernel, fun hwf => ?_⟩
  have hjump : shortHeaderBoot.hdr .jump = 0x00EB := by decide +kernel
  have hend := hwf.headerEnd
  rw [hjump] at hend
  exact absurd hend (by decide)

end HyveMind
