import Mathlib.Tactic

/-! # Machine words and page arithmetic

The integer types of `include/types.h` and the page arithmetic of `asm/paging.h`.  A
`uint64_t` is a natural number below `2 ^ 64`; every operation of the source that can leave
that range is written with an explicit `u64`.  A `uint8_t` is a `BitVec 8`.

`physToVirt` and `virtToPhys` are the direct-mapping conversions; they are inverse to each
other modulo `2 ^ 64` whatever the mapping offset is (`virtToPhys_physToVirt`). -/

namespace HyveMind

/-- Truncation to `uint64_t`. -/
def u64 (n : ℕ) : ℕ := n % 2 ^ 64

/-- `a - b` on `uint64_t`, with wrap-around. -/
def u64Sub (a b : ℕ) : ℕ := u64 (a + (2 ^ 64 - b % 2 ^ 64))

/-- Truncation to `uint32_t`. -/
def u32 (n : ℕ) : ℕ := n % 2 ^ 32

theorem u32_of_lt {n : ℕ} (h : n < 2 ^ 32) : u32 n = n := Nat.mod_eq_of_lt h

theorem u64_lt (n : ℕ) : u64 n < 2 ^ 64 := Nat.mod_lt _ (by norm_num)

theorem u64_of_lt {n : ℕ} (h : n < 2 ^ 64) : u64 n = n := Nat.mod_eq_of_lt h

theorem u64_add_u64 (a b : ℕ) : u64 (a + u64 b) = u64 (a + b) := by
  unfold u64
  omega

theorem u64Sub_of_le {a b : ℕ} (ha : a < 2 ^ 64) (h : b ≤ a) : u64Sub a b = a - b := by
  unfold u64Sub u64
  omega

theorem u64Sub_of_lt {a b : ℕ} (hb : b < 2 ^ 64) (h : a < b) : u64Sub a b = a + 2 ^ 64 - b := by
  unfold u64Sub u64
  omega

/-- `PAGE_SIZE`. -/
abbrev pageSize : ℕ := 4096

/-- `PAGE_SHIFT`. -/
abbrev pageShift : ℕ := 12

/-- `HYPERVISOR_DIRECT_MAPPING_OFFSET`. -/
abbrev hypervisorDirectMappingOffset : ℕ := 0xFFFF800000000000

/-- `PAGE_ALIGN`: the start of the page that holds `addr`. -/
def pageAlign (addr : ℕ) : ℕ := (addr >>> pageShift) <<< pageShift

/-- `align_forward`. -/
def alignForward (val alignment : ℕ) : ℕ :=
  let mod := val % alignment
  if mod = 0 then val else u64 (val + (alignment - mod))

/-- `phys_to_pfn`. -/
def physToPfn (paddr : ℕ) : ℕ := paddr >>> pageShift

/-- `pfn_to_phys`. -/
def pfnToPhys (pfn : ℕ) : ℕ := u64 (pfn <<< pageShift)

/-- `__phys_to_virt`. -/
def physToVirtAt (addr offset : ℕ) : ℕ := u64 (addr + offset)

/-- `__virt_to_phys`. -/
def virtToPhysAt (addr offset : ℕ) : ℕ := u64Sub addr offset

/-- `phys_to_virt`. -/
def physToVirt (addr : ℕ) : ℕ := physToVirtAt addr hypervisorDirectMappingOffset

/-- `virt_to_phys`. -/
def virtToPhys (addr : ℕ) : ℕ := virtToPhysAt addr hypervisorDirectMappingOffset

/-- `bytes_to_nr_pages`. -/
def bytesToNrPages (bytes : ℕ) : ℕ := u64 (bytes + (pageSize - 1)) >>> pageShift

theorem pageAlign_eq (addr : ℕ) : pageAlign addr = addr / 4096 * 4096 := by
  simp [pageAlign, pageShift, Nat.shiftRight_eq_div_pow, Nat.shiftLeft_eq]

theorem physToPfn_eq (paddr : ℕ) : physToPfn paddr = paddr / 4096 := by
  simp [physToPfn, pageShift, Nat.shiftRight_eq_div_pow]

theorem pfnToPhys_eq {pfn : ℕ} (h : pfn < 2 ^ 52) : pfnToPhys pfn = pfn * 4096 := by
  have e : pfn <<< pageShift = pfn * 4096 := by simp [pageShift, Nat.shiftLeft_eq]
  rw [pfnToPhys, e, u64_of_lt (by omega)]

theorem physToPfn_pfnToPhys {pfn : ℕ} (h : pfn < 2 ^ 52) : physToPfn (pfnToPhys pfn) = pfn := by
  rw [pfnToPhys_eq h, physToPfn_eq]
  omega

/-- The two conversions of a direct mapping cancel on every 64-bit address. -/
theorem virtToPhysAt_physToVirtAt {addr offset : ℕ} (h : addr < 2 ^ 64) :
    virtToPhysAt (physToVirtAt addr offset) offset = addr := by
  unfold virtToPhysAt physToVirtAt u64Sub u64
  omega

theorem virtToPhys_physToVirt {addr : ℕ} (h : addr < 2 ^ 64) :
    virtToPhys (physToVirt addr) = addr := virtToPhysAt_physToVirtAt h

end HyveMind
