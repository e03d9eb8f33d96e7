import Mathlib.Tactic

/-! # The MSR bitmap of a virtual machine

The functions of `arch/x64/vmx/vmx.c` that say which accesses to model-specific registers leave the
guest.  The page holds four bitmaps of a kilobyte each: reads of low MSRs, reads of high MSRs, writes
of low MSRs and writes of high MSRs.

The processor looks at `consulted`; `intercepts_stored` says that the page is a faithful store of the
flags that the functions were called with. -/

namespace HyveMind.MsrBitmap

/-! ### The functions of `vmx.c` -/

/-- `__is_low_vmcs_msr`. -/
def isLowVmcsMsr (x : ℕ) : Bool := 0 ≤ x && x ≤ 0x00001FFF

/-- `__is_high_vmcs_msr`. -/
def isHighVmcsMsr (x : ℕ) : Bool := 0xC0000000 ≤ x && x ≤ 0xC0001FFF

/-- `VMCS_HIGH_READ_MSR_OFFSET`. -/
def highReadMsrOffset : ℕ := 1024

/-- `VMCS_LOW_WRITE_MSR_OFFSET`. -/
def lowWriteMsrOffset : ℕ := 2048

/-- `VMCS_HIGH_WRITE_MSR_OFFSET`. -/
def highWriteMsrOffset : ℕ := 3072

/-- Why a call does not return: it dies, or accesses a byte outside of the page. -/
inductive MsrFault
  | die
  | outside
deriving DecidableEq, Repr

/-- `__modify_msr_bitmap_bit`; `bitmap` is an offset into the page. -/
def modifyMsrBitmapBit (page : List (BitVec 8)) (bitmap sanitizedMsr : ℕ) (set : Bool) :
    Except MsrFault (List (BitVec 8)) :=
  let bytePos := sanitizedMsr / 8 % 2 ^ 32
  let bitPos := sanitizedMsr % 8
  match page[bitmap + bytePos]? with
  | none => .error .outside
  | some byte =>
      if set then .ok (page.set (bitmap + bytePos) (byte ||| 1#8 <<< bitPos))
      else .ok (page.set (bitmap + bytePos) (byte &&& ~~~ (1#8 <<< bitPos)))

/-- `vmx_set_intercept_reg_rdmsr`. -/
def vmxSetInterceptRegRdmsr (page : List (BitVec 8)) (msr : ℕ) (intercept : Bool) :
    Except MsrFault (List (BitVec 8)) :=
  if isLowVmcsMsr msr then modifyMsrBitmapBit page 0 msr intercept
  else if isHighVmcsMsr msr then
    modifyMsrBitmapBit page highReadMsrOffset (msr - 0xC0000000) intercept
  else .error .die

/-- `vmx_set_intercept_reg_wrmsr`. -/
def vmxSetInterceptRegWrmsr (page : List (BitVec 8)) (msr : ℕ) (intercept : Bool) :
    Except MsrFault (List (BitVec 8)) :=
  if isLowVmcsMsr msr then modifyMsrBitmapBit page lowWriteMsrOffset msr intercept
  else if isHighVmcsMsr msr then
    modifyMsrBitmapBit page highWriteMsrOffset (msr - 0xC0000000) intercept
  else .error .die

/-- `vmx_set_intercept_msr`. -/
def vmxSetInterceptMsr (page : List (BitVec 8)) (msr : ℕ) (intercept : Bool) :
    Except MsrFault (List (BitVec 8)) := do
  let page ← vmxSetInterceptRegRdmsr page msr intercept
  vmxSetInterceptRegWrmsr page msr intercept

/-- A call of one of the three functions. -/
inductive Call
  | rdmsr (msr : ℕ) (intercept : Bool)
  | wrmsr (msr : ℕ) (intercept : Bool)
  | both (msr : ℕ) (intercept : Bool)
deriving DecidableEq, Repr

/-- The page after a call. -/
def Call.exec (page : List (BitVec 8)) : Call → Except MsrFault (List (BitVec 8))
  | .rdmsr msr intercept => vmxSetInterceptRegRdmsr page msr intercept
  | .wrmsr msr intercept => vmxSetInterceptRegWrmsr page msr intercept
  | .both msr intercept => vmxSetInterceptMsr page msr intercept

/-! ### The processor's view -/

/-- The directions of an access. -/
inductive Access
  | read
  | write
deriving DecidableEq, Repr

/-- The MSRs that have bits in the page. -/
def VmcsMsr (m : ℕ) : Prop := m ≤ 0x1FFF ∨ (0xC0000000 ≤ m ∧ m ≤ 0xC0001FFF)

/-- The number of an MSR within its range. -/
def sanitized (m : ℕ) : ℕ := if m ≤ 0x1FFF then m else m - 0xC0000000

/-- The kilobyte for an access. -/
def kilobyte : Access → ℕ → ℕ
  | .read, m => if m ≤ 0x1FFF then 0 else 1
  | .write, m => if m ≤ 0x1FFF then 2 else 3

/-- The bit that the processor looks at for an access. -/
def consulted (page : List (BitVec 8)) (d : Access) (m : ℕ) : Bool :=
  (page.getD (1024 * kilobyte d m + sanitized m / 8) 0).getLsbD (sanitized m % 8)

/-- The register of a call. -/
def Call.msr : Call → ℕ
  | .rdmsr msr _ | .wrmsr msr _ | .both msr _ => msr

/-- The flag of a call. -/
def Call.intercept : Call → Bool
  | .rdmsr _ intercept | .wrmsr _ intercept | .both _ intercept => intercept

/-- The call sets the flag for an access. -/
def Call.sets (d : Access) (m : ℕ) : Call → Bool
  | .rdmsr msr _ => d = .read && msr = m
  | .wrmsr msr _ => d = .write && msr = m
  | .both msr _ => msr = m

/-- The flag of the last call that set it for an access, `false` if there was none. -/
def lastIntercept (d : Access) (m : ℕ) (cs : List Call) : Bool :=
  match cs.reverse.find? (Call.sets d m) with
  | none => false
  | some c => c.intercept

/-! ### Bits of a page -/

variable {page page' : List (BitVec 8)}

/-- The bits of a page, counted from the lowest bit of the first byte. -/
def pageBit (page : List (BitVec 8)) (i : ℕ) : Bool := (page.getD (i / 8) 0).getLsbD (i % 8)

/-- The bit of an access. -/
def bitIndex (d : Access) (m : ℕ) : ℕ := 8192 * kilobyte d m + sanitized m

theorem consulted_eq (page : List (BitVec 8)) (d : Access) (m : ℕ) :
    consulted page d m = pageBit page (bitIndex d m) := by
  have hdiv : (8192 * kilobyte d m + sanitized m) / 8 = 1024 * kilobyte d m + sanitized m / 8 := by
    omega
  have hmod : (8192 * kilobyte d m + sanitized m) % 8 = sanitized m % 8 := by omega
  rw [consulted, pageBit, bitIndex, hdiv, hmod]

theorem kilobyte_lt (d : Access) (m : ℕ) : kilobyte d m < 4 := by
  cases d <;> simp only [kilobyte] <;> split_ifs <;> norm_num

theorem sanitized_lt {m : ℕ} (hm : VmcsMsr m) : sanitized m < 8192 := by
  unfold sanitized
  unfold VmcsMsr at hm
  split_ifs <;> omega

theorem bitIndex_lt {d : Access} {m : ℕ} (hm : VmcsMsr m) : bitIndex d m < 8 * 4096 := by
  have h1 := kilobyte_lt d m
  have h2 := sanitized_lt hm
  unfold bitIndex
  omega

theorem bitIndex_inj {d d' : Access} {m m' : ℕ} (hm : VmcsMsr m) (hm' : VmcsMsr m')
    (h : bitIndex d m = bitIndex d' m') : d = d' ∧ m = m' := by
  have hs := sanitized_lt hm
  have hs' := sanitized_lt hm'
  have hk : kilobyte d m = kilobyte d' m' := by
    unfold bitIndex at h
    omega
  have hn : sanitized m = sanitized m' := by
    unfold bitIndex at h
    omega
  unfold VmcsMsr at hm hm'
  unfold sanitized at hn
  cases d <;> cases d' <;> simp only [kilobyte] at hk <;> split_ifs at hk hn <;>
    first
      | omega
      | exact ⟨rfl, by omega⟩

theorem getLsbD_one_shiftLeft {i k : ℕ} (hi : i < 8) (hk : k < 8) :
    (1#8 <<< i).getLsbD k = decide (k = i) := by
  have h : ∀ i k : Fin 8, (1#8 <<< (i : ℕ)).getLsbD k = decide ((k : ℕ) = i) := by decide
  exact h ⟨i, hi⟩ ⟨k, hk⟩

/-- **One store.**  `__modify_msr_bitmap_bit` stays inside the page and changes one bit. -/
theorem modifyMsrBitmapBit_spec (hlen : page.length = 4096) {bitmap n : ℕ} (set : Bool)
    (hn : n < 8192) (hb : bitmap ≤ 3072) :
    ∃ page', modifyMsrBitmapBit page bitmap n set = .ok page' ∧ page'.length = 4096 ∧
      ∀ i, pageBit page' i = if i = 8 * bitmap + n then set else pageBit page i := by
  have hpos : n / 8 % 2 ^ 32 = n / 8 := Nat.mod_eq_of_lt (by omega)
  have hlt : bitmap + n / 8 < page.length := by omega
  have hstore : ∀ byte : BitVec 8,
      (∀ k < 8, byte.getLsbD k =
        if k = n % 8 then set else page[bitmap + n / 8].getLsbD k) →
      ∀ i, pageBit (page.set (bitmap + n / 8) byte) i =
        if i = 8 * bitmap + n then set else pageBit page i := by
    intro byte hbyte i
    unfold pageBit
    rw [List.getD_eq_getElem?_getD, List.getElem?_set]
    by_cases hi : bitmap + n / 8 = i / 8
    · rw [if_pos hi, if_pos hlt, Option.getD_some, hbyte _ (Nat.mod_lt _ (by norm_num))]
      rw [List.getD_eq_getElem?_getD, ← hi, List.getElem?_eq_getElem hlt, Option.getD_some]
      exact if_congr (by omega) rfl rfl
    · rw [if_neg hi, if_neg (by omega), List.getD_eq_getElem?_getD]
  unfold modifyMsrBitmapBit
  simp only [hpos, List.getElem?_eq_getElem hlt]
  cases set with
  | true =>
      refine ⟨_, rfl, by rw [List.length_set, hlen], hstore _ fun k hk => ?_⟩
      rw [BitVec.getLsbD_or, getLsbD_one_shiftLeft (Nat.mod_lt _ (by norm_num)) hk]
      by_cases h : k = n % 8 <;> simp [h]
  | false =>
      refine ⟨_, rfl, by rw [List.length_set, hlen], hstore _ fun k hk => ?_⟩
      rw [BitVec.getLsbD_and, BitVec.getLsbD_not,
        getLsbD_one_shiftLeft (Nat.mod_lt _ (by norm_num)) hk]
      by_cases h : k = n % 8 <;> simp [h, hk]

/-! ### Calls -/

theorem isLowVmcsMsr_iff (m : ℕ) : isLowVmcsMsr m = true ↔ m ≤ 0x1FFF := by
  simp [isLowVmcsMsr]

theorem isHighVmcsMsr_iff (m : ℕ) :
    isHighVmcsMsr m = true ↔ 0xC0000000 ≤ m ∧ m ≤ 0xC0001FFF := by
  simp [isHighVmcsMsr]

theorem vmxSetInterceptRegRdmsr_spec (hlen : page.length = 4096) {m : ℕ} (hm : VmcsMsr m)
    (b : Bool) :
    ∃ page', vmxSetInterceptRegRdmsr page m b = .ok page' ∧ page'.length = 4096 ∧
      ∀ i, pageBit page' i = if i = bitIndex .read m then b else pageBit page i := by
  have hs := sanitized_lt hm
  unfold vmxSetInterceptRegRdmsr highReadMsrOffset
  unfold bitIndex
  by_cases hlow : m ≤ 0x1FFF
  · simp only [sanitized, kilobyte, hlow, if_true] at hs ⊢
    rw [if_pos ((isLowVmcsMsr_iff m).mpr hlow)]
    exact modifyMsrBitmapBit_spec hlen b hs (by norm_num)
  · simp only [sanitized, kilobyte, hlow, if_false] at hs ⊢
    rw [if_neg (mt (isLowVmcsMsr_iff m).mp hlow),
      if_pos ((isHighVmcsMsr_iff m).mpr (hm.resolve_left hlow))]
    exact modifyMsrBitmapBit_spec hlen b hs (by norm_num)

theorem vmxSetInterceptRegWrmsr_spec (hlen : page.length = 4096) {m : ℕ} (hm : VmcsMsr m)
    (b : Bool) :
    ∃ page', vmxSetInterceptRegWrmsr page m b = .ok page' ∧ page'.length = 4096 ∧
      ∀ i, pageBit page' i = if i = bitIndex .write m then b else pageBit page i := by
  have hs := sanitized_lt hm
  unfold vmxSetInterceptRegWrmsr lowWriteMsrOffset highWriteMsrOffset
  unfold bitIndex
  by_cases hlow : m ≤ 0x1FFF
  · simp only [sanitized, kilobyte, hlow, if_true] at hs ⊢
    rw [if_pos ((isLowVmcsMsr_iff m).mpr hlow)]
    exact modifyMsrBitmapBit_spec hlen b hs (by norm_num)
  · simp only [sanitized, kilobyte, hlow, if_false] at hs ⊢
    rw [if_neg (mt (isLowVmcsMsr_iff m).mp hlow),
      if_pos ((isHighVmcsMsr_iff m).mpr (hm.resolve_left hlow))]
    exact modifyMsrBitmapBit_spec hlen b hs (by norm_num)

/-- A store to the bit of one access, as the processor sees it. -/
theorem consulted_of_pageBit {d : Access} {m : ℕ} {b : Bool} (hm : VmcsMsr m)
    (hbits : ∀ i, pageBit page' i = if i = bitIndex d m then b else pageBit page i)
    (d' : Access) {m' : ℕ} (hm' : VmcsMsr m') :
    consulted page' d' m' = if d' = d ∧ m' = m then b else consulted page d' m' := by
  rw [consulted_eq, consulted_eq, hbits]
  refine if_congr ⟨bitIndex_inj hm' hm, ?_⟩ rfl rfl
  rintro ⟨rfl, rfl⟩
  rfl

/-- **One call** stays inside the page and changes the bits that it sets, and no others. -/
theorem Call.exec_spec (hlen : page.length = 4096) (c : Call) (hc : VmcsMsr c.msr) :
    ∃ page', c.exec page = .ok page' ∧ page'.length = 4096 ∧
      ∀ d m, VmcsMsr m →
        consulted page' d m = if c.sets d m then c.intercept else consulted page d m := by
  cases c with
  | rdmsr msr b =>
      obtain ⟨page', hexec, hlen', hbits⟩ := vmxSetInterceptRegRdmsr_spec hlen hc b
      refine ⟨page', hexec, hlen', fun d m hm => ?_⟩
      rw [consulted_of_pageBit hc hbits d hm]
      simp only [Call.sets, Call.msr, Call.intercept, Bool.and_eq_true, decide_eq_true_eq]
      exact if_congr (and_congr_right fun _ => eq_comm) rfl rfl
  | wrmsr msr b =>
      obtain ⟨page', hexec, hlen', hbits⟩ := vmxSetInterceptRegWrmsr_spec hlen hc b
      refine ⟨page', hexec, hlen', fun d m hm => ?_⟩
      rw [consulted_of_pageBit hc hbits d hm]
      simp only [Call.sets, Call.msr, Call.intercept, Bool.and_eq_true, decide_eq_true_eq]
      exact if_congr (and_congr_right fun _ => eq_comm) rfl rfl
  | both msr b =>
      obtain ⟨page₁, hexec₁, hlen₁, hbits₁⟩ := vmxSetInterceptRegRdmsr_spec hlen hc b
      obtain ⟨page₂, hexec₂, hlen₂, hbits₂⟩ := vmxSetInterceptRegWrmsr_spec hlen₁ hc b
      have hexec : vmxSetInterceptMsr page msr b = .ok page₂ := by
        simp only [Call.msr] at hexec₁ hexec₂
        rw [vmxSetInterceptMsr, hexec₁]
        exact hexec₂
      refine ⟨page₂, hexec, hlen₂, fun d m hm => ?_⟩
      rw [consulted_of_pageBit hc hbits₂ d hm, consulted_of_pageBit hc hbits₁ d hm]
      simp only [Call.sets, Call.msr, Call.intercept, decide_eq_true_eq, eq_comm (a := m)]
      cases d <;> simp

theorem lastIntercept_append (d : Access) (m : ℕ) (cs : List Call) (c : Call) :
    lastIntercept d m (cs ++ [c]) = if c.sets d m then c.intercept else lastIntercept d m cs := by
  unfold lastIntercept
  rw [List.reverse_append, List.reverse_singleton, List.singleton_append, List.find?_cons]
  cases c.sets d m <;> simp

/-- **The page is a faithful store.**  After every sequence of calls for MSRs that have bits, none of
which leaves the page, the bits are the flags of the last calls; and one more call changes the bits
that it sets, and no others. -/
theorem intercepts_stored (cs : List Call) (hcs : ∀ c ∈ cs, VmcsMsr c.msr) :
    ∃ page, cs.foldlM Call.exec (List.replicate 4096 0#8) = .ok page ∧ page.length = 4096 ∧
      (∀ d m, VmcsMsr m → consulted page d m = lastIntercept d m cs) ∧
      ∀ c : Call, VmcsMsr c.msr → ∃ page', c.exec page = .ok page' ∧
        ∀ d m, VmcsMsr m → c.sets d m = false → consulted page' d m = consulted page d m := by
  suffices hrun : ∃ page, cs.foldlM Call.exec (List.replicate 4096 0#8) = .ok page ∧
      page.length = 4096 ∧ ∀ d m, VmcsMsr m → consulted page d m = lastIntercept d m cs by
    obtain ⟨page, hfold, hlen, hbits⟩ := hrun
    refine ⟨page, hfold, hlen, hbits, fun c hc => ?_⟩
    obtain ⟨page', hexec, -, hbits'⟩ := c.exec_spec hlen hc
    refine ⟨page', hexec, fun d m hm hsets => ?_⟩
    rw [hbits' d m hm, hsets, if_neg Bool.false_ne_true]
  induction cs using List.reverseRecOn with
  | nil =>
      refine ⟨_, rfl, List.length_replicate, fun d m hm => ?_⟩
      have hlt := bitIndex_lt (d := d) hm
      rw [consulted_eq, pageBit, List.getD_eq_getElem?_getD,
        List.getElem?_replicate_of_lt (by omega)]
      simp [lastIntercept]
  | append_singleton cs c ih =>
      obtain ⟨page, hfold, hlen, hbits⟩ := ih fun c' hc' => hcs c' (List.mem_append_left _ hc')
      obtain ⟨page', hexec, hlen', hbits'⟩ := c.exec_spec hlen (hcs c (by simp))
      refine ⟨page', ?_, hlen', fun d m hm => ?_⟩
      · simp only [List.foldlM_append, hfold, bind, Except.bind, List.foldlM_cons, List.foldlM_nil,
          hexec]
        rfl
      · rw [hbits' d m hm, lastIntercept_append, hbits d m hm]

/-- Reads and writes of `IA32_APIC_BASE` are intercepted, and then the reads no longer. -/
theorem intercepts_stored_apicBase :
    ∃ page, [Call.both 0x1B true, Call.rdmsr 0x1B false].foldlM Call.exec
        (List.replicate 4096 0#8) = .ok page ∧
      consulted page .read 0x1B = false ∧ consulted page .write 0x1B = true := by
  obtain ⟨page, hfold, -, hbits, -⟩ :=
    intercepts_stored [.both 0x1B true, .rdmsr 0x1B false] (by simp [VmcsMsr, Call.msr])
  have hm : VmcsMsr 0x1B := Or.inl (by norm_num)
  exact ⟨page, hfold, hbits .read _ hm, hbits .write _ hm⟩

end HyveMind.MsrBitmap
