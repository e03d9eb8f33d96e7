import HyveMind.VmConfig

/-! # What the lexer finds

The results of `seek_next_token` for any memory behind the cursor, also where the file is malformed or
where the loops run past its end.  A token (`Found`) has only blanks and line breaks in front of it, and
it is a delimiter, a word that ends in front of a blank, a line break or a delimiter, or what stands
between two quotes.  The lexer gives up (`Refused`) at the first byte that is none of these.

`seekNextToken_finds` says that there are no other results. -/

namespace HyveMind

namespace MemFileOps

variable (ops : MemFileOps) (c : UInt8)

/-- A blank or a line break. -/
def Blank : Prop := c = MemFile.lineBreak ∨ ops.isWhitespace c = true

/-- A byte in front of which a word ends. -/
def EndsWord : Prop := ops.Blank c ∨ ops.isDelim c = true

/-- A byte of a word: the word does not end here. -/
def InWord : Prop := ops.isValidTokenChar c = true ∧ ¬ ops.EndsWord c

end MemFileOps

namespace MemFile

/-- A token behind the cursor of `f`, with its place and the new cursor. -/
inductive Found (f : MemFile) : Seek → Prop
  | delim {gap rest : List UInt8} {c : UInt8} (htext : f.f.drop f.pos = gap ++ c :: rest)
      (hgap : ∀ x ∈ gap, f.ops.Blank x) (hdelim : f.ops.isDelim c = true) :
      Found f ⟨.token, f.seekTo (f.pos + gap.length + 1), f.pos + gap.length, f.pos + gap.length⟩
  | word {gap word rest : List UInt8} {c : UInt8}
      (htext : f.f.drop f.pos = gap ++ (word ++ c :: rest)) (hgap : ∀ x ∈ gap, f.ops.Blank x)
      (hne : word ≠ []) (hword : ∀ x ∈ word, f.ops.InWord x) (hend : f.ops.EndsWord c) :
      Found f ⟨.token, f.seekTo (f.pos + gap.length + word.length), f.pos + gap.length,
        f.pos + gap.length + word.length - 1⟩
  | quoted {gap text rest : List UInt8}
      (htext : f.f.drop f.pos = gap ++ quote :: (text ++ quote :: rest))
      (hgap : ∀ x ∈ gap, f.ops.Blank x) (hne : text ≠ []) (hquote : quote ∉ text) :
      Found f ⟨.token, f.seekTo (f.pos + gap.length + 1 + text.length + 1), f.pos + gap.length + 1,
        f.pos + gap.length + 1 + text.length - 1⟩

/-- The text behind the cursor of `f` is refused, with the new cursor.  It is at the first byte that is
not allowed, which is a quote only inside of a word; a quoted text that is too short is read to its
end. -/
inductive Refused (f : MemFile) : Seek → Prop
  | symbol {gap word rest : List UInt8} {c : UInt8} {a b : ℕ}
      (htext : f.f.drop f.pos = gap ++ (word ++ c :: rest)) (hgap : ∀ x ∈ gap, f.ops.Blank x)
      (hword : ∀ x ∈ word, f.ops.InWord x) (hend : ¬ f.ops.EndsWord c)
      (hvalid : f.ops.isValidTokenChar c = false) (hquote : c = quote → word ≠ []) :
      Refused f ⟨.invalidSymbol, f.seekTo (f.pos + gap.length + word.length), a, b⟩
  | quoted {gap text rest : List UInt8} {a b : ℕ}
      (htext : f.f.drop f.pos = gap ++ quote :: (text ++ quote :: rest))
      (hgap : ∀ x ∈ gap, f.ops.Blank x) (hshort : text.length < 2) (hquote : quote ∉ text) :
      Refused f ⟨.invalidSymbol, f.seekTo (f.pos + gap.length + 1 + text.length + 1), a, b⟩

/-- The results of a call: the end of the file, a token, or a text that is refused.  Nothing else goes
wrong but a read outside of the memory. -/
inductive Scans (f : MemFile) : Except Fault Seek → Prop
  | oom {g : MemFile} {a b : ℕ} : Scans f (.ok ⟨.oom, g, a, b⟩)
  | found {r : Seek} (h : Found f r) : Scans f (.ok r)
  | refused {r : Seek} (h : Refused f r) : Scans f (.ok r)
  | outside : Scans f (.error .outside)

variable {f : MemFile} {pos a b : ℕ} {gap word text bytes : List UInt8} {r : Seek}

/-! ### Blanks in front -/

theorem append_gap {q : ℕ} {rest : List UInt8} (hq : q = f.pos + gap.length)
    (htext : f.f.drop f.pos = gap ++ rest) : f.f.drop q = rest := by
  rw [hq, ← List.drop_drop, htext, List.drop_left]

theorem forall_gap {P : UInt8 → Prop} {gap' : List UInt8} (h : ∀ x ∈ gap, P x)
    (h' : ∀ x ∈ gap', P x) : ∀ x ∈ gap ++ gap', P x := by
  intro x hx
  rcases List.mem_append.mp hx with hx | hx
  · exact h x hx
  · exact h' x hx

theorem Found.of_seekTo {q : ℕ} (hq : q = f.pos + gap.length)
    (htext : f.f.drop f.pos = gap ++ f.f.drop q) (hgap : ∀ x ∈ gap, f.ops.Blank x)
    (h : Found (f.seekTo q) r) : Found f r := by
  have hsum : ∀ gap' : List UInt8, q + gap'.length = f.pos + (gap ++ gap').length := by
    intro gap'
    rw [hq, List.length_append, Nat.add_assoc]
  cases h with
  | @delim gap' rest c ht hg hdelim =>
      have ht' : f.f.drop q = gap' ++ c :: rest := ht
      rw [ht', ← List.append_assoc] at htext
      have hfound := Found.delim htext (forall_gap hgap hg) hdelim
      rw [← hsum gap'] at hfound
      exact hfound
  | @word gap' word rest c ht hg hne hword hend =>
      have ht' : f.f.drop q = gap' ++ (word ++ c :: rest) := ht
      rw [ht', ← List.append_assoc] at htext
      have hfound := Found.word htext (forall_gap hgap hg) hne hword hend
      rw [← hsum gap'] at hfound
      exact hfound
  | @quoted gap' text rest ht hg hne hquote =>
      have ht' : f.f.drop q = gap' ++ quote :: (text ++ quote :: rest) := ht
      rw [ht', ← List.append_assoc] at htext
      have hfound := Found.quoted htext (forall_gap hgap hg) hne hquote
      rw [← hsum gap'] at hfound
      exact hfound

theorem Refused.of_seekTo {q : ℕ} (hq : q = f.pos + gap.length)
    (htext : f.f.drop f.pos = gap ++ f.f.drop q) (hgap : ∀ x ∈ gap, f.ops.Blank x)
    (h : Refused (f.seekTo q) r) : Refused f r := by
  have hsum : ∀ gap' : List UInt8, q + gap'.length = f.pos + (gap ++ gap').length := by
    intro gap'
    rw [hq, List.length_append, Nat.add_assoc]
  cases h with
  | @symbol gap' word rest c a b ht hg hword hend hvalid hquote =>
      have ht' : f.f.drop q = gap' ++ (word ++ c :: rest) := ht
      rw [ht', ← List.append_assoc] at htext
      have hrefused := Refused.symbol (a := a) (b := b) htext (forall_gap hgap hg) hword hend hvalid
        hquote
      rw [← hsum gap'] at hrefused
      exact hrefused
  | @quoted gap' text rest a b ht hg hshort hquote =>
      have ht' : f.f.drop q = gap' ++ quote :: (text ++ quote :: rest) := ht
      rw [ht', ← List.append_assoc] at htext
      have hrefused := Refused.quoted (a := a) (b := b) htext (forall_gap hgap hg) hshort hquote
      rw [← hsum gap'] at hrefused
      exact hrefused

theorem Scans.of_seekTo {q : ℕ} {x : Except Fault Seek} (hq : q = f.pos + gap.length)
    (htext : f.f.drop f.pos = gap ++ f.f.drop q) (hgap : ∀ x ∈ gap, f.ops.Blank x)
    (h : Scans (f.seekTo q) x) : Scans f x := by
  cases h with
  | oom => exact .oom
  | found h => exact .found (h.of_seekTo hq htext hgap)
  | refused h => exact .refused (h.of_seekTo hq htext hgap)
  | outside => exact .outside

/-! ### One line -/

theorem scans_word (word : List UInt8) (hoom : f.oom = false) (htext : f.f.drop f.pos = gap ++ (word ++ bytes))
    (hgap : ∀ x ∈ gap, f.ops.Blank x) (hne : word ≠ []) (hword : ∀ x ∈ word, f.ops.InWord x) :
    Scans f (tokenInLineLoop f a b (f.pos + gap.length + word.length) (f.pos + gap.length) true false
      bytes) := by
  induction bytes generalizing word with
  | nil =>
      rw [tokenInLineLoop, hoom]
      exact .outside
  | cons c rest ih =>
      simp only [tokenInLineLoop, hoom, Bool.false_eq_true, if_false, Bool.not_true]
      by_cases hend : f.ops.EndsWord c
      · have hcond : (decide (c = lineBreak) || f.ops.isWhitespace c || f.ops.isDelim c) = true := by
          simpa [MemFileOps.EndsWord, MemFileOps.Blank] using hend
        rw [if_pos hcond]
        exact .found (.word htext hgap hne hword hend)
      · have hcond : ¬ (decide (c = lineBreak) || f.ops.isWhitespace c || f.ops.isDelim c) = true := by
          simpa [MemFileOps.EndsWord, MemFileOps.Blank] using hend
        rw [if_neg hcond]
        cases hvalid : f.ops.isValidTokenChar c with
        | false => exact .refused (.symbol htext hgap hword hend hvalid fun _ => hne)
        | true =>
            rw [if_pos rfl]
            have hnext : f.f.drop f.pos = gap ++ (word ++ [c] ++ rest) := by
              rw [htext, List.append_assoc word, List.singleton_append]
            have hchars : ∀ x ∈ word ++ [c], f.ops.InWord x := by
              apply forall_gap hword
              intro x hx
              rw [List.mem_singleton.mp hx]
              exact ⟨hvalid, hend⟩
            have hloop := ih (word ++ [c]) hnext (by simp) hchars
            rw [List.length_append, List.length_singleton, ← Nat.add_assoc] at hloop
            exact hloop

theorem scans_quoted (text : List UInt8) (hoom : f.oom = false)
    (htext : f.f.drop f.pos = gap ++ quote :: (text ++ bytes)) (hgap : ∀ x ∈ gap, f.ops.Blank x)
    (hquote : quote ∉ text) :
    Scans f (tokenInLineLoop f a b (f.pos + gap.length + 1 + text.length) (f.pos + gap.length) false
      true bytes) := by
  induction bytes generalizing text with
  | nil =>
      rw [tokenInLineLoop, hoom]
      exact .outside
  | cons c rest ih =>
      simp only [tokenInLineLoop, hoom, Bool.false_eq_true, if_false, if_true]
      by_cases hc : c = quote
      · subst hc
        rw [if_pos rfl]
        by_cases hlen : 2 ≤ text.length
        · rw [if_pos (by omega)]
          have hne : text ≠ [] := List.ne_nil_of_length_pos (by omega)
          exact .found (.quoted htext hgap hne hquote)
        · rw [if_neg (by omega)]
          exact .refused (.quoted htext hgap (Nat.lt_of_not_le hlen) hquote)
      · rw [if_neg hc]
        have hnext : f.f.drop f.pos = gap ++ quote :: (text ++ [c] ++ rest) := by
          rw [htext, List.append_assoc text, List.singleton_append]
        have hfree : quote ∉ text ++ [c] := by
          rw [List.mem_append, List.mem_singleton, not_or]
          exact ⟨hquote, fun h => hc h.symm⟩
        have hloop := ih (text ++ [c]) hnext hfree
        rw [List.length_append, List.length_singleton, ← Nat.add_assoc] at hloop
        exact hloop

/-- The search in a line ends at a line break or with a result. -/
theorem scans_line (gap : List UInt8) (hoom : f.oom = false) (htext : f.f.drop f.pos = gap ++ bytes)
    (hgap : ∀ x ∈ gap, f.ops.Blank x) :
    (∃ gap' rest, tokenInLineLoop f a b (f.pos + gap.length) 0 false false bytes =
        .ok ⟨.noToken, f.seekTo (f.pos + gap'.length), b, b⟩ ∧
        f.f.drop f.pos = gap' ++ lineBreak :: rest ∧ ∀ x ∈ gap', f.ops.Blank x) ∨
      Scans f (tokenInLineLoop f a b (f.pos + gap.length) 0 false false bytes) := by
  induction bytes generalizing gap with
  | nil =>
      rw [tokenInLineLoop, hoom]
      exact .inr .outside
  | cons c rest ih =>
      simp only [tokenInLineLoop, hoom, Bool.false_eq_true, if_false, Bool.not_false, if_true]
      by_cases hbreak : c = lineBreak
      · rw [if_pos hbreak]
        exact .inl ⟨gap, rest, rfl, hbreak ▸ htext, hgap⟩
      rw [if_neg hbreak]
      cases hws : f.ops.isWhitespace c with
      | true =>
          rw [if_pos rfl]
          have hnext : f.f.drop f.pos = gap ++ [c] ++ rest := by
            rw [htext, List.append_assoc, List.singleton_append]
          have hblank : ∀ x ∈ gap ++ [c], f.ops.Blank x := by
            apply forall_gap hgap
            intro x hx
            rw [List.mem_singleton.mp hx]
            exact .inr hws
          have hloop := ih (gap ++ [c]) hnext hblank
          rw [List.length_append, List.length_singleton, ← Nat.add_assoc] at hloop
          exact hloop
      | false =>
          rw [if_neg Bool.false_ne_true]
          right
          cases hdelim : f.ops.isDelim c with
          | true => exact .found (.delim htext hgap hdelim)
          | false =>
              rw [if_neg Bool.false_ne_true]
              have hend : ¬ f.ops.EndsWord c := by
                simp [MemFileOps.EndsWord, MemFileOps.Blank, hbreak, hws, hdelim]
              cases hvalid : f.ops.isValidTokenChar c with
              | true =>
                  rw [if_pos rfl]
                  have hword : ∀ x ∈ [c], f.ops.InWord x := by
                    intro x hx
                    rw [List.mem_singleton.mp hx]
                    exact ⟨hvalid, hend⟩
                  exact scans_word [c] hoom htext hgap (by simp) hword
              | false =>
                  rw [if_neg Bool.false_ne_true]
                  by_cases hquote : c = quote
                  · subst hquote
                    rw [if_pos rfl]
                    exact scans_quoted [] hoom htext hgap (by simp)
                  · rw [if_neg hquote]
                    have hrefused : Refused f ⟨.invalidSymbol,
                        f.seekTo (f.pos + gap.length + ([] : List UInt8).length), a, b⟩ :=
                      .symbol htext hgap (by simp) hend hvalid fun h => absurd h hquote
                    exact .refused hrefused

/-! ### All lines -/

/-- `__seek_newline` at a line break goes behind it, or stays where it is behind the end of the file. -/
theorem seekNewlineImpl_cases {rest : List UInt8} (exclusive : Bool)
    (htext : f.f.drop f.pos = lineBreak :: rest) :
    ∃ status, f.seekNewlineImpl exclusive = .ok (status, f.seekTo (f.pos + 1)) ∨
      f.oom = true ∧ f.seekNewlineImpl exclusive = .ok (status, f) := by
  cases hoom : f.oom with
  | false =>
      obtain ⟨status, h⟩ := seekNewlineImpl_eq hoom exclusive htext
      exact ⟨status, .inl h⟩
  | true =>
      refine ⟨(f.newlineResult f.pos).1, .inr ⟨rfl, ?_⟩⟩
      rw [seekNewlineImpl, htext, newlineLoop, if_pos hoom]
      rfl

theorem scans_oom (hoom : f.oom = true) (exclusive : Bool) (fuel startPos endPos : ℕ) :
    Scans f (seekTokenLoop none exclusive a b (fuel + 1) f startPos endPos) := by
  rw [seekTokenLoop, seekTokenInLine]
  cases f.f.drop f.pos with
  | nil =>
      rw [tokenInLineLoop, if_pos hoom]
      exact .oom
  | cons c rest =>
      rw [tokenInLineLoop, if_pos hoom]
      exact .oom

theorem Found.status (h : Found f r) : r.status = .token := by
  cases h <;> rfl

theorem Found.progress (h : Found f r) : f.pos < r.file.pos := by
  cases h with
  | delim _ _ _ =>
      show f.pos < f.pos + _ + 1
      omega
  | word _ _ hne _ _ =>
      have hlen := List.length_pos_of_ne_nil hne
      show f.pos < f.pos + _ + _
      omega
  | quoted _ _ _ _ =>
      show f.pos < f.pos + _ + 1 + _ + 1
      omega

theorem Refused.status (h : Refused f r) : r.status = .invalidSymbol := by
  cases h <;> rfl

theorem Refused.positions (h : Refused f r) (a b : ℕ) : Refused f ⟨.invalidSymbol, r.file, a, b⟩ := by
  cases h with
  | symbol htext hgap hword hend hvalid hquote => exact .symbol htext hgap hword hend hvalid hquote
  | quoted htext hgap hshort hquote => exact .quoted htext hgap hshort hquote

theorem scans_of_line {fuel startPos endPos : ℕ} {exclusive : Bool}
    (h : Scans f (seekTokenInLine f startPos endPos)) :
    Scans f (seekTokenLoop none exclusive a b (fuel + 1) f startPos endPos) := by
  rw [seekTokenLoop]
  generalize seekTokenInLine f startPos endPos = x at h ⊢
  cases h with
  | oom => exact .oom
  | @found r h =>
      have hstatus := h.status
      obtain ⟨status, file, start, stop⟩ := r
      cases hstatus
      exact .found h
  | @refused r h =>
      have hrefused := h.positions a b
      have hstatus := h.status
      obtain ⟨status, file, start, stop⟩ := r
      cases hstatus
      exact .refused hrefused
  | outside => exact .outside

theorem scans_loop {fuel : ℕ} {exclusive : Bool} {startPos endPos : ℕ}
    (hfuel : f.f.length - f.pos < fuel) :
    Scans f (seekTokenLoop none exclusive a b fuel f startPos endPos) := by
  induction fuel generalizing f startPos endPos with
  | zero => omega
  | succ fuel ih =>
      cases hoom : f.oom with
      | true => exact scans_oom hoom exclusive fuel startPos endPos
      | false =>
          have hline : (∃ gap rest, seekTokenInLine f startPos endPos =
              .ok ⟨.noToken, f.seekTo (f.pos + gap.length), endPos, endPos⟩ ∧
              f.f.drop f.pos = gap ++ lineBreak :: rest ∧ ∀ x ∈ gap, f.ops.Blank x) ∨
              Scans f (seekTokenInLine f startPos endPos) :=
            scans_line [] hoom rfl (by simp)
          rcases hline with ⟨gap, rest, hres, htext, hgap⟩ | hscans
          swap
          · exact scans_of_line hscans
          have hbreak := append_gap rfl htext
          have hlen : f.pos + gap.length < f.f.length := (drop_succ_of_drop hbreak).2
          rw [seekTokenLoop, hres]
          show Scans f (seekNewlineImpl (f.seekTo (f.pos + gap.length)) true >>= _)
          obtain ⟨status, hnewline | ⟨hoom', hnewline⟩⟩ :=
            seekNewlineImpl_cases (f := f.seekTo (f.pos + gap.length)) true hbreak
          · rw [hnewline]
            have hblank : ∀ x ∈ gap ++ [lineBreak], f.ops.Blank x := by
              apply forall_gap hgap
              intro x hx
              exact .inl (List.mem_singleton.mp hx)
            have hq : f.pos + gap.length + 1 = f.pos + (gap ++ [lineBreak]).length := by
              rw [List.length_append, List.length_singleton, Nat.add_assoc]
            refine Scans.of_seekTo hq ?_ hblank (ih ?_)
            · rw [(drop_succ_of_drop hbreak).1, htext, List.append_assoc, List.singleton_append]
            · show f.f.length - (f.pos + gap.length + 1) < fuel
              omega
          · rw [hnewline]
            obtain ⟨fuel, rfl⟩ : ∃ k, fuel = k + 1 := ⟨fuel - 1, by omega⟩
            refine Scans.of_seekTo rfl ?_ hgap (scans_oom hoom' exclusive fuel endPos endPos)
            rw [hbreak, htext]

theorem seekNextToken_scans (f : MemFile) (start stop : ℕ) : Scans f (f.seekNextToken start stop) :=
  scans_loop (by omega)

/-- **The tokens of the lexer.**  Whatever is in the memory, a token is as `Found` says, with the
cursor behind it and further than before, and a symbol is refused as `Refused` says. -/
theorem seekNextToken_finds {start stop : ℕ} (h : f.seekNextToken start stop = .ok r) :
    (r.status = .token → Found f r ∧ f.pos < r.file.pos) ∧
      (r.status = .invalidSymbol → Refused f r) := by
  have hscans := seekNextToken_scans f start stop
  rw [h] at hscans
  cases hscans with
  | oom => exact ⟨nofun, nofun⟩
  | found hfound =>
      refine ⟨fun _ => ⟨hfound, hfound.progress⟩, fun hstatus => ?_⟩
      rw [hfound.status] at hstatus
      cases hstatus
  | refused hrefused =>
      refine ⟨fun hstatus => ?_, fun _ => hrefused⟩
      rw [hrefused.status] at hstatus
      cases hstatus

/-- A line break and a blank in front of `ab`, which a delimiter ends. -/
theorem seekNextToken_finds_word :
    Found (VmConfig.configFile (bytesOf "\n ab=c\n"))
      ⟨.token, (VmConfig.configFile (bytesOf "\n ab=c\n")).seekTo 4, 2, 3⟩ := by
  have hcall : (VmConfig.configFile (bytesOf "\n ab=c\n")).seekNextToken 0 0 =
      .ok ⟨.token, (VmConfig.configFile (bytesOf "\n ab=c\n")).seekTo 4, 2, 3⟩ := rfl
  exact ((seekNextToken_finds hcall).1 rfl).1

end MemFile

end HyveMind
