import HyveMind.VmConfig

/-! # Writing tokens out and reading them back

A list of tokens is written out with blanks and line breaks between them and a line break at the end
(`render`), and `seek_next_token` is called again and again (`seekTokens`).  The calls give back the
tokens, at their places (`spans`), iff no quoted token has only one character: `rendered_iff`.
`seek_token_in_line` compares the first and the last position of a quoted token with `<`. -/

namespace HyveMind.MemFile

open VmConfig

/-! ### Tokens and texts -/

/-- A token as it is written out. -/
inductive Tok
  | delim
  | word (text : List UInt8)
  | quoted (text : List UInt8)
deriving DecidableEq, Repr

namespace Tok

/-- What stands in the file. -/
def written : Tok → List UInt8
  | .delim => configSectionDelim
  | .word text => text
  | .quoted text => quote :: (text ++ [quote])

/-- The text of the token, without quotes. -/
def text : Tok → List UInt8
  | .delim => configSectionDelim
  | .word text => text
  | .quoted text => text

/-- The number of bytes before the text. -/
def offset : Tok → ℕ
  | .quoted _ => 1
  | _ => 0

def isWord : Tok → Bool
  | .word _ => true
  | _ => false

/-- A word has valid characters only, a quoted text has no quotes, and both are not empty. -/
def Valid : Tok → Prop
  | .delim => True
  | .word text => text ≠ [] ∧ ∀ c ∈ text, isValidConfigTokenChar c = true
  | .quoted text => text ≠ [] ∧ quote ∉ text

/-- A quoted text has at least two characters. -/
def Long : Tok → Prop
  | .quoted text => 2 ≤ text.length
  | _ => True

instance : DecidablePred Long
  | .delim => inferInstanceAs (Decidable True)
  | .word _ => inferInstanceAs (Decidable True)
  | .quoted text => inferInstanceAs (Decidable (2 ≤ text.length))

end Tok

/-- A blank or a line break. -/
def Blank (c : UInt8) : Prop := c = lineBreak ∨ isConfigWhitespace c = true

/-- A byte behind which a word ends. -/
def EndsWord (c : UInt8) : Prop := Blank c ∨ isConfigDelim c = true

/-- Tokens with the blanks before each of them, and the blanks at the end. -/
def render : List (List UInt8 × Tok) → List UInt8 → List UInt8
  | [], last => last
  | (gap, tok) :: items, last => gap ++ (tok.written ++ render items last)

/-- Where the texts of the tokens are, if the text begins at `pos`. -/
def spans : ℕ → List (List UInt8 × Tok) → List (ℕ × ℕ)
  | _, [] => []
  | pos, (gap, tok) :: items =>
      (pos + gap.length + tok.offset, pos + gap.length + tok.offset + tok.text.length - 1) ::
        spans (pos + gap.length + tok.written.length) items

/-- The tokens can be written out so. -/
structure Rendered (items : List (List UInt8 × Tok)) (last : List UInt8) : Prop where
  valid : ∀ x ∈ items, x.2.Valid
  blank : ∀ x ∈ items, ∀ c ∈ x.1, Blank c
  apart : items.IsChain fun x y => x.2.isWord = true → y.2 ≠ .delim → y.1 ≠ []
  lastBlank : ∀ c ∈ last, Blank c
  newline : last.getLast? = some lineBreak

/-- Calls of `seek_next_token`, as long as they find tokens: the places of these, and the last
status. -/
def seekTokens : ℕ → MemFile → (start stop : ℕ) → Except Fault (List (ℕ × ℕ) × SeekStatus)
  | 0, _, _, _ => .error .fuel
  | fuel + 1, f, start, stop => do
      let seek ← f.seekNextToken start stop
      if seek.status = .token then
        let (found, status) ← seekTokens fuel seek.file seek.start seek.stop
        return ((seek.start, seek.stop) :: found, status)
      else return ([], seek.status)

/-! ### Bytes -/

section Bytes

variable {c : UInt8}

theorem whitespace_ne (h : isConfigWhitespace c = true) : c ≠ lineBreak := by
  rintro rfl
  revert h
  decide

theorem valid_facts (h : isValidConfigTokenChar c = true) :
    c ≠ lineBreak ∧ isConfigWhitespace c = false ∧ isConfigDelim c = false := by
  refine ⟨?_, ?_, ?_⟩
  · rintro rfl
    revert h
    decide
  · by_contra hws
    simp only [isConfigWhitespace, Bool.not_eq_false, Bool.or_eq_true, decide_eq_true_eq] at hws
    rcases hws with (rfl | rfl) | rfl <;> revert h <;> decide
  · by_contra hdelim
    simp only [isConfigDelim, Bool.not_eq_false, decide_eq_true_eq] at hdelim
    subst hdelim
    revert h
    decide

end Bytes

/-! ### One token -/

section OneToken

variable {f : MemFile} {a b pos startPos : ℕ} {c : UInt8} {text rest : List UInt8}

theorem tokenInLineLoop_word (hops : f.ops = configOps) (hoom : f.oom = false)
    (hvalid : ∀ c ∈ text, isValidConfigTokenChar c = true) (hend : EndsWord c) :
    tokenInLineLoop f a b pos startPos true false (text ++ c :: rest) =
      .ok ⟨.token, f.seekTo (pos + text.length), startPos, pos + text.length - 1⟩ := by
  induction text generalizing pos with
  | nil =>
      have hbreak : (decide (c = lineBreak) || f.ops.isWhitespace c || f.ops.isDelim c) = true := by
        rw [hops]
        simpa [EndsWord, Blank, configOps] using hend
      simp [tokenInLineLoop, hoom, hbreak]
  | cons d text ih =>
      have hd := hvalid d (List.mem_cons_self ..)
      obtain ⟨hne, hws, hdelim⟩ := valid_facts hd
      rw [List.cons_append, tokenInLineLoop]
      simp only [hoom, hops, configOps, hne, hws, hdelim, hd, Bool.false_eq_true, if_false,
        Bool.not_true, decide_false, Bool.or_self, if_true]
      rw [ih fun e he => hvalid e (List.mem_cons_of_mem _ he), List.length_cons,
        show pos + 1 + text.length = pos + (text.length + 1) by omega]

theorem tokenInLineLoop_quoted (hoom : f.oom = false) (hquote : quote ∉ text) :
    tokenInLineLoop f a b pos startPos false true (text ++ quote :: rest) =
      .ok ⟨if startPos + 1 < pos + text.length - 1 then .token else .invalidSymbol,
        f.seekTo (pos + text.length + 1), startPos + 1, pos + text.length - 1⟩ := by
  induction text generalizing pos with
  | nil => simp [tokenInLineLoop, hoom]
  | cons d text ih =>
      have hd : d ≠ quote := fun h => hquote (h ▸ List.mem_cons_self ..)
      rw [List.cons_append, tokenInLineLoop]
      simp only [hoom, hd, Bool.false_eq_true, if_false, if_true]
      rw [ih fun h => hquote (List.mem_cons_of_mem _ h), List.length_cons,
        show pos + 1 + text.length = pos + (text.length + 1) by omega]

theorem tokenInLineLoop_tok {tok : Tok} (hops : f.ops = configOps) (hoom : f.oom = false)
    (hvalid : tok.Valid) (hend : tok.isWord = true → ∃ c rest', rest = c :: rest' ∧ EndsWord c) :
    tokenInLineLoop f a b pos 0 false false (tok.written ++ rest) =
      .ok ⟨if tok.Long then .token else .invalidSymbol, f.seekTo (pos + tok.written.length),
        pos + tok.offset, pos + tok.offset + tok.text.length - 1⟩ := by
  cases tok with
  | delim =>
      have h1 : '='.toUInt8 ≠ lineBreak := by decide
      have h2 : isConfigWhitespace '='.toUInt8 = false := by decide
      have h3 : isConfigDelim '='.toUInt8 = true := by decide
      simp [Tok.written, Tok.text, Tok.offset, Tok.Long, configSectionDelim, bytesOf,
        tokenInLineLoop, hoom, hops, configOps, h1, h2, h3]
  | word text =>
      obtain ⟨hne, hchars⟩ := hvalid
      obtain ⟨c, rest', rfl, hc⟩ := hend rfl
      obtain ⟨d, text, rfl⟩ := List.exists_cons_of_ne_nil hne
      have hd := hchars d (List.mem_cons_self ..)
      obtain ⟨hbreak, hws, hdelim⟩ := valid_facts hd
      have hword : tokenInLineLoop f a b (pos + 1) pos true false (text ++ c :: rest') = _ :=
        tokenInLineLoop_word hops hoom (fun e he => hchars e (List.mem_cons_of_mem _ he)) hc
      simp only [Tok.written, List.cons_append, tokenInLineLoop, hoom, hops, configOps, hbreak, hws,
        hdelim, hd, Bool.false_eq_true, if_false, Bool.not_false, if_true]
      rw [hword, if_pos (show Tok.Long (.word (d :: text)) from trivial)]
      simp only [Tok.text, Tok.offset, List.length_cons, Nat.add_zero]
      rw [show pos + 1 + text.length = pos + (text.length + 1) by omega]
  | quoted text =>
      obtain ⟨hne, hquote⟩ := hvalid
      have hlen : 0 < text.length := List.length_pos_iff.mpr hne
      have h1 : quote ≠ lineBreak := by decide
      have h2 : isConfigWhitespace quote = false := by decide
      have h3 : isConfigDelim quote = false := by decide
      have h4 : isValidConfigTokenChar quote = false := by decide
      have hquoted : tokenInLineLoop f a b (pos + 1) pos false true (text ++ quote :: rest) = _ :=
        tokenInLineLoop_quoted hoom hquote
      simp only [Tok.written, List.cons_append, List.append_assoc, List.nil_append, tokenInLineLoop, hoom, hops,
        configOps, h1, h2, h3, h4, Bool.false_eq_true, if_false, Bool.not_false, if_true]
      rw [hquoted]
      have hiff : pos + 1 < pos + 1 + text.length - 1 ↔ 2 ≤ text.length := by omega
      simp only [hiff, Tok.Long, Tok.text, Tok.offset, List.length_cons, List.length_append,
        List.length_nil]
      rw [show pos + 1 + text.length + 1 = pos + (text.length + (0 + 1) + 1) by omega]
      rfl

/-- The cursor from which the search started does not matter. -/
theorem tokenInLineLoop_seekTo {q : ℕ} (hoom : f.oom = false) (hoom' : (f.seekTo q).oom = false)
    (inside quoted : Bool) (bytes : List UInt8) :
    tokenInLineLoop (f.seekTo q) a b pos startPos inside quoted bytes =
      tokenInLineLoop f a b pos startPos inside quoted bytes := by
  induction bytes generalizing pos startPos inside quoted with
  | nil => simp [tokenInLineLoop, hoom, hoom']
  | cons c rest ih =>
      simp only [tokenInLineLoop, hoom, hoom', ih]
      rfl

theorem oom_eq_false (hsize : f.size = f.f.length) (hne : f.f.drop pos ≠ []) :
    (f.seekTo pos).oom = false := by
  refine decide_eq_false ?_
  rw [ne_eq, List.drop_eq_nil_iff] at hne
  show ¬ f.size ≤ pos
  omega

/-! ### Blanks before a token -/

variable {exclusive : Bool} {fuel : ℕ} {endPos : ℕ}

theorem seekTokenLoop_whitespace (hops : f.ops = configOps) (hsize : f.size = f.f.length)
    (hdrop : f.f.drop f.pos = c :: rest) (hne : rest ≠ []) (hws : isConfigWhitespace c = true) :
    seekTokenLoop none exclusive a b (fuel + 1) f startPos endPos =
      seekTokenLoop none exclusive a b (fuel + 1) (f.seekTo (f.pos + 1)) startPos endPos := by
  obtain ⟨hrest, -⟩ := drop_succ_of_drop hdrop
  have hoom : f.oom = false := oom_eq_false hsize (by rw [hdrop]; simp)
  have hoom' : (f.seekTo (f.pos + 1)).oom = false := oom_eq_false hsize (by rw [hrest]; exact hne)
  have hline : seekTokenInLine f startPos endPos =
      seekTokenInLine (f.seekTo (f.pos + 1)) startPos endPos := by
    have hws' : f.ops.isWhitespace c = true := by rw [hops]; exact hws
    have hseek : seekTokenInLine (f.seekTo (f.pos + 1)) startPos endPos =
        tokenInLineLoop f startPos endPos (f.pos + 1) 0 false false rest := by
      show tokenInLineLoop (f.seekTo (f.pos + 1)) startPos endPos (f.pos + 1) 0 false false
        (f.f.drop (f.pos + 1)) = _
      rw [hrest, tokenInLineLoop_seekTo hoom hoom']
    rw [hseek, seekTokenInLine, hdrop, tokenInLineLoop]
    simp only [hoom, whitespace_ne hws, hws', Bool.false_eq_true, if_false, Bool.not_false, if_true]
  rw [seekTokenLoop, seekTokenLoop, hline]

theorem seekTokenLoop_newline (hsize : f.size = f.f.length)
    (hdrop : f.f.drop f.pos = lineBreak :: rest) :
    seekTokenLoop none exclusive a b (fuel + 1) f startPos endPos =
      seekTokenLoop none exclusive a b fuel (f.seekTo (f.pos + 1)) endPos endPos := by
  have hoom : f.oom = false := oom_eq_false hsize (by rw [hdrop]; simp)
  obtain ⟨status, hnewline⟩ := seekNewlineImpl_eq hoom true hdrop
  have hline : seekTokenInLine f startPos endPos = .ok ⟨.noToken, f.seekTo f.pos, endPos, endPos⟩ := by
    rw [seekTokenInLine, hdrop, tokenInLineLoop]
    simp only [hoom, Bool.false_eq_true, if_false, Bool.not_false, if_true]
  rw [seekTokenLoop, hline]
  show (seekNewlineImpl f true >>= _) = _
  rw [hnewline]
  rfl

/-- The result of a search that finds a token at `pos`. -/
def tokResult (f : MemFile) (a b pos : ℕ) (tok : Tok) : Seek :=
  if tok.Long then ⟨.token, f.seekTo (pos + tok.written.length), pos + tok.offset,
    pos + tok.offset + tok.text.length - 1⟩
  else ⟨.invalidSymbol, f.seekTo (pos + tok.written.length), a, b⟩

theorem written_ne_nil {tok : Tok} (hvalid : tok.Valid) : tok.written ≠ [] := by
  cases tok with
  | delim => decide
  | word text => exact hvalid.1
  | quoted text => simp [Tok.written]

theorem seekTokenLoop_tok {tok : Tok} {gap : List UInt8} (hops : f.ops = configOps)
    (hsize : f.size = f.f.length) (hvalid : tok.Valid) (hblank : ∀ c ∈ gap, Blank c)
    (hend : tok.isWord = true → ∃ c rest', rest = c :: rest' ∧ EndsWord c)
    (hdrop : f.f.drop f.pos = gap ++ (tok.written ++ rest)) (hfuel : gap.length < fuel) :
    seekTokenLoop none exclusive a b fuel f startPos endPos =
      .ok (tokResult f a b (f.pos + gap.length) tok) := by
  induction gap generalizing f fuel startPos endPos with
  | nil =>
      obtain ⟨fuel, rfl⟩ := Nat.exists_eq_add_one_of_ne_zero (Nat.ne_of_gt hfuel)
      have hoom : f.oom = false := oom_eq_false hsize (by rw [hdrop]; simp [written_ne_nil hvalid])
      have hline : tokenInLineLoop f startPos endPos f.pos 0 false false (tok.written ++ rest) = _ :=
        tokenInLineLoop_tok hops hoom hvalid hend
      rw [seekTokenLoop, seekTokenInLine, hdrop, List.nil_append, hline, tokResult]
      by_cases hlong : tok.Long
      · simp only [if_pos hlong]
        rfl
      · simp only [if_neg hlong]
        rfl
  | cons c gap ih =>
      obtain ⟨fuel, rfl⟩ := Nat.exists_eq_add_one_of_ne_zero (Nat.ne_of_gt (Nat.zero_lt_of_lt hfuel))
      rw [List.length_cons] at hfuel
      have hdrop' := (drop_succ_of_drop hdrop).1
      have hgap : ∀ c ∈ gap, Blank c := fun d hd => hblank d (List.mem_cons_of_mem _ hd)
      have hpos : f.pos + (c :: gap).length = f.pos + 1 + gap.length := by
        rw [List.length_cons]
        omega
      rw [hpos]
      rcases hblank c (List.mem_cons_self ..) with rfl | hws
      · rw [seekTokenLoop_newline hsize hdrop]
        exact ih (f := f.seekTo (f.pos + 1)) hops hsize hgap hdrop' (by omega)
      · rw [seekTokenLoop_whitespace hops hsize hdrop (by simp [written_ne_nil hvalid]) hws]
        exact ih (f := f.seekTo (f.pos + 1)) hops hsize hgap hdrop' (by omega)

theorem seekTokenLoop_end {last : List UInt8} (hops : f.ops = configOps)
    (hsize : f.size = f.f.length) (hblank : ∀ c ∈ last, Blank c)
    (hnewline : last = [] ∨ last.getLast? = some lineBreak) (hdrop : f.f.drop f.pos = last)
    (hle : f.pos ≤ f.size) (hfuel : last.length < fuel) :
    ∃ g, seekTokenLoop none exclusive a b fuel f startPos endPos = .ok ⟨.oom, g, a, b⟩ := by
  induction last generalizing f fuel startPos endPos with
  | nil =>
      obtain ⟨fuel, rfl⟩ := Nat.exists_eq_add_one_of_ne_zero (Nat.ne_of_gt hfuel)
      have hoom : f.oom = true := by
        rw [List.drop_eq_nil_iff] at hdrop
        exact decide_eq_true (by omega)
      refine ⟨f.seekTo f.pos, ?_⟩
      rw [seekTokenLoop, seekTokenInLine, hdrop, tokenInLineLoop, if_pos hoom]
      rfl
  | cons c last ih =>
      obtain ⟨fuel, rfl⟩ := Nat.exists_eq_add_one_of_ne_zero (Nat.ne_of_gt (Nat.zero_lt_of_lt hfuel))
      rw [List.length_cons] at hfuel
      obtain ⟨hdrop', hlt⟩ := drop_succ_of_drop hdrop
      have hlast : ∀ c ∈ last, Blank c := fun d hd => hblank d (List.mem_cons_of_mem _ hd)
      have hnl : (c :: last).getLast? = some lineBreak := hnewline.resolve_left (by simp)
      have hrest : last = [] ∨ last.getLast? = some lineBreak := by
        cases last with
        | nil => exact Or.inl rfl
        | cons d last => exact Or.inr (by rwa [List.getLast?_cons_cons] at hnl)
      have hle' : (f.seekTo (f.pos + 1)).pos ≤ (f.seekTo (f.pos + 1)).size := by
        show f.pos + 1 ≤ f.size
        omega
      rcases hblank c (List.mem_cons_self ..) with rfl | hws
      · rw [seekTokenLoop_newline hsize hdrop]
        exact ih (f := f.seekTo (f.pos + 1)) hops hsize hlast hrest hdrop' hle' (by omega)
      · have hne : last ≠ [] := by
          rintro rfl
          exact whitespace_ne hws (by simpa using hnl)
        rw [seekTokenLoop_whitespace hops hsize hdrop hne hws]
        exact ih (f := f.seekTo (f.pos + 1)) hops hsize hlast hrest hdrop' hle' (by omega)

end OneToken

/-! ### All tokens -/

section AllTokens

variable {f : MemFile} {a b : ℕ} {items : List (List UInt8 × Tok)} {x : List UInt8 × Tok}
  {last : List UInt8}

theorem Rendered.tail (h : Rendered (x :: items) last) : Rendered items last where
  valid := fun y hy => h.valid y (List.mem_cons_of_mem _ hy)
  blank := fun y hy => h.blank y (List.mem_cons_of_mem _ hy)
  apart := h.apart.tail
  lastBlank := h.lastBlank
  newline := h.newline

theorem Rendered.endsWord (h : Rendered (x :: items) last) (hword : x.2.isWord = true) :
    ∃ c rest, render items last = c :: rest ∧ EndsWord c := by
  cases items with
  | nil =>
      have hne : last ≠ [] := by
        rintro rfl
        cases h.newline
      obtain ⟨c, rest, rfl⟩ := List.exists_cons_of_ne_nil hne
      exact ⟨c, rest, rfl, Or.inl (h.lastBlank c (List.mem_cons_self ..))⟩
  | cons y items =>
      obtain ⟨gap, tok⟩ := y
      have hapart := (List.isChain_cons_cons.mp h.apart).1 hword
      cases gap with
      | nil =>
          have hdelim : tok = .delim := by
            by_contra hne
            exact hapart hne rfl
          subst hdelim
          exact ⟨'='.toUInt8, render items last, rfl, Or.inr (by decide)⟩
      | cons c gap =>
          refine ⟨c, gap ++ (tok.written ++ render items last), rfl, Or.inl ?_⟩
          exact h.blank (c :: gap, tok) (by simp) c (List.mem_cons_self ..)

theorem seekTokens_token {n start stop : ℕ} {g : MemFile}
    (h : f.seekNextToken a b = .ok ⟨.token, g, start, stop⟩) :
    seekTokens (n + 1) f a b =
      (seekTokens n g start stop).map fun r => ((start, stop) :: r.1, r.2) := by
  rw [seekTokens, h]
  show (seekTokens n g start stop >>= _) = _
  cases seekTokens n g start stop <;> rfl

theorem seekTokens_stop {n start stop : ℕ} {g : MemFile} {status : SeekStatus}
    (h : f.seekNextToken a b = .ok ⟨status, g, start, stop⟩) (hne : status ≠ .token) :
    seekTokens (n + 1) f a b = .ok ([], status) := by
  rw [seekTokens, h]
  show (if status = .token then _ else _) = _
  rw [if_neg hne]
  rfl

theorem seekNextToken_render {gap : List UInt8} {tok : Tok} (h : Rendered ((gap, tok) :: items) last)
    (hops : f.ops = configOps) (hsize : f.size = f.f.length)
    (hdrop : f.f.drop f.pos = render ((gap, tok) :: items) last) :
    f.seekNextToken a b = .ok (tokResult f a b (f.pos + gap.length) tok) := by
  refine seekTokenLoop_tok hops hsize (h.valid _ (List.mem_cons_self ..))
    (h.blank _ (List.mem_cons_self ..)) (fun hword => h.endsWord hword) hdrop ?_
  have hlen := congrArg List.length hdrop
  simp only [render, List.length_drop, List.length_append] at hlen
  omega

theorem drop_render {gap : List UInt8} {tok : Tok}
    (hdrop : f.f.drop f.pos = render ((gap, tok) :: items) last) :
    f.f.drop (f.pos + gap.length + tok.written.length) = render items last := by
  rw [← List.drop_drop, ← List.drop_drop, hdrop, render, List.drop_left, List.drop_left]

theorem seekTokens_long (h : Rendered items last) (hlong : ∀ x ∈ items, x.2.Long)
    (hops : f.ops = configOps) (hsize : f.size = f.f.length)
    (hdrop : f.f.drop f.pos = render items last) (hle : f.pos ≤ f.size) :
    seekTokens (items.length + 1) f a b = .ok (spans f.pos items, .oom) := by
  induction items generalizing f a b with
  | nil =>
      have hlen := congrArg List.length hdrop
      simp only [render, List.length_drop] at hlen
      obtain ⟨g, hend⟩ : ∃ g, f.seekNextToken a b = .ok ⟨.oom, g, a, b⟩ :=
        seekTokenLoop_end hops hsize h.lastBlank (Or.inr h.newline) hdrop hle (by omega)
      exact seekTokens_stop hend (by decide)
  | cons x items ih =>
      obtain ⟨gap, tok⟩ := x
      have hcall := seekNextToken_render (a := a) (b := b) h hops hsize hdrop
      rw [tokResult, if_pos (hlong _ (List.mem_cons_self ..))] at hcall
      have hdrop' := drop_render hdrop
      have hle' : f.pos + gap.length + tok.written.length ≤ f.size := by
        have hlen := congrArg List.length hdrop
        simp only [render, List.length_drop, List.length_append] at hlen
        omega
      rw [List.length_cons, seekTokens_token hcall,
        ih (f := f.seekTo (f.pos + gap.length + tok.written.length)) h.tail
          (fun y hy => hlong y (List.mem_cons_of_mem _ hy)) hops hsize hdrop' hle']
      rfl

theorem seekTokens_short (h : Rendered items last) (hshort : ∃ x ∈ items, ¬ x.2.Long)
    (hops : f.ops = configOps) (hsize : f.size = f.f.length)
    (hdrop : f.f.drop f.pos = render items last) :
    ∃ found, seekTokens (items.length + 1) f a b = .ok (found, .invalidSymbol) := by
  induction items generalizing f a b with
  | nil =>
      obtain ⟨x, hx, -⟩ := hshort
      cases hx
  | cons x items ih =>
      obtain ⟨gap, tok⟩ := x
      have hcall := seekNextToken_render (a := a) (b := b) h hops hsize hdrop
      by_cases hlong : tok.Long
      · rw [tokResult, if_pos hlong] at hcall
        have hrest : ∃ x ∈ items, ¬ x.2.Long := by
          obtain ⟨x, hx, hnot⟩ := hshort
          rcases List.mem_cons.mp hx with rfl | hx
          · exact absurd hlong hnot
          · exact ⟨x, hx, hnot⟩
        obtain ⟨found, hfound⟩ := ih (f := f.seekTo (f.pos + gap.length + tok.written.length))
          (a := f.pos + gap.length + tok.offset)
          (b := f.pos + gap.length + tok.offset + tok.text.length - 1) h.tail hrest hops hsize
          (drop_render hdrop)
        exact ⟨_, by rw [List.length_cons, seekTokens_token hcall, hfound]; rfl⟩
      · rw [tokResult, if_neg hlong] at hcall
        exact ⟨[], seekTokens_stop hcall (by decide)⟩

theorem spans_spell (bytes : List UInt8) {pos : ℕ} (h : ∀ x ∈ items, x.2.Valid)
    (hdrop : bytes.drop pos = render items last) :
    List.Forall₂ (fun span x => (bytes.drop span.1).take (span.2 + 1 - span.1) = x.2.text)
      (spans pos items) items := by
  induction items generalizing pos with
  | nil => exact .nil
  | cons x items ih =>
      obtain ⟨gap, tok⟩ := x
      refine .cons ?_ (ih (fun y hy => h y (List.mem_cons_of_mem _ hy)) ?_)
      · have hat : bytes.drop (pos + gap.length) = tok.written ++ render items last := by
          rw [← List.drop_drop, hdrop, render, List.drop_left]
        simp only
        have hvalid := h (gap, tok) (List.mem_cons_self ..)
        have htext : 0 < tok.text.length ∧
            (tok.written ++ render items last).drop tok.offset =
              tok.text ++ (tok.written.drop (tok.offset + tok.text.length) ++ render items last) := by
          cases tok with
          | delim => exact ⟨by decide, rfl⟩
          | word text =>
              refine ⟨List.length_pos_iff.mpr hvalid.1, ?_⟩
              simp [Tok.written, Tok.text, Tok.offset]
          | quoted text =>
              refine ⟨List.length_pos_iff.mpr hvalid.1, ?_⟩
              simp [Tok.written, Tok.text, Tok.offset, Nat.add_comm 1]
        rw [← List.drop_drop, hat, htext.2,
          show pos + gap.length + tok.offset + tok.text.length - 1 + 1 -
            (pos + gap.length + tok.offset) = tok.text.length by omega, List.take_left]
      · rw [← List.drop_drop, ← List.drop_drop, hdrop, render, List.drop_left, List.drop_left]

end AllTokens

/-- **When tokens that are written out are read back.**  The calls of `seek_next_token` give all
tokens at their places, and then the end of the file, iff every quoted text has at least two
characters. -/
theorem rendered_iff {items : List (List UInt8 × Tok)} {last : List UInt8} (h : Rendered items last)
    (start stop : ℕ) :
    List.Forall₂ (fun span x =>
      ((render items last).drop span.1).take (span.2 + 1 - span.1) = x.2.text)
        (spans 0 items) items ∧
    (seekTokens (items.length + 1) (configFile (render items last)) start stop =
        .ok (spans 0 items, .oom) ↔ ∀ x ∈ items, ∀ text, x.2 = .quoted text → 2 ≤ text.length) := by
  refine ⟨spans_spell _ h.valid rfl, ?_⟩
  have hlong : (∀ x ∈ items, ∀ text, x.2 = .quoted text → 2 ≤ text.length) ↔
      ∀ x ∈ items, x.2.Long := by
    refine forall₂_congr fun x _ => ?_
    cases htok : x.2 <;> simp [Tok.Long]
  rw [hlong]
  constructor
  · intro hread
    by_contra hshort
    push Not at hshort
    obtain ⟨found, hfound⟩ := seekTokens_short (a := start) (b := stop)
      (f := configFile (render items last)) h hshort rfl rfl rfl
    rw [hfound] at hread
    cases (Prod.mk.inj (Except.ok.inj hread)).2
  · intro hall
    exact seekTokens_long h hall rfl rfl rfl (Nat.zero_le _)

/-- `a="bc"` with a line break behind it. -/
theorem rendered_iff_assignment :
    seekTokens 4 (configFile [97, 61, 34, 98, 99, 34, 10]) 0 0 =
      .ok ([(0, 0), (1, 1), (3, 4)], .oom) := by
  have hrendered : Rendered [([], .word [97]), ([], .delim), ([], .quoted [98, 99])] [lineBreak] :=
    { valid := by simp [Tok.Valid]; decide
      blank := by simp
      apart := by simp [Tok.isWord]
      lastBlank := by simp [Blank]
      newline := rfl }
  exact ((rendered_iff hrendered 0 0).2).mpr (by simp)

/-- `"a"` with a line break behind it is not read back. -/
theorem single_quoted_character_is_invalid :
    Rendered [([], .quoted [97])] [lineBreak] ∧
      seekTokens 2 (configFile (render [([], .quoted [97])] [lineBreak])) 0 0 =
        .ok ([], .invalidSymbol) ∧
      ¬ seekTokens 2 (configFile (render [([], .quoted [97])] [lineBreak])) 0 0 =
        .ok (spans 0 [([], .quoted [97])], .oom) := by
  have hread : seekTokens 2 (configFile (render [([], .quoted [97])] [lineBreak])) 0 0 =
      .ok ([], .invalidSymbol) := rfl
  refine ⟨?_, hread, fun h => ?_⟩
  · exact
    { valid := by simp [Tok.Valid]; decide
      blank := by simp
      apart := by simp
      lastBlank := by simp [Blank]
      newline := rfl }
  · rw [hread] at h
    cases (Prod.mk.inj (Except.ok.inj h)).2

end HyveMind.MemFile
