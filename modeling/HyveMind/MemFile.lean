import HyveMind.CString

/-! # Files in memory

`lib/mem_file.c`: a file is a piece of memory with a cursor, and the lexer looks for the next token
behind the cursor.  All its loops test the cursor of the file and advance a local position.

`nextToken` is what `seek_next_token` does, as a function of the bytes behind the cursor:
`seekNextToken_spec`. -/

namespace HyveMind

/-- `struct mem_file_ops`. -/
structure MemFileOps where
  isWhitespace : UInt8 → Bool
  isDelim : UInt8 → Bool
  isValidTokenChar : UInt8 → Bool

/-- `struct mem_file`.  `f` is the memory from the first byte of the file on, as far as it can be
read. -/
structure MemFile where
  f : List UInt8
  pos : ℕ
  size : ℕ
  ops : MemFileOps

/-- `enum seek_status`. -/
inductive SeekStatus
  | oom
  | exclusiveViolation
  | invalidSymbol
  | noToken
  | token
  | success
deriving DecidableEq, Repr

/-- Why a call does not return. -/
inductive Fault
  /-- A read outside of the memory. -/
  | outside
  /-- The rounds of a loop were not enough. -/
  | fuel
  /-- `die_reason`. -/
  | die
  /-- A copy whose length is not a length. -/
  | wildCopy
deriving DecidableEq, Repr

/-- The result of a lexer function: the status, the file, and `*start` and `*end`. -/
structure Seek where
  status : SeekStatus
  file : MemFile
  start : ℕ
  stop : ℕ

namespace MemFile

/-- `file_oom`. -/
def oom (f : MemFile) : Bool := f.size ≤ f.pos

/-- `f->pos = pos`. -/
def seekTo (f : MemFile) (pos : ℕ) : MemFile := { f with pos := pos }

/-- `LINE_BREAK`. -/
def lineBreak : UInt8 := '\n'.toUInt8

def quote : UInt8 := '"'.toUInt8

/-- The loop of `seek_token_in_line`; the bytes are those from `pos` on.  The guard looks at the cursor, which
stays where it was. -/
def tokenInLineLoop (f : MemFile) (start stop : ℕ) (pos startPos : ℕ)
    (insideToken inQuotedToken : Bool) : List UInt8 → Except Fault Seek
  | [] => if f.oom then .ok ⟨.oom, f.seekTo pos, start, stop⟩ else .error .outside
  | c :: rest =>
      if f.oom then .ok ⟨.oom, f.seekTo pos, start, stop⟩
      else if inQuotedToken then
        if c = quote then
          .ok ⟨if startPos + 1 < pos - 1 then .token else .invalidSymbol, f.seekTo (pos + 1),
            startPos + 1, pos - 1⟩
        else tokenInLineLoop f start stop (pos + 1) startPos insideToken inQuotedToken rest
      else if !insideToken then
        if c = lineBreak then .ok ⟨.noToken, f.seekTo pos, stop, stop⟩
        else if f.ops.isWhitespace c then
          tokenInLineLoop f start stop (pos + 1) startPos insideToken inQuotedToken rest
        else if f.ops.isDelim c then .ok ⟨.token, f.seekTo (pos + 1), pos, pos⟩
        else if f.ops.isValidTokenChar c then
          tokenInLineLoop f start stop (pos + 1) pos true inQuotedToken rest
        else if c = quote then tokenInLineLoop f start stop (pos + 1) pos insideToken true rest
        else .ok ⟨.invalidSymbol, f.seekTo pos, start, stop⟩
      else
        if c = lineBreak || f.ops.isWhitespace c || f.ops.isDelim c then
          .ok ⟨.token, f.seekTo pos, startPos, pos - 1⟩
        else if f.ops.isValidTokenChar c then
          tokenInLineLoop f start stop (pos + 1) startPos insideToken inQuotedToken rest
        else .ok ⟨.invalidSymbol, f.seekTo pos, start, stop⟩

/-- `seek_token_in_line`. -/
def seekTokenInLine (f : MemFile) (start stop : ℕ) : Except Fault Seek :=
  tokenInLineLoop f start stop f.pos 0 false false (f.f.drop f.pos)

/-- The end of `__seek_newline`. -/
def newlineResult (f : MemFile) (pos : ℕ) : SeekStatus × MemFile :=
  (if (f.seekTo pos).oom then .oom else .success, f.seekTo pos)

/-- The loop of `__seek_newline`; the bytes are those from `pos` on. -/
def newlineLoop (f : MemFile) (exclusive : Bool) (pos : ℕ) :
    List UInt8 → Except Fault (SeekStatus × MemFile)
  | [] => if f.oom then .ok (f.newlineResult pos) else .error .outside
  | c :: rest =>
      if f.oom then .ok (f.newlineResult pos)
      else if c = lineBreak then .ok (f.newlineResult (pos + 1))
      else if exclusive && !f.ops.isWhitespace c then .ok (.exclusiveViolation, f.seekTo pos)
      else newlineLoop f exclusive (pos + 1) rest

/-- `__seek_newline`. -/
def seekNewlineImpl (f : MemFile) (exclusive : Bool) : Except Fault (SeekStatus × MemFile) :=
  newlineLoop f exclusive f.pos (f.f.drop f.pos)

/-- The loop of `__seek_token`. -/
def seekTokenLoop (token : Option (List UInt8)) (exclusive : Bool) (start stop : ℕ) :
    ℕ → MemFile → (startPos endPos : ℕ) → Except Fault Seek
  | 0, _, _, _ => .error .fuel
  | fuel + 1, f, startPos, endPos => do
      let line ← seekTokenInLine f startPos endPos
      match line.status with
      | .oom => return ⟨.oom, line.file, start, stop⟩
      | .noToken =>
          let (_, f) ← seekNewlineImpl line.file true
          seekTokenLoop token exclusive start stop fuel f line.start line.stop
      | .invalidSymbol => return ⟨.invalidSymbol, line.file, start, stop⟩
      | _ =>
          match token with
          | none => return ⟨.token, line.file, line.start, line.stop⟩
          | some token =>
              let tokenLen := int32 token.length
              let foundLen := int32 (line.stop - line.start + 1)
              if foundLen ≠ tokenLen
                  ∨ strncmp token (line.file.f.drop line.start) token.length ≠ 0 then
                if exclusive then
                  return ⟨.exclusiveViolation, line.file, line.start, line.stop⟩
                else seekTokenLoop (some token) exclusive start stop fuel line.file line.start line.stop
              else return ⟨.token, line.file, line.start, line.stop⟩

/-- `__seek_token`.  Every round but the last one moves the cursor forward. -/
def seekTokenImpl (f : MemFile) (token : Option (List UInt8)) (exclusive : Bool) (start stop : ℕ) :
    Except Fault Seek :=
  seekTokenLoop token exclusive start stop (f.f.length + 1) f 0 0

/-- `seek_token`. -/
def seekToken (f : MemFile) (token : List UInt8) (exclusive : Bool) (start stop : ℕ) :
    Except Fault Seek :=
  f.seekTokenImpl (some token) exclusive start stop

/-- `seek_next_token`. -/
def seekNextToken (f : MemFile) (start stop : ℕ) : Except Fault Seek :=
  f.seekTokenImpl none false start stop

/-! ### The next token of a text -/

/-- What there is behind the cursor. -/
inductive Next
  /-- Nothing but blank lines. -/
  | done
  | invalid
  /-- The text ends within a line, before anything shows where the last token ends. -/
  | unterminated
  | token (text rest : List UInt8)
deriving DecidableEq, Repr

variable (ops : MemFileOps)

/-- A bare word, of which `text` is already read. -/
def scanWord (text : List UInt8) : List UInt8 → Next
  | [] => .unterminated
  | c :: rest =>
      if c = lineBreak || ops.isWhitespace c || ops.isDelim c then .token text (c :: rest)
      else if ops.isValidTokenChar c then scanWord (text ++ [c]) rest
      else .invalid

/-- A quoted token, of which `text` is already read. -/
def scanQuoted (text : List UInt8) : List UInt8 → Next
  | [] => .unterminated
  | c :: rest =>
      if c = quote then if 2 ≤ text.length then .token text rest else .invalid
      else scanQuoted (text ++ [c]) rest

/-- A line that has begun. -/
def scanLine : List UInt8 → Next
  | [] => .unterminated
  | c :: rest =>
      if c = lineBreak then if rest = [] then .done else scanLine rest
      else if ops.isWhitespace c then scanLine rest
      else if ops.isDelim c then .token [c] rest
      else if ops.isValidTokenChar c then scanWord ops [c] rest
      else if c = quote then scanQuoted [] rest
      else .invalid

/-- The next token of a text. -/
def nextToken (text : List UInt8) : Next := if text = [] then .done else scanLine ops text

variable {ops}

/-- The token `text` stands in the file from `start` on. -/
def Spells (f : MemFile) (start : ℕ) (text : List UInt8) : Prop :=
  text ≠ [] ∧ text <+: f.f.drop start

/-- The result of a call agrees with the text behind the cursor. -/
def Agrees (f : MemFile) (r : Except Fault Seek) : Next → Prop
  | .done => ∃ a b, r = .ok ⟨.oom, f.seekTo f.size, a, b⟩
  | .invalid => ∃ p a b, r = .ok ⟨.invalidSymbol, f.seekTo p, a, b⟩
  | .unterminated => r = .error .outside
  | .token text rest => ∃ p start, r = .ok ⟨.token, f.seekTo p, start, start + text.length - 1⟩ ∧
      f.f.drop p = rest ∧ f.pos < p ∧ p ≤ f.size ∧ Spells f start text

variable {f : MemFile} {pos startPos a b : ℕ} {text bytes : List UInt8}

theorem drop_succ_of_drop {c : UInt8} {rest : List UInt8} (h : f.f.drop pos = c :: rest) :
    f.f.drop (pos + 1) = rest ∧ pos < f.f.length := by
  constructor
  · rw [← List.drop_drop, h]
    rfl
  · by_contra hle
    rw [List.drop_eq_nil_of_le (Nat.le_of_not_lt hle)] at h
    cases h

theorem scanWord_ne_done : scanWord ops text bytes ≠ .done := by
  induction bytes generalizing text with
  | nil => simp [scanWord]
  | cons c rest ih =>
      unfold scanWord
      split_ifs
      · simp
      · exact ih
      · simp

theorem scanQuoted_ne_done : scanQuoted text bytes ≠ .done := by
  induction bytes generalizing text with
  | nil => simp [scanQuoted]
  | cons c rest ih =>
      unfold scanQuoted
      split_ifs
      · simp
      · simp
      · exact ih

theorem agrees_word (hoom : f.oom = false) (hsize : f.size = f.f.length) (htext : text ≠ [])
    (hspell : f.f.drop startPos = text ++ bytes) (hpos : pos = startPos + text.length)
    (hlt : f.pos ≤ startPos) :
    Agrees f (tokenInLineLoop f a b pos startPos true false bytes) (scanWord f.ops text bytes) := by
  induction bytes generalizing pos text with
  | nil => simp [tokenInLineLoop, scanWord, hoom, Agrees]
  | cons c rest ih =>
      have hdrop : f.f.drop pos = c :: rest := by
        rw [hpos, ← List.drop_drop, hspell, List.drop_left]
      have hlen : 0 < text.length := List.length_pos_iff.mpr htext
      simp only [tokenInLineLoop, hoom, Bool.false_eq_true, if_false, Bool.not_true, scanWord]
      split
      · refine ⟨pos, startPos, ?_, hdrop, by omega, ?_, htext, ?_⟩
        · rw [hpos]
        · rw [hsize]
          exact (drop_succ_of_drop hdrop).2.le
        · rw [hspell]
          exact List.prefix_append ..
      · split
        · apply ih (by simp)
          · rw [hspell, List.append_assoc, List.singleton_append]
          · rw [hpos, List.length_append, List.length_singleton, Nat.add_assoc]
        · exact ⟨pos, a, b, rfl⟩

theorem agrees_quoted (hoom : f.oom = false) (hsize : f.size = f.f.length)
    (hspell : f.f.drop (startPos + 1) = text ++ bytes) (hpos : pos = startPos + 1 + text.length)
    (hlt : f.pos ≤ startPos) :
    Agrees f (tokenInLineLoop f a b pos startPos false true bytes) (scanQuoted text bytes) := by
  induction bytes generalizing pos text with
  | nil => simp [tokenInLineLoop, scanQuoted, hoom, Agrees]
  | cons c rest ih =>
      have hdrop : f.f.drop pos = c :: rest := by
        rw [hpos, ← List.drop_drop, hspell, List.drop_left]
      simp only [tokenInLineLoop, hoom, Bool.false_eq_true, if_false, if_true, scanQuoted]
      split
      · by_cases hlen : 2 ≤ text.length
        · rw [if_pos hlen, if_pos (by omega)]
          refine ⟨pos + 1, startPos + 1, ?_, (drop_succ_of_drop hdrop).1, by omega, ?_, ?_, ?_⟩
          · rw [hpos]
          · rw [hsize]
            exact (drop_succ_of_drop hdrop).2
          · rintro rfl
            cases hlen
          · rw [hspell]
            exact List.prefix_append ..
        · rw [if_neg hlen, if_neg (by omega)]
          exact ⟨pos + 1, startPos + 1, pos - 1, rfl⟩
      · apply ih
        · rw [hspell, List.append_assoc, List.singleton_append]
        · rw [hpos, List.length_append, List.length_singleton, Nat.add_assoc]

/-- A line break ends the search in a line, everything else is the next token. -/
theorem tokenInLine_cases (hoom : f.oom = false) (hsize : f.size = f.f.length)
    (hbytes : f.f.drop pos = bytes) (hle : f.pos ≤ pos) :
    (∃ p rest, tokenInLineLoop f a b pos 0 false false bytes = .ok ⟨.noToken, f.seekTo p, b, b⟩ ∧
        f.f.drop p = lineBreak :: rest ∧ f.pos ≤ p ∧
        scanLine f.ops bytes = nextToken f.ops rest) ∨
      scanLine f.ops bytes ≠ .done ∧
        Agrees f (tokenInLineLoop f a b pos 0 false false bytes) (scanLine f.ops bytes) := by
  induction bytes generalizing pos with
  | nil => exact .inr ⟨by simp [scanLine], by simp [tokenInLineLoop, scanLine, hoom, Agrees]⟩
  | cons c rest ih =>
      obtain ⟨hrest, hlt⟩ := drop_succ_of_drop hbytes
      simp only [tokenInLineLoop, hoom, Bool.false_eq_true, if_false, Bool.not_false, if_true,
        scanLine]
      by_cases hbreak : c = lineBreak
      · simp only [hbreak, if_true]
        exact .inl ⟨pos, rest, rfl, hbreak ▸ hbytes, hle, rfl⟩
      rw [if_neg hbreak, if_neg hbreak]
      by_cases hws : f.ops.isWhitespace c = true
      · rw [if_pos hws, if_pos hws]
        exact ih hrest (Nat.le_succ_of_le hle)
      rw [if_neg hws, if_neg hws]
      by_cases hdelim : f.ops.isDelim c = true
      · rw [if_pos hdelim, if_pos hdelim]
        refine .inr ⟨by simp, pos + 1, pos, rfl, hrest, Nat.lt_succ_of_le hle, ?_, by simp, ?_⟩
        · rw [hsize]
          exact hlt
        · rw [hbytes]
          exact ⟨rest, rfl⟩
      rw [if_neg hdelim, if_neg hdelim]
      by_cases hvalid : f.ops.isValidTokenChar c = true
      · rw [if_pos hvalid, if_pos hvalid]
        refine .inr ⟨scanWord_ne_done, agrees_word hoom hsize (by simp) hbytes rfl hle⟩
      rw [if_neg hvalid, if_neg hvalid]
      by_cases hquote : c = quote
      · rw [if_pos hquote, if_pos hquote]
        exact .inr ⟨scanQuoted_ne_done, agrees_quoted hoom hsize (by simpa using hrest) rfl hle⟩
      · rw [if_neg hquote, if_neg hquote]
        exact .inr ⟨by simp, pos, a, b, rfl⟩

/-- The cursor from which the search started does not matter. -/
theorem Agrees.of_seekTo {q : ℕ} {r : Except Fault Seek} {n : Next} (h : Agrees (f.seekTo q) r n)
    (hq : f.pos ≤ q) : Agrees f r n := by
  cases n with
  | done => exact h
  | invalid => exact h
  | unterminated => exact h
  | token text rest =>
      obtain ⟨p, start, hr, hdrop, hlt, hle, hspell⟩ := h
      exact ⟨p, start, hr, hdrop, Nat.lt_of_le_of_lt hq hlt, hle, hspell⟩

theorem seekNewlineImpl_eq {rest : List UInt8} (hoom : f.oom = false) (exclusive : Bool)
    (hbytes : f.f.drop f.pos = lineBreak :: rest) :
    ∃ status, f.seekNewlineImpl exclusive = .ok (status, f.seekTo (f.pos + 1)) := by
  refine ⟨(f.newlineResult (f.pos + 1)).1, ?_⟩
  rw [seekNewlineImpl, hbytes, newlineLoop, hoom]
  rfl

theorem agrees_loop {fuel : ℕ} {exclusive : Bool} {startPos endPos : ℕ}
    (hsize : f.size = f.f.length) (hle : f.pos ≤ f.size) (hfuel : f.size - f.pos < fuel) :
    Agrees f (seekTokenLoop none exclusive a b fuel f startPos endPos)
      (nextToken f.ops (f.f.drop f.pos)) := by
  induction fuel generalizing f startPos endPos with
  | zero => omega
  | succ fuel ih =>
      rw [seekTokenLoop, seekTokenInLine]
      by_cases hoom : f.oom = true
      · have hend : f.pos = f.size := Nat.le_antisymm hle (of_decide_eq_true hoom)
        have hdrop : f.f.drop f.pos = [] := List.drop_eq_nil_of_le (by omega)
        rw [hdrop, tokenInLineLoop, if_pos hoom, nextToken, if_pos rfl]
        exact ⟨a, b, by rw [hend]; rfl⟩
      · rw [Bool.not_eq_true] at hoom
        have hlt : f.pos < f.size := Nat.lt_of_not_le (of_decide_eq_false hoom)
        have hne : f.f.drop f.pos ≠ [] := by
          rw [ne_eq, List.drop_eq_nil_iff]
          omega
        rw [nextToken, if_neg hne]
        rcases tokenInLine_cases hoom hsize rfl le_rfl with
          ⟨p, rest, hline, hp, hle', hscan⟩ | ⟨hdone, hagrees⟩
        · obtain ⟨hrest, hpl⟩ := drop_succ_of_drop hp
          have hoom' : (f.seekTo p).oom = false := decide_eq_false (by
            show ¬ f.size ≤ p
            omega)
          obtain ⟨status, hnewline⟩ := seekNewlineImpl_eq hoom' true hp
          have hnext : Agrees (f.seekTo (p + 1)) (seekTokenLoop none exclusive a b fuel
              (f.seekTo (p + 1)) endPos endPos) (nextToken f.ops (f.f.drop (p + 1))) :=
            ih hsize (by show p + 1 ≤ f.size; omega) (by show f.size - (p + 1) < fuel; omega)
          rw [hrest] at hnext
          rw [hline, hscan]
          show Agrees f (seekNewlineImpl (f.seekTo p) true >>= _) _
          rw [hnewline]
          exact hnext.of_seekTo (by show f.pos ≤ p + 1; omega)
        · cases hscan : scanLine f.ops (f.f.drop f.pos) with
          | done => exact absurd hscan hdone
          | invalid =>
              rw [hscan] at hagrees
              obtain ⟨p, a', b', hr⟩ := hagrees
              rw [hr]
              exact ⟨p, a, b, rfl⟩
          | unterminated =>
              rw [hscan] at hagrees
              rw [show tokenInLineLoop .. = _ from hagrees]
              rfl
          | token text rest =>
              rw [hscan] at hagrees
              obtain ⟨p, start, hr, htoken⟩ := hagrees
              rw [hr]
              exact ⟨p, start, rfl, htoken⟩

/-- **`seek_next_token`** finds the next token of the text behind the cursor, with the cursor right
behind it. -/
theorem seekNextToken_spec (hsize : f.size = f.f.length) (hle : f.pos ≤ f.size) (start stop : ℕ) :
    Agrees f (f.seekNextToken start stop) (nextToken f.ops (f.f.drop f.pos)) :=
  agrees_loop hsize hle (by omega)

/-! ### All tokens of a text -/

theorem scanWord_rest {t rest : List UInt8} (h : scanWord ops text bytes = .token t rest) :
    rest.length ≤ bytes.length := by
  induction bytes generalizing text with
  | nil => cases h
  | cons c bytes ih =>
      unfold scanWord at h
      split_ifs at h
      · cases h
        exact le_rfl
      · exact (ih h).trans (Nat.le_succ _)

theorem scanQuoted_rest {t rest : List UInt8} (h : scanQuoted text bytes = .token t rest) :
    rest.length ≤ bytes.length := by
  induction bytes generalizing text with
  | nil => cases h
  | cons c bytes ih =>
      unfold scanQuoted at h
      split_ifs at h
      · cases h
        exact Nat.le_succ _
      · exact (ih h).trans (Nat.le_succ _)

theorem scanLine_rest {t rest : List UInt8} (h : scanLine ops bytes = .token t rest) :
    rest.length < bytes.length := by
  induction bytes with
  | nil => cases h
  | cons c bytes ih =>
      unfold scanLine at h
      split_ifs at h
      · exact (ih h).trans (Nat.lt_succ_self _)
      · exact (ih h).trans (Nat.lt_succ_self _)
      · cases h
        exact Nat.lt_succ_self _
      · exact Nat.lt_succ_of_le (scanWord_rest h)
      · exact Nat.lt_succ_of_le (scanQuoted_rest h)

theorem nextToken_rest {t rest : List UInt8} (h : nextToken ops text = .token t rest) :
    rest.length < text.length := by
  unfold nextToken at h
  split_ifs at h
  exact scanLine_rest h

/-- The tokens of a text, and what there is behind the last one. -/
def tokensOf (ops : MemFileOps) (text : List UInt8) : List (List UInt8) × Next :=
  match h : nextToken ops text with
  | .token t rest => (t :: (tokensOf ops rest).1, (tokensOf ops rest).2)
  | n => ([], n)
termination_by text.length
decreasing_by all_goals exact nextToken_rest h

theorem tokensOf_token {t rest : List UInt8} (h : nextToken ops text = .token t rest) :
    tokensOf ops text = (t :: (tokensOf ops rest).1, (tokensOf ops rest).2) := by
  rw [tokensOf]
  split
  · rename_i heq
    rw [h] at heq
    cases heq
    rfl
  · rename_i hne
    exact absurd h (hne _ _)

theorem tokensOf_end {n : Next} (h : nextToken ops text = n) (hn : ∀ t rest, n ≠ .token t rest) :
    tokensOf ops text = ([], n) := by
  rw [tokensOf]
  split
  · rename_i heq
    exact absurd (h.symm.trans heq) (hn _ _)
  · rename_i heq
    rw [← h]

/-- The tokens of a text, by recursion on a bound of their number. -/
def tokensWithin (ops : MemFileOps) : ℕ → List UInt8 → List (List UInt8) × Next
  | 0, text => ([], nextToken ops text)
  | n + 1, text =>
      match nextToken ops text with
      | .token t rest => (t :: (tokensWithin ops n rest).1, (tokensWithin ops n rest).2)
      | e => ([], e)

theorem tokensOf_eq_within {n : ℕ} (h : text.length ≤ n) :
    tokensOf ops text = tokensWithin ops n text := by
  induction n generalizing text with
  | zero =>
      obtain rfl := List.length_eq_zero_iff.mp (Nat.le_zero.mp h)
      exact tokensOf_end rfl nofun
  | succ n ih =>
      rw [tokensWithin]
      cases hnext : nextToken ops text with
      | token t rest =>
          have hlt := nextToken_rest hnext
          rw [tokensOf_token hnext, ih (by omega)]
      | done => exact tokensOf_end hnext nofun
      | invalid => exact tokensOf_end hnext nofun
      | unterminated => exact tokensOf_end hnext nofun

end MemFile

end HyveMind
