import HyveMind.VmConfig

/-! # How far the parser reads

`parse_vm_config_file` gets one token after the other and stops at the first one that its handlers
reject.  `feed` gives the handlers all tokens of a text; what the parser does is determined by that
and by how the text ends (`parseLoop_spec`).

A text that ends in the middle of a line is read beyond its end: the loops of the lexer do not stop
there. -/

namespace HyveMind.VmConfig

open MemFile RadixNode

variable (alloc : ℕ → Bool) (supportedKeys : RadixNode)

/-- The rounds of the parser for some tokens. -/
def feed : Parser → List VmRequest → List (List UInt8) → Except Fault Round
  | state, reqVec, [] => .ok (.again state reqVec)
  | state, reqVec, token :: tokens =>
      match parseRound alloc supportedKeys state reqVec .token token with
      | .ok (.again state reqVec) => feed state reqVec tokens
      | r => r

/-- What the parser returns after the tokens were fed to it, if the text goes on with `e`. -/
def Finishes (size : ℕ) (r : Except Fault Parsed) (e : Next) : Except Fault Round → Prop
  | .error fault => r = .error fault
  | .ok (.stop result reqVec) => ∃ last, r = .ok ⟨result, reqVec, last⟩ ∧ last.status = .token
  | .ok (.again state reqVec) =>
      match e with
      | .unterminated => r = .error .outside
      | .invalid => ∃ last, r = .ok ⟨.errMalformedFile, reqVec, last⟩ ∧ last.status = .invalidSymbol
      | .done => ∃ last, r = .ok ⟨if state.tokenState = .searchStartMarker then .success
          else .errMalformedFile, reqVec, last⟩ ∧ last.status = .oom ∧ last.file.pos = size
      | .token .. => False

variable {alloc supportedKeys} {state : Parser} {reqVec : List VmRequest}

theorem parseRound_oom (token : List UInt8) : parseRound alloc supportedKeys state reqVec .oom token =
    .ok (.stop (if state.tokenState = .searchStartMarker then .success else .errMalformedFile)
      reqVec) := by
  unfold parseRound handle
  cases hs : state.tokenState <;>
    simp [handleSearchStartMarker, handleSearchConfigEntryStart, handleSearchDelim,
      handleSearchValue, bind, Except.bind, pure, Except.pure]

theorem token_of_spells {f : MemFile} {start : ℕ} {text : List UInt8} (h : Spells f start text) :
    (f.f.drop start).take (start + text.length - 1 - start + 1) = text := by
  obtain ⟨hne, t, ht⟩ := h
  have hlen : 0 < text.length := List.length_pos_iff.mpr hne
  have heq : start + text.length - 1 - start + 1 = text.length := by omega
  rw [heq, ← ht, List.take_left]

/-- **The parser** on the text behind the cursor. -/
theorem parseLoop_spec (file : MemFile) {fuel a b : ℕ} (hsize : file.size = file.f.length)
    (hle : file.pos ≤ file.size) (hfuel : file.size - file.pos + 1 < fuel) :
    Finishes file.size (parseLoop alloc supportedKeys fuel file a b state reqVec)
      (tokensOf file.ops (file.f.drop file.pos)).2
      (feed alloc supportedKeys state reqVec (tokensOf file.ops (file.f.drop file.pos)).1) := by
  induction fuel generalizing file a b state reqVec with
  | zero => omega
  | succ fuel ih =>
      have hseek := seekNextToken_spec hsize hle a b
      rw [parseLoop]
      cases hnext : nextToken file.ops (file.f.drop file.pos) with
      | done =>
          rw [hnext] at hseek
          obtain ⟨a', b', hseek⟩ := hseek
          rw [tokensOf_end hnext nofun, hseek]
          refine ⟨⟨.oom, file.seekTo file.size, a', b'⟩, ?_, rfl, rfl⟩
          simp only [bind, Except.bind, parseRound_oom]
          rfl
      | invalid =>
          rw [hnext] at hseek
          obtain ⟨p, a', b', hseek⟩ := hseek
          rw [tokensOf_end hnext nofun, hseek]
          exact ⟨_, rfl, rfl⟩
      | unterminated =>
          rw [hnext] at hseek
          rw [tokensOf_end hnext nofun, show file.seekNextToken a b = _ from hseek]
          rfl
      | token text rest =>
          rw [hnext] at hseek
          obtain ⟨p, start, hseek, hrest, hlt, hp, hspell⟩ := hseek
          rw [tokensOf_token hnext, hseek, feed]
          simp only [bind, Except.bind]
          rw [show ((file.seekTo p).f.drop start).take _ = _ from token_of_spells hspell]
          cases hround : parseRound alloc supportedKeys state reqVec .token text with
          | error fault => rfl
          | ok round =>
              cases round with
              | stop result reqVec => exact ⟨_, rfl, rfl⟩
              | again state reqVec =>
                  rw [← hrest]
                  have hfuel' : (file.seekTo p).size - (file.seekTo p).pos + 1 < fuel := by
                    show file.size - p + 1 < fuel
                    omega
                  exact ih (file.seekTo p) hsize hp hfuel'

/-! ### Reading inside of the file -/

variable (alloc supportedKeys)

/-- The parser returns without having read a byte outside of the file, and if it has reached the end
of the file the last status is `SEEK_OOM` with the cursor right behind the file. -/
def StaysInside (bytes : List UInt8) : Prop :=
  ∃ p, parseVmConfigFile alloc supportedKeys (configFile bytes) = .ok p ∧
    (p.last.status = .token ∨ p.last.status = .invalidSymbol ∨
      p.last.status = .oom ∧ p.last.file.pos = bytes.length)

/-- The handlers return for the tokens of the file and, unless they stop at one of them, the file
does not end within a line. -/
def Closed (bytes : List UInt8) : Prop :=
  match feed alloc supportedKeys Parser.init [] (tokensOf configOps bytes).1 with
  | .error _ => False
  | .ok (.stop ..) => True
  | .ok (.again ..) => (tokensOf configOps bytes).2 ≠ .unterminated

theorem parseVmConfigFile_spec (bytes : List UInt8) :
    Finishes bytes.length (parseVmConfigFile alloc supportedKeys (configFile bytes))
      (tokensOf configOps bytes).2
      (feed alloc supportedKeys Parser.init [] (tokensOf configOps bytes).1) := by
  have h : Finishes bytes.length (parseVmConfigFile alloc supportedKeys (configFile bytes))
      (tokensOf configOps (bytes.drop 0)).2
      (feed alloc supportedKeys Parser.init [] (tokensOf configOps (bytes.drop 0)).1) :=
    parseLoop_spec (configFile bytes) rfl (Nat.zero_le _) (Nat.lt_succ_self _)
  rwa [List.drop_zero] at h

/-- **How far the parser reads.** It stays inside of the file exactly if the file is closed. -/
theorem staysInside_iff (alloc : ℕ → Bool) (supportedKeys : RadixNode) (bytes : List UInt8) :
    StaysInside alloc supportedKeys bytes ↔ Closed alloc supportedKeys bytes := by
  have hspec := parseVmConfigFile_spec alloc supportedKeys bytes
  unfold StaysInside Closed
  cases hfeed : feed alloc supportedKeys Parser.init [] (tokensOf configOps bytes).1 with
  | error fault =>
      rw [hfeed] at hspec
      rw [show parseVmConfigFile .. = _ from hspec]
      simp
  | ok round =>
      rw [hfeed] at hspec
      cases round with
      | stop result reqVec =>
          obtain ⟨last, hparse, hlast⟩ := hspec
          exact iff_of_true ⟨_, hparse, .inl hlast⟩ trivial
      | again state reqVec =>
          cases hend : (tokensOf configOps bytes).2 with
          | unterminated =>
              rw [hend] at hspec
              rw [show parseVmConfigFile .. = _ from hspec]
              simp
          | invalid =>
              rw [hend] at hspec
              obtain ⟨last, hparse, hlast⟩ := hspec
              exact iff_of_true ⟨_, hparse, .inr (.inl hlast)⟩ nofun
          | done =>
              rw [hend] at hspec
              obtain ⟨last, hparse, hlast, hpos⟩ := hspec
              exact iff_of_true ⟨_, hparse, .inr (.inr ⟨hlast, hpos⟩)⟩ nofun
          | token t rest =>
              rw [hend] at hspec
              exact hspec.elim

/-- A file that consists of the word `[start]` is read beyond its end. -/
theorem start_without_newline_read_outside :
    parseVmConfigFile (fun _ => true) empty (configFile (bytesOf "[start]")) = .error .outside ∧
      ¬ StaysInside (fun _ => true) empty (bytesOf "[start]") := by
  have hparse : parseVmConfigFile (fun _ => true) empty (configFile (bytesOf "[start]")) =
      .error .outside := by
    rfl
  refine ⟨hparse, ?_⟩
  rintro ⟨p, hp, -⟩
  rw [hparse] at hp
  cases hp

end HyveMind.VmConfig
