import Crest.GoStrings

/-!
# Words for a shell

A shell is described by what it does inside double quotes.  Outside of them a word goes
on over every byte without a meaning of its own, and ends at a blank or a line feed.  The
reader gives up where a shell would expand something, and at a zero byte, which no shell
keeps.

`zsh` expands a word that begins with an equals sign, and is not described here.
-/

namespace ShellQuote

open GoStrings (text)

abbrev Bytes := List UInt8

/-! ## Reading a word -/

/-- What stands for a byte behind a backslash in double quotes, and what is expanded there. -/
structure Shell where
  unescape : UInt8 → Bytes
  expands : UInt8 → Bool

/-- A backslash escapes these bytes, hides a line feed, and stands for itself before others. -/
def unescape (escaped : Bytes) (b : UInt8) : Bytes :=
  if b ∈ escaped then [b] else if b = 0x0a then [] else [0x5c, b]

def bash : Shell := ⟨unescape (text "\"\\$`"), (text "$`\x00").contains⟩

def fish : Shell := ⟨unescape (text "\"\\$"), (text "$\x00").contains⟩

def separates (b : UInt8) : Bool := (text " \t\n").contains b

/-- The bytes with a meaning of their own outside quotes; a double quote begins a quotation. -/
def special : Bytes := text "'\\$`|&;<>()*?[]#~%{}!^\x00"

/-- What was read is put in front of what is read next. -/
def ahead {α β : Type} (s : List α) (found : List α × β) : List α × β := (s ++ found.1, found.2)

inductive Mode
  | outside
  | quoted
  | escaped

/-- The word in front, as it is read from one of the modes on, and what stands behind it. -/
def Shell.read (sh : Shell) : Mode → Bytes → Option (Bytes × Bytes)
  | .outside, [] => some ([], [])
  | .quoted, [] => none
  | .escaped, [] => none
  | .outside, b :: rest =>
    if separates b then some ([], b :: rest)
    else if b = 0x22 then sh.read .quoted rest
    else if special.contains b then none
    else (sh.read .outside rest).map (ahead [b])
  | .quoted, b :: rest =>
    if b = 0x22 then sh.read .outside rest
    else if b = 0x5c then sh.read .escaped rest
    else if sh.expands b then none
    else (sh.read .quoted rest).map (ahead [b])
  | .escaped, b :: rest => (sh.read .quoted rest).map (ahead (sh.unescape b))

/-- So many words, each with the byte behind it, and what stands behind that byte. -/
def Shell.words (sh : Shell) : Nat → Bytes → Option (List (Bytes × Option UInt8) × Bytes)
  | 0, s => some ([], s)
  | n + 1, s =>
    (sh.read .outside s).bind fun word =>
      (sh.words n (word.2.drop 1)).map (ahead [(word.1, word.2.head?)])

example (sh : Shell) : sh.read .quoted [] = none := by rw [Shell.read]

/-! ## Writing a word -/

def maxQuoteSize : Nat := 10000000

def isLetter (b : UInt8) : Bool := (0x61 ≤ b ∧ b ≤ 0x7a) ∨ (0x41 ≤ b ∧ b ≤ 0x5a)

def isDigit (b : UInt8) : Bool := 0x30 ≤ b ∧ b ≤ 0x39

def safeByte (b : UInt8) : Bool := isLetter b || isDigit b || (text "_@:,+=/.-").contains b

/-- `safePattern`. -/
def isSafe (s : Bytes) : Bool := s ≠ [] ∧ s.all safeByte

/-- `envVarNamePattern`. -/
def isValidEnvVarName : Bytes → Bool
  | [] => false
  | b :: rest =>
    (isLetter b || b = 0x5f) && rest.all fun c => isLetter c || isDigit c || c = 0x5f

def checkQuoteSize (s : Bytes) : Bool := s.length ≤ maxQuoteSize

def escape (escaped : Bytes) (b : UInt8) : Bytes := if b ∈ escaped then [0x5c, b] else [b]

/-- Quoting with a backslash in front of some bytes. -/
def quoteWith (escaped s : Bytes) : Bytes :=
  if s = [] then text "\"\""
  else if isSafe s then s
  else if ¬ checkQuoteSize s then []
  else 0x22 :: s.flatMap (escape escaped) ++ [0x22]

def hardQuote : Bytes → Bytes := quoteWith (text "\"\\$`")

def hardQuoteFish : Bytes → Bytes := quoteWith (text "\"\\$")

/-- An error of `fmt.Errorf`: its format and the name that is put there. -/
structure EnvError where
  format : String
  name : Bytes
  deriving DecidableEq, Repr

/-- The loop over an environment, in the order in which its map is iterated. -/
def encodeFrom (format : String) (line : Bytes × Bytes → Bytes)
    (encoded : Bytes) : List (Bytes × Bytes) → Except EnvError (Bytes)
  | [] => .ok encoded
  | e :: env =>
    if isValidEnvVarName e.1 then encodeFrom format line (encoded ++ line e) env
    else .error ⟨format, e.1⟩

def encodeEnvVarsForBash : List (Bytes × Bytes) → Except EnvError (Bytes) :=
  encodeFrom "invalid env var name: %q" (fun e =>
    text "export " ++ (e.1 ++ text "=" ++ hardQuote e.2) ++ text "\n") []

def encodeEnvVarsForFish : List (Bytes × Bytes) → Except EnvError (Bytes) :=
  encodeFrom "invalid env var name: %q" (fun e =>
    text "set -x " ++ e.1 ++ text " " ++ hardQuoteFish e.2 ++ text "\n") []

/-- A command for another host. -/
structure CommandSpec where
  cmd : Bytes
  env : List (Bytes × Bytes)
  cwd : Bytes

def CommandSpec.shellCmd (opts : CommandSpec) : Bytes :=
  if opts.cwd = [] then opts.cmd
  else text "cd " ++ hardQuote opts.cwd ++ text " && " ++ opts.cmd

def buildShellCommand (opts : CommandSpec) : Except EnvError (Bytes) :=
  (encodeFrom "invalid environment variable name: %q" (fun e =>
      e.1 ++ text "=" ++ hardQuote e.2 ++ text " ") [] opts.env).map fun envVars =>
    text "sh -c " ++ hardQuote (envVars ++ opts.shellCmd)

/-! ## What is read of what was written -/

/-- What is left of a string that is quoted: nothing, if it is too long and not safe. -/
def kept (s : Bytes) : Bytes := if isSafe s ∨ checkQuoteSize s then s else []

/-- A text that is read as a word or a part of one, whatever stands behind it. -/
def Reads (sh : Shell) (s word : Bytes) : Prop :=
  ∀ rest, sh.read .outside (s ++ rest) = (sh.read .outside rest).map (ahead word)

/-- The bytes that are escaped are those that mean something in double quotes. -/
structure Escapes (sh : Shell) (escaped : Bytes) : Prop where
  unescape : ∀ b ∈ escaped, sh.unescape b = [b]
  plain : ∀ b, b ∉ escaped → b ≠ 0 → b ≠ 0x22 ∧ b ≠ 0x5c ∧ sh.expands b = false

theorem bash_escapes : Escapes bash (text "\"\\$`") where
  unescape b hb := if_pos hb
  plain b hb hzero := by
    simp_all [text, bash]

theorem fish_escapes : Escapes fish (text "\"\\$") where
  unescape b hb := if_pos hb
  plain b hb hzero := by
    simp_all [text, fish]

section Reading

variable {sh : Shell} {escaped s t word word' : Bytes} {α β : Type}

@[simp] theorem ahead_nil : ahead ([] : List α) = (id : List α × β → List α × β) := rfl

@[simp] theorem ahead_comp (x y : List α) :
    (ahead x ∘ ahead y : List α × β → List α × β) = ahead (x ++ y) := by
  funext found
  simp [ahead]

theorem Reads.append (h : Reads sh s word) (h' : Reads sh t word') :
    Reads sh (s ++ t) (word ++ word') := by
  intro rest
  rw [List.append_assoc, h, h', Option.map_map, ahead_comp]

theorem special_not_safe :
    (0x22 :: text " \t\n" ++ special).all (fun b => !safeByte b) = true := by decide

theorem Reads.safe (h : s.all safeByte = true) : Reads sh s s := by
  intro rest
  induction s with
  | nil => simp
  | cons b s ih =>
    rw [List.all_cons, Bool.and_eq_true] at h
    have hplain : b ∉ 0x22 :: text " \t\n" ++ special := fun hmem => by
      simpa [h.1] using List.all_eq_true.mp special_not_safe b hmem
    simp only [List.cons_append, List.mem_cons, List.mem_append, not_or] at hplain
    obtain ⟨hquote, hblank, hspecial⟩ := hplain
    simp [Shell.read, separates, hquote, hblank, hspecial, ih h.2]

theorem read_escaped (he : Escapes sh escaped) (hzero : 0 ∉ s) (rest : Bytes) :
    sh.read .quoted (s.flatMap (escape escaped) ++ 0x22 :: rest) =
      (sh.read .outside rest).map (ahead s) := by
  induction s with
  | nil => simp [Shell.read]
  | cons b s ih =>
    rw [List.mem_cons, not_or] at hzero
    by_cases hb : b ∈ escaped
    · simp [Shell.read, escape, hb, ih hzero.2, he.unescape b hb]
    · obtain ⟨hquote, hback, hexpands⟩ := he.plain b hb (Ne.symm hzero.1)
      simp [Shell.read, escape, hb, ih hzero.2, hquote, hback, hexpands]

@[simp] theorem read_quote (rest : Bytes) :
    sh.read .outside (0x22 :: rest) = sh.read .quoted rest := by
  simp [Shell.read, show separates 0x22 = false by decide]

/-- A quoted string is read as a word or as part of one, and nothing is expanded. -/
theorem Reads.quoteWith (he : Escapes sh escaped) (hzero : 0 ∉ s) :
    Reads sh (quoteWith escaped s) (kept s) := by
  unfold ShellQuote.quoteWith kept
  split
  · rename_i hnil
    intro rest
    simp [hnil, Shell.read, text, checkQuoteSize]
  split
  · rename_i hsafe
    have hreads : Reads sh s s := .safe (by simp_all [isSafe])
    simpa [hsafe] using hreads
  split
  · rename_i hsafe hsize
    have hreads : Reads sh [] [] := .safe rfl
    simpa [hsafe, hsize] using hreads
  · rename_i hsafe hsize
    intro rest
    simp_all [read_escaped]

/-- What is written, as what it is read, and the byte behind it. -/
structure Piece where
  source : Bytes
  word : Bytes
  behind : UInt8

def Piece.render (p : Piece) : Bytes := p.source ++ [p.behind]

def Piece.token (p : Piece) : Bytes × Option UInt8 := (p.word, some p.behind)

/-- Pieces that are read as they are written. -/
def Faithful (sh : Shell) (pieces : List Piece) : Prop :=
  ∀ p ∈ pieces, Reads sh p.source p.word ∧ separates p.behind = true

theorem words_succ (h : Reads sh s word) (hends : ∀ b ∈ t.head?, separates b = true) (n : Nat) :
    sh.words (n + 1) (s ++ t) = (sh.words n (t.drop 1)).map (ahead [(word, t.head?)]) := by
  have hend : sh.read .outside t = some ([], t) := by
    cases t with
    | nil => rfl
    | cons b t => simp [Shell.read, hends b rfl]
  simp [Shell.words, h t, hend, ahead]

theorem words_pieces {pieces : List Piece} (h : Faithful sh pieces) (n : Nat) (t : Bytes) :
    sh.words (n + pieces.length) (pieces.flatMap Piece.render ++ t) =
      (sh.words n t).map (ahead (pieces.map Piece.token)) := by
  induction pieces with
  | nil => simp
  | cons p pieces ih =>
    obtain ⟨hreads, hbehind⟩ := h p List.mem_cons_self
    rw [List.flatMap_cons, Piece.render, List.append_assoc, List.append_assoc, List.length_cons,
      ← Nat.add_assoc, words_succ hreads (by simpa using hbehind)]
    simp [ih fun q hq => h q (List.mem_cons_of_mem _ hq), Piece.token]

end Reading

section Environments

variable {sh : Shell} {line : Bytes × Bytes → Bytes}
  {env : List (Bytes × Bytes)} {e : Bytes × Bytes}

theorem safe_of_valid {name : Bytes} (h : isValidEnvVarName name = true) :
    name.all safeByte = true := by
  cases name with
  | nil => rfl
  | cons b name => grind [isValidEnvVarName, safeByte, text]

theorem encodeFrom_eq (format : String) (encoded : Bytes) :
    encodeFrom format line encoded env =
      (env.find? fun e => !isValidEnvVarName e.1).elim (.ok (encoded ++ env.flatMap line))
        fun e => .error ⟨format, e.1⟩ := by
  induction env generalizing encoded with
  | nil => simp [encodeFrom]
  | cons e env ih => cases he : isValidEnvVarName e.1 <;> simp [encodeFrom, he, ih]

theorem zero_not_mem_quoteWith {escaped s : Bytes} (h : 0 ∉ s) : 0 ∉ quoteWith escaped s := by
  unfold quoteWith
  split
  · decide
  split
  · exact h
  split
  · simp
  simp only [List.cons_append, List.mem_cons, List.mem_append, List.mem_flatMap]
  grind [escape]

/-- An assignment is a word: the name, an equals sign and the value. -/
theorem Reads.assignment (hname : isValidEnvVarName e.1 = true) (hzero : 0 ∉ e.2) :
    Reads bash (e.1 ++ text "=" ++ hardQuote e.2) (e.1 ++ text "=" ++ kept e.2) :=
  ((Reads.safe (safe_of_valid hname)).append (.safe (by decide))).append
    (.quoteWith bash_escapes hzero)

def bashPieces (e : Bytes × Bytes) : List Piece :=
  [⟨text "export", text "export", 0x20⟩,
    ⟨e.1 ++ text "=" ++ hardQuote e.2, e.1 ++ text "=" ++ kept e.2, 0x0a⟩]

def fishPieces (e : Bytes × Bytes) : List Piece :=
  [⟨text "set", text "set", 0x20⟩, ⟨text "-x", text "-x", 0x20⟩, ⟨e.1, e.1, 0x20⟩,
    ⟨hardQuoteFish e.2, kept e.2, 0x0a⟩]

def shellPieces (e : Bytes × Bytes) : List Piece :=
  [⟨e.1 ++ text "=" ++ hardQuote e.2, e.1 ++ text "=" ++ kept e.2, 0x20⟩]

theorem faithful_bash (hname : isValidEnvVarName e.1 = true) (hzero : 0 ∉ e.2) :
    Faithful bash (bashPieces e) := by
  simp only [Faithful, bashPieces, List.forall_mem_cons]
  exact ⟨⟨.safe (by decide), rfl⟩, ⟨.assignment hname hzero, rfl⟩, by simp⟩

theorem faithful_fish (hname : isValidEnvVarName e.1 = true) (hzero : 0 ∉ e.2) :
    Faithful fish (fishPieces e) := by
  simp only [Faithful, fishPieces, List.forall_mem_cons]
  exact ⟨⟨.safe (by decide), rfl⟩, ⟨.safe (by decide), rfl⟩, ⟨.safe (safe_of_valid hname), rfl⟩,
    ⟨.quoteWith fish_escapes hzero, rfl⟩, by simp⟩

theorem faithful_shell (hname : isValidEnvVarName e.1 = true) (hzero : 0 ∉ e.2) :
    Faithful bash (shellPieces e) := by
  simp only [Faithful, shellPieces, List.forall_mem_singleton]
  exact ⟨.assignment hname hzero, rfl⟩

theorem words_flatMap (pieces : Bytes × Bytes → List Piece) (k : Nat)
    (hlength : ∀ e, (pieces e).length = k) (h : ∀ e ∈ env, Faithful sh (pieces e))
    (rest : Bytes) :
    sh.words (env.length * k) ((env.flatMap fun e => (pieces e).flatMap Piece.render) ++ rest) =
      some (env.flatMap fun e => (pieces e).map Piece.token, rest) := by
  have hall : Faithful sh (env.flatMap pieces) := by
    intro p hp
    obtain ⟨e, he, hp⟩ := List.mem_flatMap.mp hp
    exact h e he p hp
  simpa [List.flatMap_assoc, List.map_flatMap, List.length_flatMap, hlength, Shell.words, ahead,
    List.map_const', List.sum_replicate_nat] using words_pieces hall 0 rest

theorem words_shellCmd {opts : CommandSpec} (hcwd : 0 ∉ opts.cwd) (hne : opts.cwd ≠ []) :
    bash.words 2 opts.shellCmd = some ([(text "cd", some 0x20), (kept opts.cwd, some 0x20)],
      text "&& " ++ opts.cmd) := by
  have hpieces : Faithful bash
      [⟨text "cd", text "cd", 0x20⟩, ⟨hardQuote opts.cwd, kept opts.cwd, 0x20⟩] := by
    simp only [Faithful, List.forall_mem_cons]
    exact ⟨⟨.safe (by decide), rfl⟩, ⟨.quoteWith bash_escapes hcwd, rfl⟩, by simp⟩
  simpa [CommandSpec.shellCmd, hne, Piece.render, Piece.token, text, Shell.words, ahead] using
    words_pieces hpieces 0 (text "&& " ++ opts.cmd)

theorem words_script {script : Bytes} (hzero : 0 ∉ script) :
    bash.words 3 (text "sh -c " ++ hardQuote script) =
      some ([(text "sh", some 0x20), (text "-c", some 0x20), (kept script, none)], []) := by
  have hpieces : Faithful bash [⟨text "sh", text "sh", 0x20⟩, ⟨text "-c", text "-c", 0x20⟩] := by
    simp only [Faithful, List.forall_mem_cons]
    exact ⟨⟨.safe (by decide), rfl⟩, ⟨.safe (by decide), rfl⟩, by simp⟩
  have hlast := words_succ (t := []) (.quoteWith bash_escapes hzero) (by simp) 0
  have hwords := words_pieces hpieces 1 (hardQuote script)
  rw [hardQuote, ← List.append_nil (quoteWith _ script), hlast] at hwords
  simpa [Piece.render, Piece.token, text, Shell.words, ahead, hardQuote] using hwords

end Environments

end ShellQuote
