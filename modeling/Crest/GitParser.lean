import Crest.GoStrings

/-!
# The parsers of git's output

`git status --porcelain=v2 --branch -z` and `git diff-tree -r -z --raw --numstat` print
records whose parts are separated by blanks and tabs, and end each with a zero byte.  A
renamed or copied file has a second path, in a token of its own.

The status is cut with care: so many fields are skipped, and what remains is the path.
The paths of a commit are trimmed of white space, and the numbers of its lines are taken
to begin at the first token that holds a tab.
-/

namespace GitParser

open GoStrings

structure GitChangedFile where
  path : List UInt8
  originalPath : List UInt8
  indexStatus : List UInt8
  worktreeStatus : List UInt8
  staged : Bool
  unstaged : Bool
  untracked : Bool
  statusLabel : List UInt8
deriving DecidableEq

structure PorcelainV2Result where
  branch : List UInt8 := text "HEAD"
  upstream : List UInt8 := []
  ahead : Int := 0
  behind : Int := 0
  isDetached : Bool := false
  files : List GitChangedFile := []
deriving DecidableEq

structure GitCommitFileChange where
  path : List UInt8
  originalPath : List UInt8
  status : List UInt8
  statusLabel : List UInt8
  added : Int := 0
  removed : Int := 0
  isBinary : Bool := false
deriving DecidableEq

def cutPrefix (front : String) (s : List UInt8) : Option (List UInt8) :=
  (text front).isPrefixOf? s

def trimPrefix (front : String) (s : List UInt8) : List UInt8 := (cutPrefix front s).getD s

/-! ## The status -/

def skipFields (n : Nat) (s : List UInt8) : Option (List UInt8) :=
  match n with
  | 0 => some s
  | n + 1 =>
    match s.dropWhile (· ≠ 0x20) with
    | [] => none
    | _ :: rest => skipFields n rest

/-- A byte as a string: the encoding of the character with that number. -/
def runeText (b : UInt8) : List UInt8 :=
  if b < 0x80 then [b] else [(0xc0 : UInt8) ||| b >>> 6, (0x80 : UInt8) ||| (b &&& 0x3f)]

def xyChars : List UInt8 → List UInt8 × List UInt8
  | x :: y :: _ =>
    (if x = 0x2e then text " " else runeText x, if y = 0x2e then text " " else runeText y)
  | _ => (text " ", text " ")

def isStaged (idx wt : List UInt8) : Bool := idx ≠ text " " ∧ ¬ (idx = text "?" ∧ wt = text "?")

def isUnstaged (idx wt : List UInt8) : Bool := wt ≠ text " " ∨ (idx = text "?" ∧ wt = text "?")

def statusLabelFull (idx wt : List UInt8) : List UInt8 :=
  if idx = text "?" ∧ wt = text "?" then text "Untracked"
  else if idx = text "A" then text "Added"
  else if idx = text "M" ∨ wt = text "M" then text "Modified"
  else if idx = text "D" ∨ wt = text "D" then text "Deleted"
  else if idx = text "R" ∨ wt = text "R" then text "Renamed"
  else if idx = text "C" ∨ wt = text "C" then text "Copied"
  else if idx = text "U" ∨ wt = text "U" then text "Unmerged"
  else text "Changed"

def makeChangedFile (idx wt path origPath : List UInt8) : GitChangedFile where
  path := path
  originalPath := origPath
  indexStatus := idx
  worktreeStatus := wt
  staged := isStaged idx wt
  unstaged := isUnstaged idx wt
  untracked := idx = text "?" ∧ wt = text "?"
  statusLabel := statusLabelFull idx wt

/-- A record with so many fields before its path. -/
def parseRecord (count : Nat) (rest origPath : List UInt8) : Option GitChangedFile :=
  if rest.length < 2 then none
  else
    (skipFields count rest).map fun path =>
      makeChangedFile (xyChars (rest.take 2)).1 (xyChars (rest.take 2)).2 path origPath

def parseOrdinary (rest : List UInt8) : Option GitChangedFile := parseRecord 7 rest []

def parseRenamed (rest origPath : List UInt8) : Option GitChangedFile := parseRecord 8 rest origPath

def parseUnmerged (rest : List UInt8) : Option GitChangedFile := parseRecord 9 rest []

def PorcelainV2Result.append (out : PorcelainV2Result) (file : Option GitChangedFile) :
    PorcelainV2Result :=
  { out with files := out.files ++ file.toList }

/-- How many commits the branch is ahead of its upstream, and behind. -/
def PorcelainV2Result.branchAb (out : PorcelainV2Result) (rest : List UInt8) : PorcelainV2Result :=
  match fields rest with
  | [] => out
  | [a] => { out with ahead := atoi (trimPrefix "+" a) }
  | a :: b :: _ =>
    { out with ahead := atoi (trimPrefix "+" a), behind := atoi (trimPrefix "-" b) }

/-- The loop of `parsePorcelainV2`. -/
def parseTokens : List (List UInt8) → PorcelainV2Result → PorcelainV2Result
  | [], out => out
  | tok :: tokens, out =>
    if tok = [] then parseTokens tokens out
    else if let some rest := cutPrefix "# branch.head " tok then
      parseTokens tokens { out with branch := rest, isDetached := rest = text "(detached)" }
    else if let some rest := cutPrefix "# branch.upstream " tok then
      parseTokens tokens { out with upstream := rest }
    else if let some rest := cutPrefix "# branch.ab " tok then
      parseTokens tokens (out.branchAb rest)
    else if (cutPrefix "# " tok).isSome then parseTokens tokens out
    else if let some rest := cutPrefix "1 " tok then
      parseTokens tokens (out.append (parseOrdinary rest))
    else if let some rest := cutPrefix "2 " tok then
      match tokens with
      | [] => out.append (parseRenamed rest [])
      | orig :: tokens => parseTokens tokens (out.append (parseRenamed rest orig))
    else if let some rest := cutPrefix "u " tok then
      parseTokens tokens (out.append (parseUnmerged rest))
    else if let some rest := cutPrefix "? " tok then
      parseTokens tokens (out.append (makeChangedFile (text "?") (text "?") rest []))
    else parseTokens tokens out

def parsePorcelainV2 (stdout : List UInt8) : PorcelainV2Result := parseTokens (stdout.splitOn 0) {}

/-! ## The files of a commit -/

def fileStatusLabel (status : List UInt8) : List UInt8 :=
  if (text "A").isPrefixOf status then text "Added"
  else if (text "M").isPrefixOf status then text "Modified"
  else if (text "D").isPrefixOf status then text "Deleted"
  else if (text "R").isPrefixOf status then text "Renamed"
  else if (text "C").isPrefixOf status then text "Copied"
  else if (text "U").isPrefixOf status then text "Unmerged"
  else status

/-- The status is that of a rename or a copy. -/
def renames (status : List UInt8) : Bool :=
  (text "R").isPrefixOf status || (text "C").isPrefixOf status

/-- A file is listed unless its path is empty. -/
def listed (path origPath status : List UInt8) : List GitCommitFileChange :=
  if path = [] then []
  else [{ path, originalPath := origPath, status, statusLabel := fileStatusLabel status }]

/-- The loop of `parseDiffTreeRawStatus`. -/
def rawStatus : List (List UInt8) → List GitCommitFileChange
  | [] => []
  | tok :: tokens =>
    match (fields (trimSpace tok)).getLast? with
    | none => rawStatus tokens
    | some status =>
      match tokens with
      | [] => []
      | path :: tokens =>
        if renames status then
          match tokens with
          | [] => listed (trimSpace path) [] status
          | new :: tokens => listed (trimSpace new) (trimSpace path) status ++ rawStatus tokens
        else listed (trimSpace path) [] status ++ rawStatus tokens

def parseDiffTreeRawStatus (stdout : List UInt8) : List GitCommitFileChange :=
  rawStatus (stdout.splitOn 0)

/-- Where the first token with a tab begins. -/
def tabOffset : Nat → List (List UInt8) → Option Nat
  | _, [] => none
  | offset, tok :: tokens =>
    if 0x09 ∈ tok then some offset else tabOffset (offset + (tok.length + 1)) tokens

def splitNameStatusNumstat (stdout : List UInt8) : List UInt8 × List UInt8 :=
  match tabOffset 0 (stdout.splitOn 0) with
  | some start => (stdout.take start, stdout.drop start)
  | none => (stdout, [])

/-- The first file with the path gets the numbers. -/
def setNumbers (path addedRaw removedRaw : List UInt8) :
    List GitCommitFileChange → List GitCommitFileChange
  | [] => []
  | f :: files =>
    if f.path = path then
      { f with
        added := atoi addedRaw, removed := atoi removedRaw,
        isBinary := f.isBinary || addedRaw = text "-" || removedRaw = text "-" } :: files
    else f :: setNumbers path addedRaw removedRaw files

def applyNumstatEntry (files : List GitCommitFileChange) (path addedRaw removedRaw : List UInt8) :
    List GitCommitFileChange :=
  if trimSpace path = [] then files else setNumbers (trimSpace path) addedRaw removedRaw files

/-- The loop of `applyNumstat` over tokens. -/
def numstatTokens : List (List UInt8) → List GitCommitFileChange → List GitCommitFileChange
  | [], files => files
  | tok :: tokens, files =>
    if trimSpace tok = [] then numstatTokens tokens files
    else
      match splitN 0x09 3 (trimSpace tok) with
      | added :: removed :: path :: _ =>
        numstatTokens tokens (applyNumstatEntry files (trimSpace path) added removed)
      | [added, removed] =>
        match tokens with
        | _ :: new :: tokens =>
          numstatTokens tokens (applyNumstatEntry files (trimSpace new) added removed)
        | tokens => numstatTokens tokens (applyNumstatEntry files [] added removed)
      | _ => numstatTokens tokens files

/-- The loop of `applyNumstat` over lines. -/
def numstatLines (lines : List (List UInt8)) (files : List GitCommitFileChange) :
    List GitCommitFileChange :=
  lines.foldl (fun files line =>
    match splitN 0x09 3 (trimSpace line) with
    | added :: removed :: path :: _ => applyNumstatEntry files path added removed
    | _ => files) files

def applyNumstat (files : List GitCommitFileChange) (numstat : List UInt8) :
    List GitCommitFileChange :=
  if 0 ∈ numstat then numstatTokens (numstat.splitOn 0) files
  else numstatLines (numstat.splitOn 0x0a) files

def parseDiffTreeRawCombined (stdout : List UInt8) : List GitCommitFileChange :=
  let (status, numstat) := splitNameStatusNumstat stdout
  applyNumstat (parseDiffTreeRawStatus status) numstat

end GitParser
