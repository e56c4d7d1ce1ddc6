import PrimeAgent.Lib.Regex
import PrimeAgent.Tools.EditDiff

/-! # The guard of destructive git commands

Commands that discard uncommitted changes are looked for in a copy of the command whose quoted spans and comments are
blanked. A match is told by its byte offset in that copy, and the probe is resolved at this offset of the command itself.
-/
namespace PrimeAgent.Tools

open Splice Regex

/-! ## Patterns -/

/-- `\s`. -/
def spaceChar : Regex :=
  char isWhitespace

/-- `\s+`. -/
def spaces : Regex :=
  plus spaceChar

/-- `\S+`. -/
def solid : Regex :=
  plus (char fun c => !isWhitespace c)

def wordChar (others : List Char) : Regex :=
  char fun c => !isWhitespace c && !others.contains c

/-- `[^\s;&|]+`. -/
def word : Regex :=
  plus (wordChar [';', '&', '|'])

/-- The options between `git` and the subcommand. -/
def gitGlobalOptions : Regex :=
  star (seqs [lit '-', opt (lit '-'), word,
    opt (seqs [spaces, alts [seqs [lit '"', star (char (· != '"')), lit '"'],
      seqs [lit '\'', star (char (· != '\'')), lit '\''], word]]), spaces])

/-- `(?:\.\/?|:\/)`. -/
def wholeTree : Regex :=
  alt (seq (lit '.') (opt (lit '/'))) (literal ":/")

/-- `(?=\s|$|[;&|)])`. -/
def commandEnd : Regex :=
  look (alts [spaceChar, finish, char fun c => [';', '&', '|', ')'].contains c])

def gitPattern (subcommand : List Regex) : Regex :=
  seq boundary (seq (literal "git") (seqs (spaces :: gitGlobalOptions :: subcommand)))

def discardCheckoutPattern : Regex :=
  gitPattern [literal "checkout", spaces,
    alts [
      seqs [star (seq (alts [seq (lit '-') (char fun c => c == 'f' || c == 'm'), literal "--ours", literal "--theirs",
        seq (literal "--conflict=") solid]) spaces), opt (seq (literal "--") spaces), wholeTree],
      seqs [plus (wordChar [';', '&', '|', '(', ')']), spaces, opt (seq (literal "--") spaces), wholeTree],
      seqs [alt (literal "-f") (literal "--force"), spaces, plus (wordChar [';', '&', '|', '(', ')'])]],
    commandEnd]

def discardRestorePattern : Regex :=
  gitPattern [literal "restore", spaces,
    opt (alts [
      seqs [alt (literal "--source") (literal "--worktree"), opt (seq (lit '=') solid), spaces],
      seqs [literal "-s", alt (seq spaces solid) solid, spaces],
      seq (literal "-W") spaces,
      seq (literal "--") spaces]),
    wholeTree, commandEnd]

def discardResetPattern : Regex :=
  gitPattern [literal "reset", spaces, star (seqs [seq (lit '-') word, spaces]), literal "--hard", boundary]

def discardCleanPattern : Regex :=
  gitPattern [literal "clean", spaces, group (star (char fun c => !([';', '&', '|'].contains c)))]

def splitWs (text : Text) : List Text :=
  (text.splitOnP isJsWhitespace).filter (· ≠ [])

def isForcedCleanSegment (args : Text) : Bool :=
  let optionTokens := (splitWs args).takeWhile (· ≠ ['-', '-'])
  let forces := optionTokens.any fun arg =>
    if ['-', '-'].isPrefixOf arg then "--force".toList.isPrefixOf arg else ['-'].isPrefixOf arg && arg.contains 'f'
  let dryRun := optionTokens.any fun arg =>
    arg == "--dry-run".toList || (['-'].isPrefixOf arg && !(['-', '-'].isPrefixOf arg) && arg.contains 'n')
  forces && !dryRun

/-! ## Masking -/

def opensComment (prev : Option Char) : Bool :=
  prev.all fun p => isWhitespace p || [';', '&', '|', '(', ')', '\x7b', '\x7d'].contains p

/-- From `$(` up to the parenthesis that closes it, and the rest from there. -/
def substitution : Nat → Text → Text × Text
  | _, [] => ([], [])
  | depth, ch :: rest =>
    if ch = '(' then
      let (inner, rest) := substitution (depth + 1) rest
      (ch :: inner, rest)
    else if ch = ')' then
      if depth ≤ 1 then ([], ch :: rest)
      else
        let (inner, rest) := substitution (depth - 1) rest
        (ch :: inner, rest)
    else
      let (inner, rest) := substitution depth rest
      (ch :: inner, rest)

def maskFrom : Nat → Option Char → Option Char → Text → Text
  | 0, _, _, chars => chars
  | _, _, _, [] => []
  | fuel + 1, prev, none, ch :: rest =>
    if ch = '#' ∧ opensComment prev then
      let comment := (ch :: rest).takeWhile (· ≠ '\n')
      comment.map (fun _ => ' ') ++ maskFrom fuel (some ' ') none ((ch :: rest).dropWhile (· ≠ '\n'))
    else ch :: maskFrom fuel (some ch) (if ch = '"' ∨ ch = '\'' then some ch else none) rest
  | fuel + 1, _, some quote, ch :: rest =>
    if quote = '\'' then
      if ch = '\'' then ch :: maskFrom fuel (some ch) none rest
      else ' ' :: maskFrom fuel (some ' ') (some quote) rest
    else if ch = '"' then ch :: maskFrom fuel (some ch) none rest
    else if ch = '\\' ∧ rest ≠ [] then
      ' ' :: ' ' :: maskFrom fuel (some ' ') (some quote) rest.tail
    else if ch = '$' ∧ rest.head? = some '(' then
      let (inner, rest) := substitution 0 (ch :: rest)
      inner ++ maskFrom fuel inner.getLast? (some quote) rest
    else if ch = '`' then
      let inner := ch :: rest.takeWhile (· ≠ '`')
      inner ++ maskFrom fuel inner.getLast? (some quote) (rest.dropWhile (· ≠ '`'))
    else ' ' :: maskFrom fuel (some ' ') (some quote) rest

def maskQuotedSpans (command : Text) : Text :=
  maskFrom command.length none none command

/-! ## Finding -/

def byteIndex (text : Text) (place : Nat) : Nat :=
  total Char.utf8Size (text.take place)

def discardPlaces (isWord : Char → Bool) (masked : Text) : List Nat :=
  [discardCheckoutPattern, discardRestorePattern, discardResetPattern].flatMap (fun pattern =>
      (findIter isWord masked pattern).map (·.start)) ++
    ((findIter isWord masked discardCleanPattern).filter fun found =>
      found.last.group.any fun span => isForcedCleanSegment ((masked.take span.2).drop span.1)).map (·.start)

/-- The byte index at which each `git` starts. -/
def findDestructiveGitDiscardCommands (isWord : Char → Bool) (command : Text) : List Nat :=
  let masked := maskQuotedSpans command
  ((discardPlaces isWord masked).map (byteIndex masked)).insertionSort (· ≤ ·)

/-- The prefix and the invocation that `resolve_discard_probe_target` slices off; `none` is the panic of a slice. -/
def probeSlices (command : Text) (discardIndex : Nat) : Option (Text × Text) :=
  splitAt? Char.utf8Size command discardIndex

/-! ## The indices -/

def Masks (c m : Char) : Prop :=
  m = c ∨ m = ' '

section Masking

variable {chars before masked : Text}

theorem masks_refl (chars : Text) : List.Forall₂ Masks chars chars :=
  List.forall₂_same.mpr fun _ _ => Or.inl rfl

theorem masks_blank (chars : Text) : List.Forall₂ Masks chars (chars.map fun _ => ' ') :=
  List.forall₂_map_right_iff.mpr (List.forall₂_same.mpr fun _ _ => Or.inr rfl)

theorem masks_append {chars' masked' : Text} (hFirst : List.Forall₂ Masks chars masked)
    (hSecond : List.Forall₂ Masks chars' masked') : List.Forall₂ Masks (chars ++ chars') (masked ++ masked') :=
  List.rel_append hFirst hSecond

theorem substitution_append (chars : Text) (depth : Nat) :
    (substitution depth chars).1 ++ (substitution depth chars).2 = chars := by
  induction chars generalizing depth with
  | nil => rfl
  | cons ch rest ih =>
    unfold substitution
    split_ifs
    · exact congrArg (ch :: ·) (ih (depth + 1))
    · rfl
    · exact congrArg (ch :: ·) (ih (depth - 1))
    · exact congrArg (ch :: ·) (ih depth)

theorem maskFrom_masks (fuel : Nat) (prev quote : Option Char) (chars : Text) :
    List.Forall₂ Masks chars (maskFrom fuel prev quote chars) := by
  induction fuel generalizing prev quote chars with
  | zero => exact masks_refl chars
  | succ fuel ih =>
    cases chars with
    | nil => exact List.Forall₂.nil
    | cons ch rest =>
      cases quote with
      | none =>
        unfold maskFrom
        split_ifs with hComment
        · have hRest := masks_append (masks_blank ((ch :: rest).takeWhile (· ≠ '\n')))
            (ih (some ' ') none ((ch :: rest).dropWhile (· ≠ '\n')))
          rwa [List.takeWhile_append_dropWhile] at hRest
        · exact .cons (Or.inl rfl) (ih _ _ _)
        · exact .cons (Or.inl rfl) (ih _ _ _)
      | some quote =>
        unfold maskFrom
        split_ifs with hSingle hClose hDouble hEscape hSubstitution hTick
        · exact .cons (Or.inl rfl) (ih _ _ _)
        · exact .cons (Or.inr rfl) (ih _ _ _)
        · exact .cons (Or.inl rfl) (ih _ _ _)
        · cases rest with
          | nil => exact absurd rfl hEscape.2
          | cons next rest => exact .cons (Or.inr rfl) (.cons (Or.inr rfl) (ih _ _ _))
        · have hRest := masks_append (masks_refl (substitution 0 (ch :: rest)).1)
            (ih (substitution 0 (ch :: rest)).1.getLast? (some quote) (substitution 0 (ch :: rest)).2)
          rwa [substitution_append] at hRest
        · have hRest := masks_append (masks_refl (ch :: rest.takeWhile (· ≠ '`')))
            (ih (ch :: rest.takeWhile (· ≠ '`')).getLast? (some quote) (rest.dropWhile (· ≠ '`')))
          rwa [List.cons_append, List.takeWhile_append_dropWhile] at hRest
        · exact .cons (Or.inr rfl) (ih _ _ _)

theorem maskQuotedSpans_masks (command : Text) : List.Forall₂ Masks command (maskQuotedSpans command) :=
  maskFrom_masks _ _ _ _

def OneByteBlanks (chars masked : Text) : Prop :=
  List.Forall₂ (fun c m => m = c ∨ c.utf8Size = 1) chars masked

section

variable (hMasks : List.Forall₂ Masks chars masked)

include hMasks

theorem total_masks_le :
    total Char.utf8Size masked ≤ total Char.utf8Size chars := by
  induction hMasks with
  | nil => exact Nat.le_refl _
  | @cons c m chars masked hChar hRest ih =>
    rw [total_cons, total_cons]
    rcases hChar with rfl | rfl
    · omega
    · have hPos := c.utf8Size_pos
      have hSpace : Char.utf8Size ' ' = 1 := rfl
      omega

theorem total_masks_iff :
    total Char.utf8Size masked = total Char.utf8Size chars ↔ OneByteBlanks chars masked := by
  induction hMasks with
  | nil => exact ⟨fun _ => .nil, fun _ => rfl⟩
  | @cons c m chars masked hChar hRest ih =>
    have hLe := total_masks_le hRest
    rw [OneByteBlanks, List.forall₂_cons, ← OneByteBlanks, ← ih, total_cons, total_cons]
    rcases hChar with rfl | rfl
    · exact ⟨fun hSum => ⟨Or.inl rfl, by omega⟩, fun hSame => by omega⟩
    · have hPos := c.utf8Size_pos
      have hSpace : Char.utf8Size ' ' = 1 := rfl
      constructor
      · intro hSum
        exact ⟨Or.inr (by omega), by omega⟩
      · rintro ⟨rfl | hOne, hSame⟩
        · omega
        · omega

theorem masks_prefix {found : Text} (hSpaces : ' ' ∉ found) (hFound : found <+: masked) : found <+: chars := by
  induction hMasks generalizing found with
  | nil => exact hFound
  | @cons c m chars masked hChar hRest ih =>
    cases found with
    | nil => exact List.nil_prefix
    | cons first found =>
      obtain ⟨rfl, hLater⟩ := List.cons_prefix_cons.mp hFound
      rcases hChar with rfl | rfl
      · exact List.cons_prefix_cons.mpr ⟨rfl, ih (fun hMem => hSpaces (List.mem_cons_of_mem _ hMem)) hLater⟩
      · exact absurd List.mem_cons_self hSpaces

end

end Masking

section Places

variable {isWord : Char → Bool} {command masked : Text} {place : Nat}

theorem gitPattern_start {subcommand : List Regex} {found : Found}
    (hFound : found ∈ findIter isWord masked (gitPattern subcommand)) :
    "git".toList <+: masked.drop found.start := by
  obtain ⟨middle, hBoundary, hRest⟩ := mem_ends_seq (mem_findIter hFound)
  obtain ⟨last, hGit, -⟩ := mem_ends_seq hRest
  rw [ends] at hBoundary
  split at hBoundary
  next =>
    obtain rfl := List.mem_singleton.mp hBoundary
    exact mem_ends_literal hGit
  next => cases hBoundary

theorem discardPlaces_git (hPlace : place ∈ discardPlaces isWord masked) : "git".toList <+: masked.drop place := by
  rcases List.mem_append.mp hPlace with hOne | hClean
  · obtain ⟨pattern, hPattern, hFound⟩ := List.mem_flatMap.mp hOne
    obtain ⟨found, hMem, rfl⟩ := List.mem_map.mp hFound
    simp only [List.mem_cons, List.not_mem_nil, or_false] at hPattern
    rcases hPattern with rfl | rfl | rfl
    · exact gitPattern_start hMem
    · exact gitPattern_start hMem
    · exact gitPattern_start hMem
  · obtain ⟨found, hMem, rfl⟩ := List.mem_map.mp hClean
    exact gitPattern_start (List.mem_of_mem_filter hMem)

/-- The probe of a discard slices the command where its `git` stands. -/
structure ProbedAt (command masked : Text) (place : Nat) : Prop where
  index : byteIndex masked place = byteIndex command place
  slices : probeSlices command (byteIndex masked place) = some (command.take place, command.drop place)
  git : "git".toList <+: command.drop place

theorem probedAt_iff (hMasks : List.Forall₂ Masks command masked) (hGit : "git".toList <+: masked.drop place) :
    ProbedAt command masked place ↔ OneByteBlanks (command.take place) (masked.take place) := by
  have hIndex := total_masks_iff (List.forall₂_take place hMasks)
  constructor
  · exact fun hProbed => hIndex.mp hProbed.index
  · intro hBlanks
    have hSame := hIndex.mpr hBlanks
    refine ⟨hSame, ?_, masks_prefix (List.forall₂_drop place hMasks) (by decide) hGit⟩
    have hCut := splitAt?_append Char.utf8Size_pos (command.take place) (command.drop place)
    rw [List.take_append_drop] at hCut
    rw [probeSlices, byteIndex, hSame]
    exact hCut

/-- Every index is that of a discard, and the probe of each is resolved at its own `git` exactly where no longer character
is blanked before it. -/
theorem discard_indices_iff (isWord : Char → Bool) (command : Text) :
    (∀ index, index ∈ findDestructiveGitDiscardCommands isWord command ↔
      ∃ place ∈ discardPlaces isWord (maskQuotedSpans command), index = byteIndex (maskQuotedSpans command) place) ∧
    ((∀ place ∈ discardPlaces isWord (maskQuotedSpans command), ProbedAt command (maskQuotedSpans command) place) ↔
      ∀ place ∈ discardPlaces isWord (maskQuotedSpans command),
        OneByteBlanks (command.take place) ((maskQuotedSpans command).take place)) := by
  constructor
  · intro index
    rw [findDestructiveGitDiscardCommands, List.mem_insertionSort, List.mem_map]
    simp only [eq_comm]
  · exact forall₂_congr fun place hPlace =>
      probedAt_iff (maskQuotedSpans_masks command) (discardPlaces_git hPlace)

end Places

def asciiWord (c : Char) : Bool :=
  c.isAlphanum || c == '_'

theorem discard_index_shifted :
    findDestructiveGitDiscardCommands asciiWord "echo 'éé';é git reset --hard".toList = [13] ∧
      byteIndex "echo 'éé';é git reset --hard".toList 12 = 15 ∧
      probeSlices "echo 'éé';é git reset --hard".toList 13 = none := by
  decide +kernel

end PrimeAgent.Tools
