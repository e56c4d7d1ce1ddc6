import PrimeAgent.Lib.Splice
import PrimeAgent.Tools.Truncate
import Mathlib.Data.List.Sort

/-! # Applying edits to a text

Every edit is looked up in one base text, first as it is and then with quotes, dashes, spaces and line ends normalized.
The replacements are made from the last match to the first, by byte offsets.
-/
namespace PrimeAgent.Tools

open Splice

inductive LineEnding where
  | crLf
  | lf
deriving DecidableEq

def LineEnding.chars : LineEnding → Text
  | .crLf => ['\r', '\n']
  | .lf => ['\n']

/-- `str::find`: the bytes in front of the first occurrence. -/
def findText (pattern : Text) : Text → Option Nat
  | [] => if pattern.isEmpty then some 0 else none
  | c :: text => if pattern.isPrefixOf (c :: text) then some 0 else (findText pattern text).map (c.utf8Size + ·)

def detectLineEnding (content : Text) : LineEnding :=
  match findText ['\r', '\n'] content, findText ['\n'] content with
  | some crlfIdx, some lfIdx => if crlfIdx < lfIdx then .crLf else .lf
  | _, _ => .lf

def normalizeToLf : Text → Text
  | [] => []
  | '\r' :: '\n' :: text => '\n' :: normalizeToLf text
  | c :: text => (if c = '\r' then '\n' else c) :: normalizeToLf text

def restoreLineEndings (text : Text) (ending : LineEnding) : Text :=
  match ending with
  | .lf => text
  | .crLf => text.flatMap fun c => if c = '\n' then ['\r', '\n'] else [c]

def isJsWhitespace (ch : Char) : Bool :=
  (0x09 ≤ ch.toNat && ch.toNat ≤ 0x0D) || ch = ' ' || ch.toNat = 0xA0 || ch.toNat = 0x1680 || ch.toNat = 0x2028 ||
    ch.toNat = 0x2029 || ch.toNat = 0x202F || ch.toNat = 0x205F || ch.toNat = 0x3000 || ch.toNat = 0xFEFF ||
    (0x2000 ≤ ch.toNat && ch.toNat ≤ 0x200A)

def jsTrimEnd (line : Text) : Text :=
  line.rdropWhile isJsWhitespace

def mapFuzzy (ch : Char) : Char :=
  if 0x2018 ≤ ch.toNat ∧ ch.toNat ≤ 0x201B then '\''
  else if 0x201C ≤ ch.toNat ∧ ch.toNat ≤ 0x201F then '"'
  else if (0x2010 ≤ ch.toNat ∧ ch.toNat ≤ 0x2015) ∨ ch.toNat = 0x2212 then '-'
  else if ch.toNat = 0x00A0 ∨ ch.toNat = 0x202F ∨ ch.toNat = 0x205F ∨ ch.toNat = 0x3000 then ' '
  else if 0x2002 ≤ ch.toNat ∧ ch.toNat ≤ 0x200A then ' '
  else ch

def normalizeForFuzzyMatch (nfkc : Text → Text) (text : Text) : Text :=
  (joinLines (((nfkc text).splitOn '\n').map jsTrimEnd)).map mapFuzzy

def bomChar : Char := Char.ofNat 0xFEFF

def stripBom (content : Text) : Text × Text :=
  match content with
  | c :: rest => if c = bomChar then ([c], rest) else ([], content)
  | [] => ([], [])

structure FuzzyMatchResult where
  found : Bool
  index : Nat
  matchLength : Nat
  usedFuzzyMatch : Bool
  contentForReplacement : Text
deriving DecidableEq

def fuzzyFindText (nfkc : Text → Text) (content oldText : Text) : FuzzyMatchResult :=
  match findText oldText content with
  | some exactIndex => ⟨true, exactIndex, byteLength oldText, false, content⟩
  | none =>
    let fuzzyContent := normalizeForFuzzyMatch nfkc content
    let fuzzyOldText := normalizeForFuzzyMatch nfkc oldText
    match findText fuzzyOldText fuzzyContent with
    | some fuzzyIndex => ⟨true, fuzzyIndex, byteLength fuzzyOldText, true, fuzzyContent⟩
    | none => ⟨false, 0, 0, false, content⟩

structure Edit where
  oldText : Text
  newText : Text
deriving DecidableEq

structure MatchedEdit where
  editIndex : Nat
  matchIndex : Nat
  matchLength : Nat
  newText : Text
deriving DecidableEq

structure AppliedEditsResult where
  baseContent : Text
  newContent : Text
deriving DecidableEq

/-- `str::matches` of a pattern that is not empty: the occurrences that do not overlap, `skip` characters of the last
one still to go. -/
def countMatches (pattern : Text) : Nat → Text → Nat
  | _, [] => 0
  | skip + 1, _ :: text => countMatches pattern skip text
  | 0, c :: text =>
    if pattern.isPrefixOf (c :: text) then countMatches pattern (pattern.length - 1) text + 1
    else countMatches pattern 0 text

def countOccurrences (nfkc : Text → Text) (content oldText : Text) : Nat :=
  let fuzzyContent := normalizeForFuzzyMatch nfkc content
  let fuzzyOldText := normalizeForFuzzyMatch nfkc oldText
  if fuzzyOldText.isEmpty then 0 else countMatches fuzzyOldText 0 fuzzyContent

def getNotFoundError (path : String) (editIndex totalEdits : Nat) : String :=
  if totalEdits = 1 then
    s!"Could not find the exact text in {path}. The old text must match exactly including all whitespace and newlines."
  else
    s!"Could not find edits[{editIndex}] in {path}. The oldText must match exactly including all whitespace and newlines."

def getDuplicateError (path : String) (editIndex totalEdits occurrences : Nat) : String :=
  if totalEdits = 1 then
    s!"Found {occurrences} occurrences of the text in {path}. The text must be unique. " ++
      "Please provide more context to make it unique."
  else
    s!"Found {occurrences} occurrences of edits[{editIndex}] in {path}. Each oldText must be unique. " ++
      "Please provide more context to make it unique."

def getEmptyOldTextError (path : String) (editIndex totalEdits : Nat) : String :=
  if totalEdits = 1 then s!"oldText must not be empty in {path}."
  else s!"edits[{editIndex}].oldText must not be empty in {path}."

def getNoChangeError (path : String) (totalEdits : Nat) : String :=
  if totalEdits = 1 then
    s!"No changes made to {path}. The replacement produced identical content. This might indicate an issue with " ++
      "special characters or the text not existing as expected."
  else s!"No changes made to {path}. The replacements produced identical content."

def getOverlapError (path : String) (previous current : Nat) : String :=
  s!"edits[{previous}] and edits[{current}] overlap in {path}. Merge them into one edit or target disjoint regions."

def normalizedEdits (edits : List Edit) : List Edit :=
  edits.map fun edit => ⟨normalizeToLf edit.oldText, normalizeToLf edit.newText⟩

def baseContent (nfkc : Text → Text) (normalizedContent : Text) (edits : List Edit) : Text :=
  if edits.any fun edit => (fuzzyFindText nfkc normalizedContent edit.oldText).usedFuzzyMatch then
    normalizeForFuzzyMatch nfkc normalizedContent
  else normalizedContent

/-- The loop over the edits, from edit `i` of `total` on. -/
def matchEdits (nfkc : Text → Text) (base : Text) (path : String) (totalEdits : Nat) :
    Nat → List Edit → Except String (List MatchedEdit)
  | _, [] => .ok []
  | i, edit :: edits =>
    let matchResult := fuzzyFindText nfkc base edit.oldText
    if matchResult.found = false then .error (getNotFoundError path i totalEdits)
    else
      let occurrences := countOccurrences nfkc base edit.oldText
      if 1 < occurrences then .error (getDuplicateError path i totalEdits occurrences)
      else do
        let later ← matchEdits nfkc base path totalEdits (i + 1) edits
        .ok (⟨i, matchResult.index, matchResult.matchLength, edit.newText⟩ :: later)

/-- `sort_by_key` is stable. -/
def sortMatches (matched : List MatchedEdit) : List MatchedEdit :=
  matched.insertionSort fun a b => a.matchIndex ≤ b.matchIndex

def findOverlap : List MatchedEdit → Option (Nat × Nat)
  | previous :: current :: matched =>
    if current.matchIndex < previous.matchIndex + previous.matchLength then some (previous.editIndex, current.editIndex)
    else findOverlap (current :: matched)
  | _ => none

def MatchedEdit.region (edit : MatchedEdit) : Region Char :=
  ⟨edit.matchIndex, edit.matchLength, edit.newText⟩

def applyEditsToNormalizedContent (nfkc : Text → Text) (normalizedContent : Text) (edits : List Edit) (path : String) :
    Option (Except String AppliedEditsResult) :=
  let edits := normalizedEdits edits
  match edits.findIdx? fun edit => edit.oldText.isEmpty with
  | some i => some (.error (getEmptyOldTextError path i edits.length))
  | none =>
    let base := baseContent nfkc normalizedContent edits
    match matchEdits nfkc base path edits.length 0 edits with
    | .error message => some (.error message)
    | .ok matched =>
      match findOverlap (sortMatches matched) with
      | some (previous, current) => some (.error (getOverlapError path previous current))
      | none => do
        let newContent ← spliceAll Char.utf8Size ((sortMatches matched).map MatchedEdit.region) base
        if base = newContent then some (.error (getNoChangeError path edits.length))
        else some (.ok ⟨base, newContent⟩)

end PrimeAgent.Tools
