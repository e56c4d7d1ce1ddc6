import Mathlib.Data.List.Rotate
import PrimeAgent.Session.Parse

/-! # The kill ring of the prompt editor

A kill moves text from the buffer to the newest entry of the ring, `yank` puts that entry in at the cursor and
`yank_pop` puts the entry before it in its place. The words are those of any segmentation of a line.
-/
namespace PrimeAgent.Tui

inductive LastAction where
  | kill | yank | typeWord
deriving DecidableEq

/-- The lines around the cursor, the nearest first, and what the kills and yanks read besides. The ring has its newest
entry first. -/
structure Editor where
  above : List Text
  left : Text
  right : Text
  below : List Text
  selectionAnchor : Option (Nat × Nat)
  killRing : List Text
  lastAction : Option LastAction

/-- `segment_with_markers` for the pastes of the editor, and `is_atomic_marker`. -/
structure Words where
  segment : Text → List Text
  isAtomicMarker : Text → Bool

def isWhitespaceChar (c : Char) : Bool :=
  c == '\ufeff' || (c != '\u0085' && isWhitespace c)

def isPunctuationChar (c : Char) : Bool :=
  "()\x7b\x7d[]<>.,;:'\"!?+-=*/\\|&%^$#@~`".toList.contains c

/-- How many characters of the first line `bash_prompt_info` hides. -/
def hiddenLength (line : Text) : Nat :=
  let trimmed := trimStart line
  let leading := line.length - trimmed.length
  match trimmed with
  | '!' :: '!' :: ' ' :: _ => leading + 3
  | '!' :: '!' :: _ => leading + 2
  | '!' :: ' ' :: _ => leading + 2
  | '!' :: _ => leading + 1
  | _ => 0

/-- `KillRing::push`. -/
def push (text : Text) (prepends accumulate : Bool) (ring : List Text) : List Text :=
  if text = [] then ring
  else match accumulate, ring with
    | true, last :: older => (if prepends then text ++ last else last ++ text) :: older
    | _, _ => text :: ring

namespace Editor

def lines (e : Editor) : List Text :=
  e.above.reverse ++ (e.left ++ e.right) :: e.below

def getText (e : Editor) : Text :=
  ['\n'].intercalate e.lines

def lineStartCol (e : Editor) (line : Nat) : Nat :=
  if line = 0 then hiddenLength (e.lines.headD []) else 0

/-! ### The selection -/

def selectionRange (e : Editor) : Option ((Nat × Nat) × (Nat × Nat)) :=
  let cursor := (e.above.length, e.left.length)
  e.selectionAnchor.bind fun anchor =>
    if anchor = cursor then none
    else
      let earlier := anchor.1 < cursor.1 ∨ (anchor.1 = cursor.1 ∧ anchor.2 < cursor.2)
      let first := if earlier then anchor else cursor
      let stop := if earlier then cursor else anchor
      let start := (first.1, max first.2 (e.lineStartCol first.1))
      if start = stop then none else some (start, stop)

def hasSelection (e : Editor) : Bool :=
  e.selectionRange.isSome

def deleteSelection (e : Editor) : Editor :=
  match e.selectionRange with
  | none => e
  | some (start, stop) =>
    { e with
      above := (e.lines.take start.1).reverse, left := (e.lines.getD start.1 []).take start.2
      right := (e.lines.getD stop.1 []).drop stop.2, below := e.lines.drop (stop.1 + 1)
      selectionAnchor := none, lastAction := none }

/-! ### Words -/

section

variable (words : Words)

/-- The characters of the blanks and of the word, the marker or the punctuation at the head of the segments. -/
def wordLength (segments : List Text) : Nat :=
  let isBlank := fun segment : Text => !words.isAtomicMarker segment && segment.any isWhitespaceChar
  let rest := segments.dropWhile isBlank
  let word := match rest with
    | [] => []
    | first :: _ =>
      if words.isAtomicMarker first then [first]
      else if first.any isPunctuationChar then
        rest.takeWhile fun segment => segment.any isPunctuationChar && !words.isAtomicMarker segment
      else rest.takeWhile fun segment =>
        !(segment.any isWhitespaceChar || segment.any isPunctuationChar || words.isAtomicMarker segment)
  ((segments.takeWhile isBlank ++ word).map List.length).sum

/-- The column that `move_word_backwards` reaches within the line; in the hidden prefix it stays. -/
def wordStart (e : Editor) : Nat :=
  let lineStart := e.lineStartCol e.above.length
  if e.left.length ≤ lineStart then e.left.length
  else max (e.left.length - wordLength words (words.segment e.left).reverse) lineStart

/-- How far `move_word_forwards` goes within the line. -/
def wordForwards (e : Editor) : Nat :=
  wordLength words (words.segment e.right)

end

/-! ### Kills -/

def pushKill (e : Editor) (text : Text) (prepends : Bool) : Editor :=
  { e with killRing := push text prepends (e.lastAction = some .kill) e.killRing, lastAction := some .kill }

/-- The newline before the line. -/
def killAbove (e : Editor) : Editor :=
  match e.above with
  | [] => e
  | previous :: more => { e.pushKill ['\n'] true with above := more, left := previous, right := e.left ++ e.right }

/-- The newline behind the line. -/
def killBelow (e : Editor) : Editor :=
  match e.below with
  | [] => e
  | next :: more => { e.pushKill ['\n'] false with right := e.right ++ next, below := more }

def deleteToStartOfLine (e : Editor) : Editor :=
  let lineStart := e.lineStartCol e.above.length
  if e.hasSelection then e.deleteSelection
  else if lineStart < e.left.length then
    { e.pushKill (e.left.drop lineStart) true with left := e.left.take lineStart }
  else e.killAbove

def deleteToEndOfLine (e : Editor) : Editor :=
  if e.hasSelection then e.deleteSelection
  else if e.right ≠ [] then { e.pushKill e.right false with right := [] }
  else e.killBelow

def deleteWordBackwards (words : Words) (e : Editor) : Editor :=
  let deleteFrom := e.wordStart words
  if e.hasSelection then e.deleteSelection
  else if e.left = [] then e.killAbove
  else { e.pushKill (e.left.drop deleteFrom) true with left := e.left.take deleteFrom }

/-- What is pushed is the text behind the word, not the word. -/
def deleteWordForward (words : Words) (e : Editor) : Editor :=
  let deleteLength := e.wordForwards words
  if e.hasSelection then e.deleteSelection
  else if e.right = [] then e.killBelow
  else { e.pushKill (e.right.drop deleteLength) false with right := e.right.drop deleteLength }

/-! ### Yanks -/

def insertYankedText (e : Editor) (text : Text) : Editor :=
  match text.splitOn '\n' with
  | first :: next :: more =>
    { e with
      above := (next :: more).dropLast.reverse ++ (e.left ++ first) :: e.above
      left := (next :: more).getLast (List.cons_ne_nil _ _) }
  | _ => { e with left := e.left ++ text }

/-- The text of the last yank is looked for by its lines before the cursor. -/
def deleteYankedText (e : Editor) : Editor :=
  match e.killRing with
  | [] => e
  | yanked :: _ =>
    match yanked.splitOn '\n' with
    | first :: _ :: more =>
      match e.above.drop more.length with
      | [] => e -- the source would panic
      | start :: above => { e with above := above, left := start.take (start.length - first.length) }
    | _ => { e with left := e.left.take (e.left.length - yanked.length) }

def yank (e : Editor) : Editor :=
  if e.killRing = [] then e
  else { e with selectionAnchor := none, lastAction := some .yank }.insertYankedText (e.killRing.headD [])

def yankPop (e : Editor) : Editor :=
  if e.lastAction ≠ some .yank ∨ e.killRing.length ≤ 1 then e
  else
    let deleted := e.deleteYankedText
    let ring := deleted.killRing.rotate 1
    { deleted with selectionAnchor := none, killRing := ring, lastAction := some .yank }.insertYankedText (ring.headD [])

end Editor

inductive Kill where
  | toStartOfLine | toEndOfLine | wordBackwards | wordForward

def Kill.run (words : Words) (e : Editor) : Kill → Editor
  | .toStartOfLine => e.deleteToStartOfLine
  | .toEndOfLine => e.deleteToEndOfLine
  | .wordBackwards => e.deleteWordBackwards words
  | .wordForward => e.deleteWordForward words

/-! ## The text around the cursor -/

abbrev ended (lines : List Text) : Text :=
  lines.flatMap (· ++ ['\n'])

namespace Editor

def before (e : Editor) : Text :=
  ended e.above.reverse ++ e.left

/-- The text behind the cursor, with a newline behind the last line too. -/
def behind (e : Editor) : Text :=
  e.right ++ '\n' :: ended e.below

theorem text_ends (e : Editor) : e.before ++ e.behind = e.getText ++ ['\n'] := by
  rw [getText, intercalate_newline (by simp [lines]), lines, List.flatMap_append, List.flatMap_cons, before, behind]
  simp

theorem getText_eq {e e' : Editor} (hText : e.before ++ e.behind = e'.before ++ e'.behind) : e.getText = e'.getText :=
  List.append_cancel_right ((text_ends e).symm.trans (hText.trans (text_ends e')))

end Editor

/-- A text was taken from before the cursor and one from behind it. -/
structure Removed (e e' : Editor) (back front : Text) : Prop where
  before : e.before = e'.before ++ back
  behind : e.behind = front ++ e'.behind

theorem Removed.refl (e : Editor) : Removed e e [] [] :=
  ⟨(List.append_nil _).symm, rfl⟩

theorem Removed.trans {first e e' : Editor} {back front back' front' : Text} (hFirst : Removed first e back front)
    (hNext : Removed e e' back' front') : Removed first e' (back' ++ back) (front ++ front') where
  before := by rw [hFirst.before, hNext.before, List.append_assoc]
  behind := by rw [hFirst.behind, hNext.behind, List.append_assoc]

/-! ## One kill -/

/-- The kill puts its own text on the ring: it removes something or joins the kill before it, and a forward kill of a
word finds the word again behind it. -/
def Kill.Sound (words : Words) (e : Editor) : Kill → Prop
  | .wordBackwards => e.left = [] ∨ e.wordStart words < e.left.length ∨ e.lastAction = some .kill
  | .wordForward => e.right = [] ∨ e.right.take (e.wordForwards words) = e.right.drop (e.wordForwards words)
  | _ => True

/-- There is text on the side of the kill. -/
def Kill.Touches (e : Editor) : Kill → Prop
  | .toStartOfLine => e.lineStartCol e.above.length < e.left.length ∨ e.above ≠ []
  | .wordBackwards => e.left ≠ [] ∨ e.above ≠ []
  | _ => e.right ≠ [] ∨ e.below ≠ []

/-- What was removed is on the ring, in front of or behind the text of the kill before. -/
structure Killed (e e' : Editor) (back front : Text) : Prop extends Removed e e' back front where
  action : e'.lastAction = some .kill
  ring : e'.killRing = push (back ++ front) (front = []) (e.lastAction = some .kill) e.killRing
  joins : back ++ front ≠ [] ∨ e.lastAction = some .kill
  side : back = [] ∨ front = []

section

open Editor

variable {e : Editor} {words : Words}

theorem killed_back {start : Nat} (hSome : e.left.drop start ≠ [] ∨ e.lastAction = some .kill) :
    Killed e { e.pushKill (e.left.drop start) true with left := e.left.take start } (e.left.drop start) [] where
  before := by simp only [Editor.before, pushKill, List.append_assoc, List.take_append_drop]
  behind := rfl
  action := rfl
  ring := by rw [List.append_nil]; rfl
  joins := by rwa [List.append_nil]
  side := .inr rfl

theorem killed_front {front right : Text} (hSome : front ≠ []) (hRight : e.right = front ++ right) :
    Killed e { e.pushKill front false with right := right } [] front where
  before := (List.append_nil _).symm
  behind := by simp only [Editor.behind, hRight, pushKill, List.append_assoc]
  action := rfl
  ring := by rw [List.nil_append, decide_eq_false hSome]; rfl
  joins := .inl hSome
  side := .inl rfl

theorem killAbove_spec (hLeft : e.above ≠ [] → e.left = []) :
    (e.killAbove = e ∧ e.above = []) ∨ Killed e e.killAbove ['\n'] [] := by
  rw [killAbove]
  split
  · rename_i hAbove
    exact .inl ⟨rfl, hAbove⟩
  · rename_i previous more hAbove
    have hLeft := hLeft (by rw [hAbove]; exact List.cons_ne_nil _ _)
    refine .inr ⟨⟨?_, ?_⟩, rfl, rfl, .inl (List.cons_ne_nil _ _), .inr rfl⟩
    · simp [Editor.before, hAbove, hLeft]
    · simp [Editor.behind, hLeft, pushKill]

theorem killBelow_spec (hRight : e.right = []) :
    (e.killBelow = e ∧ e.below = []) ∨ Killed e e.killBelow [] ['\n'] := by
  rw [killBelow]
  split
  · rename_i hBelow
    exact .inl ⟨rfl, hBelow⟩
  · rename_i next more hBelow
    refine .inr ⟨⟨(List.append_nil _).symm, ?_⟩, rfl, rfl, .inl (List.cons_ne_nil _ _), .inl rfl⟩
    simp [Editor.behind, hBelow, hRight]

theorem lineStartCol_above (hAbove : e.above ≠ []) : e.lineStartCol e.above.length = 0 :=
  if_neg (List.length_eq_zero_iff.not.mpr hAbove)

theorem Kill.spec (kill : Kill) (hFree : e.hasSelection = false) (hSound : kill.Sound words e) :
    (kill.run words e = e ∧ ¬ kill.Touches e) ∨ ∃ back front, Killed e (kill.run words e) back front := by
  have hOpen : ¬ e.hasSelection = true := by rw [hFree]; exact Bool.false_ne_true
  cases kill with
  | toStartOfLine =>
    rw [Kill.run, deleteToStartOfLine]
    simp only [if_neg hOpen]
    split
    · rename_i hStart
      exact .inr ⟨_, _, killed_back (.inl (List.drop_eq_nil_iff.not.mpr (Nat.not_le_of_lt hStart)))⟩
    · rename_i hStart
      obtain ⟨hSame, hTop⟩ | hKilled := killAbove_spec (e := e) fun hAbove => by
        rw [lineStartCol_above hAbove] at hStart
        exact List.length_eq_zero_iff.mp (Nat.eq_zero_of_not_pos hStart)
      · exact .inl ⟨hSame, fun hTouches => hTouches.elim hStart (· hTop)⟩
      · exact .inr ⟨_, _, hKilled⟩
  | toEndOfLine =>
    rw [Kill.run, deleteToEndOfLine]
    simp only [if_neg hOpen]
    split
    · rename_i hRight
      exact .inr ⟨_, _, killed_front hRight (List.append_nil _).symm⟩
    · rename_i hRight
      obtain ⟨hSame, hLast⟩ | hKilled := killBelow_spec (not_not.mp hRight)
      · exact .inl ⟨hSame, fun hTouches => hTouches.elim hRight (· hLast)⟩
      · exact .inr ⟨_, _, hKilled⟩
  | wordBackwards =>
    rw [Kill.run, deleteWordBackwards]
    simp only [if_neg hOpen]
    split
    · rename_i hLeft
      obtain ⟨hSame, hTop⟩ | hKilled := killAbove_spec (e := e) fun _ => hLeft
      · exact .inl ⟨hSame, fun hTouches => hTouches.elim (· hLeft) (· hTop)⟩
      · exact .inr ⟨_, _, hKilled⟩
    · rename_i hLeft
      refine .inr ⟨_, _, killed_back ((hSound.resolve_left hLeft).imp_left ?_)⟩
      exact fun hStart => List.drop_eq_nil_iff.not.mpr (Nat.not_le_of_lt hStart)
  | wordForward =>
    rw [Kill.run, deleteWordForward]
    simp only [if_neg hOpen]
    split
    · rename_i hRight
      obtain ⟨hSame, hLast⟩ | hKilled := killBelow_spec hRight
      · exact .inl ⟨hSame, fun hTouches => hTouches.elim (· hRight) (· hLast)⟩
      · exact .inr ⟨_, _, hKilled⟩
    · rename_i hRight
      have hWord := hSound.resolve_left hRight
      have hBoth := List.take_append_drop (e.wordForwards words) e.right
      rw [hWord] at hBoth
      refine .inr ⟨_, _, killed_front ?_ hBoth.symm⟩
      intro hNone
      rw [hNone] at hBoth
      exact hRight hBoth.symm

end

/-! ## A run of kills -/

/-- No selection is active and every kill is sound. -/
def RunSound (words : Words) : Editor → List Kill → Prop
  | _, [] => True
  | e, kill :: kills => e.hasSelection = false ∧ kill.Sound words e ∧ RunSound words (kill.run words e) kills

def RunTouches (words : Words) : Editor → List Kill → Prop
  | _, [] => False
  | e, kill :: kills => kill.Touches e ∨ RunTouches words (kill.run words e) kills

/-- All that the kills since `first` removed is the newest entry of the ring. -/
structure Accumulated (first e : Editor) (back front : Text) : Prop extends Removed first e back front where
  ring : (back ++ front = [] ∧ e.lastAction ≠ some .kill ∧ e.killRing = first.killRing) ∨
    (e.lastAction = some .kill ∧ e.killRing = (back ++ front) :: first.killRing)

section

variable {first e e' : Editor} {words : Words} {back front back' front' : Text}

theorem push_new {text : Text} (hSome : text ≠ []) (prepends : Bool) (ring : List Text) :
    push text prepends false ring = text :: ring := by
  rw [push, if_neg hSome]
  exact nofun

theorem push_join (text last : Text) (prepends : Bool) (older : List Text) :
    push text prepends true (last :: older) = (if prepends then text ++ last else last ++ text) :: older := by
  rw [push]
  split
  · rename_i hNone
    simp [hNone]
  · rfl

theorem Accumulated.kill (hAccumulated : Accumulated first e back front) (hKilled : Killed e e' back' front') :
    Accumulated first e' (back' ++ back) (front ++ front') where
  toRemoved := hAccumulated.toRemoved.trans hKilled.toRemoved
  ring := by
    refine .inr ⟨hKilled.action, ?_⟩
    obtain ⟨hNone, hFresh, hRing⟩ | ⟨hAction, hRing⟩ := hAccumulated.ring
    · obtain ⟨rfl, rfl⟩ := List.append_eq_nil_iff.mp hNone
      rw [hKilled.ring, decide_eq_false hFresh, push_new (hKilled.joins.resolve_right hFresh), hRing, List.append_nil]
      rfl
    · rw [hKilled.ring, decide_eq_true hAction, hRing, push_join]
      obtain rfl | rfl := hKilled.side
      · by_cases hFront : front' = []
        · simp [hFront]
        · simp [hFront]
      · simp

theorem accumulated_run (kills : List Kill) (hAccumulated : Accumulated first e back front)
    (hSound : RunSound words e kills) :
    ∃ back' front', Accumulated first (kills.foldl (Kill.run words) e) back' front' ∧
      (e.lastAction = some .kill ∨ RunTouches words e kills →
        (kills.foldl (Kill.run words) e).lastAction = some .kill) := by
  induction kills generalizing e back front with
  | nil => exact ⟨back, front, hAccumulated, fun hAction => hAction.resolve_right id⟩
  | cons kill kills ih =>
    obtain ⟨hFree, hKill, hRest⟩ := hSound
    obtain ⟨hSame, hAway⟩ | ⟨back', front', hKilled⟩ := kill.spec hFree hKill
    · rw [hSame] at hRest
      rw [List.foldl_cons, RunTouches, hSame]
      obtain ⟨back', front', hAll, hAction⟩ := ih hAccumulated hRest
      exact ⟨back', front', hAll, fun h => hAction (h.imp_right fun hTouches => hTouches.resolve_left hAway)⟩
    · obtain ⟨back', front', hAll, hAction⟩ := ih (hAccumulated.kill hKilled) hRest
      exact ⟨back', front', hAll, fun _ => hAction (.inl hKilled.action)⟩

end

/-! ## Yanks after each other -/

namespace Editor

variable {e : Editor} {ring : List Text}

theorem insert_removed (e : Editor) (text : Text) : Removed (e.insertYankedText text) e text [] := by
  have hText : (text.splitOn '\n').flatMap (· ++ ['\n']) = text ++ ['\n'] := by
    rw [← intercalate_newline (List.splitOn_ne_nil _ _), List.intercalate_splitOn]
  rw [insertYankedText]
  split
  · rename_i first next more hSplit
    refine ⟨?_, rfl⟩
    rw [hSplit, List.flatMap_cons, ← List.dropLast_append_getLast (List.cons_ne_nil next more), List.flatMap_append,
      List.flatMap_singleton, ← List.append_assoc, ← List.append_assoc] at hText
    rw [before, before, ← List.append_cancel_right hText]
    simp
  · exact ⟨(List.append_assoc _ _ _).symm, rfl⟩

theorem insert_rest (e : Editor) (text : Text) :
    (e.insertYankedText text).killRing = e.killRing ∧ (e.insertYankedText text).lastAction = e.lastAction := by
  rw [insertYankedText]
  split <;> exact ⟨rfl, rfl⟩

theorem delete_insert {text : Text} {older : List Text} (hRing : e.killRing = text :: older) :
    (e.insertYankedText text).deleteYankedText = e := by
  rw [deleteYankedText, (insert_rest e text).1, hRing]
  rcases hSplit : text.splitOn '\n' with _ | ⟨first, _ | ⟨next, more⟩⟩
  · simp only [insertYankedText, hSplit, List.length_append, Nat.add_sub_cancel, List.take_left]
    rw [← hRing]
  · simp only [insertYankedText, hSplit, List.length_append, Nat.add_sub_cancel, List.take_left]
    rw [← hRing]
  · have hDrop : ((next :: more).dropLast.reverse ++ (e.left ++ first) :: e.above).drop more.length
        = (e.left ++ first) :: e.above := List.drop_left' (by simp)
    simp only [insertYankedText, hSplit, hDrop, List.length_append, Nat.add_sub_cancel, List.take_left]
    rw [← hRing]

/-- The editor that shows the newest entry of the ring where the cursor of `e` is. -/
def shown (e : Editor) (ring : List Text) : Editor :=
  { e with selectionAnchor := none, killRing := ring, lastAction := some .yank }.insertYankedText (ring.headD [])

theorem yankPop_shown (e : Editor) (hSome : ring ≠ []) :
    (e.shown ring).yankPop = e.shown (ring.rotate 1) := by
  obtain ⟨hRing, hAction⟩ := insert_rest { e with selectionAnchor := none, killRing := ring, lastAction := some .yank }
    (ring.headD [])
  obtain ⟨text, older, rfl⟩ := List.exists_cons_of_ne_nil hSome
  rw [yankPop]
  split
  · rename_i hStays
    have hOne : older = [] := by
      rw [shown, hRing, hAction] at hStays
      simpa using hStays
    rw [hOne, List.rotate_singleton]
  · rw [shown, List.headD_cons, delete_insert rfl]
    rfl

theorem iterate_yankPop_shown (e : Editor) (hSome : ring ≠ []) (pops : Nat) :
    yankPop^[pops] (e.shown ring) = e.shown (ring.rotate pops) := by
  induction pops with
  | zero => rw [List.rotate_zero, Function.iterate_zero_apply]
  | succ pops ih =>
    rw [Function.iterate_succ_apply', ih, yankPop_shown e (List.rotate_eq_nil_iff.not.mpr hSome), List.rotate_rotate]

theorem yank_shown (hSome : e.killRing ≠ []) : e.yank = e.shown e.killRing :=
  if_neg hSome

theorem shown_removed (e : Editor) (ring : List Text) : Removed (e.shown ring) e (ring.headD []) [] :=
  have hInserted := insert_removed { e with selectionAnchor := none, killRing := ring, lastAction := some .yank }
    (ring.headD [])
  ⟨hInserted.before, hInserted.behind⟩

end Editor

open Editor

/-- The newest entry is what was removed around the cursor, and a yank puts it back. -/
def Restored (e e' : Editor) : Prop :=
  ∃ back front, Removed e e' back front ∧ e'.killRing.head? = some (back ++ front) ∧ e'.yank.getText = e.getText

theorem kill_runs_and_yanks (words : Words) (e : Editor) :
    (∀ kills, e.lastAction ≠ some .kill → RunSound words e kills → RunTouches words e kills →
      Restored e (kills.foldl (Kill.run words) e)) ∧
    (e.killRing ≠ [] → ∀ pops, Removed (yankPop^[pops] e.yank) e ((e.killRing.rotate pops).headD []) []) ∧
    (e.killRing ≠ [] → yankPop^[e.killRing.length] e.yank = e.yank) := by
  refine ⟨fun kills hFresh hSound hTouches => ?_, fun hSome pops => ?_, fun hSome => ?_⟩
  · obtain ⟨back, front, hAll, hAction⟩ := accumulated_run kills ⟨.refl e, .inl ⟨rfl, hFresh, rfl⟩⟩ hSound
    obtain ⟨-, hNever, -⟩ | ⟨-, hRing⟩ := hAll.ring
    · exact absurd (hAction (.inr hTouches)) hNever
    · refine ⟨back, front, hAll.toRemoved, by rw [hRing, List.head?_cons], getText_eq ?_⟩
      have hSome : (kills.foldl (Kill.run words) e).killRing ≠ [] := by
        rw [hRing]
        exact List.cons_ne_nil _ _
      have hYank := shown_removed (kills.foldl (Kill.run words) e) (kills.foldl (Kill.run words) e).killRing
      rw [yank_shown hSome, hYank.before, hYank.behind, hAll.before, hAll.behind, hRing]
      simp
  · rw [yank_shown hSome, iterate_yankPop_shown e hSome]
    exact shown_removed e _
  · rw [yank_shown hSome, iterate_yankPop_shown e hSome, List.rotate_length]

def letters : Words :=
  ⟨fun text => text.map ([·]), fun _ => false⟩

/-- A forward kill of the first word of `foo bar`: the ring gets ` bar`. -/
theorem killed_word_is_lost :
    let e : Editor := ⟨[], [], "foo bar".toList, [], none, [], none⟩
    e.hasSelection = false ∧ RunTouches letters e [.wordForward] ∧
      ¬ Restored e ([Kill.wordForward].foldl (Kill.run letters) e) := by
  refine ⟨rfl, .inl (.inl (List.cons_ne_nil _ _)), ?_⟩
  rintro ⟨-, -, -, -, hYank⟩
  revert hYank
  decide +kernel

end PrimeAgent.Tui
