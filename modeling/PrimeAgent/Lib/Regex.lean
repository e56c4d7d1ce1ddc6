import Mathlib.Data.List.Basic

/-! # Backtracking regular expressions

A pattern is tried at each place from the left. Where it may match in several ways they come in the order a backtracking
matcher tries them, and the first one counts: the left alternative before the right, one more repetition before none.
-/
namespace PrimeAgent

inductive Regex where
  | empty
  | char (test : Char → Bool)
  | seq (first second : Regex)
  | alt (first second : Regex)
  | star (inner : Regex)
  | group (inner : Regex)
  | look (inner : Regex)
  | boundary
  | finish

namespace Regex

def opt (inner : Regex) : Regex :=
  alt inner empty

def plus (inner : Regex) : Regex :=
  seq inner (star inner)

def seqs : List Regex → Regex
  | [] => empty
  | first :: rest => seq first (seqs rest)

def alts : List Regex → Regex
  | [] => empty
  | [last] => last
  | first :: rest => alt first (alts rest)

def lit (c : Char) : Regex :=
  char (· == c)

def literal (text : String) : Regex :=
  seqs (text.toList.map lit)

structure Cursor where
  pos : Nat
  group : Option (Nat × Nat)
deriving DecidableEq

section Matching

variable (isWord : Char → Bool) (text : List Char)

def wordAt (pos : Nat) : Bool :=
  (text[pos]?).any isWord

def atBoundary (pos : Nat) : Bool :=
  (decide (0 < pos) && wordAt isWord text (pos - 1)) != wordAt isWord text pos

def repeated (step : Cursor → List Cursor) : Nat → Cursor → List Cursor
  | 0, cursor => [cursor]
  | n + 1, cursor => ((step cursor).filter fun next => cursor.pos < next.pos).flatMap (repeated step n) ++ [cursor]

def ends : Regex → Cursor → List Cursor
  | empty, cursor => [cursor]
  | char test, cursor => if (text[cursor.pos]?).any test then [{ cursor with pos := cursor.pos + 1 }] else []
  | seq first second, cursor => (ends first cursor).flatMap (ends second)
  | alt first second, cursor => ends first cursor ++ ends second cursor
  | star inner, cursor => repeated (ends inner) text.length cursor
  | group inner, cursor => (ends inner cursor).map fun last => { last with group := some (cursor.pos, last.pos) }
  | look inner, cursor => if (ends inner cursor).isEmpty then [] else [cursor]
  | boundary, cursor => if atBoundary isWord text cursor.pos then [cursor] else []
  | finish, cursor => if cursor.pos = text.length then [cursor] else []

structure Found where
  start : Nat
  last : Cursor
deriving DecidableEq

def matchAt (pattern : Regex) (start : Nat) : Option Found :=
  (ends isWord text pattern ⟨start, none⟩).head?.map (⟨start, ·⟩)

def matchFrom (pattern : Regex) (pos : Nat) : Option Found :=
  (List.range' pos (text.length + 1 - pos)).findSome? (matchAt isWord text pattern)

def findFrom (pattern : Regex) : Nat → Nat → List Found
  | 0, _ => []
  | fuel + 1, pos =>
    match matchFrom isWord text pattern pos with
    | some found => found :: findFrom pattern fuel (max found.last.pos (found.start + 1))
    | none => []

def findIter (pattern : Regex) : List Found :=
  findFrom isWord text pattern (text.length + 1) 0

end Matching

section Ends

variable {isWord : Char → Bool} {text : List Char} {cursor last : Cursor} {found : Found} {pattern : Regex}

theorem mem_ends_char {test : Char → Bool} (hMem : last ∈ ends isWord text (char test) cursor) :
    (∃ c, text[cursor.pos]? = some c ∧ test c = true) ∧ last = { cursor with pos := cursor.pos + 1 } := by
  rw [ends] at hMem
  split at hMem
  next hTest =>
    obtain ⟨c, hChar, hTest⟩ := (Option.any_eq_true _ _).mp hTest
    exact ⟨⟨c, hChar, hTest⟩, List.mem_singleton.mp hMem⟩
  next => cases hMem

theorem mem_ends_seq {first second : Regex} (hMem : last ∈ ends isWord text (seq first second) cursor) :
    ∃ middle ∈ ends isWord text first cursor, last ∈ ends isWord text second middle :=
  List.mem_flatMap.mp hMem

theorem mem_ends_literal {chars : List Char} (hMem : last ∈ ends isWord text (seqs (chars.map lit)) cursor) :
    chars <+: text.drop cursor.pos := by
  induction chars generalizing cursor with
  | nil => exact List.nil_prefix
  | cons c chars ih =>
    obtain ⟨middle, hFirst, hRest⟩ := mem_ends_seq hMem
    obtain ⟨⟨c', hChar, hTest⟩, rfl⟩ := mem_ends_char hFirst
    obtain rfl := beq_iff_eq.mp hTest
    obtain ⟨hLt, hGet⟩ := List.getElem?_eq_some_iff.mp hChar
    rw [List.drop_eq_getElem_cons hLt, hGet]
    exact List.cons_prefix_cons.mpr ⟨rfl, ih hRest⟩

theorem mem_findFrom {fuel pos : Nat} (hMem : found ∈ findFrom isWord text pattern fuel pos) :
    found.last ∈ ends isWord text pattern ⟨found.start, none⟩ := by
  induction fuel generalizing pos with
  | zero => cases hMem
  | succ fuel ih =>
    unfold findFrom at hMem
    split at hMem
    next first hFirst =>
      rcases List.mem_cons.mp hMem with rfl | hLater
      · obtain ⟨start, -, hMatch⟩ := List.exists_of_findSome?_eq_some hFirst
        obtain ⟨cursor, hHead, rfl⟩ := Option.map_eq_some_iff.mp hMatch
        exact List.mem_of_head? hHead
      · exact ih hLater
    next => cases hMem

theorem mem_findIter (hMem : found ∈ findIter isWord text pattern) :
    found.last ∈ ends isWord text pattern ⟨found.start, none⟩ :=
  mem_findFrom hMem

end Ends

end Regex

end PrimeAgent
