import PrimeAgent.Lib.Utf8

/-! # Logs of lines

A text is its lines, each behind its newline, and a tail with none. Behind a newline, what is read of an
appended text is what it reads as by itself; a prefix of some lines is a few of them and a piece of the next.
-/
namespace LineLog

def block (ls : List (List Char)) : List Char :=
  ls.flatMap (· ++ ['\n'])

/-- The lines of a text; `strip` takes what a line drops in front of its newline. -/
def lines (strip : List Char → List Char) (text : List Char) : List (List Char) :=
  let pieces := text.splitOn '\n'
  pieces.dropLast.map strip ++ (pieces.getLast?.filter (!·.isEmpty)).toList

def Whole (text : List Char) : Prop :=
  text = [] ∨ text.getLast? = some '\n'

variable {strip : List Char → List Char} {ls : List (List Char)} {text line tail : List Char}

@[simp] theorem block_nil : block [] = [] := rfl

@[simp] theorem block_cons (line : List Char) (ls : List (List Char)) : block (line :: ls) = line ++ '\n' :: block ls := by
  simp [block]

theorem block_append (ls ls' : List (List Char)) : block (ls ++ ls') = block ls ++ block ls' :=
  List.flatMap_append

theorem block_whole (ls : List (List Char)) : Whole (block ls) := by
  rcases List.eq_nil_or_concat ls with rfl | ⟨front, last, rfl⟩
  · exact Or.inl rfl
  · right
    rw [List.concat_eq_append, block_append, block_cons, block_nil]
    simp

theorem splitOn_cons_line (hLine : '\n' ∉ line) (rest : List Char) :
    (line ++ '\n' :: rest).splitOn '\n' = line :: rest.splitOn '\n' :=
  List.splitOn_append_cons_self_of_not_mem hLine rest

theorem splitOn_block (hLines : ∀ line ∈ ls, '\n' ∉ line) (hTail : '\n' ∉ tail) :
    (block ls ++ tail).splitOn '\n' = ls ++ [tail] := by
  induction ls with
  | nil => simpa using List.splitOn_eq_singleton hTail
  | cons line ls ih =>
    rw [block_cons, List.append_assoc, List.cons_append, splitOn_cons_line (hLines line List.mem_cons_self),
      ih fun line' hLine' => hLines line' (List.mem_cons_of_mem line hLine'), List.cons_append]

theorem exists_block (text : List Char) :
    ∃ ls tail, (∀ line ∈ ls, '\n' ∉ line) ∧ '\n' ∉ tail ∧ text = block ls ++ tail := by
  induction text with
  | nil => exact ⟨[], [], by simp, by simp, rfl⟩
  | cons c text ih =>
    obtain ⟨ls, tail, hLines, hTail, rfl⟩ := ih
    by_cases hNewline : c = '\n'
    · subst hNewline
      refine ⟨[] :: ls, tail, ?_, hTail, by simp⟩
      rintro line hLine
      rcases List.mem_cons.mp hLine with rfl | hLine
      · simp
      · exact hLines line hLine
    · have hHead : ∀ line : List Char, '\n' ∉ line → '\n' ∉ c :: line := by
        rintro line hLine hMem
        rcases List.mem_cons.mp hMem with hc | hMem
        · exact hNewline hc.symm
        · exact hLine hMem
      cases ls with
      | nil => exact ⟨[], c :: tail, by simp, hHead tail hTail, rfl⟩
      | cons line ls =>
        refine ⟨(c :: line) :: ls, tail, ?_, hTail, by simp⟩
        rintro line' hLine'
        rcases List.mem_cons.mp hLine' with rfl | hLine'
        · exact hHead line (hLines line List.mem_cons_self)
        · exact hLines line' (List.mem_cons_of_mem line hLine')

theorem Whole.exists_block (h : Whole text) : ∃ ls, (∀ line ∈ ls, '\n' ∉ line) ∧ text = block ls := by
  obtain ⟨ls, tail, hLines, hTail, rfl⟩ := LineLog.exists_block text
  refine ⟨ls, hLines, ?_⟩
  rcases List.eq_nil_or_concat tail with rfl | ⟨front, last, rfl⟩
  · simp
  rw [List.concat_eq_append] at h hTail
  rcases h with hNil | hLast
  · simp at hNil
  · rw [← List.append_assoc, List.getLast?_concat] at hLast
    exact absurd (Option.some.inj hLast ▸ List.mem_append_right front List.mem_cons_self) hTail

theorem lines_block_append (hLines : ∀ line ∈ ls, '\n' ∉ line) (hTail : '\n' ∉ tail) :
    lines strip (block ls ++ tail) = ls.map strip ++ (if tail = [] then [] else [tail]) := by
  simp only [lines, splitOn_block hLines hTail, List.dropLast_concat, List.getLast?_concat]
  cases tail <;> simp [Option.filter]

theorem lines_block (hLines : ∀ line ∈ ls, '\n' ∉ line) : lines strip (block ls) = ls.map strip := by
  have h := @lines_block_append strip ls [] hLines (by simp)
  simpa using h

theorem lines_line (hLine : '\n' ∉ line) : lines strip (line ++ ['\n']) = [strip line] := by
  simpa using @lines_block strip [line] (by simpa using hLine)

theorem lines_tail (hTail : '\n' ∉ tail) : lines strip tail = if tail = [] then [] else [tail] := by
  simpa using @lines_block_append strip [] tail (by simp) hTail

theorem lines_append (hWhole : Whole text) (rest : List Char) :
    lines strip (text ++ rest) = lines strip text ++ lines strip rest := by
  obtain ⟨ls, hLines, rfl⟩ := hWhole.exists_block
  obtain ⟨ls', tail, hLines', hTail, rfl⟩ := LineLog.exists_block rest
  have hAll : ∀ line ∈ ls ++ ls', '\n' ∉ line := by
    rintro line hLine
    rcases List.mem_append.mp hLine with h | h
    · exact hLines line h
    · exact hLines' line h
  rw [← List.append_assoc, ← block_append, lines_block_append hAll hTail, lines_block hLines,
    lines_block_append hLines' hTail, List.map_append, List.append_assoc]

theorem prefix_block {piece : List Char} (h : piece <+: block ls) :
    ∃ k tail, piece = block (ls.take k) ++ tail ∧ (tail = [] ∨ ∃ line, ls[k]? = some line ∧ tail <+: line) := by
  induction ls generalizing piece with
  | nil => exact ⟨0, [], by simpa using h, Or.inl rfl⟩
  | cons line ls ih =>
    rw [block_cons] at h
    rcases List.prefix_or_prefix_of_prefix h (List.prefix_append line _) with hShort | hLong
    · exact ⟨0, piece, by simp, Or.inr ⟨line, rfl, hShort⟩⟩
    · obtain ⟨rest, rfl⟩ := hLong
      rw [List.prefix_append_right_inj] at h
      cases rest with
      | nil => exact ⟨0, line, by simp, Or.inr ⟨line, rfl, List.prefix_refl line⟩⟩
      | cons c rest =>
        obtain ⟨rfl, hRest⟩ := List.cons_prefix_cons.mp h
        obtain ⟨k, tail, rfl, hTail⟩ := ih hRest
        exact ⟨k + 1, tail, by simp, by simpa using hTail⟩

section Bytes

theorem prefix_of_encode_prefix {text text' : List Char} (h : Utf8.encode text <+: Utf8.encode text') :
    text <+: text' := by
  induction text generalizing text' with
  | nil => exact List.nil_prefix
  | cons c text ih =>
    obtain ⟨rest, hRest⟩ := h
    cases text' with
    | nil =>
      have hNil := (List.append_eq_nil_iff.mp hRest).1
      rw [Utf8.encode_cons] at hNil
      exact absurd (List.append_eq_nil_iff.mp hNil).1 String.utf8EncodeChar_ne_nil
    | cons c' text' =>
      rw [Utf8.encode_cons, Utf8.encode_cons, List.append_assoc] at hRest
      have hHead : Utf8.decodeHead (String.utf8EncodeChar c ++ (Utf8.encode text ++ rest)) = some c :=
        Utf8.decodeHead_append c _
      rw [hRest, Utf8.decodeHead_append] at hHead
      obtain rfl := Option.some.inj hHead
      exact List.cons_prefix_cons.mpr ⟨rfl, ih ⟨rest, List.append_cancel_left hRest⟩⟩

theorem prefix_of_decode {bytes : List UInt8} {piece : List Char} (hPrefix : bytes <+: Utf8.encode text)
    (hDecode : Utf8.decode bytes = some piece) : piece <+: text := by
  rw [Utf8.decode_eq_some_iff.mp hDecode] at hPrefix
  exact prefix_of_encode_prefix hPrefix

end Bytes

end LineLog
