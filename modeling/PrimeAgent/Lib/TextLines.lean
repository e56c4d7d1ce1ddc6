import Mathlib.Data.List.Basic

/-! # Lines that end in LF, CRLF or CR

A text is a list of lines, each with its end, and what stands behind the last end. A CR before an LF is the first half of
one end.
-/
namespace TextLines

variable {line text more : List Char} {lines : List (List Char)} {tail : List Char} {c : Char} {rest : List Char}

inductive LineEnd where
  | lf | crlf | cr

def LineEnd.chars : LineEnd → List Char
  | .lf => ['\n']
  | .crlf => ['\r', '\n']
  | .cr => ['\r']

def LineEnd.Before (lineEnd : LineEnd) (rest : List Char) : Prop :=
  match lineEnd with
  | .cr => rest.head? ≠ some '\n'
  | _ => True

def Plain (line : List Char) : Prop :=
  ∀ c ∈ line, c ≠ '\r' ∧ c ≠ '\n'

inductive Lines : List Char → List (List Char) → List Char → Prop where
  | tail {tail : List Char} (hPlain : Plain tail) : Lines tail [] tail
  | line {line rest tail : List Char} {lines : List (List Char)} (lineEnd : LineEnd) (hPlain : Plain line)
      (hBefore : lineEnd.Before rest) (hRest : Lines rest lines tail) :
      Lines (line ++ lineEnd.chars ++ rest) (line :: lines) tail

/-- The cut of `text` into lines, where `line` has been read of the first. -/
def cut (line : List Char) : List Char → List (List Char) × List Char
  | [] => ([], line)
  | '\r' :: '\n' :: rest => (line :: (cut [] rest).1, (cut [] rest).2)
  | c :: rest =>
    if c = '\r' ∨ c = '\n' then (line :: (cut [] rest).1, (cut [] rest).2) else cut (line ++ [c]) rest

theorem cut_crlf (rest : List Char) : cut line ('\r' :: '\n' :: rest) = (line :: (cut [] rest).1, (cut [] rest).2) := by
  rw [cut]

theorem cut_break (hBreak : c = '\r' ∨ c = '\n') (hWhole : c = '\r' → rest.head? ≠ some '\n') :
    cut line (c :: rest) = (line :: (cut [] rest).1, (cut [] rest).2) := by
  rw [cut, if_pos hBreak]
  rintro rest' rfl rfl
  exact hWhole rfl rfl

theorem cut_plain (hPlain : c ≠ '\r' ∧ c ≠ '\n') :
    cut line (c :: rest) = cut (line ++ [c]) rest := by
  rw [cut, if_neg (not_or.mpr hPlain)]
  rintro rest' rfl
  exact absurd rfl hPlain.1

theorem cases_of_text {motive : List Char → Prop} (nil : motive [])
    (crlf : ∀ rest, motive rest → motive ('\r' :: '\n' :: rest))
    (lineBreak : ∀ c rest, c = '\r' ∨ c = '\n' → (c = '\r' → rest.head? ≠ some '\n') → motive rest → motive (c :: rest))
    (plain : ∀ c rest, c ≠ '\r' ∧ c ≠ '\n' → motive rest → motive (c :: rest)) (text : List Char) : motive text := by
  induction hLength : text.length using Nat.strongRecOn generalizing text with
  | ind length ih =>
    subst hLength
    cases text with
    | nil => exact nil
    | cons c rest =>
      have hRest : motive rest := ih rest.length (Nat.lt_succ_self _) rest rfl
      by_cases hBreak : c = '\r' ∨ c = '\n'
      · by_cases hHalf : c = '\r' ∧ rest.head? = some '\n'
        · obtain ⟨rfl, hHead⟩ := hHalf
          cases rest with
          | nil => cases hHead
          | cons d rest =>
            obtain rfl := Option.some.inj hHead
            exact crlf rest (ih rest.length (Nat.lt_succ_of_lt (Nat.lt_succ_self _)) rest rfl)
        · exact lineBreak c rest hBreak (fun hCr hHead => hHalf ⟨hCr, hHead⟩) hRest
      · exact plain c rest (not_or.mp hBreak) hRest

theorem plain_concat (hLine : Plain line) (hPlain : c ≠ '\r' ∧ c ≠ '\n') : Plain (line ++ [c]) := by
  intro d hMem
  obtain hMem | hMem := List.mem_append.mp hMem
  · exact hLine d hMem
  · rw [List.mem_singleton.mp hMem]
    exact hPlain

theorem plain_nil : Plain [] := by
  intro c hMem
  cases hMem

theorem lines_cut (hLine : Plain line) (text : List Char) : Lines (line ++ text) (cut line text).1 (cut line text).2 := by
  induction text using cases_of_text generalizing line with
  | nil =>
    rw [List.append_nil]
    exact .tail hLine
  | crlf rest ih =>
    rw [cut_crlf]
    have hLines := Lines.line .crlf hLine trivial (ih plain_nil)
    rwa [List.append_assoc] at hLines
  | lineBreak c rest hBreak hWhole ih =>
    rw [cut_break hBreak hWhole]
    obtain rfl | rfl := hBreak
    · have hLines := Lines.line .cr hLine (hWhole rfl) (ih plain_nil)
      rwa [List.append_assoc] at hLines
    · have hLines := Lines.line .lf hLine trivial (ih plain_nil)
      rwa [List.append_assoc] at hLines
  | plain c rest hPlain ih =>
    rw [cut_plain hPlain]
    have hLines := ih (plain_concat hLine hPlain)
    rwa [List.append_assoc, List.singleton_append] at hLines

theorem cut_append_plain {body : List Char} (hBody : Plain body) (rest : List Char) :
    cut line (body ++ rest) = cut (line ++ body) rest := by
  induction body generalizing line with
  | nil => rw [List.nil_append, List.append_nil]
  | cons c body ih =>
    have hTail : Plain body := fun d hMem => hBody d (List.mem_cons_of_mem _ hMem)
    rw [List.cons_append, cut_plain (hBody c List.mem_cons_self), ih hTail, List.append_assoc, List.singleton_append]

theorem cut_ended {lineEnd : LineEnd} (hBefore : lineEnd.Before rest) :
    cut line (lineEnd.chars ++ rest) = (line :: (cut [] rest).1, (cut [] rest).2) := by
  cases lineEnd with
  | lf => exact cut_break (.inr rfl) (by simp)
  | crlf => exact cut_crlf rest
  | cr => exact cut_break (.inl rfl) fun _ => hBefore

theorem cut_of_lines (hLines : Lines text lines tail) : cut [] text = (lines, tail) := by
  induction hLines with
  | tail hPlain =>
    have hCut := @cut_append_plain [] _ hPlain []
    rwa [List.append_nil] at hCut
  | line lineEnd hPlain hBefore _ ih => rw [List.append_assoc, cut_append_plain hPlain, cut_ended hBefore, ih, List.nil_append]

theorem cut_append (hWhole : text.getLast? = some '\r' → more.head? ≠ some '\n') :
    cut line (text ++ more) =
      ((cut line text).1 ++ (cut (cut line text).2 more).1, (cut (cut line text).2 more).2) := by
  induction text using cases_of_text generalizing line with
  | nil => rfl
  | crlf rest ih =>
    have hRest : rest.getLast? = some '\r' → more.head? ≠ some '\n' := by
      intro hLast
      cases rest with
      | nil => cases hLast
      | cons c rest => exact hWhole hLast
    rw [List.cons_append, List.cons_append, cut_crlf, cut_crlf, ih hRest]
    rfl
  | lineBreak c rest hBreak hHalf ih =>
    cases rest with
    | nil =>
      rw [List.singleton_append, cut_break hBreak (by rintro rfl; exact hWhole rfl), cut_break hBreak (by simp)]
      rfl
    | cons d rest =>
      rw [List.cons_append, cut_break hBreak (by simpa using hHalf), cut_break hBreak hHalf, ih hWhole]
      rfl
  | plain c rest hPlain ih =>
    have hRest : rest.getLast? = some '\r' → more.head? ≠ some '\n' := by
      intro hLast
      cases rest with
      | nil => cases hLast
      | cons d rest => exact hWhole hLast
    rw [List.cons_append, cut_plain hPlain, cut_plain hPlain, ih hRest]

end TextLines
