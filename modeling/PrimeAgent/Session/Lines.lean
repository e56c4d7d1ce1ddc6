import PrimeAgent.Session.Parse
import PrimeAgent.Lib.LineLog

/-! # Lines of a trimmed text

Trimming drops the blank lines at both ends and the blanks around what is left; any line that shows something stays, up
to such blanks.
-/
namespace PrimeAgent

def Blank (text : Text) : Prop :=
  ∀ c ∈ text, isWhitespace c = true

theorem blank_nil : Blank [] := by
  intro c hMem
  cases hMem

variable {text : Text}

theorem blank_cons {c : Char} (hSpace : isWhitespace c = true) : Blank (c :: text) ↔ Blank text := by
  simp [Blank, hSpace]

theorem blank_append {text text' : Text} : Blank (text ++ text') ↔ Blank text ∧ Blank text' := by
  simp only [Blank, List.mem_append, or_imp, forall_and]

theorem blank_concat {c : Char} (hSpace : isWhitespace c = true) : Blank (text ++ [c]) ↔ Blank text := by
  rw [blank_append, and_iff_left]
  exact (blank_cons hSpace).mpr blank_nil

theorem splitOn_cons (c : Char) (text : Text) : (c :: text).splitOn '\n' =
    if c = '\n' then [] :: text.splitOn '\n' else (text.splitOn '\n').modifyHead (c :: ·) := by
  rw [List.splitOn_cons_eq_if_modifyHead]
  simp

theorem exists_splitOn (text : Text) : ∃ line rest, text.splitOn '\n' = line :: rest :=
  List.exists_cons_of_ne_nil (List.splitOn_ne_nil '\n' text)

theorem trimStart_splitOn (hShown : ¬ Blank text) :
    ∃ blanks line line' rest before, text.splitOn '\n' = blanks ++ line :: rest ∧
      (trimStart text).splitOn '\n' = line' :: rest ∧ (∀ blank ∈ blanks, Blank blank) ∧ Blank before ∧
      line = before ++ line' := by
  induction text with
  | nil => exact absurd blank_nil hShown
  | cons c text ih =>
    cases hSpace : isWhitespace c with
    | false =>
      obtain ⟨line, rest, hSplit⟩ := exists_splitOn (c :: text)
      refine ⟨[], line, line, rest, [], hSplit, ?_, by simp, blank_nil, rfl⟩
      rw [trimStart_of_head hSpace, hSplit]
    | true =>
      have hRest : ¬ Blank text := fun hBlank => hShown ((blank_cons hSpace).mpr hBlank)
      obtain ⟨blanks, line, line', rest, before, hSplit, hTrim, hBlanks, hBefore, rfl⟩ := ih hRest
      have hSame : trimStart (c :: text) = trimStart text := List.dropWhile_cons_of_pos hSpace
      rw [hSame, splitOn_cons]
      by_cases hNewline : c = '\n'
      · refine ⟨[] :: blanks, before ++ line', line', rest, before, ?_, hTrim, ?_, hBefore, rfl⟩
        · rw [if_pos hNewline, hSplit, List.cons_append]
        · rintro blank (_ | ⟨_, hMem⟩)
          · exact blank_nil
          · exact hBlanks blank hMem
      · rw [if_neg hNewline, hSplit]
        cases blanks with
        | nil =>
          exact ⟨[], c :: before ++ line', line', rest, c :: before, rfl, hTrim, by simp,
            (blank_cons hSpace).mpr hBefore, rfl⟩
        | cons blank blanks =>
          refine ⟨(c :: blank) :: blanks, before ++ line', line', rest, before, rfl, hTrim, ?_, hBefore, rfl⟩
          rintro other (_ | ⟨_, hMem⟩)
          · exact (blank_cons hSpace).mpr (hBlanks blank List.mem_cons_self)
          · exact hBlanks other (List.mem_cons_of_mem _ hMem)

theorem splitOn_concat (c : Char) (text : Text) {front : List Text} {last : Text}
    (hSplit : text.splitOn '\n' = front ++ [last]) :
    (text ++ [c]).splitOn '\n' = if c = '\n' then front ++ [last, []] else front ++ [last ++ [c]] := by
  obtain ⟨ls, tail, hLines, hTail, rfl⟩ := LineLog.exists_block text
  rw [LineLog.splitOn_block hLines hTail] at hSplit
  obtain ⟨rfl, hLast⟩ := List.append_inj' hSplit rfl
  obtain rfl := (List.cons.inj hLast).1
  by_cases hNewline : c = '\n'
  · subst hNewline
    have hWhole : LineLog.block ls ++ tail ++ ['\n'] = LineLog.block (ls ++ [tail]) ++ [] := by
      rw [LineLog.block_append]
      simp
    rw [if_pos rfl, hWhole, LineLog.splitOn_block _ (by simp)]
    · simp
    · intro line hMem
      obtain hOld | hNew := List.mem_append.mp hMem
      · exact hLines line hOld
      · rw [List.mem_singleton.mp hNew]
        exact hTail
  · rw [if_neg hNewline, List.append_assoc, LineLog.splitOn_block hLines]
    intro hMem
    obtain hOld | hNew := List.mem_append.mp hMem
    · exact hTail hOld
    · exact hNewline (List.mem_singleton.mp hNew).symm

theorem trimEnd_splitOn (hShown : ¬ Blank text) :
    ∃ front line line' blanks after, text.splitOn '\n' = front ++ line :: blanks ∧
      (trimEnd text).splitOn '\n' = front ++ [line'] ∧ (∀ blank ∈ blanks, Blank blank) ∧ Blank after ∧
      line = line' ++ after := by
  induction text using List.reverseRecOn with
  | nil => exact absurd blank_nil hShown
  | append_singleton text c ih =>
    cases hSpace : isWhitespace c with
    | false =>
      obtain ⟨front, last, hSplit⟩ : ∃ front last, (text ++ [c]).splitOn '\n' = front ++ [last] :=
        ⟨_, _, (List.dropLast_concat_getLast (List.splitOn_ne_nil '\n' (text ++ [c]))).symm⟩
      refine ⟨front, last, last, [], [], hSplit, ?_, by simp, blank_nil, by simp⟩
      rw [trimEnd_of_last hSpace, hSplit]
    | true =>
      have hRest : ¬ Blank text := fun hBlank => hShown ((blank_concat hSpace).mpr hBlank)
      obtain ⟨front, line, line', blanks, after, hSplit, hTrim, hBlanks, hAfter, rfl⟩ := ih hRest
      have hSame : trimEnd (text ++ [c]) = trimEnd text := List.rdropWhile_concat_pos _ _ _ hSpace
      rw [hSame]
      rcases List.eq_nil_or_concat blanks with rfl | ⟨blanks, blank, rfl⟩
      · have hNext := splitOn_concat c text hSplit
        rw [hNext]
        by_cases hNewline : c = '\n'
        · refine ⟨front, line' ++ after, line', [[]], after, ?_, hTrim, by simp [blank_nil], hAfter, rfl⟩
          rw [if_pos hNewline]
        · refine ⟨front, line' ++ (after ++ [c]), line', [], after ++ [c], ?_, hTrim, by simp,
            (blank_concat hSpace).mpr hAfter, rfl⟩
          rw [if_neg hNewline, List.append_assoc]
      · rw [List.concat_eq_append] at hSplit hBlanks
        have hNext := splitOn_concat c text (show text.splitOn '\n' = (front ++ (line' ++ after) :: blanks) ++ [blank] by
          rw [hSplit, List.append_assoc]; rfl)
        have hOld : ∀ other ∈ blanks, Blank other := fun other hMem => hBlanks other (List.mem_append_left _ hMem)
        rw [hNext]
        by_cases hNewline : c = '\n'
        · refine ⟨front, line' ++ after, line', blanks ++ [blank, []], after, ?_, hTrim, ?_, hAfter, rfl⟩
          · rw [if_pos hNewline]
            simp
          · intro other hMem
            obtain hHere | hNew := List.mem_append.mp hMem
            · exact hOld other hHere
            · obtain rfl | hLast := List.mem_cons.mp hNew
              · exact hBlanks _ (by simp)
              · rw [List.mem_singleton.mp hLast]
                exact blank_nil
        · refine ⟨front, line' ++ after, line', blanks ++ [blank ++ [c]], after, ?_, hTrim, ?_, hAfter, rfl⟩
          · rw [if_neg hNewline]
            simp
          · intro other hMem
            obtain hHere | hNew := List.mem_append.mp hMem
            · exact hOld other hHere
            · rw [List.mem_singleton.mp hNew]
              exact (blank_concat hSpace).mpr (hBlanks _ (by simp))

def Inner (line line' : Text) : Prop :=
  ∃ before after, Blank before ∧ Blank after ∧ line = before ++ line' ++ after

theorem inner_self (line : Text) : Inner line line :=
  ⟨[], [], blank_nil, blank_nil, by simp⟩

theorem inner_strip (line : Text) : Inner line (stripCarriageReturn line) := by
  unfold stripCarriageReturn
  split
  next hLast =>
    obtain ⟨front, rfl⟩ := List.getLast?_eq_some_iff.mp hLast
    exact ⟨[], ['\r'], blank_nil, by simp [Blank, isWhitespace], by simp⟩
  next => exact inner_self line

theorem Inner.cons {before line line' : Text} (hInner : Inner line line') (hBefore : Blank before) :
    Inner (before ++ line) line' := by
  obtain ⟨start, after, hStart, hAfter, rfl⟩ := hInner
  exact ⟨before ++ start, after, blank_append.mpr ⟨hBefore, hStart⟩, hAfter, by simp⟩

theorem forall₂_strip (pieces : List Text) : List.Forall₂ Inner pieces (pieces.map stripCarriageReturn) := by
  induction pieces with
  | nil => exact .nil
  | cons piece pieces ih => exact .cons (inner_strip piece) ih

theorem lines_of_splitOn {text : Text} {front : List Text} {last : Text} (hSplit : text.splitOn '\n' = front ++ [last]) :
    lines text = front.map stripCarriageReturn ++ if last = [] then [] else [last] := by
  unfold lines
  rw [hSplit]
  cases last with
  | nil => simp
  | cons c last => simp [Option.filter]

theorem not_blank_trimStart (hShown : ¬ Blank text) : ¬ Blank (trimStart text) := by
  intro hBlank
  refine hShown ?_
  have hSplit : text.takeWhile isWhitespace ++ trimStart text = text := List.takeWhile_append_dropWhile
  rw [← hSplit, blank_append]
  exact ⟨fun c hMem => List.mem_takeWhile_imp hMem, hBlank⟩

theorem splitOn_blank (hBlank : Blank text) : ∀ line ∈ text.splitOn '\n', Blank line := by
  induction text with
  | nil => simp [Blank]
  | cons c text ih =>
    have hSpace := hBlank c List.mem_cons_self
    have hRest := ih ((blank_cons hSpace).mp hBlank)
    obtain ⟨line, rest, hSplit⟩ := exists_splitOn text
    rw [splitOn_cons, hSplit]
    rw [hSplit] at hRest
    split
    · rintro blank (_ | ⟨_, hMem⟩)
      · exact blank_nil
      · exact hRest blank hMem
    · rintro blank (_ | ⟨_, hMem⟩)
      · exact (blank_cons hSpace).mpr (hRest line List.mem_cons_self)
      · exact hRest blank (List.mem_cons_of_mem _ hMem)

theorem lines_trim (text : Text) : ∃ blanks kept blanks', text.splitOn '\n' = blanks ++ kept ++ blanks' ∧
    (∀ blank ∈ blanks ++ blanks', Blank blank) ∧ List.Forall₂ Inner kept (lines (trim text)) := by
  by_cases hBlank : Blank text
  · refine ⟨text.splitOn '\n', [], [], by simp, by simpa using splitOn_blank hBlank, ?_⟩
    have hStart : trimStart text = [] := List.dropWhile_eq_nil_iff.mpr hBlank
    rw [trim, hStart]
    exact .nil
  · obtain ⟨blanks, first, first', rest, before, hSplit, hStart, hBlanks, hBefore, rfl⟩ := trimStart_splitOn hBlank
    obtain ⟨front, last, last', blanks', after, hRest, hEnd, hBlanks', hAfter, rfl⟩ :=
      trimEnd_splitOn (not_blank_trimStart hBlank)
    have hLines := @lines_of_splitOn (trim text) _ _ hEnd
    have hLast : Inner (last' ++ after) last' := ⟨[], after, blank_nil, hAfter, by simp⟩
    rw [hStart] at hRest
    rw [hLines]
    cases front with
    | nil =>
      obtain ⟨rfl, rfl⟩ := List.cons.inj hRest
      by_cases hEmpty : last' = []
      · refine ⟨blanks, [], (before ++ (last' ++ after)) :: rest, by simpa using hSplit, ?_, ?_⟩
        · intro blank hMem
          obtain hHere | hNew := List.mem_append.mp hMem
          · exact hBlanks blank hHere
          · obtain rfl | hLater := List.mem_cons.mp hNew
            · rw [hEmpty, List.nil_append, blank_append]
              exact ⟨hBefore, hAfter⟩
            · exact hBlanks' blank hLater
        · rw [if_pos hEmpty]
          exact .nil
      · refine ⟨blanks, [before ++ (last' ++ after)], rest, by simpa using hSplit, ?_, ?_⟩
        · intro blank hMem
          exact (List.mem_append.mp hMem).elim (hBlanks blank) (hBlanks' blank)
        · rw [if_neg hEmpty]
          exact .cons (hLast.cons hBefore) .nil
    | cons piece front =>
      obtain ⟨rfl, rfl⟩ := List.cons.inj hRest
      have hHead : Inner (before ++ first') (stripCarriageReturn first') := (inner_strip first').cons hBefore
      by_cases hEmpty : last' = []
      · refine ⟨blanks, (before ++ first') :: front, (last' ++ after) :: blanks', by simpa using hSplit, ?_, ?_⟩
        · intro blank hMem
          obtain hHere | hNew := List.mem_append.mp hMem
          · exact hBlanks blank hHere
          · obtain rfl | hLater := List.mem_cons.mp hNew
            · rw [hEmpty, List.nil_append]
              exact hAfter
            · exact hBlanks' blank hLater
        · rw [if_pos hEmpty, List.append_nil, List.map_cons]
          exact .cons hHead (forall₂_strip front)
      · refine ⟨blanks, (before ++ first') :: front ++ [last' ++ after], blanks', by simpa using hSplit, ?_, ?_⟩
        · intro blank hMem
          exact (List.mem_append.mp hMem).elim (hBlanks blank) (hBlanks' blank)
        · rw [if_neg hEmpty, List.map_cons, List.cons_append, List.cons_append]
          exact .cons hHead (List.rel_append (forall₂_strip front) (.cons hLast .nil))

end PrimeAgent
