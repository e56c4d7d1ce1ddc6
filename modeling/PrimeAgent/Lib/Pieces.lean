import Mathlib.Data.List.Infix

/-! # The pieces of a list up to each separator

A list is read piece by piece, each up to and with its next separator; the last piece may lack one. Beside it stands a
window of the last elements read.
-/
namespace PrimeAgent.Pieces

variable {α : Type} [DecidableEq α] {sep : α} {l : List α} {more : List α} {n : Nat}

def pieces (sep : α) : List α → List (List α)
  | [] => []
  | a :: rest =>
    if a = sep then [a] :: pieces sep rest
    else match pieces sep rest with
      | [] => [[a]]
      | first :: others => (a :: first) :: others

def Terminated (sep : α) (l : List α) : Prop :=
  l = [] ∨ l.getLast? = some sep

theorem pieces_flatten (l : List α) : (pieces sep l).flatten = l := by
  induction l with
  | nil => rfl
  | cons a rest ih =>
    unfold pieces
    split
    · rw [List.flatten_cons, ih]
      rfl
    · split
      next hNone =>
        rw [hNone] at ih
        rw [← ih]
        rfl
      next first others hSome =>
        rw [hSome] at ih
        rw [← ih]
        rfl

theorem pieces_ne_nil (l : List α) : ∀ piece ∈ pieces sep l, piece ≠ [] := by
  induction l with
  | nil => intro piece hMem; cases hMem
  | cons a rest ih =>
    unfold pieces
    split
    · rintro piece (_ | ⟨_, hMem⟩)
      · exact List.cons_ne_nil _ _
      · exact ih piece hMem
    · split
      · rintro piece (_ | ⟨_, ⟨⟩⟩)
        exact List.cons_ne_nil _ _
      next first others hSome =>
        rw [hSome] at ih
        rintro piece (_ | ⟨_, hMem⟩)
        · exact List.cons_ne_nil _ _
        · exact ih piece (List.mem_cons_of_mem _ hMem)

theorem pieces_append (hEnd : Terminated sep l) (more : List α) :
    pieces sep (l ++ more) = pieces sep l ++ pieces sep more := by
  induction l with
  | nil => rfl
  | cons a rest ih =>
    rw [List.cons_append]
    by_cases hSep : a = sep
    · have hRest : Terminated sep rest := by
        cases rest with
        | nil => exact .inl rfl
        | cons b rest => exact .inr (hEnd.resolve_left (List.cons_ne_nil _ _))
      simp only [pieces, if_pos hSep, ih hRest, List.cons_append]
    · have hRest : rest.getLast? = some sep := by
        cases rest with
        | nil =>
          have hLast := hEnd.resolve_left (List.cons_ne_nil _ _)
          exact absurd (Option.some.inj hLast) hSep
        | cons b rest => exact hEnd.resolve_left (List.cons_ne_nil _ _)
      have hSome : pieces sep rest ≠ [] := by
        intro hNone
        have hFlat := @pieces_flatten _ _ sep rest
        rw [hNone] at hFlat
        rw [← hFlat] at hRest
        cases hRest
      obtain ⟨first, others, hPieces⟩ := List.exists_cons_of_ne_nil hSome
      simp only [pieces, if_neg hSep, ih (.inr hRest), hPieces, List.cons_append]

theorem pieces_terminated (hEnd : Terminated sep l) :
    ∀ piece ∈ pieces sep l, piece.getLast? = some sep := by
  induction l with
  | nil => intro piece hMem; cases hMem
  | cons a rest ih =>
    by_cases hSep : a = sep
    · have hRest : Terminated sep rest := by
        cases rest with
        | nil => exact .inl rfl
        | cons b rest => exact .inr (hEnd.resolve_left (List.cons_ne_nil _ _))
      simp only [pieces, if_pos hSep]
      rintro piece (_ | ⟨_, hMem⟩)
      · rw [hSep]; rfl
      · exact ih hRest piece hMem
    · cases rest with
      | nil =>
        have hLast := hEnd.resolve_left (List.cons_ne_nil _ _)
        exact absurd (Option.some.inj hLast) hSep
      | cons b rest =>
        have hRest : Terminated sep (b :: rest) := .inr (hEnd.resolve_left (List.cons_ne_nil _ _))
        have hPieces := ih hRest
        have hOnes := @pieces_ne_nil _ _ sep (b :: rest)
        rw [pieces, if_neg hSep]
        split
        next hNone =>
          have hFlat := @pieces_flatten _ _ sep (b :: rest)
          rw [hNone] at hFlat
          cases hFlat
        next first others hSome =>
          rw [hSome] at hPieces hOnes
          rintro piece (_ | ⟨_, hMem⟩)
          · have hFirst := hPieces first List.mem_cons_self
            rw [List.getLast?_cons, hFirst]
            rfl
          · exact hPieces piece (List.mem_cons_of_mem _ hMem)

theorem exists_terminated (sep : α) (l : List α) : ∃ front back, l = front ++ back ∧ Terminated sep front ∧ sep ∉ back := by
  induction l with
  | nil => exact ⟨[], [], rfl, .inl rfl, by simp⟩
  | cons a rest ih =>
    obtain ⟨front, back, rfl, hFront, hBack⟩ := ih
    by_cases hSep : a = sep
    · refine ⟨a :: front, back, rfl, .inr ?_, hBack⟩
      obtain rfl | hLast := hFront
      · rw [hSep]; rfl
      · rw [List.getLast?_cons, hLast]; rfl
    · obtain rfl | hLast := hFront
      · refine ⟨[], a :: back, rfl, .inl rfl, ?_⟩
        simp only [List.mem_cons, not_or]
        exact ⟨fun hSame => hSep hSame.symm, hBack⟩
      · refine ⟨a :: front, back, rfl, .inr ?_, hBack⟩
        rw [List.getLast?_cons, hLast]
        rfl

theorem pieces_of_notMem (hNone : sep ∉ l) : pieces sep l = if l = [] then [] else [l] := by
  induction l with
  | nil => rfl
  | cons a rest ih =>
    obtain ⟨hHead, hRest⟩ := not_or.mp (List.mem_cons.not.mp hNone)
    rw [pieces, if_neg fun hSame => hHead hSame.symm, ih hRest, if_neg (List.cons_ne_nil _ _)]
    cases rest with
    | nil => rfl
    | cons b rest => rfl

/-! ## The window of the last elements -/

/-- The last `n` elements, with `pad` before them where there are fewer. -/
def window (n : Nat) (pad : α) (l : List α) : List α :=
  (List.replicate n pad ++ l).drop l.length

@[simp] theorem window_length (n : Nat) (pad : α) (l : List α) : (window n pad l).length = n := by
  simp [window]

theorem window_append_long (pad : α) (l : List α) (hLong : n ≤ more.length) :
    window n pad (l ++ more) = more.drop (more.length - n) := by
  unfold window
  rw [← List.append_assoc, List.drop_append, List.drop_eq_nil_of_le (by simp; omega), List.nil_append]
  congr 1
  simp
  omega

theorem window_append_short (pad : α) (l : List α) (hShort : more.length ≤ n) :
    window n pad (l ++ more) = (window n pad l).drop more.length ++ more := by
  unfold window
  rw [← List.append_assoc, List.drop_append_of_le_length (by simp; omega), List.drop_drop, List.length_append,
    Nat.add_comm]

theorem window_drop (pad : α) (l : List α) :
    (window n pad l).drop (n - l.length) = l.drop (l.length - n) := by
  unfold window
  rw [List.drop_drop, List.drop_append, List.drop_eq_nil_of_le (by simp; omega), List.nil_append]
  congr 1
  simp
  omega

theorem notMem_of_mem_splitOn {l : List α} : ∀ piece ∈ l.splitOn sep, sep ∉ piece := by
  induction l with
  | nil => simp
  | cons b l ih =>
    obtain ⟨first, others, hSplit⟩ := List.exists_cons_of_ne_nil (List.splitOn_ne_nil sep l)
    rw [List.splitOn_cons_eq_if_modifyHead, hSplit]
    rw [hSplit] at ih
    split
    next =>
      rintro piece (_ | ⟨_, hMem⟩)
      · exact List.not_mem_nil
      · exact ih piece hMem
    next hOther =>
      rintro piece (_ | ⟨_, hMem⟩)
      · simp only [List.mem_cons, not_or]
        exact ⟨fun hSame => hOther (by simp [← hSame]), ih first List.mem_cons_self⟩
      · exact ih piece (List.mem_cons_of_mem _ hMem)

end PrimeAgent.Pieces
