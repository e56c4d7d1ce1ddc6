import PrimeAgent.Tools.EditDiff
import PrimeAgent.Lib.Pieces

/-! # Every match can be sliced

A second normalization changes nothing, so a match found in the normalized base is a match in the base.
-/
namespace PrimeAgent.Tools

open Splice

def inertChars : Text :=
  ['\n', ' ', '\'', '"', '-']

/-- What is documented of NFKC: it normalizes once, parts of a normalized text are normalized, and a character that no
other composes with may stand between two of them. -/
structure Normalizes (nfkc : Text → Text) : Prop where
  idempotent : ∀ text, nfkc (nfkc text) = nfkc text
  part : ∀ before text after, nfkc (before ++ text ++ after) = before ++ text ++ after → nfkc text = text
  inert : ∀ before after, ∀ c ∈ inertChars, nfkc before = before → nfkc after = after →
    nfkc (before ++ c :: after) = before ++ c :: after

section Characters

variable {c : Char}

theorem mapFuzzy_cases (c : Char) : mapFuzzy c = c ∨ mapFuzzy c ∈ ['\'', '"', '-'] ∧ c ≠ '\n' ∨
    mapFuzzy c = ' ' ∧ isJsWhitespace c = true ∧ c ≠ '\n' := by
  have hNewline : ∀ n, 0xA0 ≤ n → c.toNat = n → c ≠ '\n' := by
    rintro n hLe hNat rfl
    exact absurd (hNat ▸ hLe) (by decide)
  rw [mapFuzzy]
  split_ifs with hSingle hDouble hDash hSpace hWide
  · exact .inr (.inl ⟨by decide, hNewline _ (by omega) rfl⟩)
  · exact .inr (.inl ⟨by decide, hNewline _ (by omega) rfl⟩)
  · exact .inr (.inl ⟨by decide, hNewline _ (by omega) rfl⟩)
  · refine .inr (.inr ⟨rfl, ?_, hNewline _ (by omega) rfl⟩)
    rcases hSpace with h | h | h | h <;> simp [isJsWhitespace, h]
  · refine .inr (.inr ⟨rfl, ?_, hNewline _ (by omega) rfl⟩)
    have hLow : 0x2000 ≤ c.toNat := by omega
    simp [isJsWhitespace, hLow, hWide.2]
  · exact .inl rfl

theorem mapFuzzy_inert (c : Char) : mapFuzzy c = c ∨ mapFuzzy c ∈ inertChars := by
  obtain hSame | ⟨hMem, -⟩ | ⟨hSpace, -, -⟩ := mapFuzzy_cases c
  · exact .inl hSame
  · refine .inr ?_
    rw [inertChars]
    exact List.mem_cons_of_mem _ (List.mem_cons_of_mem _ hMem)
  · exact .inr (hSpace ▸ by decide)

theorem mapFuzzy_newline : mapFuzzy c = '\n' ↔ c = '\n' := by
  constructor
  · intro hNewline
    obtain hSame | ⟨hMem, -⟩ | ⟨hSpace, -, -⟩ := mapFuzzy_cases c
    · exact hSame.symm.trans hNewline
    · exact absurd (hNewline ▸ hMem) (by decide)
    · exact absurd (hSpace.symm.trans hNewline) (by decide)
  · rintro rfl
    decide

theorem mapFuzzy_mapFuzzy (c : Char) : mapFuzzy (mapFuzzy c) = mapFuzzy c := by
  obtain hSame | hMem := mapFuzzy_inert c
  · rw [hSame, hSame]
  · generalize mapFuzzy c = d at hMem
    simp only [inertChars, List.mem_cons, List.not_mem_nil, or_false] at hMem
    rcases hMem with rfl | rfl | rfl | rfl | rfl <;> decide

theorem isJsWhitespace_mapFuzzy (h : isJsWhitespace (mapFuzzy c) = true) : isJsWhitespace c = true := by
  obtain hSame | ⟨hMem, -⟩ | ⟨-, hSpace, -⟩ := mapFuzzy_cases c
  · exact hSame ▸ h
  · generalize mapFuzzy c = d at h hMem
    simp only [List.mem_cons, List.not_mem_nil, or_false] at hMem
    rcases hMem with rfl | rfl | rfl <;> exact absurd h (by decide)
  · exact hSpace

end Characters

section Lines

variable {text : Text}

theorem jsTrimEnd_infix (line : Text) : ∃ rest, line = jsTrimEnd line ++ rest := by
  obtain ⟨rest, hRest⟩ := List.rdropWhile_prefix isJsWhitespace line
  exact ⟨rest, hRest.symm⟩

theorem jsTrimEnd_map (line : Text) : jsTrimEnd ((jsTrimEnd line).map mapFuzzy) = (jsTrimEnd line).map mapFuzzy := by
  rw [jsTrimEnd, List.rdropWhile_eq_self_iff]
  intro hNe hSpace
  have hNe' : jsTrimEnd line ≠ [] := fun hNil => hNe (by rw [hNil]; rfl)
  rw [List.getLast_map] at hSpace
  exact List.rdropWhile_last_not isJsWhitespace line hNe' (isJsWhitespace_mapFuzzy hSpace)

theorem joinLines_singleton (line : Text) : joinLines [line] = line :=
  List.intercalate_singleton

theorem joinLines_cons (line next : Text) (lines : List Text) :
    joinLines (line :: next :: lines) = line ++ '\n' :: joinLines (next :: lines) := by
  rw [joinLines, List.intercalate_cons_cons, List.append_assoc]
  rfl

theorem map_joinLines {f : Char → Char} (hNewline : f '\n' = '\n') : ∀ lines : List Text,
    (joinLines lines).map f = joinLines (lines.map (List.map f))
  | [] => rfl
  | [line] => by rw [joinLines_singleton, List.map_singleton, joinLines_singleton]
  | line :: next :: lines => by
    have hRest := map_joinLines hNewline (next :: lines)
    rw [List.map_cons] at hRest
    rw [joinLines_cons, List.map_append, List.map_cons, hNewline, hRest, List.map_cons, List.map_cons, joinLines_cons]

theorem notMem_joined : ∀ line ∈ (text.splitOn '\n').map jsTrimEnd, '\n' ∉ line := by
  intro line hMem
  obtain ⟨piece, hPiece, rfl⟩ := List.mem_map.mp hMem
  intro hNewline
  exact Pieces.notMem_of_mem_splitOn piece hPiece ((List.rdropWhile_prefix isJsWhitespace piece).subset hNewline)

end Lines

section Idempotent

variable {nfkc : Text → Text} {before after text : Text}

theorem Normalizes.first (hNfkc : Normalizes nfkc) (hWhole : nfkc (before ++ after) = before ++ after) :
    nfkc before = before :=
  hNfkc.part [] before after hWhole

theorem Normalizes.last (hNfkc : Normalizes nfkc) (hWhole : nfkc (before ++ after) = before ++ after) :
    nfkc after = after :=
  hNfkc.part before after [] (by rw [List.append_nil]; exact hWhole)

theorem Normalizes.joined (hNfkc : Normalizes nfkc) : ∀ lines : List Text, lines ≠ [] →
    (∀ line ∈ lines, nfkc line = line) →
    nfkc (joinLines lines) = joinLines lines
  | [], hNe, _ => absurd rfl hNe
  | [line], _, hLines => by
    rw [joinLines_singleton]
    exact hLines line List.mem_cons_self
  | line :: next :: lines, _, hLines => by
    rw [joinLines_cons]
    exact hNfkc.inert line _ '\n' (by decide) (hLines line List.mem_cons_self)
      (hNfkc.joined (next :: lines) (List.cons_ne_nil _ _) fun later hLater =>
        hLines later (List.mem_cons_of_mem _ hLater))

theorem Normalizes.of_joined (hNfkc : Normalizes nfkc) : ∀ lines : List Text, nfkc (joinLines lines) = joinLines lines →
    ∀ line ∈ lines, nfkc line = line
  | [], _, _, hMem => nomatch hMem
  | [line], hWhole, _, hMem => by
    rw [List.mem_singleton.mp hMem]
    rwa [joinLines_singleton] at hWhole
  | line :: next :: lines, hWhole, other, hMem => by
    rw [joinLines_cons] at hWhole
    rcases List.mem_cons.mp hMem with rfl | hMem
    · exact hNfkc.first hWhole
    · rw [List.append_cons] at hWhole
      exact hNfkc.of_joined (next :: lines) (hNfkc.last hWhole) other hMem

theorem Normalizes.trimmed (hNfkc : Normalizes nfkc) (hText : nfkc text = text) :
    nfkc (joinLines ((text.splitOn '\n').map jsTrimEnd)) = joinLines ((text.splitOn '\n').map jsTrimEnd) := by
  refine hNfkc.joined _ (fun hNone => List.splitOn_ne_nil '\n' text (List.map_eq_nil_iff.mp hNone)) ?_
  intro line hMem
  obtain ⟨piece, hPiece, rfl⟩ := List.mem_map.mp hMem
  rw [← joinLines_splitOn text] at hText
  have hWhole := hNfkc.of_joined _ hText piece hPiece
  obtain ⟨rest, hRest⟩ := jsTrimEnd_infix piece
  rw [hRest] at hWhole
  exact hNfkc.first hWhole

theorem Normalizes.mapped (hNfkc : Normalizes nfkc) : ∀ text before : Text, nfkc (before ++ text) = before ++ text →
    nfkc (before ++ text.map mapFuzzy) = before ++ text.map mapFuzzy := by
  intro text
  induction text with
  | nil => exact fun before hBefore => hBefore
  | cons c text ih =>
    intro before hWhole
    rw [List.map_cons]
    obtain hSame | hInert := mapFuzzy_inert c
    · rw [hSame, List.append_cons]
      rw [List.append_cons] at hWhole
      exact ih (before ++ [c]) hWhole
    · have hLater : nfkc text = text := by
        rw [List.append_cons] at hWhole
        exact hNfkc.last hWhole
      exact hNfkc.inert before _ _ hInert (hNfkc.first hWhole) (ih [] hLater)

theorem normalizeForFuzzyMatch_stable (hNfkc : Normalizes nfkc) (text : Text) :
    nfkc (normalizeForFuzzyMatch nfkc text) = normalizeForFuzzyMatch nfkc text :=
  hNfkc.mapped _ [] (hNfkc.trimmed (hNfkc.idempotent text))

theorem normalizeForFuzzyMatch_twice (hNfkc : Normalizes nfkc) (text : Text) :
    normalizeForFuzzyMatch nfkc (normalizeForFuzzyMatch nfkc text) = normalizeForFuzzyMatch nfkc text := by
  have hNewline : mapFuzzy '\n' = '\n' := mapFuzzy_newline.mpr rfl
  let lines := ((nfkc text).splitOn '\n').map jsTrimEnd
  have hLines : normalizeForFuzzyMatch nfkc text = joinLines (lines.map (List.map mapFuzzy)) :=
    map_joinLines hNewline lines
  have hFree : ∀ line ∈ lines.map (List.map mapFuzzy), '\n' ∉ line := by
    intro line hMem hIn
    obtain ⟨piece, hPiece, rfl⟩ := List.mem_map.mp hMem
    obtain ⟨c, hC, hMapped⟩ := List.mem_map.mp hIn
    exact notMem_joined piece hPiece (mapFuzzy_newline.mp hMapped ▸ hC)
  have hNe : lines.map (List.map mapFuzzy) ≠ [] := by
    simpa [lines] using List.splitOn_ne_nil '\n' (nfkc text)
  have hSplit : (joinLines (lines.map (List.map mapFuzzy))).splitOn '\n' = lines.map (List.map mapFuzzy) :=
    List.splitOn_intercalate '\n' hFree hNe
  have hTrimmed : (lines.map (List.map mapFuzzy)).map jsTrimEnd = lines.map (List.map mapFuzzy) := by
    simp only [lines, List.map_map]
    exact List.map_congr_left fun line _ => jsTrimEnd_map line
  have hTwice : mapFuzzy ∘ mapFuzzy = mapFuzzy := funext mapFuzzy_mapFuzzy
  calc normalizeForFuzzyMatch nfkc (normalizeForFuzzyMatch nfkc text)
      = (joinLines (((normalizeForFuzzyMatch nfkc text).splitOn '\n').map jsTrimEnd)).map mapFuzzy := by
        rw [normalizeForFuzzyMatch, normalizeForFuzzyMatch_stable hNfkc]
    _ = (joinLines (lines.map (List.map mapFuzzy))).map mapFuzzy := by rw [hLines, hSplit, hTrimmed]
    _ = normalizeForFuzzyMatch nfkc text := by rw [← hLines, normalizeForFuzzyMatch, List.map_map, hTwice]

end Idempotent

section Matches

variable {nfkc : Text → Text} {base content pattern text : Text} {edits : List Edit} {path : String} {i : Nat}

theorem byteLength_eq (text : Text) : byteLength text = total Char.utf8Size text := by
  induction text with
  | nil => rfl
  | cons c text ih =>
    rw [byteLength, utf8, Utf8.encode_cons, List.length_append, String.length_utf8EncodeChar, total_cons, ← ih]
    rfl

theorem findText_some : ∀ {text : Text} {i : Nat}, findText pattern text = some i →
    ∃ before after, text = before ++ pattern ++ after ∧ total Char.utf8Size before = i
  | [], i, hFind => by
    rw [findText] at hFind
    split at hFind
    next hEmpty =>
      cases hFind
      exact ⟨[], [], by rw [List.isEmpty_iff.mp hEmpty]; rfl, rfl⟩
    next => cases hFind
  | c :: text, i, hFind => by
    rw [findText] at hFind
    split at hFind
    next hAt =>
      cases hFind
      obtain ⟨after, hAfter⟩ := List.isPrefixOf_iff_prefix.mp hAt
      exact ⟨[], after, hAfter.symm, rfl⟩
    next =>
      obtain ⟨j, hLater, rfl⟩ := Option.map_eq_some_iff.mp hFind
      obtain ⟨before, after, hText, hTotal⟩ := findText_some hLater
      exact ⟨c :: before, after, by rw [hText]; rfl, by rw [total_cons, hTotal]⟩

theorem findText_bounded (hFind : findText pattern text = some i) (new : Text) :
    Bounded Char.utf8Size text ⟨i, byteLength pattern, new⟩ := by
  obtain ⟨before, after, hText, hTotal⟩ := findText_some hFind
  exact ⟨before, pattern, after, hText, hTotal, (byteLength_eq pattern).symm⟩

theorem fuzzyFindText_cases (nfkc : Text → Text) (content pattern : Text) :
    (∃ i, findText pattern content = some i ∧
      fuzzyFindText nfkc content pattern = ⟨true, i, byteLength pattern, false, content⟩) ∨
    (∃ i, findText (normalizeForFuzzyMatch nfkc pattern) (normalizeForFuzzyMatch nfkc content) = some i ∧
      fuzzyFindText nfkc content pattern =
        ⟨true, i, byteLength (normalizeForFuzzyMatch nfkc pattern), true, normalizeForFuzzyMatch nfkc content⟩) ∨
    fuzzyFindText nfkc content pattern = ⟨false, 0, 0, false, content⟩ := by
  rw [fuzzyFindText]
  cases findText pattern content with
  | some i => exact .inl ⟨i, rfl, rfl⟩
  | none =>
    dsimp only
    cases findText (normalizeForFuzzyMatch nfkc pattern) (normalizeForFuzzyMatch nfkc content) with
    | some i => exact .inr (.inl ⟨i, rfl, rfl⟩)
    | none => exact .inr (.inr rfl)

theorem fuzzyFindText_bounded (hFound : (fuzzyFindText nfkc content pattern).found = true) (new : Text) :
    Bounded Char.utf8Size
      (if (fuzzyFindText nfkc content pattern).usedFuzzyMatch then normalizeForFuzzyMatch nfkc content else content)
      ⟨(fuzzyFindText nfkc content pattern).index, (fuzzyFindText nfkc content pattern).matchLength, new⟩ := by
  obtain ⟨i, hFind, hExact⟩ | ⟨i, hFind, hFuzzy⟩ | hNone := fuzzyFindText_cases nfkc content pattern
  · rw [hExact]
    exact findText_bounded hFind new
  · rw [hFuzzy]
    exact findText_bounded hFind new
  · rw [hNone] at hFound
    cases hFound

theorem baseContent_bounded (hNfkc : Normalizes nfkc) {edit : Edit} (hMem : edit ∈ edits)
    (hFound : (fuzzyFindText nfkc (baseContent nfkc content edits) edit.oldText).found = true) :
    Bounded Char.utf8Size (baseContent nfkc content edits)
      ⟨(fuzzyFindText nfkc (baseContent nfkc content edits) edit.oldText).index,
        (fuzzyFindText nfkc (baseContent nfkc content edits) edit.oldText).matchLength, edit.newText⟩ := by
  have hBounded := fuzzyFindText_bounded hFound edit.newText
  rw [baseContent] at hBounded ⊢
  split_ifs at hBounded ⊢ with hAny hFuzzy hFuzzy
  · rwa [normalizeForFuzzyMatch_twice hNfkc] at hBounded
  · exact hBounded
  · exact absurd (List.any_eq_true.mpr ⟨edit, hMem, hFuzzy⟩) hAny
  · exact hBounded

theorem matchEdits_bounded (totalEdits : Nat) : ∀ (edits : List Edit) (i : Nat),
    (∀ edit ∈ edits, (fuzzyFindText nfkc base edit.oldText).found = true → Bounded Char.utf8Size base
      ⟨(fuzzyFindText nfkc base edit.oldText).index, (fuzzyFindText nfkc base edit.oldText).matchLength,
        edit.newText⟩) →
      ∀ matched, matchEdits nfkc base path totalEdits i edits = .ok matched →
        ∀ edit ∈ matched, Bounded Char.utf8Size base edit.region := by
  intro edits
  induction edits with
  | nil =>
    rintro i - matched hMatched edit hMem
    cases hMatched
    cases hMem
  | cons edit edits ih =>
    intro i hEdits matched hMatched other hMem
    rw [matchEdits] at hMatched
    dsimp only at hMatched
    split at hMatched
    next => cases hMatched
    next hFound =>
      split at hMatched
      next => cases hMatched
      next =>
        cases hLater : matchEdits nfkc base path totalEdits (i + 1) edits with
        | error message =>
          rw [hLater] at hMatched
          cases hMatched
        | ok later =>
          rw [hLater] at hMatched
          obtain rfl := Except.ok.inj hMatched
          rcases List.mem_cons.mp hMem with rfl | hMem
          · exact hEdits edit List.mem_cons_self (Bool.not_eq_false _ ▸ hFound)
          · exact ih (i + 1) (fun next hNext => hEdits next (List.mem_cons_of_mem _ hNext)) later hLater other hMem

theorem apart_of_findOverlap : ∀ (matched : List MatchedEdit) (offset : Nat), findOverlap matched = none →
    (∀ first ∈ matched.head?, offset ≤ first.matchIndex) → Apart offset (matched.map MatchedEdit.region)
  | [], _, _, _ => trivial
  | [edit], _, _, hFirst => ⟨hFirst edit rfl, trivial⟩
  | previous :: current :: matched, offset, hNone, hFirst => by
    rw [findOverlap] at hNone
    split at hNone
    next => cases hNone
    next hLe =>
      refine ⟨hFirst previous rfl, apart_of_findOverlap (current :: matched) _ hNone ?_⟩
      rintro _ ⟨⟩
      exact Nat.le_of_not_lt hLe

theorem spliceAll_matched {matched : List MatchedEdit}
    (hBounded : ∀ edit ∈ matched, Bounded Char.utf8Size base edit.region)
    (hNone : findOverlap (sortMatches matched) = none) :
    ∃ newContent, Spliced Char.utf8Size 0 ((sortMatches matched).map MatchedEdit.region) base newContent ∧
      spliceAll Char.utf8Size ((sortMatches matched).map MatchedEdit.region) base = some newContent := by
  have hRegions : ∀ region ∈ (sortMatches matched).map MatchedEdit.region,
      Bounded Char.utf8Size ([] ++ base) region := by
    intro region hMem
    obtain ⟨edit, hEdit, rfl⟩ := List.mem_map.mp hMem
    exact hBounded edit ((List.mem_insertionSort _).mp hEdit)
  obtain ⟨newContent, hSpliced⟩ := exists_spliced Char.utf8Size_pos _ [] base hRegions
    (apart_of_findOverlap _ 0 hNone fun _ _ => Nat.zero_le _)
  exact ⟨newContent, hSpliced, hSpliced.spliceAll Char.utf8Size_pos [] rfl⟩

/-- A second normalization changes nothing, every match lies within the base content between two characters, and no
slice panics. -/
theorem edits_never_panic (hNfkc : Normalizes nfkc) (content : Text) (edits : List Edit) (path : String) :
    (∀ text, normalizeForFuzzyMatch nfkc (normalizeForFuzzyMatch nfkc text) = normalizeForFuzzyMatch nfkc text) ∧
    (∀ edit ∈ normalizedEdits edits, ∀ result,
      fuzzyFindText nfkc (baseContent nfkc content (normalizedEdits edits)) edit.oldText = result →
        result.found = true →
        Bounded Char.utf8Size (baseContent nfkc content (normalizedEdits edits))
          ⟨result.index, result.matchLength, edit.newText⟩) ∧
    ∃ outcome, applyEditsToNormalizedContent nfkc content edits path = some outcome := by
  refine ⟨normalizeForFuzzyMatch_twice hNfkc, ?_, ?_⟩
  · rintro edit hMem _ rfl hFound
    exact baseContent_bounded hNfkc hMem hFound
  · rw [applyEditsToNormalizedContent]
    split
    next => exact ⟨_, rfl⟩
    next =>
      dsimp only
      cases hMatched : matchEdits nfkc (baseContent nfkc content (normalizedEdits edits)) path
        (normalizedEdits edits).length 0
        (normalizedEdits edits) with
      | error message => exact ⟨_, rfl⟩
      | ok matched =>
        dsimp only
        have hBounded := matchEdits_bounded _ _ 0 (fun edit hMem => baseContent_bounded hNfkc hMem) matched hMatched
        cases hNone : findOverlap (sortMatches matched) with
        | some overlap => exact ⟨_, rfl⟩
        | none =>
          obtain ⟨newContent, -, hSplice⟩ := spliceAll_matched hBounded hNone
          dsimp only
          rw [hSplice, Option.bind_eq_bind, Option.bind_some]
          split
          · exact ⟨_, rfl⟩
          · exact ⟨_, rfl⟩

/-- A text without compatibility characters is normalized as it is; the edit's ASCII quotes are found in place of the
typographic ones. -/
theorem edits_never_panic_quotes :
    (∃ outcome, applyEditsToNormalizedContent id ['a', '“', 'b', '”', ' ', '\n', 'c'] [⟨['"', 'b'], ['d']⟩] "notes" =
      some outcome) ∧
    applyEditsToNormalizedContent id ['a', '“', 'b', '”', ' ', '\n', 'c'] [⟨['"', 'b'], ['d']⟩] "notes" =
      some (.ok ⟨['a', '"', 'b', '"', '\n', 'c'], ['a', 'd', '"', '\n', 'c']⟩) := by
  have hId : Normalizes id := ⟨fun _ => rfl, fun _ _ _ _ => rfl, fun _ _ _ _ _ _ => rfl⟩
  exact ⟨(edits_never_panic hId _ _ _).2.2, by rfl⟩

end Matches

end PrimeAgent.Tools
