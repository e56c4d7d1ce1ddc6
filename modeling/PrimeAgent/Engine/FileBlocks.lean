import PrimeAgent.Engine.Compaction
import PrimeAgent.Lib.Replace

/-! # File blocks in a summary

The blocks behind a summary are cut out again before the summary is read: whatever begins with an open tag and has
its close tag behind it, with the newlines in front of it.
-/
namespace PrimeAgent

def fileTags : List Text :=
  ["read-files".toList, "modified-files".toList]

def openOf (tag : Text) : Text :=
  '<' :: tag ++ ['>']

def closeOf (tag : Text) : Text :=
  '<' :: '/' :: tag ++ ['>']

def TagAt (text : Text) : Prop :=
  ∃ tag ∈ fileTags, openOf tag <+: text

def openTag (text : Text) : Option (Text × Text) :=
  fileTags.findSome? fun tag =>
    if (openOf tag).isPrefixOf text then some (tag, text.drop (openOf tag).length) else none

/-- What is behind a block at the head of a text: newlines, an open tag, and everything up to its first close tag. -/
def blockAt (text : Text) : Option Text :=
  (openTag (text.dropWhile (· == '\n'))).bind fun (tag, body) =>
    (findText (closeOf tag) body).map fun offset => body.drop (offset + (closeOf tag).length)

section Find

variable {pattern text : Text} {i : Nat}

theorem findText_eq_some_iff : findText pattern text = some i ↔
    pattern <+: text.drop i ∧ i ≤ text.length ∧ ∀ j < i, ¬ pattern <+: text.drop j := by
  induction text generalizing i with
  | nil =>
    rw [findText]
    cases pattern with
    | nil =>
      constructor
      · intro h
        cases h
        exact ⟨List.prefix_rfl, Nat.le_refl _, fun j hLt => absurd hLt (Nat.not_lt_zero j)⟩
      · rintro ⟨-, hLe, -⟩
        rw [Nat.le_zero.mp hLe]
        rfl
    | cons c pattern =>
      refine iff_of_false (fun h => nomatch h) fun ⟨hPrefix, _⟩ => ?_
      rw [List.drop_nil] at hPrefix
      exact absurd (List.prefix_nil.mp hPrefix) (List.cons_ne_nil _ _)
  | cons c text ih =>
    rw [findText]
    split
    · rename_i hHere
      rw [List.isPrefixOf_iff_prefix] at hHere
      constructor
      · intro h
        cases h
        exact ⟨hHere, Nat.zero_le _, fun j hLt => absurd hLt (Nat.not_lt_zero j)⟩
      · rintro ⟨-, -, hFirst⟩
        cases i with
        | zero => rfl
        | succ i => exact absurd hHere (hFirst 0 (Nat.succ_pos i))
    · rename_i hNot
      rw [List.isPrefixOf_iff_prefix] at hNot
      cases i with
      | zero =>
        refine iff_of_false (fun h => ?_) fun ⟨hHere, _⟩ => hNot hHere
        obtain ⟨k, -, hSucc⟩ := Option.map_eq_some_iff.mp h
        cases hSucc
      | succ i =>
        rw [Option.map_eq_some_iff]
        simp only [Nat.succ_inj, exists_eq_right, ih]
        constructor
        · rintro ⟨hAt, hLe, hFirst⟩
          refine ⟨hAt, Nat.succ_le_succ hLe, fun j hLt => ?_⟩
          cases j with
          | zero => exact hNot
          | succ j => exact hFirst j (Nat.lt_of_succ_lt_succ hLt)
        · rintro ⟨hAt, hLe, hFirst⟩
          exact ⟨hAt, Nat.le_of_succ_le_succ hLe, fun j hLt => hFirst (j + 1) (Nat.succ_lt_succ hLt)⟩

theorem findText_eq_none_iff : findText pattern text = none ↔ ∀ j ≤ text.length, ¬ pattern <+: text.drop j := by
  constructor
  · intro hNone j hLe hAt
    induction j using Nat.strong_induction_on with
    | _ j ih =>
      have hFound : findText pattern text ≠ some j := by rw [hNone]; exact nofun
      rw [Ne, findText_eq_some_iff] at hFound
      refine hFound ⟨hAt, hLe, fun k hLt hEarlier => ih k hLt (by omega) hEarlier⟩
  · intro hNone
    cases hFound : findText pattern text with
    | none => rfl
    | some i =>
      obtain ⟨hAt, hLe, -⟩ := findText_eq_some_iff.mp hFound
      exact absurd hAt (hNone i hLe)

theorem prefix_of_append {c : Char} (hFree : c ∉ pattern) {before after : Text} (hAt : pattern <+: before ++ c :: after) :
    pattern <+: before := by
  induction before generalizing pattern with
  | nil =>
    cases pattern with
    | nil => exact List.nil_prefix
    | cons d pattern =>
      rw [List.nil_append, List.cons_prefix_cons] at hAt
      exact absurd (hAt.1 ▸ List.mem_cons_self) hFree
  | cons d before ih =>
    cases pattern with
    | nil => exact List.nil_prefix
    | cons e pattern =>
      rw [List.cons_append, List.cons_prefix_cons] at hAt
      rw [List.cons_prefix_cons]
      exact ⟨hAt.1, ih (fun hMem => hFree (List.mem_cons_of_mem _ hMem)) hAt.2⟩

end Find

section Tags

variable {tag text : Text}

theorem openOf_newline (hTag : tag ∈ fileTags) : '\n' ∉ openOf tag := by
  revert tag
  decide

theorem closeOf_newline (hTag : tag ∈ fileTags) : '\n' ∉ closeOf tag := by
  revert tag
  decide

theorem openOf_within (hTag : tag ∈ fileTags) {k : Nat} (hPos : 0 < k) (hLt : k < (openOf tag).length) :
    ∃ c, (openOf tag)[k]? = some c ∧ c ≠ '<' ∧ c ≠ '\n' := by
  have hAll : ∀ tag ∈ fileTags, ∀ k < (openOf tag).length, 0 < k →
      ((openOf tag)[k]?).any fun c => c ≠ '<' ∧ c ≠ '\n' := by decide
  have hHere := hAll tag hTag k hLt hPos
  rw [List.getElem?_eq_getElem hLt, Option.any_some, decide_eq_true_eq] at hHere
  exact ⟨_, List.getElem?_eq_getElem hLt, hHere⟩

theorem head_of_openOf (hAt : openOf tag <+: text) : text.head? = some '<' := by
  obtain ⟨rest, rfl⟩ := hAt
  rfl

theorem openTag_eq_none (hNone : ¬ TagAt text) : openTag text = none := by
  rw [openTag, List.findSome?_eq_none_iff]
  intro tag hTag
  rw [if_neg fun hPrefix => hNone ⟨tag, hTag, List.isPrefixOf_iff_prefix.mp hPrefix⟩]

theorem openOf_unique {other : Text} (hTag : tag ∈ fileTags) (hOther : other ∈ fileTags) (hAt : openOf tag <+: text)
    (hOtherAt : openOf other <+: text) : tag = other := by
  have hApart : ∀ tag ∈ fileTags, ∀ other ∈ fileTags, openOf tag <+: openOf other → tag = other := by decide
  obtain hLe | hLe := Nat.le_total (openOf tag).length (openOf other).length
  · exact hApart tag hTag other hOther (List.prefix_of_prefix_length_le hAt hOtherAt hLe)
  · exact (hApart other hOther tag hTag (List.prefix_of_prefix_length_le hOtherAt hAt hLe)).symm

theorem openTag_eq_some (hTag : tag ∈ fileTags) (hAt : openOf tag <+: text) :
    openTag text = some (tag, text.drop (openOf tag).length) := by
  cases hFound : openTag text with
  | none =>
    rw [openTag, List.findSome?_eq_none_iff] at hFound
    have hMiss := hFound tag hTag
    rw [if_pos (List.isPrefixOf_iff_prefix.mpr hAt)] at hMiss
    cases hMiss
  | some found =>
    obtain ⟨other, hOther, hHere⟩ := List.exists_of_findSome?_eq_some hFound
    rw [Option.ite_none_right_eq_some, List.isPrefixOf_iff_prefix] at hHere
    obtain ⟨hOtherAt, hEq⟩ := hHere
    rw [openOf_unique hTag hOther hAt hOtherAt]
    exact hEq.symm

theorem nextFileListTag_eq (text : Text) : nextFileListTag text =
    match (findText (openOf "read-files".toList) text).map (·, "read-files".toList),
      (findText (openOf "modified-files".toList) text).map (·, "modified-files".toList) with
    | some read, some modified => if read.1 ≤ modified.1 then some read else some modified
    | read, modified => read <|> modified :=
  rfl

theorem not_openOf (hNone : findText (openOf tag) text = none) (j : Nat) : ¬ openOf tag <+: text.drop j := by
  obtain hGt | hLe := Nat.lt_or_ge text.length j
  · rw [List.drop_of_length_le hGt.le]
    exact fun hAt => List.cons_ne_nil _ _ (List.prefix_nil.mp hAt)
  · exact findText_eq_none_iff.mp hNone j hLe

theorem not_tagAt {j : Nat} (hRead : ¬ openOf "read-files".toList <+: text.drop j)
    (hModified : ¬ openOf "modified-files".toList <+: text.drop j) : ¬ TagAt (text.drop j) := by
  rintro ⟨tag, hTag, hAt⟩
  obtain rfl | hTag := List.mem_cons.mp hTag
  · exact hRead hAt
  · rw [List.mem_singleton.mp hTag] at hAt
    exact hModified hAt

theorem nextFileListTag_some {pos : Nat} (hNext : nextFileListTag text = some (pos, tag)) :
    tag ∈ fileTags ∧ openOf tag <+: text.drop pos ∧ pos ≤ text.length ∧ ∀ j < pos, ¬ TagAt (text.drop j) := by
  rw [nextFileListTag_eq] at hNext
  cases hRead : findText (openOf "read-files".toList) text with
  | none =>
    cases hModified : findText (openOf "modified-files".toList) text with
    | none =>
      rw [hRead, hModified] at hNext
      cases hNext
    | some modified =>
      rw [hRead, hModified] at hNext
      cases hNext
      obtain ⟨hAt, hLe, hFirst⟩ := findText_eq_some_iff.mp hModified
      exact ⟨by decide, hAt, hLe, fun j hLt => not_tagAt (not_openOf hRead j) (hFirst j hLt)⟩
  | some read =>
    obtain ⟨hAt, hLe, hFirst⟩ := findText_eq_some_iff.mp hRead
    cases hModified : findText (openOf "modified-files".toList) text with
    | none =>
      rw [hRead, hModified] at hNext
      cases hNext
      exact ⟨by decide, hAt, hLe, fun j hLt => not_tagAt (hFirst j hLt) (not_openOf hModified j)⟩
    | some modified =>
      obtain ⟨hAt', hLe', hFirst'⟩ := findText_eq_some_iff.mp hModified
      rw [hRead, hModified] at hNext
      dsimp only [Option.map_some] at hNext
      split at hNext
      · cases hNext
        exact ⟨by decide, hAt, hLe, fun j hLt => not_tagAt (hFirst j hLt) (hFirst' j (by omega))⟩
      · cases hNext
        exact ⟨by decide, hAt', hLe', fun j hLt => not_tagAt (hFirst j (by omega)) (hFirst' j hLt)⟩

theorem nextFileListTag_none (hNext : nextFileListTag text = none) (j : Nat) : ¬ TagAt (text.drop j) := by
  rw [nextFileListTag_eq] at hNext
  cases hRead : findText (openOf "read-files".toList) text with
  | none =>
    cases hModified : findText (openOf "modified-files".toList) text with
    | none => exact not_tagAt (not_openOf hRead j) (not_openOf hModified j)
    | some modified => rw [hRead, hModified] at hNext; cases hNext
  | some read =>
    cases hModified : findText (openOf "modified-files".toList) text with
    | none => rw [hRead, hModified] at hNext; cases hNext
    | some modified =>
      rw [hRead, hModified] at hNext
      dsimp only [Option.map_some] at hNext
      split at hNext <;> cases hNext

end Tags

section Blocks

variable {tag text kept : Text} {pos : Nat}

theorem blockAt_of_not (hNone : ¬ TagAt (text.dropWhile (· == '\n'))) : blockAt text = none := by
  rw [blockAt, openTag_eq_none hNone, Option.bind_none]

theorem openOf_at (hAt : openOf tag <+: text.drop pos) : text[pos]? = some '<' := by
  have hHead := head_of_openOf hAt
  rwa [List.head?_drop] at hHead

theorem blockAt_before {i n : Nat} {c : Char} (hAt : text[n]? = some c) (hChar : c ≠ '\n') (hLe : i ≤ n)
    (hFirst : ∀ j, i ≤ j → j ≤ n → ¬ TagAt (text.drop j)) : blockAt (text.drop i) = none := by
  obtain ⟨j, hFrom, hTo, hDrop⟩ := @dropWhile_upto _ (· == '\n') _ i n c hAt (beq_eq_false_iff_ne.mpr hChar) hLe
  refine blockAt_of_not ?_
  rw [hDrop]
  exact hFirst j hFrom hTo

theorem cut_plain (hNone : ∀ j, ¬ TagAt (text.drop j)) : Cut blockAt text text := by
  have hMiss (i : Nat) : blockAt (text.drop i) = none := by
    refine blockAt_of_not ?_
    have hSuffix : (text.drop i).dropWhile (· == '\n') <:+ text := (List.dropWhile_suffix _).trans (List.drop_suffix i text)
    rw [List.suffix_iff_eq_drop.mp hSuffix]
    exact hNone _
  have hEnd : Cut blockAt (text.drop text.length) [] := by
    have hNil := hMiss text.length
    rw [List.drop_length] at hNil ⊢
    exact .nil hNil
  have hKept := Cut.keeps (fun i _ => hMiss i) (Nat.le_refl _) hEnd
  rwa [List.take_length, List.append_nil] at hKept

theorem cut_block {offset : Nat} (hTag : tag ∈ fileTags) (hAt : openOf tag <+: text.drop pos) (hLe : pos ≤ text.length)
    (hFirst : ∀ j < pos, ¬ TagAt (text.drop j))
    (hClose : findText (closeOf tag) (text.drop (pos + (openOf tag).length)) = some offset)
    (hRest : Cut blockAt (text.drop (pos + (openOf tag).length + (offset + (closeOf tag).length))) kept) :
    Cut blockAt text ((text.take pos).rdropWhile (· == '\n') ++ kept) := by
  obtain ⟨m, hShort, hTake, hRun, hEnd⟩ := @rdropWhile_take _ (· == '\n') _ _ hLe
  rw [hTake]
  refine Cut.keeps (fun i hLt => ?_) (by omega) (.drop ?_ hRest)
  · obtain hZero | ⟨c, hChar, hOther⟩ := hEnd
    · omega
    · exact blockAt_before hChar (beq_eq_false_iff_ne.mp hOther) (by omega) fun j _ hTo => hFirst j (by omega)
  · rw [blockAt, dropWhile_run (openOf_at hAt) (by decide) hShort hRun, openTag_eq_some hTag hAt, Option.bind_some]
    dsimp only
    rw [List.drop_drop, hClose, Option.map_some, List.drop_drop]

theorem cut_open (hTag : tag ∈ fileTags) (hAt : openOf tag <+: text.drop pos) (hFirst : ∀ j < pos, ¬ TagAt (text.drop j))
    (hOpen : findText (closeOf tag) (text.drop (pos + (openOf tag).length)) = none)
    (hRest : Cut blockAt (text.drop (pos + (openOf tag).length)) kept) :
    Cut blockAt text (text.take (pos + (openOf tag).length) ++ kept) := by
  have hLength : pos + (openOf tag).length ≤ text.length := by
    have hFits := hAt.length_le
    rw [List.length_drop] at hFits
    have hSome : 0 < (openOf tag).length := Nat.succ_pos _
    omega
  refine Cut.keeps (fun i hLt => ?_) hLength hRest
  obtain hBehind | hBefore := Nat.lt_or_ge pos i
  · obtain ⟨c, hChar, hNotOpen, hNotNewline⟩ := openOf_within hTag (show 0 < i - pos by omega) (by omega)
    have hHere : text[i]? = some c := by
      obtain ⟨rest, hText⟩ := hAt
      have hIndex : text[pos + (i - pos)]? = (openOf tag ++ rest)[i - pos]? := by rw [hText, List.getElem?_drop]
      rwa [List.getElem?_append_left (by omega), hChar, Nat.add_sub_cancel' hBehind.le] at hIndex
    refine blockAt_before hHere hNotNewline (Nat.le_refl _) fun j hFrom hTo => ?_
    obtain rfl := Nat.le_antisymm hFrom hTo
    rintro ⟨other, -, hOther⟩
    rw [openOf_at hOther] at hHere
    exact hNotOpen (Option.some.inj hHere).symm
  · obtain ⟨j, -, hTo, hDrop⟩ := @dropWhile_upto _ (· == '\n') _ i _ _ (openOf_at hAt) (by decide) hBefore
    obtain rfl | hEarlier := Nat.eq_or_lt_of_le hTo
    · rw [blockAt, hDrop, openTag_eq_some hTag hAt, Option.bind_some]
      dsimp only
      rw [List.drop_drop, hOpen, Option.map_none]
    · refine blockAt_of_not ?_
      rw [hDrop]
      exact hFirst j hEarlier

theorem stripLoop_cut (fuel : Nat) : ∀ result rest : Text, rest.length < fuel →
    ∃ kept, Cut blockAt rest kept ∧ stripLoop fuel result rest = result ++ kept := by
  induction fuel with
  | zero => exact fun _ _ hFuel => absurd hFuel (Nat.not_lt_zero _)
  | succ fuel ih =>
    intro result rest hFuel
    rw [stripLoop]
    cases hNext : nextFileListTag rest with
    | none => exact ⟨rest, cut_plain (nextFileListTag_none hNext), rfl⟩
    | some next =>
      obtain ⟨pos, tag⟩ := next
      obtain ⟨hTag, hAt, hLe, hFirst⟩ := nextFileListTag_some hNext
      have hOpen : pos + tag.length + 2 = pos + (openOf tag).length := by
        rw [openOf, List.length_append, List.length_cons, List.length_singleton]
        omega
      have hFits := hAt.length_le
      rw [List.length_drop] at hFits
      have hCloseOf : ['<', '/'] ++ tag ++ ['>'] = closeOf tag := rfl
      dsimp only
      rw [hOpen, hCloseOf]
      cases hClose : findText (closeOf tag) (rest.drop (pos + (openOf tag).length)) with
      | none =>
        obtain ⟨kept, hCut, hEq⟩ := ih (result ++ rest.take (pos + (openOf tag).length))
          (rest.drop (pos + (openOf tag).length)) (by rw [List.length_drop]; omega)
        refine ⟨_, cut_open hTag hAt hFirst hClose hCut, ?_⟩
        rw [← List.append_assoc, ← hEq]
      | some offset =>
        obtain ⟨kept, hCut, hEq⟩ := ih (result ++ (rest.take pos).rdropWhile (· == '\n'))
          (rest.drop (pos + (openOf tag).length + (offset + (closeOf tag).length))) (by rw [List.length_drop]; omega)
        refine ⟨_, cut_block hTag hAt hLe hFirst hClose hCut, ?_⟩
        rw [← List.append_assoc, ← hEq, ← Nat.add_assoc]

end Blocks

/-! ### The blocks behind a summary -/

def fileBlock (tag : Text) (files : List String) : Text :=
  openOf tag ++ '\n' :: List.intercalate ['\n'] (files.map (·.toList)) ++ '\n' :: closeOf tag

def formatFileOperations (readFiles modifiedFiles : List String) : Text :=
  let blocks := (if readFiles.isEmpty then [] else [fileBlock "read-files".toList readFiles])
    ++ (if modifiedFiles.isEmpty then [] else [fileBlock "modified-files".toList modifiedFiles])
  if blocks.isEmpty then [] else ['\n', '\n'] ++ List.intercalate ['\n', '\n'] blocks

section Format

variable {tag pattern kept : Text} {files : List String}

theorem infix_of_append {c : Char} (hFree : c ∉ pattern) {before after : Text}
    (hIn : pattern <:+: before ++ c :: after) : pattern <:+: before ∨ pattern <:+: after := by
  obtain ⟨front, back, hEq⟩ := hIn
  have hAt : pattern <+: (before ++ c :: after).drop front.length := by
    rw [← hEq, List.append_assoc, List.drop_left]
    exact List.prefix_append _ _
  obtain hBehind | hLe := Nat.lt_or_ge before.length front.length
  · obtain ⟨k, hk⟩ := Nat.exists_eq_add_of_lt hBehind
    rw [hk, Nat.add_assoc, ← List.drop_drop, List.drop_left, List.drop_succ_cons] at hAt
    exact .inr (hAt.isInfix.trans (List.drop_suffix _ _).isInfix)
  · rw [List.drop_append_of_le_length hLe] at hAt
    exact .inl ((prefix_of_append hFree hAt).isInfix.trans (List.drop_suffix _ _).isInfix)

theorem infix_of_intercalate {c : Char} (hFree : c ∉ pattern) (hSome : pattern ≠ []) {parts : List Text}
    (hIn : pattern <:+: List.intercalate [c] parts) : ∃ part ∈ parts, pattern <:+: part := by
  induction parts with
  | nil => exact absurd (List.infix_nil.mp hIn) hSome
  | cons part parts ih =>
    cases parts with
    | nil =>
      rw [List.intercalate_singleton] at hIn
      exact ⟨part, List.mem_cons_self, hIn⟩
    | cons next parts =>
      rw [List.intercalate_cons_cons, List.append_assoc, List.singleton_append] at hIn
      obtain hHere | hRest := infix_of_append hFree hIn
      · exact ⟨part, List.mem_cons_self, hHere⟩
      · obtain ⟨found, hMem, hFound⟩ := ih hRest
        exact ⟨found, List.mem_cons_of_mem _ hMem, hFound⟩

theorem drop_joined (joined rest : Text) : ('\n' :: joined ++ '\n' :: rest).drop (joined.length + 2) = rest := by
  rw [show joined.length + 2 = ('\n' :: joined).length + 1 from rfl, ← List.drop_drop, List.drop_left]
  rfl

theorem findText_files (hTag : tag ∈ fileTags) (hFiles : ∀ file ∈ files, ¬ closeOf tag <:+: file.toList) (rest : Text) :
    findText (closeOf tag) ('\n' :: List.intercalate ['\n'] (files.map (·.toList)) ++ '\n' :: (closeOf tag ++ rest))
      = some ((List.intercalate ['\n'] (files.map (·.toList))).length + 2) := by
  have hSome : closeOf tag ≠ [] := List.cons_ne_nil _ _
  generalize hJoined : List.intercalate ['\n'] (files.map (·.toList)) = joined
  have hNone : ¬ closeOf tag <:+: '\n' :: joined := by
    intro hIn
    obtain hNil | hIn := infix_of_append (closeOf_newline hTag) (show closeOf tag <:+: [] ++ '\n' :: joined from hIn)
    · exact hSome (List.infix_nil.mp hNil)
    · rw [← hJoined] at hIn
      obtain ⟨part, hPart, hIn⟩ := infix_of_intercalate (closeOf_newline hTag) hSome hIn
      obtain ⟨file, hFile, rfl⟩ := List.mem_map.mp hPart
      exact hFiles file hFile hIn
  rw [findText_eq_some_iff]
  refine ⟨?_, ?_, fun j hLt hAt => hNone ?_⟩
  · rw [drop_joined]
    exact List.prefix_append _ _
  · simp only [List.length_append, List.length_cons]
    omega
  · rw [List.drop_append_of_le_length (by rw [List.length_cons]; omega)] at hAt
    exact (prefix_of_append (closeOf_newline hTag) hAt).isInfix.trans (List.drop_suffix _ _).isInfix

theorem cut_fileBlock {before rest : Text} (hTag : tag ∈ fileTags) (hBefore : ∀ j, ¬ TagAt (before.drop j))
    (hFiles : ∀ file ∈ files, ¬ closeOf tag <:+: file.toList) (hRest : Cut blockAt rest kept) :
    Cut blockAt (before ++ '\n' :: '\n' :: (fileBlock tag files ++ rest)) (before.rdropWhile (· == '\n') ++ kept) := by
  generalize hBody : '\n' :: List.intercalate ['\n'] (files.map (·.toList)) ++ '\n' :: (closeOf tag ++ rest) = body
  have hText : before ++ '\n' :: '\n' :: (fileBlock tag files ++ rest)
      = before ++ ['\n', '\n'] ++ (openOf tag ++ body) := by
    rw [← hBody, fileBlock]
    simp
  have hLength : (before ++ ['\n', '\n']).length = before.length + 2 := List.length_append
  have hOpen : (before ++ ['\n', '\n'] ++ (openOf tag ++ body)).drop (before.length + 2) = openOf tag ++ body := by
    rw [← hLength, List.drop_left]
  have hBehind : (before ++ ['\n', '\n'] ++ (openOf tag ++ body)).drop (before.length + 2 + (openOf tag).length)
      = body := by
    rw [← List.drop_drop, hOpen, List.drop_left]
  have hFound := findText_files hTag hFiles rest
  rw [hBody] at hFound
  have hTake : ((before ++ ['\n', '\n'] ++ (openOf tag ++ body)).take (before.length + 2)).rdropWhile (· == '\n')
      = before.rdropWhile (· == '\n') := by
    rw [← hLength, List.take_left, show before ++ ['\n', '\n'] = before ++ ['\n'] ++ ['\n'] by simp,
      List.rdropWhile_concat_pos _ _ _ (by decide), List.rdropWhile_concat_pos _ _ _ (by decide)]
  rw [hText, ← hTake]
  refine cut_block hTag (by rw [hOpen]; exact List.prefix_append _ _) (by simp) (fun j hLt => ?_)
    (by rw [hBehind]; exact hFound) ?_
  · rintro ⟨other, hOther, hAt⟩
    obtain hLast | hLe := Nat.lt_or_ge before.length j
    · have hHead := openOf_at hAt
      rw [show j = before.length + 1 by omega] at hHead
      simp at hHead
    · rw [List.append_assoc, List.drop_append_of_le_length hLe] at hAt
      exact hBefore j ⟨other, hOther, prefix_of_append (openOf_newline hOther) hAt⟩
  · rw [← List.drop_drop, hBehind, ← hBody, ← List.drop_drop, drop_joined, List.drop_left]
    exact hRest

theorem rdropWhile_rdropWhile {p q : Char → Bool} (hSub : ∀ c, q c = true → p c = true) (text : Text) :
    (text.rdropWhile q).rdropWhile p = text.rdropWhile p := by
  rw [List.rdropWhile, List.rdropWhile, List.reverse_reverse, List.rdropWhile]
  congr 1
  induction text.reverse with
  | nil => rfl
  | cons c rest ih =>
    rw [List.dropWhile_cons]
    split
    · rename_i hTest
      rw [ih, List.dropWhile_cons_of_pos (hSub c hTest)]
    · rfl

theorem cut_formatFileOperations {summary : Text} {readFiles modifiedFiles : List String}
    (hTags : ∀ j, ¬ TagAt (summary.drop j))
    (hRead : ∀ path ∈ readFiles, ¬ closeOf "read-files".toList <:+: path.toList)
    (hModified : ∀ path ∈ modifiedFiles, ¬ closeOf "modified-files".toList <:+: path.toList) :
    ∃ kept, Cut blockAt (summary ++ formatFileOperations readFiles modifiedFiles) kept ∧ trimEnd kept = trimEnd summary := by
  have hNone : ∀ j, ¬ TagAt (([] : Text).drop j) := by
    rintro j ⟨tag, -, hAt⟩
    rw [List.drop_nil] at hAt
    exact List.cons_ne_nil _ _ (List.prefix_nil.mp hAt)
  have hEnd : Cut blockAt [] [] := cut_plain hNone
  have hNewline : ∀ c : Char, (c == '\n') = true → isWhitespace c = true := by
    intro c hChar
    rw [eq_of_beq hChar]
    rfl
  have hTrim : trimEnd (summary.rdropWhile (· == '\n')) = trimEnd summary := rdropWhile_rdropWhile hNewline summary
  cases readFiles with
  | nil =>
    cases modifiedFiles with
    | nil => exact ⟨summary, by rw [formatFileOperations]; simpa using cut_plain hTags, rfl⟩
    | cons modified others =>
      refine ⟨_, ?_, hTrim⟩
      have hCut := cut_fileBlock (by decide) hTags hModified hEnd
      rw [List.append_nil] at hCut
      simpa [formatFileOperations] using hCut
  | cons read reads =>
    cases modifiedFiles with
    | nil =>
      refine ⟨_, ?_, hTrim⟩
      have hCut := cut_fileBlock (by decide) hTags hRead hEnd
      rw [List.append_nil] at hCut
      simpa [formatFileOperations] using hCut
    | cons modified others =>
      refine ⟨_, ?_, hTrim⟩
      have hCut := cut_fileBlock (by decide) hTags hRead (cut_fileBlock (by decide) hNone hModified hEnd)
      rw [List.append_nil, List.rdropWhile_nil, List.append_nil] at hCut
      simpa [formatFileOperations, List.intercalate_cons_cons] using hCut

theorem not_tagAt_drop {text : Text} (hTags : ∀ tag ∈ fileTags, ¬ openOf tag <:+: text) (j : Nat) : ¬ TagAt (text.drop j) := by
  rintro ⟨tag, hTag, hAt⟩
  exact hTags tag hTag (hAt.isInfix.trans (List.drop_suffix j text).isInfix)

/-- Stripping a summary undoes the blocks appended to it; and on every text it cuts out the blocks, from the left, with
any fuel that covers the text. -/
theorem stripFileListBlocks_cuts :
    (∀ (summary : String) (readFiles modifiedFiles : List String),
      (∀ tag ∈ fileTags, ¬ openOf tag <:+: summary.toList) →
      (∀ path ∈ readFiles, ¬ closeOf "read-files".toList <:+: path.toList) →
      (∀ path ∈ modifiedFiles, ¬ closeOf "modified-files".toList <:+: path.toList) →
        stripFileListBlocks (String.ofList (summary.toList ++ formatFileOperations readFiles modifiedFiles))
          = trimEnd summary.toList) ∧
    (∀ text : String, ∃ kept, Cut blockAt text.toList kept ∧ stripFileListBlocks text = trimEnd kept ∧
      ∀ fuel, text.toList.length < fuel → stripLoop fuel [] text.toList = kept) := by
  have hStrip (text : String) : ∃ kept, Cut blockAt text.toList kept ∧ stripFileListBlocks text = trimEnd kept ∧
      ∀ fuel, text.toList.length < fuel → stripLoop fuel [] text.toList = kept := by
    obtain ⟨kept, hCut, hEq⟩ := stripLoop_cut (text.toList.length + 1) [] text.toList (Nat.lt_succ_self _)
    refine ⟨kept, hCut, by rw [stripFileListBlocks, hEq]; rfl, fun fuel hFuel => ?_⟩
    obtain ⟨other, hOther, hEq'⟩ := stripLoop_cut fuel [] text.toList hFuel
    rw [hEq', hOther.determined hCut]
    rfl
  refine ⟨fun summary readFiles modifiedFiles hTags hRead hModified => ?_, hStrip⟩
  obtain ⟨kept, hCut, hEq, -⟩ := hStrip (String.ofList (summary.toList ++ formatFileOperations readFiles modifiedFiles))
  obtain ⟨other, hOther, hTrim⟩ := cut_formatFileOperations (not_tagAt_drop hTags) hRead hModified
  rw [String.toList_ofList] at hCut
  rw [hEq, hCut.determined hOther, hTrim]

theorem stripFileListBlocks_done :
    stripFileListBlocks (String.ofList ("done\n".toList ++ formatFileOperations ["a.rs"] ["b.rs"])) = trimEnd "done\n".toList :=
  stripFileListBlocks_cuts.1 "done\n" ["a.rs"] ["b.rs"] (by decide) (by decide) (by decide)

theorem stripFileListBlocks_rest :
    stripFileListBlocks (String.ofList ("done".toList ++ formatFileOperations ["</read-files>"] []))
      = "done\n</read-files>".toList ∧ "done\n</read-files>".toList ≠ trimEnd "done".toList ∧
    (∀ tag ∈ fileTags, ¬ openOf tag <:+: "done".toList ∧ ¬ openOf tag <:+: "</read-files>".toList) := by
  decide

end Format

end PrimeAgent
