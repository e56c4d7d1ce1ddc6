import PrimeAgent.Tools.StreamingUtf8

/-! # Truncating a tool's output

The head keeps the first lines of a text that fit, the tail the last ones. A line that does not fit behind blank lines is
cut to its end.
-/
namespace PrimeAgent.Tools

structure TruncationOptions where
  maxLines : Nat
  maxBytes : Nat

inductive TruncatedBy where
  | lines
  | bytes
deriving DecidableEq

structure TruncationResult where
  content : Text
  truncated : Bool
  truncatedBy : Option TruncatedBy
  totalLines : Nat
  totalBytes : Nat
  outputLines : Nat
  outputBytes : Nat
  lastLinePartial : Bool
  firstLineExceedsLimit : Bool
  maxLines : Nat
  maxBytes : Nat
deriving DecidableEq

/-- `str::len`. -/
def byteLength (text : Text) : Nat :=
  (utf8 text).length

def joinLines (lines : List Text) : Text :=
  ['\n'].intercalate lines

def unchanged (content : Text) (options : TruncationOptions) : TruncationResult where
  content := content
  truncated := false
  truncatedBy := none
  totalLines := (content.splitOn '\n').length
  totalBytes := byteLength content
  outputLines := (content.splitOn '\n').length
  outputBytes := byteLength content
  lastLinePartial := false
  firstLineExceedsLimit := false
  maxLines := options.maxLines
  maxBytes := options.maxBytes

def headLoop (maxBytes : Nat) : List Text → Nat → Nat → List Text × Nat × TruncatedBy
  | [], _, count => ([], count, .lines)
  | line :: lines, i, count =>
    let lineBytes := byteLength line + if 0 < i then 1 else 0
    if maxBytes < count + lineBytes then ([], count, .bytes)
    else
      let (kept, total, truncatedBy) := headLoop maxBytes lines (i + 1) (count + lineBytes)
      (line :: kept, total, truncatedBy)

def truncateHead (content : Text) (options : TruncationOptions) : TruncationResult :=
  let lines := content.splitOn '\n'
  if lines.length ≤ options.maxLines ∧ byteLength content ≤ options.maxBytes then unchanged content options
  else if options.maxBytes < byteLength (lines.headD []) then
    { unchanged content options with
      content := []
      truncated := true
      truncatedBy := some .bytes
      outputLines := 0
      outputBytes := 0
      firstLineExceedsLimit := true }
  else
    let (kept, count, truncatedBy) := headLoop options.maxBytes (lines.take options.maxLines) 0 0
    { unchanged content options with
      content := joinLines kept
      truncated := true
      truncatedBy := some (if options.maxLines ≤ kept.length ∧ count ≤ options.maxBytes then .lines else truncatedBy)
      outputLines := kept.length
      outputBytes := byteLength (joinLines kept) }

def truncateStringToBytesFromEnd (s : Text) (maxBytes : Nat) : Text :=
  if byteLength s ≤ maxBytes then s
  else Utf8.lossy (((utf8 s).drop (byteLength s - maxBytes)).dropWhile fun b => b &&& 0xC0 = 0x80)

/-- The loop over the lines from the last one on: what is collected, its bytes, the limit that ended the loop, and whether
the first line is cut. -/
def tailLoop (maxLines maxBytes : Nat) : List Text → List Text → Nat → List Text × Nat × TruncatedBy × Bool
  | [], collected, count => (collected, count, .lines, false)
  | line :: before, collected, count =>
    if maxLines ≤ collected.length then (collected, count, .lines, false)
    else
      let lineBytes := byteLength line + if collected.isEmpty then 0 else 1
      if maxBytes < count + lineBytes then
        if collected.all List.isEmpty then
          let keptBlanks := min collected.length (maxBytes - 1)
          let truncatedLine := truncateStringToBytesFromEnd line (maxBytes - keptBlanks)
          (truncatedLine :: collected.take keptBlanks, byteLength truncatedLine + keptBlanks, .bytes, true)
        else (collected, count, .bytes, false)
      else tailLoop maxLines maxBytes before (line :: collected) (count + lineBytes)

def truncateTail (content : Text) (options : TruncationOptions) : TruncationResult :=
  let lines := content.splitOn '\n'
  if lines.length ≤ options.maxLines ∧ byteLength content ≤ options.maxBytes then unchanged content options
  else
    let (collected, count, truncatedBy, lastLinePartial) :=
      tailLoop options.maxLines options.maxBytes lines.reverse [] 0
    { unchanged content options with
      content := joinLines collected
      truncated := true
      truncatedBy := some (if options.maxLines ≤ collected.length ∧ count ≤ options.maxBytes then .lines else truncatedBy)
      outputLines := collected.length
      outputBytes := byteLength (joinLines collected)
      lastLinePartial }

def joinedBytes (lines : List Text) : Nat :=
  (lines.map byteLength).sum + (lines.length - 1)

def Fits (options : TruncationOptions) (lines : List Text) : Prop :=
  lines.length ≤ options.maxLines ∧ joinedBytes lines ≤ options.maxBytes

structure LongestPrefix (options : TruncationOptions) (lines kept : List Text) : Prop where
  whole : kept <+: lines
  fits : Fits options kept
  longest : ∀ more, more <+: lines → Fits options more → more.length ≤ kept.length

structure LongestSuffix (options : TruncationOptions) (lines kept : List Text) : Prop where
  whole : kept <:+ lines
  fits : Fits options kept
  longest : ∀ more, more <:+ lines → Fits options more → more.length ≤ kept.length

structure LongestEnd (maxBytes : Nat) (text cut : Text) : Prop where
  whole : cut <:+ text
  fits : byteLength cut ≤ maxBytes
  longest : ∀ more, more <:+ text → byteLength more ≤ maxBytes → more.length ≤ cut.length

def Blank (lines : List Text) : Prop :=
  ∀ line ∈ lines, line = []

structure Oversized (options : TruncationOptions) (lines kept : List Text) (line : Text) : Prop where
  next : ∃ earlier, lines = earlier ++ line :: kept
  blank : Blank kept
  room : kept.length < options.maxLines
  text : line ≠ []

structure Told (content : Text) (options : TruncationOptions) (result : TruncationResult) : Prop where
  bytes : result.outputBytes = byteLength result.content
  withinBytes : result.outputBytes ≤ options.maxBytes
  withinLines : result.outputLines ≤ options.maxLines
  truncated : result.truncated = false ↔
    (content.splitOn '\n').length ≤ options.maxLines ∧ byteLength content ≤ options.maxBytes
  unchanged : result.truncated = false → result.content = content

structure HeadMeets (content : Text) (options : TruncationOptions) (result : TruncationResult) : Prop where
  told : Told content options result
  longest : ∃ kept, LongestPrefix options (content.splitOn '\n') kept ∧
    result.content = joinLines kept ∧ result.outputLines = kept.length
  exceeds : result.firstLineExceedsLimit = true ↔ options.maxBytes < byteLength ((content.splitOn '\n').headD [])
  empty : result.firstLineExceedsLimit = true → result.content = []
  complete : result.lastLinePartial = false

structure TailMeets (content : Text) (options : TruncationOptions) (result : TruncationResult) : Prop where
  told : Told content options result
  longest : ∃ kept, LongestSuffix options (content.splitOn '\n') kept ∧
    ((∀ line, ¬ Oversized options (content.splitOn '\n') kept line) →
      result.content = joinLines kept ∧ result.outputLines = kept.length ∧ result.lastLinePartial = false) ∧
    ∀ line, Oversized options (content.splitOn '\n') kept line →
      ∃ cut, LongestEnd (options.maxBytes - min kept.length (options.maxBytes - 1)) line cut ∧
        result.content = cut ++ List.replicate (min kept.length (options.maxBytes - 1)) '\n' ∧
        result.lastLinePartial = true

def BlankTail (content : Text) (options : TruncationOptions) : Prop :=
  options.maxBytes + 2 ≤ options.maxLines ∧ List.replicate (options.maxBytes + 2) [] <:+ content.splitOn '\n'

section Lines

variable {content line : Text} {lines kept before : List Text}

theorem byteLength_append (text text' : Text) : byteLength (text ++ text') = byteLength text + byteLength text' := by
  rw [byteLength, utf8, Utf8.encode_append, List.length_append]
  rfl

theorem byteLength_joinLines : ∀ lines : List Text, byteLength (joinLines lines) = joinedBytes lines
  | [] => rfl
  | [line] => by
    rw [joinLines, List.intercalate_singleton, joinedBytes, List.map_singleton, List.sum_singleton]
    rfl
  | line :: next :: lines => by
    have hRest := byteLength_joinLines (next :: lines)
    rw [joinLines] at hRest ⊢
    rw [List.intercalate_cons_cons, byteLength_append, byteLength_append, hRest, joinedBytes, joinedBytes]
    have hNewline : byteLength ['\n'] = 1 := rfl
    simp only [List.map_cons, List.sum_cons, List.length_cons, hNewline]
    omega

theorem joinLines_splitOn (content : Text) : joinLines (content.splitOn '\n') = content :=
  List.intercalate_splitOn '\n'

theorem byteLength_content (content : Text) : byteLength content = joinedBytes (content.splitOn '\n') := by
  rw [← byteLength_joinLines, joinLines_splitOn]

theorem joinedBytes_concat (lines : List Text) (line : Text) :
    joinedBytes (lines ++ [line]) = joinedBytes lines + (byteLength line + if 0 < lines.length then 1 else 0) := by
  rw [joinedBytes, joinedBytes, List.map_append, List.sum_append, List.length_append]
  simp only [List.map_cons, List.map_nil, List.sum_cons, List.sum_nil, List.length_cons, List.length_nil]
  split <;> omega

theorem joinedBytes_cons (line : Text) (lines : List Text) :
    joinedBytes (line :: lines) = joinedBytes lines + (byteLength line + if lines.isEmpty then 0 else 1) := by
  rw [joinedBytes, joinedBytes, List.map_cons, List.sum_cons, List.length_cons]
  cases lines with
  | nil => simp
  | cons _ _ =>
    simp only [List.length_cons, List.isEmpty_cons, Bool.false_eq_true, if_false]
    omega

theorem joinedBytes_le_append (lines more : List Text) : joinedBytes lines ≤ joinedBytes (lines ++ more) := by
  rw [joinedBytes, joinedBytes, List.map_append, List.sum_append, List.length_append]
  omega

theorem joinedBytes_le_prepend (more lines : List Text) : joinedBytes lines ≤ joinedBytes (more ++ lines) := by
  rw [joinedBytes, joinedBytes, List.map_append, List.sum_append, List.length_append]
  omega

theorem joinedBytes_blank (hBlank : Blank lines) : joinedBytes lines = lines.length - 1 := by
  have hSum : (lines.map byteLength).sum = 0 := by
    induction lines with
    | nil => rfl
    | cons line lines ih =>
      obtain ⟨rfl, hRest⟩ := List.forall_mem_cons.mp hBlank
      rw [List.map_cons, List.sum_cons, ih hRest]
      rfl
  rw [joinedBytes, hSum, Nat.zero_add]

theorem joinLines_blank (line : Text) : ∀ lines : List Text, Blank lines →
    joinLines (line :: lines) = line ++ List.replicate lines.length '\n' := by
  intro lines
  induction lines generalizing line with
  | nil =>
    intro _
    rw [joinLines, List.intercalate_singleton]
    exact (List.append_nil line).symm
  | cons next lines ih =>
    intro hBlank
    obtain ⟨rfl, hRest⟩ := List.forall_mem_cons.mp hBlank
    have hJoined := ih [] hRest
    rw [joinLines] at hJoined ⊢
    rw [List.intercalate_cons_cons, hJoined, List.append_assoc]
    rfl

end Lines

section Head

variable {options : TruncationOptions} {lines kept : List Text}

theorem headLoop_spec (maxBytes : Nat) : ∀ (lines taken : List Text), joinedBytes taken ≤ maxBytes →
    ∃ kept rest by', headLoop maxBytes lines taken.length (joinedBytes taken) = (kept, joinedBytes (taken ++ kept), by') ∧
      lines = kept ++ rest ∧ joinedBytes (taken ++ kept) ≤ maxBytes ∧
      ∀ line more, rest = line :: more → maxBytes < joinedBytes (taken ++ kept ++ [line]) := by
  intro lines
  induction lines with
  | nil =>
    intro taken hTaken
    refine ⟨[], [], .lines, ?_, rfl, ?_, fun _ _ hNil => nomatch hNil⟩
    · rw [headLoop, List.append_nil]
    · rwa [List.append_nil]
  | cons line lines ih =>
    intro taken hTaken
    have hConcat := joinedBytes_concat taken line
    rw [headLoop]
    dsimp only
    rw [← hConcat]
    rcases Nat.lt_or_ge maxBytes (joinedBytes (taken ++ [line])) with hExceeds | hFits
    · rw [if_pos hExceeds]
      refine ⟨[], line :: lines, .bytes, ?_, rfl, ?_, ?_⟩
      · rw [List.append_nil]
      · rwa [List.append_nil]
      · intro line' more hRest
        obtain ⟨rfl, rfl⟩ := List.cons.inj hRest
        rwa [List.append_nil]
    · obtain ⟨kept, rest, by', hLoop, hLines, hKept, hNext⟩ := ih (taken ++ [line]) hFits
      have hAssoc : taken ++ [line] ++ kept = taken ++ line :: kept := List.append_assoc _ _ _
      rw [List.length_append, List.length_singleton] at hLoop
      rw [if_neg (Nat.not_lt.mpr hFits), hLoop, hAssoc]
      rw [hAssoc] at hKept hNext
      exact ⟨line :: kept, rest, by', rfl, congrArg (line :: ·) hLines, hKept, hNext⟩

theorem headLoop_longest (options : TruncationOptions) (lines : List Text) :
    ∃ kept by', headLoop options.maxBytes (lines.take options.maxLines) 0 0 = (kept, joinedBytes kept, by') ∧
      LongestPrefix options lines kept := by
  obtain ⟨kept, rest, by', hLoop, hLines, hKept, hNext⟩ :=
    headLoop_spec options.maxBytes (lines.take options.maxLines) [] (Nat.zero_le _)
  rw [List.nil_append] at hLoop hKept hNext
  have hPrefix : kept <+: lines.take options.maxLines := ⟨rest, hLines.symm⟩
  refine ⟨kept, by', hLoop, hPrefix.trans (List.take_prefix _ _), ⟨?_, hKept⟩, ?_⟩
  · exact Nat.le_trans hPrefix.length_le (List.length_take_le _ _)
  · intro more hMore hFits
    have hTaken : more <+: kept ++ rest := by
      rw [← hLines, List.prefix_take_iff]
      exact ⟨hMore, hFits.1⟩
    by_contra hLonger
    obtain ⟨extra, rfl⟩ := List.prefix_of_prefix_length_le (List.prefix_append kept rest) hTaken (by omega)
    cases extra with
    | nil => exact hLonger (Nat.le_of_eq (congrArg List.length (List.append_nil kept)))
    | cons line extra =>
      obtain ⟨after, hAfter⟩ := hTaken
      rw [List.append_assoc, List.append_cancel_left_eq] at hAfter
      have hOver := hNext line (extra ++ after) hAfter.symm
      have hMono := joinedBytes_le_append (kept ++ [line]) extra
      rw [List.append_assoc, List.singleton_append] at hMono
      exact absurd hFits.2 (by omega)

theorem longestPrefix_nil {first : Text} {rest : List Text} (hExceeds : options.maxBytes < byteLength first) :
    LongestPrefix options (first :: rest) [] := by
  refine ⟨List.nil_prefix, ⟨Nat.zero_le _, Nat.zero_le _⟩, ?_⟩
  intro more hMore hFits
  cases more with
  | nil => exact Nat.le_refl _
  | cons line more =>
    obtain ⟨rfl, -⟩ := List.cons_prefix_cons.mp hMore
    have hLine := joinedBytes_cons line more
    exact absurd hFits.2 (by omega)

end Head

section Cut

variable {text : Text}

theorem encodeChar_lead (c : Char) : ∃ first rest, String.utf8EncodeChar c = first :: rest ∧
    ¬ first &&& 0xC0 = 0x80 ∧ ∀ b ∈ rest, b &&& 0xC0 = 0x80 := by
  have hTail {b : UInt8} (h : Utf8.isTail b = true) : b &&& 0xC0 = 0x80 := by
    by_contra hMask
    rw [isTail_mask.mp hMask] at h
    cases h
  have hLead {a : UInt8} (h : a.toNat < 0x80 ∨ 0xC0 ≤ a.toNat) : ¬ a &&& 0xC0 = 0x80 := by
    refine isTail_mask.mpr (Bool.eq_false_iff.mpr fun hIs => ?_)
    have := Utf8.isTail_iff.mp hIs
    omega
  have hForm := Utf8.form_encodeChar c
  generalize String.utf8EncodeChar c = bytes at hForm ⊢
  cases hForm with
  | one hFirst => exact ⟨_, [], rfl, hLead (Or.inl hFirst), fun _ hMem => nomatch hMem⟩
  | two hFirst hOpens =>
    have := Utf8.opens_iff.mp hOpens
    refine ⟨_, _, rfl, hLead (by omega), ?_⟩
    simpa using hTail hOpens.1
  | three hFirst hOpens hThird =>
    refine ⟨_, _, rfl, hLead (by omega), ?_⟩
    simpa using And.intro (hTail hOpens.1) (hTail hThird)
  | four hFirst hOpens hThird hFourth =>
    refine ⟨_, _, rfl, hLead (by omega), ?_⟩
    simpa using And.intro (hTail hOpens.1) (And.intro (hTail hThird) (hTail hFourth))

theorem dropWhile_encode (text : Text) : (utf8 text).dropWhile (fun b => b &&& 0xC0 = 0x80) = utf8 text := by
  cases text with
  | nil => rfl
  | cons c text =>
    obtain ⟨first, rest, hChar, hFirst, -⟩ := encodeChar_lead c
    rw [utf8, Utf8.encode_cons, hChar, List.cons_append, List.dropWhile_cons_of_neg]
    simpa using hFirst

theorem dropWhile_tails {tails : Bytes} (hTails : ∀ b ∈ tails, b &&& 0xC0 = 0x80) (text : Text) :
    (tails ++ utf8 text).dropWhile (fun b => b &&& 0xC0 = 0x80) = utf8 text := by
  rw [List.dropWhile_append_of_pos, dropWhile_encode]
  simpa using hTails

theorem suffix_shorter {c : Char} {more : Text} {maxBytes : Nat} (hMore : more <:+ c :: text)
    (hFits : byteLength more ≤ maxBytes) (hLess : maxBytes < byteLength (c :: text)) : more <:+ text := by
  rcases List.suffix_cons_iff.mp hMore with rfl | hMore
  · exact absurd hFits (Nat.not_le.mpr hLess)
  · exact hMore

theorem exists_cut (text : Text) : ∀ k, ∃ cut, ((utf8 text).drop k).dropWhile (fun b => b &&& 0xC0 = 0x80) = utf8 cut ∧
    LongestEnd (byteLength text - k) text cut := by
  induction text with
  | nil =>
    intro k
    refine ⟨[], ?_, List.suffix_rfl, Nat.zero_le _, fun more hMore _ => hMore.length_le⟩
    rw [show utf8 [] = [] from rfl, List.drop_nil, List.dropWhile_nil]
  | cons c text ih =>
    intro k
    obtain ⟨first, rest, hChar, -, hRest⟩ := encodeChar_lead c
    have hSize : byteLength (c :: text) = rest.length + 1 + byteLength text := by
      rw [byteLength, utf8, Utf8.encode_cons, hChar, List.length_append, List.length_cons]
      rfl
    cases k with
    | zero =>
      refine ⟨c :: text, ?_, List.suffix_rfl, Nat.le_refl _, fun more hMore _ => hMore.length_le⟩
      rw [List.drop_zero, dropWhile_encode]
    | succ k =>
      have hDrop : (utf8 (c :: text)).drop (k + 1) = rest.drop k ++ (utf8 text).drop (k - rest.length) := by
        rw [utf8, Utf8.encode_cons, hChar, List.cons_append, List.drop_succ_cons, List.drop_append]
      rcases Nat.lt_or_ge rest.length k with hPast | hInside
      · obtain ⟨cut, hCut, hWhole, hFits, hLongest⟩ := ih (k - rest.length)
        have hBudget : byteLength (c :: text) - (k + 1) = byteLength text - (k - rest.length) := by
          omega
        refine ⟨cut, ?_, hWhole.trans (List.suffix_cons c text), ?_, ?_⟩
        · rw [hDrop, List.drop_eq_nil_of_le (Nat.le_of_lt hPast), List.nil_append, hCut]
        · rwa [hBudget]
        · intro more hMore hBytes
          rw [hBudget] at hBytes
          exact hLongest more (suffix_shorter hMore hBytes (by omega)) hBytes
      · refine ⟨text, ?_, List.suffix_cons c text, by omega, ?_⟩
        · rw [hDrop, Nat.sub_eq_zero_of_le hInside, List.drop_zero]
          exact dropWhile_tails (fun b hMem => hRest b (List.mem_of_mem_drop hMem)) text
        · intro more hMore hBytes
          exact (suffix_shorter hMore hBytes (by omega)).length_le

theorem truncateStringToBytesFromEnd_longest (s : Text) (maxBytes : Nat) :
    LongestEnd maxBytes s (truncateStringToBytesFromEnd s maxBytes) := by
  rw [truncateStringToBytesFromEnd]
  split
  · rename_i hFits
    exact ⟨List.suffix_rfl, hFits, fun more hMore _ => hMore.length_le⟩
  · obtain ⟨cut, hCut, hEnd⟩ := exists_cut s (byteLength s - maxBytes)
    have hBudget : byteLength s - (byteLength s - maxBytes) = maxBytes := by
      omega
    rw [hCut, Utf8.lossy_encode]
    rwa [hBudget] at hEnd

end Cut

section Tail

variable {options : TruncationOptions} {lines kept : List Text}

/-- What the loop over the lines leaves: the lines it has collected, or the end of the next one before the blank ones. -/
inductive TailOutcome (options : TruncationOptions) (before kept : List Text) : List Text × Nat × TruncatedBy × Bool → Prop where
  | whole {by' : TruncatedBy} (hEnds : before = [] ∨ options.maxLines ≤ kept.length ∨ ¬ Blank kept) :
      TailOutcome options before kept (kept, joinedBytes kept, by', false)
  | rescued {line : Text} {earlier : List Text} (hLine : before = earlier ++ [line]) (hBlank : Blank kept)
      (hLines : kept.length < options.maxLines) :
      TailOutcome options before kept
        (truncateStringToBytesFromEnd line (options.maxBytes - min kept.length (options.maxBytes - 1)) ::
            kept.take (min kept.length (options.maxBytes - 1)),
          byteLength (truncateStringToBytesFromEnd line (options.maxBytes - min kept.length (options.maxBytes - 1))) +
            min kept.length (options.maxBytes - 1), .bytes, true)

theorem blank_iff : lines.all List.isEmpty = true ↔ Blank lines := by
  simp only [List.all_eq_true, List.isEmpty_iff, Blank]

theorem tailLoop_spec (options : TruncationOptions) : ∀ (reversed collected : List Text), Fits options collected →
    ∃ kept before, reversed.reverse ++ collected = before ++ kept ∧ Fits options kept ∧
      (∀ line earlier, before = earlier ++ [line] → ¬ Fits options (line :: kept)) ∧
      TailOutcome options before kept
        (tailLoop options.maxLines options.maxBytes reversed collected (joinedBytes collected)) := by
  intro reversed
  induction reversed with
  | nil =>
    intro collected hFits
    refine ⟨collected, [], rfl, hFits, fun line earlier h => ?_, .whole (Or.inl rfl)⟩
    exact absurd h.symm (by simp)
  | cons line reversed ih =>
    intro collected hFits
    have hSplit : (line :: reversed).reverse ++ collected = (reversed.reverse ++ [line]) ++ collected := by
      rw [List.reverse_cons]
    have hCons := joinedBytes_cons line collected
    rw [tailLoop]
    dsimp only
    rw [← hCons]
    have hLast {line' : Text} {earlier : List Text} (h : reversed.reverse ++ [line] = earlier ++ [line']) : line' = line :=
      (List.singleton_inj.mp (List.append_inj' h rfl).2).symm
    split
    · rename_i hFull
      refine ⟨collected, _, hSplit, hFits, fun line' earlier _ hMore => ?_, .whole (Or.inr (Or.inl hFull))⟩
      exact absurd hMore.1 (Nat.not_le.mpr (Nat.lt_succ_of_le hFull))
    · rename_i hRoom
      split
      · rename_i hExceeds
        have hNext (line' : Text) (earlier : List Text) (h : reversed.reverse ++ [line] = earlier ++ [line']) :
            ¬ Fits options (line' :: collected) := by
          rw [hLast h]
          exact fun hMore => absurd hMore.2 (Nat.not_le.mpr hExceeds)
        split
        · rename_i hBlank
          exact ⟨collected, _, hSplit, hFits, hNext, .rescued rfl (blank_iff.mp hBlank) (Nat.lt_of_not_le hRoom)⟩
        · rename_i hBlank
          exact ⟨collected, _, hSplit, hFits, hNext, .whole (Or.inr (Or.inr (blank_iff.not.mp hBlank)))⟩
      · rename_i hBytes
        obtain ⟨kept, before, hLines, hRest⟩ := ih (line :: collected)
          ⟨Nat.lt_of_not_le hRoom, Nat.le_of_not_lt hBytes⟩
        refine ⟨kept, before, ?_, hRest⟩
        rw [hSplit, List.append_assoc, List.singleton_append, hLines]

theorem longestSuffix_of_next {before : List Text} (hFits : Fits options kept)
    (hNext : ∀ line earlier, before = earlier ++ [line] → ¬ Fits options (line :: kept)) :
    LongestSuffix options (before ++ kept) kept := by
  refine ⟨List.suffix_append before kept, hFits, fun more hMore hMoreFits => ?_⟩
  by_contra hLonger
  obtain ⟨extra, rfl⟩ := List.suffix_of_suffix_length_le (List.suffix_append before kept) hMore (by omega)
  obtain ⟨after, hAfter⟩ := hMore
  rw [← List.append_assoc, List.append_cancel_right_eq] at hAfter
  rcases List.eq_nil_or_concat extra with rfl | ⟨earlier, line, rfl⟩
  · exact hLonger (Nat.le_refl _)
  · rw [List.concat_eq_append] at hMoreFits hAfter
    rw [List.append_assoc, List.singleton_append] at hMoreFits
    refine hNext line (after ++ earlier) (by rw [← hAfter, List.append_assoc]) ⟨?_, ?_⟩
    · have hLength := hMoreFits.1
      rw [List.length_append] at hLength
      exact Nat.le_trans (Nat.le_add_left _ _) hLength
    · exact Nat.le_trans (joinedBytes_le_prepend earlier _) hMoreFits.2

theorem LongestSuffix.unique {kept' : List Text} (hKept : LongestSuffix options lines kept)
    (hKept' : LongestSuffix options lines kept') : kept = kept' := by
  have hLe := hKept'.longest kept hKept.whole hKept.fits
  have hGe := hKept.longest kept' hKept'.whole hKept'.fits
  exact (List.suffix_of_suffix_length_le hKept.whole hKept'.whole hLe).eq_of_length (Nat.le_antisymm hLe hGe)

end Tail

section Results

variable {content : Text} {options : TruncationOptions} {lines kept : List Text}

theorem fits_iff : Fits options (content.splitOn '\n') ↔
    (content.splitOn '\n').length ≤ options.maxLines ∧ byteLength content ≤ options.maxBytes := by
  rw [byteLength_content]
  rfl

theorem told_unchanged (hFits : Fits options (content.splitOn '\n')) : Told content options (unchanged content options) where
  bytes := rfl
  withinBytes := (fits_iff.mp hFits).2
  withinLines := hFits.1
  truncated := iff_of_true rfl (fits_iff.mp hFits)
  unchanged := fun _ => rfl

theorem headMeets (content : Text) (options : TruncationOptions) :
    HeadMeets content options (truncateHead content options) := by
  obtain ⟨first, rest, hLines⟩ := List.exists_cons_of_ne_nil (List.splitOn_ne_nil '\n' content)
  have hFirstLine : (content.splitOn '\n').headD [] = first := by
    rw [hLines, List.headD_cons]
  rcases Classical.em (Fits options (content.splitOn '\n')) with hFits | hNot
  · have hHead : truncateHead content options = unchanged content options := if_pos (fits_iff.mp hFits)
    have hFirst : byteLength first ≤ options.maxBytes := by
      have hBytes := hFits.2
      rw [hLines, joinedBytes_cons] at hBytes
      omega
    rw [hHead]
    exact {
      told := told_unchanged hFits
      longest := ⟨_, ⟨List.prefix_rfl, hFits, fun more hMore _ => hMore.length_le⟩, (joinLines_splitOn content).symm, rfl⟩
      exceeds := iff_of_false Bool.false_ne_true (by rw [hFirstLine]; exact Nat.not_lt.mpr hFirst)
      empty := fun h => nomatch h
      complete := rfl }
  · have hTruncated := fits_iff.not.mp hNot
    rcases Nat.lt_or_ge options.maxBytes (byteLength ((content.splitOn '\n').headD [])) with hExceeds | hFirst
    · have hHead : truncateHead content options = { unchanged content options with
          content := []
          truncated := true
          truncatedBy := some .bytes
          outputLines := 0
          outputBytes := 0
          firstLineExceedsLimit := true } := (if_neg hTruncated).trans (if_pos hExceeds)
      rw [hHead]
      exact {
        told := {
          bytes := rfl
          withinBytes := Nat.zero_le _
          withinLines := Nat.zero_le _
          truncated := iff_of_false (fun h => nomatch h) hTruncated
          unchanged := fun h => nomatch h }
        longest := ⟨[], hLines ▸ longestPrefix_nil (hFirstLine ▸ hExceeds), rfl, rfl⟩
        exceeds := iff_of_true rfl hExceeds
        empty := fun _ => rfl
        complete := rfl }
    · obtain ⟨kept, by', hLoop, hLongest⟩ := headLoop_longest options (content.splitOn '\n')
      have hHead : truncateHead content options = { unchanged content options with
          content := joinLines kept
          truncated := true
          truncatedBy := some (if options.maxLines ≤ kept.length ∧ joinedBytes kept ≤ options.maxBytes then .lines else by')
          outputLines := kept.length
          outputBytes := byteLength (joinLines kept) } := by
        refine ((if_neg hTruncated).trans (if_neg (Nat.not_lt.mpr hFirst))).trans ?_
        rw [hLoop]
      rw [hHead]
      exact {
        told := {
          bytes := rfl
          withinBytes := Nat.le_trans (Nat.le_of_eq (byteLength_joinLines kept)) hLongest.fits.2
          withinLines := hLongest.fits.1
          truncated := iff_of_false (fun h => nomatch h) hTruncated
          unchanged := fun h => nomatch h }
        longest := ⟨kept, hLongest, rfl, rfl⟩
        exceeds := iff_of_false (fun h => nomatch h) (Nat.not_lt.mpr hFirst)
        empty := fun h => nomatch h
        complete := rfl }

theorem truncateTail_of_not_fits (hNot : ¬ Fits options (content.splitOn '\n')) :
    ∃ kept before out count by' isPartial, content.splitOn '\n' = before ++ kept ∧
      LongestSuffix options (content.splitOn '\n') kept ∧ TailOutcome options before kept (out, count, by', isPartial) ∧
      truncateTail content options = { unchanged content options with
        content := joinLines out
        truncated := true
        truncatedBy := some (if options.maxLines ≤ out.length ∧ count ≤ options.maxBytes then .lines else by')
        outputLines := out.length
        outputBytes := byteLength (joinLines out)
        lastLinePartial := isPartial } := by
  obtain ⟨kept, before, hLines, hFits, hNext, hOutcome⟩ :=
    tailLoop_spec options (content.splitOn '\n').reverse [] ⟨Nat.zero_le _, Nat.zero_le _⟩
  rw [List.reverse_reverse, List.append_nil] at hLines
  refine ⟨kept, before, _, _, _, _, hLines, ?_, hOutcome, ?_⟩
  · rw [hLines]
    exact longestSuffix_of_next hFits hNext
  · rw [truncateTail, if_neg (fits_iff.not.mp hNot)]
    rfl

theorem blank_eq (hBlank : Blank kept) : kept = List.replicate kept.length [] :=
  List.eq_replicate_iff.mpr ⟨rfl, hBlank⟩

theorem blank_replicate (n : Nat) : Blank (List.replicate n []) :=
  fun _ hMem => List.eq_of_mem_replicate hMem

theorem blankTail_of_next {earlier : List Text} (hLines : content.splitOn '\n' = (earlier ++ [[]]) ++ kept)
    (hLongest : LongestSuffix options (content.splitOn '\n') kept) (hBlank : Blank kept)
    (hRoom : kept.length < options.maxLines) : BlankTail content options := by
  have hSuffix : [] :: kept <:+ content.splitOn '\n' := ⟨earlier, by rw [hLines, List.append_assoc]; rfl⟩
  have hNextBlank : Blank ([] :: kept) := List.forall_mem_cons.mpr ⟨rfl, hBlank⟩
  have hNot : ¬ Fits options ([] :: kept) := fun hFits =>
    Nat.not_succ_le_self kept.length (hLongest.longest _ hSuffix hFits)
  have hKept := hLongest.fits.2
  rw [joinedBytes_blank hBlank] at hKept
  have hOver : options.maxBytes < kept.length := by
    by_contra hLe
    refine hNot ⟨hRoom, ?_⟩
    rw [joinedBytes_blank hNextBlank, List.length_cons]
    omega
  have hLength : kept.length = options.maxBytes + 1 := by
    omega
  refine ⟨by omega, ?_⟩
  rwa [List.replicate_succ, ← hLength, ← blank_eq hBlank]

theorem longestSuffix_blankTail (hTail : BlankTail content options) :
    LongestSuffix options (content.splitOn '\n') (List.replicate (options.maxBytes + 1) []) ∧
      ∃ earlier, content.splitOn '\n' = (earlier ++ [[]]) ++ List.replicate (options.maxBytes + 1) [] := by
  obtain ⟨hRoom, earlier, hLines⟩ := hTail
  rw [List.replicate_succ, List.append_cons] at hLines
  refine ⟨?_, earlier, hLines.symm⟩
  rw [← hLines]
  refine longestSuffix_of_next ⟨?_, ?_⟩ fun line earlier' hLast hFits => ?_
  · rw [List.length_replicate]
    omega
  · rw [joinedBytes_blank (blank_replicate _), List.length_replicate]
    exact Nat.le_refl _
  · have hBytes := hFits.2
    rw [joinedBytes_cons, joinedBytes_blank (blank_replicate _), List.length_replicate, List.replicate_succ] at hBytes
    simp only [List.isEmpty_cons, Bool.false_eq_true, if_false] at hBytes
    omega

theorem rescued_bytes {line cut : Text} (hBlank : Blank kept)
    (hEnd : LongestEnd (options.maxBytes - min kept.length (options.maxBytes - 1)) line cut) :
    joinLines (cut :: kept.take (min kept.length (options.maxBytes - 1))) =
        cut ++ List.replicate (min kept.length (options.maxBytes - 1)) '\n' ∧
      byteLength (joinLines (cut :: kept.take (min kept.length (options.maxBytes - 1)))) ≤ options.maxBytes := by
  have hTaken : (kept.take (min kept.length (options.maxBytes - 1))).length = min kept.length (options.maxBytes - 1) := by
    rw [List.length_take]
    omega
  have hJoined := joinLines_blank cut (kept.take (min kept.length (options.maxBytes - 1)))
    fun line hMem => hBlank line (List.mem_of_mem_take hMem)
  rw [hTaken] at hJoined
  refine ⟨hJoined, ?_⟩
  have hNewlines : ∀ n, byteLength (List.replicate n '\n') = n := by
    intro n
    induction n with
    | zero => rfl
    | succ n ih =>
      rw [List.replicate_succ', byteLength_append, ih]
      rfl
  have hFits := hEnd.fits
  rw [hJoined, byteLength_append, hNewlines]
  omega

theorem tailMeets_iff (content : Text) (options : TruncationOptions) :
    TailMeets content options (truncateTail content options) ↔ ¬ BlankTail content options := by
  constructor
  · intro hMeets hTail
    obtain ⟨hBlankLongest, earlier, hBlankLines⟩ := longestSuffix_blankTail hTail
    obtain ⟨longest, hLongest, hPlain, -⟩ := hMeets.longest
    obtain rfl := hLongest.unique hBlankLongest
    have hNoText (line : Text) : ¬ Oversized options (content.splitOn '\n') (List.replicate (options.maxBytes + 1) []) line := by
      rintro ⟨⟨earlier', hNext⟩, -, -, hText⟩
      rw [hBlankLines, List.append_cons earlier' line, List.append_cancel_right_eq] at hNext
      exact hText (List.singleton_inj.mp (List.append_inj' hNext rfl).2).symm
    have hNot : ¬ Fits options (content.splitOn '\n') := by
      intro hFits
      have hLe := hLongest.longest _ List.suffix_rfl hFits
      rw [hBlankLines, List.length_append, List.length_append, List.length_singleton] at hLe
      omega
    obtain ⟨kept, before, out, count, by', isPartial, hLines, hKept, hOutcome, hResult⟩ := truncateTail_of_not_fits hNot
    obtain rfl := hKept.unique hBlankLongest
    have hPartial := (hPlain hNoText).2.2
    rw [hResult] at hPartial
    rw [hBlankLines, List.append_cancel_right_eq] at hLines
    cases hOutcome with
    | rescued _ _ _ => cases hPartial
    | whole hEnds =>
      rcases hEnds with hNil | hFull | hText
      · rw [← hLines] at hNil
        exact absurd hNil (by simp)
      · rw [List.length_replicate] at hFull
        have := hTail.1
        omega
      · exact hText (blank_replicate _)
  · intro hTail
    rcases Classical.em (Fits options (content.splitOn '\n')) with hFits | hNot
    · have hResult : truncateTail content options = unchanged content options := if_pos (fits_iff.mp hFits)
      rw [hResult]
      refine ⟨told_unchanged hFits, _, ⟨List.suffix_rfl, hFits, fun more hMore _ => hMore.length_le⟩, ?_, ?_⟩
      · exact fun _ => ⟨(joinLines_splitOn content).symm, rfl, rfl⟩
      · rintro line ⟨⟨earlier, hNext⟩, -, -, -⟩
        have hLength := congrArg List.length hNext
        rw [List.length_append, List.length_cons] at hLength
        omega
    · obtain ⟨kept, before, out, count, by', isPartial, hLines, hKept, hOutcome, hResult⟩ := truncateTail_of_not_fits hNot
      have hTruncated := fits_iff.not.mp hNot
      rw [hResult]
      cases hOutcome with
      | whole hEnds =>
        refine ⟨⟨rfl, ?_, hKept.fits.1, iff_of_false (fun h => nomatch h) hTruncated, fun h => nomatch h⟩, kept, hKept,
          fun _ => ⟨rfl, rfl, rfl⟩, ?_⟩
        · exact Nat.le_trans (Nat.le_of_eq (byteLength_joinLines kept)) hKept.fits.2
        · rintro line ⟨⟨earlier, hNext⟩, hBlank, hRoom, -⟩
          rcases hEnds with rfl | hFull | hText
          · rw [hLines, List.nil_append] at hNext
            have hLength := congrArg List.length hNext
            rw [List.length_append, List.length_cons] at hLength
            omega
          · omega
          · exact absurd hBlank hText
      | @rescued line earlier hLine hBlank hRoom =>
        have hText : line ≠ [] := by
          rintro rfl
          exact hTail (blankTail_of_next (hLine ▸ hLines) hKept hBlank hRoom)
        have hEnd := truncateStringToBytesFromEnd_longest line
          (options.maxBytes - min kept.length (options.maxBytes - 1))
        obtain ⟨hJoined, hBytes⟩ := rescued_bytes hBlank hEnd
        refine ⟨⟨rfl, hBytes, ?_, iff_of_false (fun h => nomatch h) hTruncated, fun h => nomatch h⟩, kept, hKept, ?_, ?_⟩
        · dsimp only
          rw [List.length_cons, List.length_take]
          omega
        · intro hNone
          refine absurd ⟨⟨earlier, ?_⟩, hBlank, hRoom, hText⟩ (hNone line)
          rw [hLines, hLine, List.append_assoc]
          rfl
        · rintro line' ⟨⟨earlier', hNext⟩, -, -, -⟩
          rw [hLines, hLine, List.append_cons earlier' line', List.append_cancel_right_eq] at hNext
          obtain rfl := List.singleton_inj.mp (List.append_inj' hNext rfl).2
          exact ⟨_, hEnd, hJoined, rfl⟩

/-- Head and tail are the longest whole lines that fit, or the end of the line before the blank ones. Only where the line
before them is blank too does the tail lose a line that fits. -/
theorem truncate_longest (content : Text) (options : TruncationOptions) :
    (HeadMeets content options (truncateHead content options) ∧ TailMeets content options (truncateTail content options)) ↔
      ¬ BlankTail content options :=
  ⟨fun hMeets => (tailMeets_iff content options).mp hMeets.2,
    fun hTail => ⟨headMeets content options, (tailMeets_iff content options).mpr hTail⟩⟩

theorem truncateTail_blank :
    (truncateTail ['\n', '\n'] ⟨10, 1⟩).content = [] ∧ (truncateTail ['\n', '\n'] ⟨10, 1⟩).lastLinePartial = true ∧
      ¬ TailMeets ['\n', '\n'] ⟨10, 1⟩ (truncateTail ['\n', '\n'] ⟨10, 1⟩) := by
  refine ⟨by decide +kernel, by decide +kernel, fun hMeets => ?_⟩
  exact (tailMeets_iff _ _).mp hMeets ⟨by decide, [], by decide +kernel⟩

end Results

end PrimeAgent.Tools
