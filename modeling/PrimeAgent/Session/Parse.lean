import PrimeAgent.Lib.KeyMap
import PrimeAgent.Session.Serde

/-! # Reading a session file

`parse_session_entries`: the rows of a text, with the child usage attributed so far folded into the
assistant messages it belongs to.
-/
namespace PrimeAgent

def stripCarriageReturn (line : Text) : Text :=
  if line.getLast? = some '\r' then line.dropLast else line

/-- `str::lines`. -/
def lines (text : Text) : List Text :=
  let pieces := text.splitOn '\n'
  pieces.dropLast.map stripCarriageReturn ++ (pieces.getLast?.filter (!·.isEmpty)).toList

def FileEntry.setUsage (usage : Usage) : FileEntry → FileEntry
  | .message (.assistant m) base => .message (.assistant { m with usage := usage }) base
  | entry => entry

def assistantPairs (entries : List FileEntry) : List (String × Nat) :=
  entries.zipIdx.filterMap fun (entry, index) =>
    if entry.assistant?.isSome then entry.id.map (·, index) else none

def assistantIndex (entries : List FileEntry) : KeyMap String Nat :=
  KeyMap.ofPairs (assistantPairs entries)

def attribution (index : KeyMap String Nat) : FileEntry → Option (Nat × Usage)
  | .childUsageAttributed payload _ => (index.get payload.targetId).map (·, payload.aggregateUsage)
  | _ => none

def attributionUpdates (entries : List FileEntry) : List (Nat × Usage) :=
  entries.filterMap (attribution (assistantIndex entries))

def applyUpdates (entries : List FileEntry) (updates : List (Nat × Usage)) : List FileEntry :=
  updates.foldl (fun rows update => rows.modify update.1 (FileEntry.setUsage update.2)) entries

def applyChildUsageAttributions (entries : List FileEntry) : List FileEntry :=
  applyUpdates entries (attributionUpdates entries)

def decodeLines (serde : Serde) (content : Text) : List FileEntry :=
  (lines (trim content)).filterMap fun line => if (trim line).isEmpty then none else serde.entry line

def parseSessionEntries (serde : Serde) (content : Text) : List FileEntry :=
  applyChildUsageAttributions (decodeLines serde content)

namespace FileEntry

@[simp] theorem setUsage_id (usage : Usage) (entry : FileEntry) : (entry.setUsage usage).id = entry.id := by
  unfold setUsage
  split <;> rfl

@[simp] theorem setUsage_parentId (usage : Usage) (entry : FileEntry) :
    (entry.setUsage usage).parentId = entry.parentId := by
  unfold setUsage
  split <;> rfl

@[simp] theorem setUsage_isHeader (usage : Usage) (entry : FileEntry) :
    (entry.setUsage usage).isHeader = entry.isHeader := by
  unfold setUsage
  split <;> rfl

@[simp] theorem setUsage_assistant_isSome (usage : Usage) (entry : FileEntry) :
    (entry.setUsage usage).assistant?.isSome = entry.assistant?.isSome := by
  unfold setUsage
  split <;> rfl

@[simp] theorem attribution_setUsage (index : KeyMap String Nat) (usage : Usage) (entry : FileEntry) :
    attribution index (entry.setUsage usage) = attribution index entry := by
  unfold setUsage
  split <;> rfl

theorem setUsage_setUsage (usage usage' : Usage) (entry : FileEntry) :
    (entry.setUsage usage').setUsage usage = entry.setUsage usage := by
  cases entry with
  | message message base => cases message <;> rfl
  | _ => rfl

end FileEntry

section Updates

theorem applyUpdates_concat (entries : List FileEntry) (updates : List (Nat × Usage)) (update : Nat × Usage) :
    applyUpdates entries (updates ++ [update])
      = (applyUpdates entries updates).modify update.1 (FileEntry.setUsage update.2) := by
  rw [applyUpdates, List.foldl_append]
  rfl

theorem applyUpdates_getElem? (entries : List FileEntry) (updates : List (Nat × Usage)) (i : Nat) :
    (applyUpdates entries updates)[i]?
      = (entries[i]?).map fun entry =>
        ((updates.filter (·.1 == i)).getLast?.map (·.2)).elim entry (entry.setUsage ·) := by
  induction updates using List.reverseRecOn with
  | nil => simp [applyUpdates]
  | append_singleton updates update ih =>
    rw [applyUpdates_concat, List.filter_append]
    by_cases hHere : update.1 = i
    · rw [hHere, List.getElem?_modify_eq, ih, List.filter_cons_of_pos (by simpa using hHere), List.filter_nil,
        List.getLast?_concat]
      cases entries[i]? with
      | none => rfl
      | some entry =>
        simp only [Option.map_some, Option.map_eq_map, Option.elim_some]
        cases (updates.filter (·.1 == i)).getLast? with
        | none => rfl
        | some earlier => simp only [Option.map_some, Option.elim_some, FileEntry.setUsage_setUsage]
    · rw [List.getElem?_modify_ne _ _ hHere, ih, List.filter_cons_of_neg (by simpa using hHere), List.filter_nil,
        List.append_nil]

theorem applyUpdates_applyUpdates (entries : List FileEntry) (updates : List (Nat × Usage)) :
    applyUpdates (applyUpdates entries updates) updates = applyUpdates entries updates := by
  apply List.ext_getElem?
  intro i
  rw [applyUpdates_getElem?, applyUpdates_getElem?, Option.map_map]
  cases entries[i]? with
  | none => rfl
  | some entry =>
    cases (updates.filter (·.1 == i)).getLast? with
    | none => rfl
    | some update => simp [FileEntry.setUsage_setUsage]

theorem modify_append_left {rows : List FileEntry} {i : Nat} (hi : i < rows.length) (f : FileEntry → FileEntry)
    (more : List FileEntry) : (rows ++ more).modify i f = rows.modify i f ++ more := by
  induction rows generalizing i with
  | nil => cases hi
  | cons row rows ih =>
    cases i with
    | zero => rfl
    | succ i => rw [List.cons_append, List.modify_succ_cons, ih (Nat.lt_of_succ_lt_succ hi), List.modify_succ_cons,
        List.cons_append]

theorem applyUpdates_append {entries : List FileEntry} {updates : List (Nat × Usage)}
    (hIn : ∀ update ∈ updates, update.1 < entries.length) (more : List FileEntry) :
    applyUpdates (entries ++ more) updates = applyUpdates entries updates ++ more := by
  induction updates generalizing entries with
  | nil => rfl
  | cons update updates ih =>
    have hHead := hIn update List.mem_cons_self
    rw [applyUpdates, applyUpdates, List.foldl_cons, List.foldl_cons, modify_append_left hHead, ← applyUpdates,
      ← applyUpdates, ih fun u hu => by rw [List.length_modify]; exact hIn u (List.mem_cons_of_mem update hu)]

theorem applyUpdates_map {α : Type} (f : FileEntry → α) (hUsage : ∀ usage entry, f (FileEntry.setUsage usage entry) = f entry)
    (entries : List FileEntry) (updates : List (Nat × Usage)) :
    (applyUpdates entries updates).map f = entries.map f := by
  apply List.ext_getElem?
  intro i
  rw [List.getElem?_map, List.getElem?_map, applyUpdates_getElem?, Option.map_map]
  cases entries[i]? with
  | none => rfl
  | some entry =>
    cases (updates.filter (·.1 == i)).getLast? with
    | none => rfl
    | some update => simp [hUsage]

end Updates

section Attribution

theorem assistantPairs_concat (entries : List FileEntry) (entry : FileEntry) :
    assistantPairs (entries ++ [entry])
      = assistantPairs entries
        ++ (if entry.assistant?.isSome then (entry.id.map (·, entries.length)).toList else []) := by
  rw [assistantPairs, List.zipIdx_append, List.filterMap_append]
  cases hAssistant : entry.assistant?.isSome <;> cases hId : entry.id <;> simp [assistantPairs, hAssistant, hId]

theorem assistantIndex_concat (entries : List FileEntry) (entry : FileEntry) (id : String) :
    (assistantIndex (entries ++ [entry])).get id
      = if entry.assistant?.isSome ∧ entry.id = some id then some entries.length
        else (assistantIndex entries).get id := by
  rw [assistantIndex, assistantPairs_concat]
  cases hAssistant : entry.assistant?.isSome with
  | false => simp [assistantIndex]
  | true =>
    cases hId : entry.id with
    | none => simp [assistantIndex]
    | some id' =>
      rw [if_pos rfl, Option.map_some, Option.toList_some, KeyMap.ofPairs_concat, KeyMap.get_insert]
      simp only [assistantIndex, true_and, Option.some.injEq, eq_comm]

variable {entries : List FileEntry} {entry : FileEntry}

theorem assistantIndex_lt {id : String} {i : Nat} (h : (assistantIndex entries).get id = some i) :
    i < entries.length := by
  induction entries using List.reverseRecOn generalizing i with
  | nil => cases h
  | append_singleton entries entry ih =>
    rw [assistantIndex_concat] at h
    rw [List.length_append, List.length_singleton]
    split at h
    · obtain rfl := Option.some.inj h
      omega
    · have := ih h
      omega

theorem attributionUpdates_lt :
    ∀ update ∈ attributionUpdates entries, update.1 < entries.length := by
  intro update h
  obtain ⟨entry, _, hUpdate⟩ := List.mem_filterMap.mp h
  unfold attribution at hUpdate
  split at hUpdate
  · rw [Option.map_eq_some_iff] at hUpdate
    obtain ⟨i, hIndex, rfl⟩ := hUpdate
    exact assistantIndex_lt hIndex
  · cases hUpdate

theorem assistantIndex_applyUpdates (entries : List FileEntry) (updates : List (Nat × Usage)) :
    assistantIndex (applyUpdates entries updates) = assistantIndex entries := by
  have hPairs : ∀ rows : List FileEntry, assistantPairs rows
      = ((rows.map fun row => (row.assistant?.isSome, row.id)).zipIdx).filterMap fun (row, index) =>
        if row.1 then row.2.map (·, index) else none := by
    intro rows
    rw [assistantPairs, List.zipIdx_map, List.filterMap_map]
    rfl
  rw [assistantIndex, assistantIndex, hPairs, hPairs, applyUpdates_map]
  intro usage entry
  rw [FileEntry.setUsage_assistant_isSome, FileEntry.setUsage_id]

theorem attributionUpdates_applyUpdates (entries : List FileEntry) (updates : List (Nat × Usage)) :
    attributionUpdates (applyUpdates entries updates) = attributionUpdates entries := by
  have hMap : ∀ rows : List FileEntry, attributionUpdates rows
      = (rows.map (attribution (assistantIndex rows))).filterMap id := by
    intro rows
    rw [attributionUpdates, List.filterMap_map]
    rfl
  rw [hMap, hMap, assistantIndex_applyUpdates, applyUpdates_map]
  exact fun usage entry => FileEntry.attribution_setUsage _ usage entry

theorem applyChildUsageAttributions_idem (entries : List FileEntry) :
    applyChildUsageAttributions (applyChildUsageAttributions entries) = applyChildUsageAttributions entries := by
  rw [applyChildUsageAttributions, applyChildUsageAttributions, attributionUpdates_applyUpdates,
    applyUpdates_applyUpdates]

def attributed (entries : List FileEntry) (entry : FileEntry) : List FileEntry :=
  applyUpdates (entries ++ [entry]) (attribution (assistantIndex entries) entry).toList

def attributionTarget : FileEntry → Option String
  | .childUsageAttributed payload _ => some payload.targetId
  | _ => none

def Unattributed (entries : List FileEntry) (entry : FileEntry) : Prop :=
  entry.assistant?.isSome → ∀ id ∈ entries.filterMap attributionTarget, entry.id ≠ some id

theorem attributionTarget_applyUpdates (entries : List FileEntry) (updates : List (Nat × Usage)) :
    (applyUpdates entries updates).filterMap attributionTarget = entries.filterMap attributionTarget := by
  have hUsage : ∀ usage entry, attributionTarget (FileEntry.setUsage usage entry) = attributionTarget entry := by
    intro usage entry
    unfold FileEntry.setUsage
    split <;> rfl
  have hMap : ∀ rows : List FileEntry, rows.filterMap attributionTarget = (rows.map attributionTarget).filterMap id := by
    intro rows
    rw [List.filterMap_map]
    rfl
  rw [hMap, hMap, applyUpdates_map _ hUsage]

theorem attributionUpdates_concat (hNew : Unattributed entries entry) :
    attributionUpdates (entries ++ [entry])
      = attributionUpdates entries ++ (attribution (assistantIndex entries) entry).toList := by
  have hOld : ∀ row ∈ entries, attribution (assistantIndex (entries ++ [entry])) row
      = attribution (assistantIndex entries) row := by
    intro row hRow
    unfold attribution
    split
    · rename_i payload base
      rw [assistantIndex_concat, if_neg]
      rintro ⟨hAssistant, hId⟩
      exact hNew hAssistant _ (List.mem_filterMap.mpr ⟨_, hRow, rfl⟩) hId
    · rfl
  have hSelf : attribution (assistantIndex (entries ++ [entry])) entry = attribution (assistantIndex entries) entry := by
    unfold attribution
    split
    · rename_i payload base
      rw [assistantIndex_concat, if_neg]
      rintro ⟨hAssistant, _⟩
      cases hAssistant
    · rfl
  rw [attributionUpdates, List.filterMap_append, List.filterMap_congr hOld, attributionUpdates]
  congr 1
  rw [List.filterMap_cons, hSelf]
  cases attribution (assistantIndex entries) entry <;> rfl

theorem applyChildUsageAttributions_concat (hNew : Unattributed entries entry) :
    applyChildUsageAttributions (entries ++ [entry]) = attributed (applyChildUsageAttributions entries) entry := by
  rw [applyChildUsageAttributions, attributionUpdates_concat hNew, attributed, applyChildUsageAttributions,
    assistantIndex_applyUpdates, ← applyUpdates_append attributionUpdates_lt]
  cases attribution (assistantIndex entries) entry with
  | none => rw [Option.toList_none, List.append_nil]; rfl
  | some update => rw [Option.toList_some, applyUpdates_concat]; rfl

end Attribution

section Text

theorem intercalate_newline {pieces : List Text} (hSome : pieces ≠ []) :
    List.intercalate ['\n'] pieces ++ ['\n'] = pieces.flatMap (· ++ ['\n']) := by
  induction pieces with
  | nil => exact absurd rfl hSome
  | cons piece pieces ih =>
    cases pieces with
    | nil => simp
    | cons next pieces =>
      rw [List.intercalate_cons_cons, List.flatMap_cons, ← ih (by simp)]
      simp

theorem trimStart_of_head {c : Char} (h : isWhitespace c = false) (text : Text) :
    trimStart (c :: text) = c :: text :=
  List.dropWhile_cons_of_neg (by simp [h])

theorem trimEnd_of_last {c : Char} (h : isWhitespace c = false) (text : Text) :
    trimEnd (text ++ [c]) = text ++ [c] :=
  List.rdropWhile_concat_neg _ _ _ (by simp [h])

theorem trimEnd_newline (text : Text) : trimEnd (text ++ ['\n']) = trimEnd text :=
  List.rdropWhile_concat_pos _ _ _ (by decide)

theorem trim_object (body : Text) : trim (('{' :: body ++ ['}']) ++ ['\n']) = '{' :: body ++ ['}'] := by
  rw [trim, List.cons_append, List.cons_append, trimStart_of_head (by decide), ← List.cons_append, ← List.cons_append,
    trimEnd_newline, trimEnd_of_last (by decide)]

variable {serde : Serde} {row : FileEntry} {rows : List FileEntry}

theorem trim_line (hKeeps : serde.Keeps row) : (trim (serde.writeEntry row)).isEmpty = false := by
  obtain ⟨body, hBody⟩ := hKeeps.object
  rw [hBody, trim, List.cons_append, trimStart_of_head (by decide), ← List.cons_append, trimEnd_of_last (by decide)]
  rfl

theorem stripCarriageReturn_line (hKeeps : serde.Keeps row) :
    stripCarriageReturn (serde.writeEntry row) = serde.writeEntry row := by
  obtain ⟨body, hBody⟩ := hKeeps.object
  rw [stripCarriageReturn, hBody, List.getLast?_concat, if_neg (by decide)]

theorem intercalate_object (hSome : rows ≠ []) (hKeeps : ∀ row ∈ rows, serde.Keeps row) :
    ∃ body, List.intercalate ['\n'] (rows.map serde.writeEntry) = '{' :: body ++ ['}'] := by
  induction rows with
  | nil => exact absurd rfl hSome
  | cons row rows ih =>
    obtain ⟨body, hBody⟩ := (hKeeps row List.mem_cons_self).object
    cases rows with
    | nil => exact ⟨body, by simpa using hBody⟩
    | cons next rows =>
      obtain ⟨body', hBody'⟩ := ih (by simp) fun r hr => hKeeps r (List.mem_cons_of_mem row hr)
      refine ⟨body ++ ['}', '\n', '{'] ++ body', ?_⟩
      rw [List.map_cons, List.map_cons, List.intercalate_cons_cons, ← List.map_cons, hBody', hBody]
      simp

theorem decodeLines_writeLine (hKeeps : ∀ row ∈ rows, serde.Keeps row) :
    decodeLines serde (rows.flatMap (writeLine serde)) = rows := by
  rcases List.eq_nil_or_concat rows with rfl | ⟨front, last, rfl⟩
  · rfl
  rw [List.concat_eq_append] at hKeeps ⊢
  obtain ⟨body, hBody⟩ := intercalate_object (by simp) hKeeps
  have hText : (front ++ [last]).flatMap (writeLine serde)
      = List.intercalate ['\n'] ((front ++ [last]).map serde.writeEntry) ++ ['\n'] := by
    rw [intercalate_newline (by simp), List.flatMap_map]
    rfl
  have hSplit : (List.intercalate ['\n'] ((front ++ [last]).map serde.writeEntry)).splitOn '\n'
      = (front ++ [last]).map serde.writeEntry := by
    refine List.splitOn_intercalate '\n' ?_ (by simp)
    intro line hLine
    obtain ⟨row, hRow, rfl⟩ := List.mem_map.mp hLine
    exact (hKeeps row hRow).oneLine
  have hLast : (serde.writeEntry last).isEmpty = false := by
    obtain ⟨body, hBody⟩ := (hKeeps last (by simp)).object
    rw [hBody]
    rfl
  have hLines : lines (List.intercalate ['\n'] ((front ++ [last]).map serde.writeEntry))
      = (front ++ [last]).map serde.writeEntry := by
    have hStrip : (front.map serde.writeEntry).map stripCarriageReturn = front.map serde.writeEntry := by
      rw [List.map_map]
      exact List.map_congr_left fun row hRow => stripCarriageReturn_line (hKeeps row (List.mem_append_left _ hRow))
    simp only [lines, hSplit]
    rw [List.map_append, List.map_singleton, List.dropLast_concat, List.getLast?_concat, hStrip]
    simp [hLast]
  rw [decodeLines, hText, hBody, trim_object, ← hBody, hLines, List.filterMap_map]
  refine (List.filterMap_congr fun row hRow => ?_).trans List.filterMap_some
  rw [Function.comp_apply, trim_line (hKeeps row hRow), (hKeeps row hRow).reads]
  rfl

end Text

end PrimeAgent
