import PrimeAgent.Roster.State

/-! # The indexes of the roster

The rows of the two indexes are dropped by the agent they answer and the key that the dropped entry gives now. Beside
the roster stands the key that the file of each agent had when its summary was written.
-/
namespace PrimeAgent.Roster

namespace AgentRoster

variable {r : AgentRoster} {entry : AgentRosterEntry} {canonicalize : Canonicalize} {paths : PathAnswers}
  {agentId : String}

/-! ## What each part of a write leaves -/

theorem get_dropOwned (index : KeyMap String String) (agentId key k : String) :
    (dropOwned index agentId key).get k = if key = k ∧ index.get k = some agentId then none else index.get k := by
  unfold dropOwned
  by_cases hOwned : index.get key = some agentId
  · rw [if_pos hOwned, KeyMap.get_remove]
    by_cases hKey : k = key
    · subst hKey
      rw [if_pos rfl, if_pos ⟨rfl, hOwned⟩]
    · rw [if_neg hKey, if_neg fun h => hKey h.1.symm]
  · rw [if_neg hOwned]
    by_cases hBoth : key = k ∧ index.get k = some agentId
    · obtain ⟨rfl, hOwner⟩ := hBoth
      exact absurd hOwner hOwned
    · rw [if_neg hBoth]

theorem active_dropIndexes (x : String) : (r.dropIndexes canonicalize entry).agentIdByActiveSessionId.get x =
    if entry.activeSessionId = some x ∧ r.agentIdByActiveSessionId.get x = some entry.agentId then none
    else r.agentIdByActiveSessionId.get x := by
  have hFile : ∀ r : AgentRoster, (r.dropSessionFile canonicalize entry).agentIdByActiveSessionId =
      r.agentIdByActiveSessionId := by
    intro r
    unfold dropSessionFile
    split <;> rfl
  unfold dropIndexes
  rw [hFile]
  unfold dropActiveSessionId
  cases hActive : entry.activeSessionId with
  | none => simp
  | some active => simp only [get_dropOwned, Option.some.injEq]

theorem file_dropIndexes (k : String) : (r.dropIndexes canonicalize entry).agentIdBySessionFile.get k =
    if entry.sessionFile.map (canonicalRosterPath canonicalize) = some k ∧
      r.agentIdBySessionFile.get k = some entry.agentId then none
    else r.agentIdBySessionFile.get k := by
  have hActive : (r.dropActiveSessionId entry).agentIdBySessionFile = r.agentIdBySessionFile := by
    unfold dropActiveSessionId
    split <;> rfl
  unfold dropIndexes dropSessionFile
  cases hFile : entry.sessionFile with
  | none => simp [hActive]
  | some file => simp only [get_dropOwned, hActive, Option.map_some, Option.some.injEq]

@[simp] theorem entries_dropIndexes : (r.dropIndexes canonicalize entry).entries = r.entries := by
  unfold dropIndexes dropSessionFile dropActiveSessionId
  split <;> split <;> rfl

theorem get_delete (c : String) : (r.delete canonicalize agentId).get c = if c = agentId then none else r.get c := by
  unfold delete
  cases hGet : r.get agentId with
  | none =>
    by_cases hSame : c = agentId
    · rw [if_pos hSame, hSame, hGet]
    · rw [if_neg hSame]
  | some entry =>
    simp only [AgentRoster.get, entries_dropIndexes]
    by_cases hSame : c = agentId
    · rw [if_pos hSame, hSame, AList.lookup_erase]
    · rw [if_neg hSame, AList.lookup_erase_ne hSame]

end AgentRoster

open AgentRoster

/-! ## The invariants -/

abbrev WrittenKeys := String → Option String

structure Based (r : AgentRoster) (keys : WrittenKeys) : Prop where
  ids : ∀ a e, r.get a = some e → e.agentId = a
  keyed : ∀ a e, r.get a = some e → (keys a).isSome = e.sessionFile.isSome
  carried : ∀ x a, r.agentIdByActiveSessionId.get x = some a → ∃ e, r.get a = some e ∧ e.activeSessionId = some x

def NamesFile (r : AgentRoster) (keys : WrittenKeys) (a k : String) : Prop :=
  (r.get a).isSome = true ∧ keys a = some k

structure Answers (r : AgentRoster) (keys : WrittenKeys) : Prop where
  activeLive : ∀ x a, r.agentIdByActiveSessionId.get x = some a → (r.get a).isSome
  fileLive : ∀ k a, r.agentIdBySessionFile.get k = some a → (r.get a).isSome
  files : ∀ k a, r.agentIdBySessionFile.get k = some a ↔ NamesFile r keys a k
  owned : ∀ a b k, NamesFile r keys a k → NamesFile r keys b k → a = b
  active : ∀ a e x, r.get a = some e → e.activeSessionId = some x →
    ∃ e', r.byActiveSessionId x = some e' ∧ e'.activeSessionId = some x

/-- The part of `Answers` that a write can break. -/
structure Indexed (r : AgentRoster) (keys : WrittenKeys) : Prop where
  files : ∀ k a, r.agentIdBySessionFile.get k = some a ↔ NamesFile r keys a k
  found : ∀ a e x, r.get a = some e → e.activeSessionId = some x → (r.agentIdByActiveSessionId.get x).isSome

variable {r : AgentRoster} {keys : WrittenKeys} {entry : AgentRosterEntry} {canonicalize : Canonicalize}
  {paths : PathAnswers} {agentId : String}

theorem answers_iff (hBased : Based r keys) : Answers r keys ↔ Indexed r keys := by
  constructor
  · intro h
    refine ⟨h.files, ?_⟩
    intro a e x hGet hActive
    obtain ⟨e', hFound, -⟩ := h.active a e x hGet hActive
    obtain ⟨a', hRow, -⟩ := Option.bind_eq_some_iff.mp hFound
    rw [hRow]
    rfl
  · intro h
    constructor
    · intro x a hRow
      obtain ⟨e, hGet, -⟩ := hBased.carried x a hRow
      rw [hGet]
      rfl
    · exact fun k a hRow => ((h.files k a).mp hRow).1
    · exact h.files
    · intro a b k hA hB
      exact Option.some.inj (((h.files k a).mpr hA).symm.trans ((h.files k b).mpr hB))
    · intro a e x hGet hActive
      obtain ⟨a', hRow⟩ := Option.isSome_iff_exists.mp (h.found a e x hGet hActive)
      obtain ⟨e', hGet', hActive'⟩ := hBased.carried x a' hRow
      refine ⟨e', ?_, hActive'⟩
      rw [byActiveSessionId, hRow]
      exact hGet'

/-! ## Dropping an agent's rows -/

@[simp] theorem get_dropPrevious (c : String) : (r.dropPrevious canonicalize agentId).get c = r.get c := by
  unfold dropPrevious
  split
  next => simp only [AgentRoster.get, entries_dropIndexes]
  next => rfl

theorem active_dropPrevious (hBased : Based r keys) (x : String) :
    (r.dropPrevious canonicalize agentId).agentIdByActiveSessionId.get x =
      if r.agentIdByActiveSessionId.get x = some agentId then none else r.agentIdByActiveSessionId.get x := by
  unfold dropPrevious
  cases hGet : r.get agentId with
  | none =>
    rw [if_neg]
    intro hRow
    obtain ⟨e, hLive, -⟩ := hBased.carried x agentId hRow
    rw [hGet] at hLive
    cases hLive
  | some entry =>
    simp only [active_dropIndexes, hBased.ids agentId entry hGet]
    by_cases hRow : r.agentIdByActiveSessionId.get x = some agentId
    · obtain ⟨e, hLive, hActive⟩ := hBased.carried x agentId hRow
      obtain rfl := Option.some.inj (hGet.symm.trans hLive)
      rw [if_pos ⟨hActive, hRow⟩, if_pos hRow]
    · rw [if_neg hRow, if_neg fun h => hRow h.2]

def currentKey (canonicalize : Canonicalize) (r : AgentRoster) (agentId : String) : Option String :=
  ((r.get agentId).bind (·.sessionFile)).map (canonicalRosterPath canonicalize)

theorem file_dropPrevious (hBased : Based r keys) (k : String) :
    (r.dropPrevious canonicalize agentId).agentIdBySessionFile.get k =
      if currentKey canonicalize r agentId = some k ∧ r.agentIdBySessionFile.get k = some agentId then none
      else r.agentIdBySessionFile.get k := by
  unfold dropPrevious currentKey
  cases hGet : r.get agentId with
  | none => simp
  | some entry => simp only [file_dropIndexes, hBased.ids agentId entry hGet, Option.bind_some]

theorem based_dropPrevious (hBased : Based r keys) : Based (r.dropPrevious canonicalize agentId) keys := by
  constructor
  · intro a e hGet
    rw [get_dropPrevious] at hGet
    exact hBased.ids a e hGet
  · intro a e hGet
    rw [get_dropPrevious] at hGet
    exact hBased.keyed a e hGet
  · intro x a hRow
    rw [active_dropPrevious hBased] at hRow
    split at hRow
    next => cases hRow
    next =>
      rw [get_dropPrevious]
      exact hBased.carried x a hRow

/-! ## A delete -/

theorem active_delete_eq : (r.delete canonicalize agentId).agentIdByActiveSessionId =
    (r.dropPrevious canonicalize agentId).agentIdByActiveSessionId := by
  unfold AgentRoster.delete dropPrevious
  cases r.get agentId with
  | none => rfl
  | some entry =>
    ext1 x
    simp only [active_dropIndexes]

theorem file_delete_eq : (r.delete canonicalize agentId).agentIdBySessionFile =
    (r.dropPrevious canonicalize agentId).agentIdBySessionFile := by
  unfold AgentRoster.delete dropPrevious
  cases r.get agentId with
  | none => rfl
  | some entry =>
    ext1 x
    simp only [file_dropIndexes]

theorem based_delete (hBased : Based r keys) : Based (r.delete canonicalize agentId) keys := by
  constructor
  · intro a e hGet
    rw [get_delete] at hGet
    split at hGet
    next => cases hGet
    next => exact hBased.ids a e hGet
  · intro a e hGet
    rw [get_delete] at hGet
    split at hGet
    next => cases hGet
    next => exact hBased.keyed a e hGet
  · intro x a hRow
    rw [active_delete_eq, active_dropPrevious hBased] at hRow
    split at hRow
    next => cases hRow
    next hOther =>
      obtain ⟨e, hGet, hActive⟩ := hBased.carried x a hRow
      refine ⟨e, ?_, hActive⟩
      rw [get_delete, if_neg, hGet]
      rintro rfl
      exact hOther hRow

/-- The deleted agent's file still has the key it was written under, and no other agent shares the active session id
that the index answers with it. -/
structure DeletesClean (r : AgentRoster) (keys : WrittenKeys) (canonicalize : Canonicalize) (agentId : String) :
    Prop where
  file : ∀ k, NamesFile r keys agentId k → currentKey canonicalize r agentId = some k
  active : ∀ x, r.agentIdByActiveSessionId.get x = some agentId →
    ∀ c e, r.get c = some e → c ≠ agentId → e.activeSessionId ≠ some x

theorem indexed_delete_iff (hBased : Based r keys) (hIndexed : Indexed r keys) :
    Indexed (r.delete canonicalize agentId) keys ↔ DeletesClean r keys canonicalize agentId := by
  constructor
  · intro h
    constructor
    · intro k hNames
      by_contra hMoved
      have hStale : (r.delete canonicalize agentId).agentIdBySessionFile.get k = some agentId := by
        rw [file_delete_eq, file_dropPrevious hBased, if_neg fun h => hMoved h.1]
        exact (hIndexed.files k agentId).mpr hNames
      obtain ⟨hLive, -⟩ := (h.files k agentId).mp hStale
      rw [get_delete, if_pos rfl] at hLive
      cases hLive
    · intro x hRow c e hGet hOther hActive
      have hFound := h.found c e x (by rw [get_delete, if_neg hOther, hGet]) hActive
      rw [active_delete_eq, active_dropPrevious hBased, if_pos hRow] at hFound
      cases hFound
  · intro h
    constructor
    · intro k a
      rw [file_delete_eq, file_dropPrevious hBased, NamesFile, get_delete]
      by_cases hSame : a = agentId
      · subst hSame
        rw [if_pos rfl]
        refine iff_of_false ?_ (by simp)
        intro hRow
        split at hRow
        next => cases hRow
        next hKept => exact hKept ⟨h.file k ((hIndexed.files k a).mp hRow), hRow⟩
      · rw [if_neg hSame, ← NamesFile, ← hIndexed.files]
        split
        next hDropped =>
          refine iff_of_false (by simp) ?_
          intro hRow
          exact hSame (Option.some.inj (hRow.symm.trans hDropped.2))
        next => exact Iff.rfl
    · intro c e x hGet hActive
      rw [get_delete] at hGet
      split at hGet
      next => cases hGet
      next hOther =>
        rw [active_delete_eq, active_dropPrevious hBased, if_neg fun hRow => h.active x hRow c e hGet hOther hActive]
        exact hIndexed.found c e x hGet hActive

/-! ## A write -/

def writtenKey (paths : PathAnswers) (entry : AgentRosterEntry) : Option String :=
  entry.sessionFile.map (canonicalRosterPath paths.written)

def evictee (paths : PathAnswers) (r : AgentRoster) (entry : AgentRosterEntry) : Option String :=
  ((writtenKey paths entry).bind r.agentIdBySessionFile.get).filter (· ≠ entry.agentId)

def cleared (paths : PathAnswers) (r : AgentRoster) (entry : AgentRosterEntry) : AgentRoster :=
  match evictee paths r entry with
  | some other => (r.dropPrevious paths.dropped entry.agentId).delete paths.evicted other
  | none => r.dropPrevious paths.dropped entry.agentId

theorem claimSessionFile_eq (hBased : Based r keys) :
    (r.dropPrevious paths.dropped entry.agentId).claimSessionFile paths entry =
      match writtenKey paths entry with
      | some key => { cleared paths r entry with
          agentIdBySessionFile := (cleared paths r entry).agentIdBySessionFile.insert key entry.agentId }
      | none => cleared paths r entry := by
  unfold claimSessionFile cleared evictee writtenKey
  cases hFile : entry.sessionFile with
  | none => rfl
  | some file =>
    simp only [Option.map_some, Option.bind_some, file_dropPrevious hBased]
    cases hRow : r.agentIdBySessionFile.get (canonicalRosterPath paths.written file) with
    | none => simp
    | some existing =>
      by_cases hOwn : existing = entry.agentId
      · subst hOwn
        simp only [Option.filter, ne_eq, not_true_eq_false, decide_false]
        split
        next hBoth => split at hBoth <;> simp_all
        next => rfl
      · simp [Option.filter, hOwn]

theorem get_cleared (c : String) :
    (cleared paths r entry).get c = if evictee paths r entry = some c then none else r.get c := by
  unfold cleared
  cases hEvictee : evictee paths r entry with
  | none => simp
  | some other =>
    simp only [get_delete, get_dropPrevious, Option.some.injEq]
    by_cases hSame : c = other
    · rw [if_pos hSame, if_pos hSame.symm]
    · rw [if_neg hSame, if_neg (Ne.symm hSame)]

section

variable (hBased : Based r keys)

include hBased

theorem active_cleared (x : String) :
    (cleared paths r entry).agentIdByActiveSessionId.get x =
      if r.agentIdByActiveSessionId.get x = some entry.agentId ∨
        (∃ other, evictee paths r entry = some other ∧ r.agentIdByActiveSessionId.get x = some other) then none
      else r.agentIdByActiveSessionId.get x := by
  unfold cleared
  cases hEvictee : evictee paths r entry with
  | none => simp only [active_dropPrevious hBased, reduceCtorEq, false_and, exists_false, or_false]
  | some other =>
    simp only [active_delete_eq, active_dropPrevious (based_dropPrevious hBased), active_dropPrevious hBased,
      Option.some.injEq, exists_eq_left']
    by_cases hOwn : r.agentIdByActiveSessionId.get x = some entry.agentId
    · simp [hOwn]
    · simp only [hOwn, if_false, false_or]

theorem file_cleared (hIndexed : Indexed r keys) {k : String} (hOther : writtenKey paths entry ≠ some k) :
    (cleared paths r entry).agentIdBySessionFile.get k =
      if currentKey paths.dropped r entry.agentId = some k ∧ r.agentIdBySessionFile.get k = some entry.agentId then none
      else r.agentIdBySessionFile.get k := by
  unfold cleared
  cases hEvictee : evictee paths r entry with
  | none => exact file_dropPrevious hBased k
  | some other =>
    simp only [file_delete_eq, file_dropPrevious (based_dropPrevious hBased), file_dropPrevious hBased]
    have hElsewhere : r.agentIdBySessionFile.get k ≠ some other := by
      intro hRow
      obtain ⟨hBound, -⟩ := Option.filter_eq_some_iff.mp hEvictee
      obtain ⟨key, hKey, hRow'⟩ := Option.bind_eq_some_iff.mp hBound
      have hSame := ((hIndexed.files k other).mp hRow).2.symm.trans ((hIndexed.files key other).mp hRow').2
      obtain rfl := Option.some.inj hSame
      exact hOther hKey
    rw [if_neg]
    rintro ⟨-, hRow⟩
    split at hRow
    next => cases hRow
    next => exact hElsewhere hRow

theorem get_store (c : String) : (r.store paths entry).get c =
    if c = entry.agentId then some entry else if evictee paths r entry = some c then none else r.get c := by
  have hEntries : (((r.dropPrevious paths.dropped entry.agentId).claimSessionFile paths entry).claimActiveSessionId
      entry).entries = (cleared paths r entry).entries := by
    unfold claimActiveSessionId
    rw [claimSessionFile_eq hBased]
    split <;> split <;> rfl
  unfold AgentRoster.store
  simp only [AgentRoster.get, hEntries]
  by_cases hSame : c = entry.agentId
  · rw [if_pos hSame, hSame, AList.lookup_insert]
  · rw [if_neg hSame, AList.lookup_insert_ne hSame]
    exact get_cleared c

theorem active_store (x : String) : (r.store paths entry).agentIdByActiveSessionId.get x =
    if entry.activeSessionId = some x then some entry.agentId
    else (cleared paths r entry).agentIdByActiveSessionId.get x := by
  have hRows : ((r.dropPrevious paths.dropped entry.agentId).claimSessionFile paths entry).agentIdByActiveSessionId =
      (cleared paths r entry).agentIdByActiveSessionId := by
    rw [claimSessionFile_eq hBased]
    split <;> rfl
  unfold AgentRoster.store claimActiveSessionId
  simp only
  cases entry.activeSessionId with
  | none => simp only [hRows, reduceCtorEq, if_false]
  | some active =>
    simp only [hRows, KeyMap.get_insert, Option.some.injEq]
    by_cases hSame : x = active
    · rw [if_pos hSame, if_pos hSame.symm]
    · rw [if_neg hSame, if_neg (Ne.symm hSame)]

theorem file_store (k : String) : (r.store paths entry).agentIdBySessionFile.get k =
    if writtenKey paths entry = some k then some entry.agentId
    else (cleared paths r entry).agentIdBySessionFile.get k := by
  have hActive : ∀ r : AgentRoster, (r.claimActiveSessionId entry).agentIdBySessionFile = r.agentIdBySessionFile := by
    intro r
    unfold claimActiveSessionId
    split <;> rfl
  unfold AgentRoster.store
  simp only [hActive, claimSessionFile_eq hBased]
  cases writtenKey paths entry with
  | none => simp
  | some key =>
    simp only [KeyMap.get_insert, Option.some.injEq]
    by_cases hSame : k = key
    · rw [if_pos hSame, if_pos hSame.symm]
    · rw [if_neg hSame, if_neg (Ne.symm hSame)]

end

def writeKeys (paths : PathAnswers) (keys : WrittenKeys) (entry : AgentRosterEntry) : WrittenKeys :=
  fun a => if a = entry.agentId then writtenKey paths entry else keys a

theorem based_store (hBased : Based r keys) : Based (r.store paths entry) (writeKeys paths keys entry) := by
  constructor
  · intro a e hGet
    rw [get_store hBased] at hGet
    split at hGet
    next hSame =>
      obtain rfl := Option.some.inj hGet
      exact hSame.symm
    next =>
      split at hGet
      next => cases hGet
      next => exact hBased.ids a e hGet
  · intro a e hGet
    rw [get_store hBased] at hGet
    unfold writeKeys
    split at hGet
    next hSame =>
      obtain rfl := Option.some.inj hGet
      rw [if_pos hSame, writtenKey, Option.isSome_map]
    next hOther =>
      rw [if_neg hOther]
      split at hGet
      next => cases hGet
      next => exact hBased.keyed a e hGet
  · intro x a hRow
    rw [active_store hBased] at hRow
    rw [get_store hBased]
    split at hRow
    next hActive =>
      obtain rfl := Option.some.inj hRow
      exact ⟨entry, if_pos rfl, hActive⟩
    next =>
      rw [active_cleared hBased] at hRow
      split at hRow
      next => cases hRow
      next hKept =>
        obtain ⟨e, hGet, hActive⟩ := hBased.carried x a hRow
        refine ⟨e, ?_, hActive⟩
        rw [if_neg, if_neg, hGet]
        · exact fun hEvicted => hKept (.inr ⟨a, hEvicted, hRow⟩)
        · rintro rfl
          exact hKept (.inl hRow)

/-- The previous file of the agent still has the key it was written under, or the new one has it; and an active session
id that the index answers with the agent or with the one evicted is in the new entry, or no agent that stays shares it. -/
structure WritesClean (r : AgentRoster) (keys : WrittenKeys) (paths : PathAnswers) (entry : AgentRosterEntry) :
    Prop where
  file : ∀ k, NamesFile r keys entry.agentId k →
    currentKey paths.dropped r entry.agentId = some k ∨ writtenKey paths entry = some k
  active : ∀ x a, r.agentIdByActiveSessionId.get x = some a → a = entry.agentId ∨ evictee paths r entry = some a →
    entry.activeSessionId = some x ∨ ∀ c e, r.get c = some e → c ≠ entry.agentId → evictee paths r entry ≠ some c →
      e.activeSessionId ≠ some x

theorem indexed_store_iff (hBased : Based r keys) (hIndexed : Indexed r keys) :
    Indexed (r.store paths entry) (writeKeys paths keys entry) ↔ WritesClean r keys paths entry := by
  constructor
  · intro h
    constructor
    · intro k hNames
      by_contra hMoved
      obtain ⟨hNow, hNew⟩ := not_or.mp hMoved
      have hStale : (r.store paths entry).agentIdBySessionFile.get k = some entry.agentId := by
        rw [file_store hBased, if_neg hNew, file_cleared hBased hIndexed hNew, if_neg fun h => hNow h.1]
        exact (hIndexed.files k entry.agentId).mpr hNames
      have hKey := ((h.files k entry.agentId).mp hStale).2
      rw [writeKeys, if_pos rfl] at hKey
      exact hNew hKey
    · intro x a hRow hLeaves
      by_contra hShared
      obtain ⟨hNew, hOther⟩ := not_or.mp hShared
      refine hOther fun c e hGet hOwn hEvicted hActive => ?_
      have hFound := h.found c e x (by rw [get_store hBased, if_neg hOwn, if_neg hEvicted, hGet]) hActive
      rw [active_store hBased, if_neg hNew, active_cleared hBased, if_pos] at hFound
      · cases hFound
      · obtain rfl | hEvictee := hLeaves
        · exact .inl hRow
        · exact .inr ⟨a, hEvictee, hRow⟩
  · intro h
    constructor
    · intro k a
      rw [file_store hBased, NamesFile, get_store hBased, writeKeys]
      by_cases hKey : writtenKey paths entry = some k
      · rw [if_pos hKey]
        by_cases hOwn : a = entry.agentId
        · simp [hOwn, hKey]
        · rw [if_neg hOwn, if_neg hOwn]
          refine iff_of_false (fun hSame => hOwn (Option.some.inj hSame).symm) ?_
          rintro ⟨hLive, hNames⟩
          split at hLive
          next => cases hLive
          next hStays =>
            have hRow := (hIndexed.files k a).mpr ⟨hLive, hNames⟩
            refine hStays (Option.filter_eq_some_iff.mpr ⟨?_, by simpa using hOwn⟩)
            rw [hKey]
            exact hRow
      · rw [if_neg hKey, file_cleared hBased hIndexed hKey]
        by_cases hOwn : a = entry.agentId
        · subst hOwn
          rw [if_pos rfl, if_pos rfl]
          refine iff_of_false ?_ fun h => hKey h.2
          intro hRow
          split at hRow
          next => cases hRow
          next hKept =>
            obtain hNow | hNew := h.file k ((hIndexed.files k entry.agentId).mp hRow)
            · exact hKept ⟨hNow, hRow⟩
            · exact hKey hNew
        · rw [if_neg hOwn, if_neg hOwn]
          have hRows : (if currentKey paths.dropped r entry.agentId = some k ∧
              r.agentIdBySessionFile.get k = some entry.agentId then none else r.agentIdBySessionFile.get k) = some a ↔
              r.agentIdBySessionFile.get k = some a := by
            split
            next hDropped =>
              rw [hDropped.2]
              refine iff_of_false (by simp) fun hSame => hOwn (Option.some.inj hSame).symm
            next => exact Iff.rfl
          rw [hRows, hIndexed.files k a]
          split
          next hEvicted =>
            refine iff_of_false ?_ (by simp)
            rintro ⟨-, hNames⟩
            obtain ⟨hBound, -⟩ := Option.filter_eq_some_iff.mp hEvicted
            obtain ⟨key, hKey', hRow⟩ := Option.bind_eq_some_iff.mp hBound
            obtain rfl := Option.some.inj (hNames.symm.trans ((hIndexed.files key a).mp hRow).2)
            exact hKey hKey'
          next => exact Iff.rfl
    · intro c e x hGet hActive
      rw [get_store hBased] at hGet
      rw [active_store hBased]
      split
      next => rfl
      next hNew =>
        split at hGet
        next =>
          obtain rfl := Option.some.inj hGet
          exact absurd hActive hNew
        next hOwn =>
          split at hGet
          next => cases hGet
          next hEvicted =>
            rw [active_cleared hBased, if_neg]
            · exact hIndexed.found c e x hGet hActive
            · intro hGone
              have hStays : ∀ a, r.agentIdByActiveSessionId.get x = some a →
                  a = entry.agentId ∨ evictee paths r entry = some a → False := by
                intro a hRow hLeaves
                obtain hSame | hOther := h.active x a hRow hLeaves
                · exact hNew hSame
                · exact hOther c e hGet hOwn hEvicted hActive
              obtain hRow | ⟨a, hEvictee, hRow⟩ := hGone
              · exact hStays _ hRow (.inl rfl)
              · exact hStays a hRow (.inr hEvictee)

/-! ## A run -/

inductive RosterCall where
  | summary (paths : PathAnswers) (summary : Json) (workerId statusLabel : Option String)
  | seeded (paths : PathAnswers) (summary : Json) (seededCwd : Bool)
  | delete (canonicalize : Canonicalize) (agentId : String)

def AgentRoster.call (r : AgentRoster) (keys : WrittenKeys) : RosterCall → AgentRoster × WrittenKeys
  | .summary paths summary workerId statusLabel =>
    let (entry, r) := r.writeSummary paths summary workerId statusLabel
    (r, writeKeys paths keys entry)
  | .seeded paths summary seededCwd =>
    let (entry, r) := r.writeSeeded paths summary seededCwd
    (r, writeKeys paths keys entry)
  | .delete canonicalize agentId => (r.delete canonicalize agentId, keys)

def Clean (r : AgentRoster) (keys : WrittenKeys) : RosterCall → Prop
  | .summary paths summary workerId statusLabel => WritesClean r keys paths (summaryEntry summary workerId statusLabel)
  | .seeded paths summary seededCwd => WritesClean r keys paths (seededEntry summary seededCwd)
  | .delete canonicalize agentId => DeletesClean r keys canonicalize agentId

def Gone (r : AgentRoster) : RosterCall → Prop
  | .delete _ agentId =>
    (∀ x, r.agentIdByActiveSessionId.get x ≠ some agentId) ∧ ∀ k, r.agentIdBySessionFile.get k ≠ some agentId
  | _ => True

def AnswersAlong : AgentRoster → WrittenKeys → List RosterCall → Prop
  | r, keys, [] => Answers r keys
  | r, keys, call :: calls =>
    Answers r keys ∧ Gone (r.call keys call).1 call ∧ AnswersAlong (r.call keys call).1 (r.call keys call).2 calls

def CleanAlong : AgentRoster → WrittenKeys → List RosterCall → Prop
  | _, _, [] => True
  | r, keys, call :: calls => Clean r keys call ∧ CleanAlong (r.call keys call).1 (r.call keys call).2 calls

theorem based_call (hBased : Based r keys) (call : RosterCall) : Based (r.call keys call).1 (r.call keys call).2 := by
  cases call with
  | summary paths summary workerId statusLabel | seeded paths summary seededCwd => exact based_store hBased
  | delete canonicalize agentId => exact based_delete hBased

theorem indexed_call_iff (hBased : Based r keys) (hIndexed : Indexed r keys) (call : RosterCall) :
    Indexed (r.call keys call).1 (r.call keys call).2 ↔ Clean r keys call := by
  cases call with
  | summary paths summary workerId statusLabel | seeded paths summary seededCwd =>
    exact indexed_store_iff hBased hIndexed
  | delete canonicalize agentId => exact indexed_delete_iff hBased hIndexed

theorem gone_of_answers (call : RosterCall) (h : Answers (r.call keys call).1 (r.call keys call).2) :
    Gone (r.call keys call).1 call := by
  cases call with
  | summary | seeded => trivial
  | delete canonicalize agentId =>
    have hDead : ¬ ((r.delete canonicalize agentId).get agentId).isSome := by
      rw [get_delete, if_pos rfl]
      exact Bool.false_ne_true
    constructor
    · exact fun x hRow => hDead (h.activeLive x agentId hRow)
    · exact fun k hRow => hDead (h.fileLive k agentId hRow)

theorem answersAlong_iff (hBased : Based r keys) (hIndexed : Indexed r keys) (calls : List RosterCall) :
    AnswersAlong r keys calls ↔ CleanAlong r keys calls := by
  induction calls generalizing r keys with
  | nil => exact iff_of_true ((answers_iff hBased).mpr hIndexed) trivial
  | cons call calls ih =>
    have hNext := based_call hBased call
    constructor
    · rintro ⟨-, -, hRest⟩
      have hHead : Answers (r.call keys call).1 (r.call keys call).2 := by
        cases calls with
        | nil => exact hRest
        | cons => exact hRest.1
      have hIndexed' := (answers_iff hNext).mp hHead
      exact ⟨(indexed_call_iff hBased hIndexed call).mp hIndexed', (ih hNext hIndexed').mp hRest⟩
    · rintro ⟨hClean, hRest⟩
      have hIndexed' := (indexed_call_iff hBased hIndexed call).mpr hClean
      exact ⟨(answers_iff hBased).mpr hIndexed, gone_of_answers call ((answers_iff hNext).mpr hIndexed'),
        (ih hNext hIndexed').mpr hRest⟩

def noKeys : WrittenKeys :=
  fun _ => none

theorem based_new : Based AgentRoster.new noKeys := by
  constructor
  · intro a e hGet
    cases hGet
  · intro a e hGet
    cases hGet
  · intro x a hRow
    cases hRow

theorem indexed_new : Indexed AgentRoster.new noKeys := by
  constructor
  · intro k a
    refine iff_of_false (by simp [AgentRoster.new]) ?_
    rintro ⟨-, hKey⟩
    cases hKey
  · intro a e x hGet
    cases hGet

/-- The indexes answer for the entries in every state of a run exactly where each of its calls drops the rows it means,
and takes no active session id from an agent that still has it. -/
theorem roster_indexes_iff (calls : List RosterCall) :
    AnswersAlong AgentRoster.new noKeys calls ↔ CleanAlong AgentRoster.new noKeys calls :=
  answersAlong_iff based_new indexed_new calls

def rawPaths : PathAnswers :=
  ⟨fun _ => none, fun _ => none, fun _ => none⟩

def agentSummary (sessionId member value : String) : Json :=
  .object [("sessionId", .string sessionId), (member, .string value)]

def sharedIdCalls : List RosterCall :=
  [.summary rawPaths (agentSummary "s1" "activeSessionId" "a1") (some "w1") none,
    .summary rawPaths (agentSummary "s2" "activeSessionId" "a1") (some "w2") none,
    .delete (fun _ => none) "s2"]

def movedFileCalls : List RosterCall :=
  [.summary rawPaths (agentSummary "s1" "sessionFile" "/tmp/s1.jsonl") (some "w1") none,
    .delete (fun _ => some "/private/tmp/s1.jsonl") "s1"]

theorem indexes_lose_agent : ¬ AnswersAlong AgentRoster.new noKeys sharedIdCalls ∧
    ¬ AnswersAlong AgentRoster.new noKeys movedFileCalls := by
  constructor
  · rintro ⟨-, -, -, -, -, -, hLast⟩
    obtain ⟨e', hFound, -⟩ := hLast.active "s1" (summaryEntry (agentSummary "s1" "activeSessionId" "a1") (some "w1") none)
      "a1" (by decide +kernel) (by decide +kernel)
    exact absurd hFound (by rw [show AgentRoster.byActiveSessionId _ "a1" = none from rfl]; simp)
  · rintro ⟨-, -, -, ⟨-, hGone⟩, -⟩
    exact hGone "/tmp/s1.jsonl" rfl

end PrimeAgent.Roster
