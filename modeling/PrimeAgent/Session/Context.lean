import PrimeAgent.Lib.BinarySearch
import PrimeAgent.Lib.KeyMap
import PrimeAgent.Lib.LastSplit
import PrimeAgent.Lib.ParentWalk
import PrimeAgent.Session.Timestamp

/-! # The context at a leaf

`build_session_context`: the ancestor path of the leaf, the settings in effect along it, and the
messages of the last compacted window, where only the newest harness digest is kept.
-/
namespace PrimeAgent

open ParentWalk BinarySearch LastSplit

structure SessionContext where
  messages : List AgentMessage
  thinkingLevel : String
  serviceTier : Option ServiceTier
  model : Option (String × String)
deriving DecidableEq

def emptyContext : SessionContext where
  messages := []
  thinkingLevel := "off"
  serviceTier := none
  model := none

/-- `HARNESS_DIGEST_CUSTOM_TYPE`. -/
def harnessDigestCustomType : String :=
  "harness_digest"

def isHarnessDigest : FileEntry → Bool
  | .customMessage payload _ => payload.customType == harnessDigestCustomType
  | _ => false

def createCustomMessage (payload : CustomMessageEntry) (entry : FileEntry) : CustomMessage where
  customType := payload.customType
  content := payload.content
  display := payload.display
  details := payload.details
  timestamp := timestampToMillis entry.timestamp

def idPairs (entries : List FileEntry) : List (String × Nat) :=
  entries.zipIdx.filterMap fun (entry, index) => entry.id.map (·, index)

/-- `by_id`, collected from the rows: the last row of an id wins. -/
def indexById (entries : List FileEntry) : KeyMap String Nat :=
  KeyMap.ofPairs (idPairs entries)

theorem idPairs_concat (entries : List FileEntry) (entry : FileEntry) :
    idPairs (entries ++ [entry]) = idPairs entries ++ (entry.id.map (·, entries.length)).toList := by
  rw [idPairs, List.zipIdx_append, List.filterMap_append]
  cases h : entry.id <;> simp [idPairs, h]

theorem indexById_concat (entries : List FileEntry) (entry : FileEntry) (id : String) :
    (indexById (entries ++ [entry])).get id
      = if entry.id = some id then some entries.length else (indexById entries).get id := by
  rw [indexById, idPairs_concat]
  cases h : entry.id with
  | none => simp [indexById]
  | some id' =>
    rw [Option.map_some, Option.toList_some, KeyMap.ofPairs_concat, KeyMap.get_insert]
    by_cases hId : id = id'
    · simp [hId]
    · rw [if_neg hId, if_neg (by simpa using fun h => hId h.symm)]
      rfl

theorem indexById_eq_some_iff (entries : List FileEntry) (id : String) (i : Nat) :
    (indexById entries).get id = some i ↔
      (entries[i]?).bind (·.id) = some id ∧ ∀ j, i < j → (entries[j]?).bind (·.id) ≠ some id := by
  induction entries using List.reverseRecOn generalizing i with
  | nil => simp [indexById, idPairs]
  | append_singleton entries entry ih =>
    rw [indexById_concat]
    by_cases hId : entry.id = some id
    · rw [if_pos hId, Option.some_inj]
      constructor
      · rintro rfl
        refine ⟨by simpa using hId, fun j hj => ?_⟩
        rw [List.getElem?_eq_none (by simp; omega)]
        simp
      · rintro ⟨hAt, hLast⟩
        by_contra hNe
        rcases Nat.lt_or_gt_of_ne hNe with hLt | hGt
        · rw [List.getElem?_eq_none (by simp; omega)] at hAt
          cases hAt
        · exact hLast entries.length hGt (by simpa using hId)
    · rw [if_neg hId, ih]
      have hSame : ∀ j : Nat, ((entries ++ [entry])[j]?).bind FileEntry.id = some id ↔ (entries[j]?).bind FileEntry.id = some id := by
        intro j
        rcases Nat.lt_trichotomy j entries.length with hLt | rfl | hGt
        · rw [List.getElem?_append_left hLt]
        · simp [hId]
        · rw [List.getElem?_eq_none (by simp; omega), List.getElem?_eq_none (by omega)]
      simp only [hSame, ne_eq]

variable {entries : List FileEntry}

theorem indexById_lt {id : String} {i : Nat} (h : (indexById entries).get id = some i) :
    i < entries.length := by
  have hAt := ((indexById_eq_some_iff entries id i).mp h).1
  by_contra hGe
  rw [List.getElem?_eq_none (by omega)] at hAt
  cases hAt

def parentIndex (entries : List FileEntry) (index : Nat) : Option Nat :=
  (entries[index]?).bind fun entry => entry.parentId.bind (indexById entries).get

def leafIndex (entries : List FileEntry) : Option String → Option Nat
  | none | some "" => if entries.isEmpty then none else some (entries.length - 1)
  | some id => (indexById entries).get id

theorem parentIndex_lt {i j : Nat} (h : parentIndex entries i = some j) :
    j < entries.length := by
  simp only [parentIndex, Option.bind_eq_some_iff] at h
  obtain ⟨_, _, _, _, hIndex⟩ := h
  exact indexById_lt hIndex

theorem leafIndex_lt {leafId : Option String} {i : Nat} (h : leafIndex entries leafId = some i) :
    i < entries.length := by
  unfold leafIndex at h
  split at h
  · split at h
    · cases h
    · rename_i hNonempty
      obtain rfl := Option.some.inj h
      have : entries.length ≠ 0 := by simpa using hNonempty
      omega
  · split at h
    · cases h
    · rename_i hNonempty
      obtain rfl := Option.some.inj h
      have : entries.length ≠ 0 := by simpa using hNonempty
      omega
  · exact indexById_lt h

/-- The `while let Some(index) = current` loop of `build_session_context`, newest row first. -/
def contextWalk (entries : List FileEntry) (fuel : Nat) (leafId : Option String) : Option (List Nat) :=
  followGuarded (parentIndex entries) fuel [] (leafIndex entries leafId)

def contextPath (entries : List FileEntry) (leafId : Option String) : List Nat :=
  ((contextWalk entries (entries.length + 1) leafId).getD []).reverse

theorem contextWalk_isSome (entries : List FileEntry) (leafId : Option String) :
    (contextWalk entries (entries.length + 1) leafId).isSome := by
  refine followGuarded_isSome (Finset.range entries.length)
    (fun a b h => Finset.mem_range.mpr (parentIndex_lt h)) _ _ _
    (fun a h => Finset.mem_range.mpr (leafIndex_lt h)) ?_
  simp

structure PathSettings where
  thinkingLevel : String
  serviceTier : Option ServiceTier
  model : Option (String × String)
deriving DecidableEq

def PathSettings.initial : PathSettings where
  thinkingLevel := "off"
  serviceTier := none
  model := none

def PathSettings.apply (settings : PathSettings) : FileEntry → PathSettings
  | .thinkingLevelChange payload _ => { settings with thinkingLevel := payload.thinkingLevel }
  | .serviceTierChange payload _ => { settings with serviceTier := payload.serviceTier }
  | .modelChange payload _ => { settings with model := some (payload.provider, payload.modelId) }
  | .message (.assistant m) _ => { settings with model := some (m.provider, m.model) }
  | _ => settings

/-- `append_message`. -/
def appendMessage (keepDigestEntryId : Option String) (entry : FileEntry) : List AgentMessage :=
  match entry with
  | .message message _ => [message]
  | .customMessage payload _ =>
    if payload.customType == harnessDigestCustomType && entry.id != keepDigestEntryId then []
    else [.custom (createCustomMessage payload entry)]
  | .branchSummary payload _ =>
    if payload.summary.isEmpty then []
    else [.branchSummary ⟨payload.summary, payload.fromId, timestampToMillis entry.timestamp⟩]
  | _ => []

def summaryMessage (payload : CompactionEntry) (entry : FileEntry) (retained : Nat) (yieldsSnapshot : Bool) :
    AgentMessage :=
  let harnessDigest := if yieldsSnapshot then none else payload.harnessDigest
  .compactionSummary
    { summary := payload.summary
      tokensBefore := payload.tokensBefore
      retainedMessageCount := some retained
      customInstructions := payload.customInstructions
      harnessDigest := harnessDigest
      harnessStateFingerprint := if harnessDigest.isNone then none else payload.harnessStateFingerprint
      timestamp := timestampToMillis entry.timestamp }

def rowsAt (entries : List FileEntry) (path : List Nat) : List FileEntry :=
  path.filterMap (entries[·]?)

/-- `build_session_context` below the leaf: everything it reads off the path. -/
def contextOnPath (entries : List FileEntry) (path : List Nat) : SessionContext :=
  let settings := (rowsAt entries path).foldl PathSettings.apply PathSettings.initial
  let compaction := (splitAtLast (fun i => (entries[i]?).any (·.isCompaction)) path).map (·.2.1)
  let newestDigest := splitAtLast (fun i => (entries[i]?).any isHarnessDigest) path
  let newestDigestPathIdx := newestDigest.map (·.1.length)
  let newestDigestEntryId := newestDigest.bind fun (_, i, _) => (entries[i]?).bind (·.id)
  let compactionPathIdx := compaction.bind fun c => path.findIdx? (· == c)
  let payload := compaction.bind fun c => match entries[c]? with
    | some (.compaction payload _) => some payload
    | _ => none
  let snapshotOutranksDigest := payload.any fun payload =>
    payload.harnessDigest.isSome &&
      newestDigestPathIdx.all fun digestIdx => compactionPathIdx.any (digestIdx < ·)
  let keepDigestEntryId := if snapshotOutranksDigest then none else newestDigestEntryId
  let summaryYieldsSnapshot := newestDigestPathIdx.any fun digestIdx => compactionPathIdx.any (· < digestIdx)
  let messages := match compaction, payload with
    | some c, some payload =>
      let before := path.take (partitionPoint (fun i => decide (i < c)) path)
      let kept := before.dropWhile fun i => ((entries[i]?).bind (·.id)).getD "" != payload.firstKeptEntryId
      let retained := (rowsAt entries kept).flatMap (appendMessage keepDigestEntryId)
      let after := path.drop (partitionPoint (fun i => decide (i ≤ c)) path)
      summaryMessage payload ((entries[c]?).getD (.unknown [])) retained.length summaryYieldsSnapshot
        :: retained ++ (rowsAt entries after).flatMap (appendMessage keepDigestEntryId)
    | _, _ => (rowsAt entries path).flatMap (appendMessage keepDigestEntryId)
  { messages := messages
    thinkingLevel := settings.thinkingLevel
    serviceTier := settings.serviceTier
    model := settings.model }

def buildSessionContext (entries : List FileEntry) (leafId : Option String) : SessionContext :=
  match leafIndex entries leafId with
  | none => emptyContext
  | some _ => contextOnPath entries (contextPath entries leafId)

end PrimeAgent
