import PrimeAgent.Manager.Lifecycle
import PrimeAgent.Session.Lines

/-! # What opening a file leaves alone

Loading folds the child usage in and brings the rows up to date. Beyond the usage of an answer and the depth of the
header it only changes what a migration sets: the version, the ids and the first kept entry.
-/
namespace PrimeAgent

def noUsageYet : Usage :=
  ⟨0, 0, 0, 0, 0, ⟨⟨0⟩, ⟨0⟩, ⟨0⟩, ⟨0⟩, ⟨0⟩⟩⟩

namespace FileEntry

/-- The row without what loading sets; `current` where the file needs no migration. -/
def lasting (current : Bool) : FileEntry → FileEntry
  | .header h => .header { h with version := if current then h.version else none, rlmDepth := none }
  | .compaction payload base =>
    if current then .compaction payload base
    else .compaction { payload with firstKeptEntryId := "" } { base with id := none, parentId := none }
  | entry =>
    let entry := entry.setUsage noUsageYet
    if current then entry
    else match entry.base? with
      | some base => entry.setBase { base with id := none, parentId := none }
      | none => entry

@[simp] theorem lasting_setUsage (current : Bool) (usage : Usage) (entry : FileEntry) :
    (entry.setUsage usage).lasting current = entry.lasting current := by
  cases entry with
  | message message base => cases message <;> rfl
  | _ => rfl

@[simp] theorem lasting_setVersion (version : Nat) (entry : FileEntry) :
    (entry.setVersion version).lasting false = entry.lasting false := by
  cases entry <;> rfl

theorem lasting_setBase {entry : FileEntry} {base : EntryBase} (hBase : entry.base? = some base) (id : Option String)
    (parentId : Option String) :
    (entry.setBase { base with id := id, parentId := parentId }).lasting false = entry.lasting false := by
  cases entry with
  | header h | unknown rest => cases hBase
  | message message old =>
    obtain rfl := Option.some.inj hBase
    cases message <;> rfl
  | _ =>
    obtain rfl := Option.some.inj hBase
    rfl

@[simp] theorem lasting_fixCompaction (entries : List FileEntry) (entry : FileEntry) :
    (fixCompaction entries entry).lasting false = entry.lasting false := by
  unfold fixCompaction
  split
  · simp only
    split <;> rfl
  · rfl

end FileEntry

theorem assignIds_lasting (sources : Nat → IdSource) (entries : List FileEntry) :
    ∀ (ids : List String) (prevId : Option String),
      (assignIds sources ids prevId entries).map (·.lasting false) = entries.map (·.lasting false) := by
  induction entries with
  | nil => intro _ _; rfl
  | cons entry entries ih =>
    intro ids prevId
    have hBased : ∀ id : Option String, (match entry.base? with
        | some base => entry.setBase { base with id := id, parentId := prevId }
        | none => entry).lasting false = entry.lasting false := by
      intro id
      cases hBase : entry.base? with
      | none => rfl
      | some base => exact FileEntry.lasting_setBase hBase id prevId
    cases entry with
    | header h => rw [assignIds, List.map_cons, List.map_cons, ih, FileEntry.lasting_setVersion]
    | unknown rest =>
      rw [assignIds, List.map_cons, List.map_cons, ih]
      · rfl
      · exact fun h => by simp
    | _ =>
      rw [assignIds, List.map_cons, List.map_cons, ih]
      · exact congrArg (· :: _) (hBased _)
      · exact fun h => by simp

theorem migrateToCurrentVersion_lasting (sources : Nat → IdSource) (entries : List FileEntry) :
    (migrateToCurrentVersion sources entries).1.map (·.lasting (decide (currentSessionVersion ≤ sessionVersion entries))) =
      entries.map (·.lasting (decide (currentSessionVersion ≤ sessionVersion entries))) := by
  have hFirst : (migrateV1ToV2 sources entries).map (·.lasting false) = entries.map (·.lasting false) := by
    rw [migrateV1ToV2, List.map_map, ← assignIds_lasting sources entries [] none]
    exact List.map_congr_left fun entry _ => FileEntry.lasting_fixCompaction _ entry
  have hSecond : ∀ rows : List FileEntry, (migrateV2ToV3 rows).map (·.lasting false) = rows.map (·.lasting false) := by
    intro rows
    rw [migrateV2ToV3, List.map_map]
    exact List.map_congr_left fun entry _ => FileEntry.lasting_setVersion 3 entry
  unfold migrateToCurrentVersion
  by_cases hCurrent : currentSessionVersion ≤ sessionVersion entries
  · simp only [if_pos hCurrent]
  · simp only [if_neg hCurrent, decide_eq_false hCurrent]
    split <;> split <;> simp only [hFirst, hSecond]

theorem upgradeEntries_lasting (env : Env) (entries : List FileEntry) :
    (World.upgradeEntries env entries).1.map (·.lasting (decide (currentSessionVersion ≤ sessionVersion entries))) =
      entries.map (·.lasting (decide (currentSessionVersion ≤ sessionVersion entries))) := by
  rw [← migrateToCurrentVersion_lasting env.ids entries]
  unfold World.upgradeEntries
  simp only
  split
  next header rest hRows =>
    split
    next =>
      rw [hRows]
      rfl
    next => rfl
  next => rfl

theorem attributions_lasting (current : Bool) (entries : List FileEntry) :
    (applyChildUsageAttributions entries).map (·.lasting current) = entries.map (·.lasting current) :=
  applyUpdates_map _ (fun usage entry => FileEntry.lasting_setUsage current usage entry) entries _

theorem sessionVersion_attributions (entries : List FileEntry) :
    sessionVersion (applyChildUsageAttributions entries) = sessionVersion entries := by
  have hMap {β : Type} (f : FileEntry → Option β) (rows : List FileEntry) :
      rows.findSome? f = (rows.map f).findSome? id := by rw [List.findSome?_map, Function.id_comp]
  rw [sessionVersion, sessionVersion, hMap _ entries, hMap _ (applyChildUsageAttributions entries),
    applyChildUsageAttributions, applyUpdates_map]
  intro usage entry
  cases entry with
  | message message base => cases message <;> rfl
  | _ => rfl

end PrimeAgent
