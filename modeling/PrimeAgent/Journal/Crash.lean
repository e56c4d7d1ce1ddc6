import PrimeAgent.Journal.Reopen
import PrimeAgent.Journal.Calls

/-! # Crashes in the middle of an append

A crash leaves a prefix of the bytes an append was writing. Where the prefix ends in a torn line, the reader
skips it; but an append that starts behind the torn line is lost with it.
-/
namespace PrimeAgent

structure JournalText.Tears (text : JournalText) (record : Json) : Prop where
  value : ∀ piece, piece <+: text.toString record → piece ≠ text.toString record → text.value piece = none
  workerRecord : ∀ piece, piece <+: text.toString record → piece ≠ text.toString record → text.workerRecord piece = none

inductive Append where
  | whole (records : List Json)
  | cut (records : List Json)

def Write.appends : Write → List Append
  | append records => [.whole records]
  | rewrite _ => []

def Write.appended : Write → List Json
  | append records => records
  | rewrite _ => []

inductive Survivors : List Append → List Json → Prop
  | nil : Survivors [] []
  | whole {appends : List Append} {history : List Json} (records : List Json) (h : Survivors appends history) :
      Survivors (appends ++ [.whole records]) (history ++ records)
  | cut {appends : List Append} {history : List Json} (records : List Json) (k : Nat) (h : Survivors appends history) :
      Survivors (appends ++ [.cut records]) (history ++ records.take k)

/-- A journal as its process may leave it: dead, over a file that some appends have gone to. -/
structure Crashing (J : Type) where
  journal : Option J
  file : JournalFile
  appends : List Append

/-- A journal: how it is opened, what its operations do, and what a record of the file is to it. -/
structure JournalKind (J Op : Type) where
  openFile : JournalText → JournalFile → Option J
  run : JournalText → (Nat → JournalEnv) → Journaled J → Op → Option (Outcome J)
  /-- The operation writes nothing. -/
  Idle : JournalText → J → Op → Prop
  /-- The operation ends with a compaction, if it writes at all. -/
  Compacts : JournalText → J → Op → Prop
  replay : J → Json → J
  same : J → J → Prop

section Runs

variable {J Op : Type} (kind : JournalKind J Op) (text : JournalText) (completes : JournalFile → J → Op → Prop)
  (cuts : JournalFile → Bytes → Prop)

/-- Operations, crashes in the middle of their appends, and reopens, where operations complete and appends are cut
on the given terms. -/
inductive CrashRun (first : J) : Crashing J → Prop
  | opened (file : JournalFile) (hIntact : file.Intact) (hOpen : kind.openFile text file = some first) :
      CrashRun first ⟨some first, file, []⟩
  | completed {j : J} {file : JournalFile} {appends : List Append} (envs : Nat → JournalEnv) (op : Op)
      (outcome : Outcome J) (hRun : CrashRun first ⟨some j, file, appends⟩) (hTerms : completes file j op)
      (hOp : kind.run text envs ⟨j, file⟩ op = some outcome) (hKeeps : outcome.Keeps text) :
      CrashRun first ⟨some outcome.journal, runWrites text file outcome.writes,
        appends ++ outcome.writes.flatMap Write.appends⟩
  | crashed {j : J} {file : JournalFile} {appends : List Append} (envs : Nat → JournalEnv) (op : Op)
      (outcome : Outcome J) (before after : List Write) (records : List Json) (piece : Bytes)
      (hRun : CrashRun first ⟨some j, file, appends⟩) (hTerms : cuts file piece)
      (hOp : kind.run text envs ⟨j, file⟩ op = some outcome) (hKeeps : outcome.Keeps text)
      (hTears : ∀ record ∈ records, text.Tears record)
      (hWrites : outcome.writes = before ++ .append records :: after)
      (hPiece : piece <+: utf8 (recordLines text records)) :
      CrashRun first ⟨none, some ((runWrites text file before).getD [] ++ piece),
        appends ++ before.flatMap Write.appends ++ [.cut records]⟩
  | reopened {w : Crashing J} {j : J} (hRun : CrashRun first w) (hOpen : kind.openFile text w.file = some j) :
      CrashRun first ⟨some j, w.file, w.appends⟩

/-- An append starts behind the last newline, unless its operation ends with a compaction, which forgets nothing. -/
def Careful (allowed : J → Op → Prop) (file : JournalFile) (j : J) (op : Op) : Prop :=
  allowed j op ∧ (file.Intact ∨ kind.Idle text j op ∨ kind.Compacts text j op)

def CleanCut (file : JournalFile) (piece : Bytes) : Prop :=
  file.Intact ∧ (Utf8.decode piece).isSome = true

def Honours (first : J) (w : Crashing J) : Prop :=
  ∃ reopened history, kind.openFile text w.file = some reopened ∧ Survivors w.appends history ∧
    kind.same reopened (history.foldl kind.replay first)

end Runs

theorem Survivors.writes {appends : List Append} {history : List Json} (h : Survivors appends history)
    (writes : List Write) :
    Survivors (appends ++ writes.flatMap Write.appends)
      (history ++ writes.flatMap Write.appended) := by
  induction writes generalizing appends history with
  | nil => simpa using h
  | cons write writes ih =>
    cases write with
    | append records => simpa [Write.appends, Write.appended] using ih (.whole records h)
    | rewrite records => simpa [Write.appends, Write.appended] using ih h

section Tails

variable {text : JournalText} {strip : Text → Text} {file : JournalFile} {records : List Json}

theorem readLines_tail {tail : Text} (hIntact : file.Intact) (hTail : '\n' ∉ tail) :
    JournalFile.readLines strip (some (file.getD [] ++ utf8 tail))
      = JournalFile.readLines strip file ++ (if tail = [] then [] else [tail]) := by
  obtain ⟨content, hBytes, hWhole⟩ := hIntact
  rw [JournalFile.readLines_of_getD hBytes, ← LineLog.lines_tail hTail, ← LineLog.lines_append hWhole]
  apply JournalFile.readLines_of_getD
  simp only [Option.getD_some, hBytes, utf8, Utf8.encode_append]

theorem cut_shape {piece : Bytes} (hPiece : piece <+: utf8 (recordLines text records))
    (hUtf8 : (Utf8.decode piece).isSome = true) (file : JournalFile) :
    ∃ k tail, some (file.getD [] ++ piece)
        = some (((Write.append (records.take k)).run text file).getD [] ++ utf8 tail) ∧
      (tail = [] ∨ ∃ record, records[k]? = some record ∧ tail <+: text.toString record) := by
  obtain ⟨content, hContent⟩ := Option.isSome_iff_exists.mp hUtf8
  obtain ⟨k, tail, hShape, hTail⟩ := LineLog.prefix_block (LineLog.prefix_of_decode hPiece hContent)
  refine ⟨k, tail, ?_, ?_⟩
  · rw [Utf8.decode_eq_some_iff.mp hContent, hShape, ← List.map_take]
    simp only [Write.run, recordLines, Option.getD_some, utf8, Utf8.encode_append, List.append_assoc]
  · rcases hTail with rfl | ⟨line, hLine, hPrefix⟩
    · exact Or.inl rfl
    · right
      rw [List.getElem?_map, Option.map_eq_some_iff] at hLine
      obtain ⟨record, hRecord, rfl⟩ := hLine
      exact ⟨record, hRecord, hPrefix⟩

end Tails

namespace JournalKind

variable {J Op : Type} {kind : JournalKind J Op} {text : JournalText} {allowed : J → Op → Prop}

/-- What one call does: nothing, an append, or an append and a compaction that reads back. -/
inductive Effect (kind : JournalKind J Op) (text : JournalText) (j : J) : Outcome J → Prop
  | idle : Effect kind text j ⟨j, []⟩
  | logged (records : List Json) (next : J) (hNext : kind.same next (records.foldl kind.replay j)) :
      Effect kind text j ⟨next, [.append records]⟩
  | compacted (records compacted : List Json) (next : J) (hNext : kind.same next (records.foldl kind.replay j))
      (hRead : (∀ record ∈ compacted, text.Keeps record) → ∀ file, ∃ reopened,
        kind.openFile text ((Write.rewrite compacted).run text file) = some reopened ∧ kind.same reopened next) :
      Effect kind text j ⟨next, [.append records, .rewrite compacted]⟩

inductive Chain (kind : JournalKind J Op) (text : JournalText) : J → Outcome J → Prop
  | done (j : J) : Chain kind text j ⟨j, []⟩
  | call {j : J} {outcome rest : Outcome J} (hCall : kind.Effect text j outcome)
      (hRest : Chain kind text outcome.journal rest) :
      Chain kind text j ⟨rest.journal, outcome.writes ++ rest.writes⟩

theorem Effect.chain {j : J} {outcome : Outcome J} (h : kind.Effect text j outcome) : kind.Chain text j outcome := by
  have hChain := Chain.call h (.done outcome.journal)
  rwa [List.append_nil] at hChain

structure Lawful (kind : JournalKind J Op) (text : JournalText) (allowed : J → Op → Prop) : Prop where
  refl : ∀ j, kind.same j j
  symm : ∀ {j j'}, kind.same j j' → kind.same j' j
  trans : ∀ {j j' j''}, kind.same j j' → kind.same j' j'' → kind.same j j''
  replay : ∀ {j j'}, kind.same j j' → ∀ record, kind.same (kind.replay j record) (kind.replay j' record)
  openAppend : ∀ {file : JournalFile} {records j}, file.Intact → (∀ record ∈ records, text.Keeps record) →
    kind.openFile text file = some j → ∃ reopened,
      kind.openFile text ((Write.append records).run text file) = some reopened ∧
        kind.same reopened (records.foldl kind.replay j)
  openTail : ∀ {file : JournalFile} {record tail j}, file.Intact → text.Keeps record → text.Tears record →
    tail <+: text.toString record → tail ≠ [] → kind.openFile text file = some j → ∃ reopened,
      kind.openFile text (some (file.getD [] ++ utf8 tail)) = some reopened ∧
        (kind.same reopened j ∨ kind.same reopened (kind.replay j record))
  chain : ∀ {envs file j op outcome reopened}, kind.run text envs ⟨j, file⟩ op = some outcome →
    kind.openFile text file = some reopened → kind.same reopened j → allowed j op →
      ∃ start, kind.same start j ∧ kind.Chain text start outcome
  before : ∀ {envs file j op outcome reopened before records after}, kind.run text envs ⟨j, file⟩ op = some outcome →
    kind.openFile text file = some reopened → kind.same reopened j →
      outcome.writes = before ++ .append records :: after →
        ∃ start mid, kind.same start j ∧ kind.Chain text start ⟨mid, before⟩
  idle : ∀ {envs file j op outcome}, kind.run text envs ⟨j, file⟩ op = some outcome → kind.Idle text j op →
    outcome.writes = []
  compacts : ∀ {envs file j op outcome reopened}, kind.run text envs ⟨j, file⟩ op = some outcome →
    kind.openFile text file = some reopened → kind.same reopened j → kind.Compacts text j op →
      outcome.writes = [] ∨ ∃ records, outcome.writes.getLast? = some (.rewrite records)

variable {j j' : J} {outcome : Outcome J} {file : JournalFile} {records : List Json} {appends : List Append}
  {envs : Nat → JournalEnv} {first : J}

theorem Lawful.foldl (hLaw : kind.Lawful text allowed) (records : List Json) (h : kind.same j j') :
    kind.same (records.foldl kind.replay j) (records.foldl kind.replay j') := by
  induction records generalizing j j' with
  | nil => exact h
  | cons record records ih => exact ih (hLaw.replay h record)

theorem Chain.same (hLaw : kind.Lawful text allowed) (h : kind.Chain text j outcome) :
    kind.same outcome.journal ((outcome.writes.flatMap Write.appended).foldl kind.replay j) := by
  induction h with
  | done j => exact hLaw.refl j
  | call hCall _ ih =>
    rw [List.flatMap_append, List.foldl_append]
    refine hLaw.trans ih (hLaw.foldl _ ?_)
    cases hCall with
    | idle => exact hLaw.refl _
    | logged records next hNext | compacted records compacted next hNext _ => simpa [Write.appended] using hNext

theorem Chain.intact (hLaw : kind.Lawful text allowed) (h : kind.Chain text j outcome) (hKeeps : outcome.Keeps text)
    {reopened : J} (hIntact : file.Intact) (hOpen : kind.openFile text file = some reopened)
    (hSame : kind.same reopened j) :
    (runWrites text file outcome.writes).Intact ∧ ∃ reopened',
      kind.openFile text (runWrites text file outcome.writes) = some reopened' ∧
        kind.same reopened' outcome.journal := by
  induction h generalizing file reopened with
  | done j => exact ⟨hIntact, reopened, hOpen, hSame⟩
  | @call j outcome rest hCall _ ih =>
    simp only [runWrites, List.foldl_append]
    have hFirst : outcome.Keeps text := fun write hWrite => hKeeps write (List.mem_append_left _ hWrite)
    have hRest : rest.Keeps text := fun write hWrite => hKeeps write (List.mem_append_right _ hWrite)
    cases hCall with
    | idle => exact ih hRest hIntact hOpen hSame
    | logged records next hNext =>
      obtain ⟨reopened', hOpen', hSame'⟩ := hLaw.openAppend hIntact (hFirst _ List.mem_cons_self) hOpen
      exact ih hRest (append_intact hIntact) hOpen'
        (hLaw.trans hSame' (hLaw.trans (hLaw.foldl records hSame) (hLaw.symm hNext)))
    | compacted records compacted next hNext hRead =>
      obtain ⟨reopened', hOpen', hSame'⟩ := hRead (hFirst _ (List.mem_cons_of_mem _ List.mem_cons_self))
        ((Write.append records).run text file)
      exact ih hRest (@rewrite_intact text ((Write.append records).run text file) compacted) hOpen' hSame'

theorem Chain.eq_of_idle (h : kind.Chain text j outcome) (hNone : outcome.writes = []) : outcome.journal = j := by
  induction h with
  | done => rfl
  | call hCall _ ih =>
    obtain ⟨hFirst, hRest⟩ := List.append_eq_nil_iff.mp hNone
    rw [ih hRest]
    cases hCall with
    | idle => rfl
    | logged | compacted => cases hFirst

theorem Chain.compacted (h : kind.Chain text j outcome) (hKeeps : outcome.Keeps text)
    (hLast : outcome.writes.getLast? = some (.rewrite records)) (file : JournalFile) :
    ∃ reopened, kind.openFile text (runWrites text file outcome.writes) = some reopened ∧
      kind.same reopened outcome.journal := by
  induction h generalizing file with
  | done => cases hLast
  | @call j outcome rest hCall hChain ih =>
    have hRest : rest.Keeps text := fun write hWrite => hKeeps write (List.mem_append_right _ hWrite)
    by_cases hNone : rest.writes = []
    · rw [hNone, List.append_nil] at hLast ⊢
      rw [hChain.eq_of_idle hNone]
      cases hCall with
      | idle | logged => cases hLast
      | compacted appended compacted next _ hRead =>
        exact hRead (hKeeps _ (List.mem_append_left _ (List.mem_cons_of_mem _ List.mem_cons_self))) file
    · rw [List.getLast?_append_of_ne_nil _ hNone] at hLast
      simp only [runWrites, List.foldl_append]
      exact ih hRest hLast _

def InStep (kind : JournalKind J Op) (text : JournalText) (first : J) (w : Crashing J) : Prop :=
  ∃ history, Survivors w.appends history ∧
    (∃ reopened, kind.openFile text w.file = some reopened ∧ kind.same reopened (history.foldl kind.replay first)) ∧
    ∀ j, w.journal = some j → kind.same j (history.foldl kind.replay first)

theorem completed_inStep (hLaw : kind.Lawful text allowed) {op : Op}
    (hIn : InStep kind text first ⟨some j, file, appends⟩) (hTerms : Careful kind text allowed file j op)
    (hOp : kind.run text envs ⟨j, file⟩ op = some outcome) (hKeeps : outcome.Keeps text) :
    InStep kind text first ⟨some outcome.journal, runWrites text file outcome.writes,
      appends ++ outcome.writes.flatMap Write.appends⟩ := by
  obtain ⟨history, hSurvive, ⟨reopened, hOpen, hFile⟩, hLive⟩ := hIn
  obtain ⟨hAllowed, hTail⟩ := hTerms
  have hLive : kind.same j (history.foldl kind.replay first) := hLive j rfl
  have hStart : kind.same reopened j := hLaw.trans hFile (hLaw.symm hLive)
  obtain ⟨start, hSame, hChain⟩ := hLaw.chain hOp hOpen hStart hAllowed
  have hNext : kind.same outcome.journal
      ((history ++ outcome.writes.flatMap Write.appended).foldl kind.replay first) := by
    rw [List.foldl_append]
    exact hLaw.trans (hChain.same hLaw) (hLaw.foldl _ (hLaw.trans hSame hLive))
  have hReads : ∃ reopened', kind.openFile text (runWrites text file outcome.writes) = some reopened' ∧
      kind.same reopened' outcome.journal := by
    have hUntouched : outcome.writes = [] → ∃ reopened',
        kind.openFile text (runWrites text file outcome.writes) = some reopened' ∧
          kind.same reopened' outcome.journal := by
      intro hNone
      rw [hNone, hChain.eq_of_idle hNone]
      exact ⟨reopened, hOpen, hLaw.trans hStart (hLaw.symm hSame)⟩
    rcases hTail with hIntact | hIdle | hCompacts
    · exact (hChain.intact hLaw hKeeps hIntact hOpen (hLaw.trans hStart (hLaw.symm hSame))).2
    · exact hUntouched (hLaw.idle hOp hIdle)
    · rcases hLaw.compacts hOp hOpen hStart hCompacts with hNone | ⟨records, hLast⟩
      · exact hUntouched hNone
      · exact hChain.compacted hKeeps hLast file
  obtain ⟨reopened', hOpen', hSame'⟩ := hReads
  refine ⟨_, hSurvive.writes outcome.writes, ⟨reopened', hOpen', hLaw.trans hSame' hNext⟩, ?_⟩
  rintro j' hJournal
  rw [← Option.some.inj hJournal]
  exact hNext

theorem crashed_inStep (hLaw : kind.Lawful text allowed) {op : Op} {before after : List Write} {piece : Bytes}
    (hIn : InStep kind text first ⟨some j, file, appends⟩) (hTerms : CleanCut file piece)
    (hOp : kind.run text envs ⟨j, file⟩ op = some outcome) (hKeeps : outcome.Keeps text)
    (hTears : ∀ record ∈ records, text.Tears record) (hWrites : outcome.writes = before ++ .append records :: after)
    (hPiece : piece <+: utf8 (recordLines text records)) :
    InStep kind text first ⟨none, some ((runWrites text file before).getD [] ++ piece),
      appends ++ before.flatMap Write.appends ++ [.cut records]⟩ := by
  obtain ⟨history, hSurvive, ⟨reopened, hOpen, hFile⟩, hLive⟩ := hIn
  obtain ⟨hIntact, hUtf8⟩ := hTerms
  have hLive : kind.same j (history.foldl kind.replay first) := hLive j rfl
  have hStart : kind.same reopened j := hLaw.trans hFile (hLaw.symm hLive)
  obtain ⟨start, mid, hSame, hChain⟩ := hLaw.before hOp hOpen hStart hWrites
  have hBefore : Outcome.Keeps text ⟨mid, before⟩ := by
    intro write hWrite
    exact hKeeps write (hWrites ▸ List.mem_append_left _ hWrite)
  have hRecords : ∀ record ∈ records, text.Keeps record :=
    hKeeps (.append records) (hWrites ▸ List.mem_append_right _ List.mem_cons_self)
  obtain ⟨hIntact', reopened', hOpen', hSame'⟩ :=
    hChain.intact hLaw hBefore hIntact hOpen (hLaw.trans hStart (hLaw.symm hSame))
  have hMid : kind.same reopened' ((history ++ before.flatMap Write.appended).foldl kind.replay first) := by
    rw [List.foldl_append]
    exact hLaw.trans hSame' (hLaw.trans (hChain.same hLaw) (hLaw.foldl _ (hLaw.trans hSame hLive)))
  obtain ⟨k, tail, hShape, hTail⟩ := cut_shape hPiece hUtf8 (runWrites text file before)
  have hTaken : ∀ record ∈ records.take k, text.Keeps record :=
    fun record hRecord => hRecords record (List.mem_of_mem_take hRecord)
  obtain ⟨reopened'', hOpen'', hSame''⟩ := hLaw.openAppend hIntact' hTaken hOpen'
  have hHistory : ∀ n, Survivors (appends ++ before.flatMap Write.appends ++ [.cut records])
      (history ++ before.flatMap Write.appended ++ records.take n) :=
    fun n => .cut records n (hSurvive.writes before)
  have hFirst : kind.same reopened''
      ((history ++ before.flatMap Write.appended ++ records.take k).foldl kind.replay first) := by
    rw [List.foldl_append]
    exact hLaw.trans hSame'' (hLaw.foldl _ hMid)
  have hClean : ∀ n, (∃ r, kind.openFile text (some ((runWrites text file before).getD [] ++ piece)) = some r ∧
      kind.same r ((history ++ before.flatMap Write.appended ++ records.take n).foldl kind.replay first)) →
        InStep kind text first ⟨none, some ((runWrites text file before).getD [] ++ piece),
          appends ++ before.flatMap Write.appends ++ [.cut records]⟩ := by
    rintro n hRead
    exact ⟨_, hHistory n, hRead, by rintro j' ⟨⟩⟩
  have hNil : tail = [] → InStep kind text first ⟨none, some ((runWrites text file before).getD [] ++ piece),
      appends ++ before.flatMap Write.appends ++ [.cut records]⟩ := by
    rintro rfl
    refine hClean k ⟨reopened'', ?_, hFirst⟩
    rw [hShape, show utf8 [] = [] from rfl, List.append_nil]
    exact hOpen''
  rcases hTail with hTail | ⟨record, hRecord, hPrefix⟩
  · exact hNil hTail
  · by_cases hTorn : tail = []
    · exact hNil hTorn
    have hMem := List.mem_of_getElem? hRecord
    obtain ⟨r, hOpenTail, hRead⟩ := hLaw.openTail (append_intact hIntact') (hRecords record hMem) (hTears record hMem)
      hPrefix hTorn hOpen''
    rw [← hShape] at hOpenTail
    rcases hRead with hSkipped | hRead
    · exact hClean k ⟨r, hOpenTail, hLaw.trans hSkipped hFirst⟩
    · refine hClean (k + 1) ⟨r, hOpenTail, ?_⟩
      rw [List.take_add_one, hRecord, Option.toList_some, ← List.append_assoc, List.foldl_append]
      exact hLaw.trans hRead (hLaw.replay hFirst record)

theorem crashRun_honours (hLaw : kind.Lawful text allowed) {w : Crashing J}
    (hRun : CrashRun kind text (Careful kind text allowed) CleanCut first w) : Honours kind text first w := by
  have hIn : InStep kind text first w := by
    induction hRun with
    | opened file hIntact hOpen =>
      refine ⟨[], .nil, ⟨first, hOpen, hLaw.refl first⟩, ?_⟩
      rintro j hJournal
      rw [← Option.some.inj hJournal]
      exact hLaw.refl first
    | completed envs op outcome _ hTerms hOp hKeeps ih => exact completed_inStep hLaw ih hTerms hOp hKeeps
    | crashed envs op outcome before after records piece _ hTerms hOp hKeeps hTears hWrites hPiece ih =>
      exact crashed_inStep hLaw ih hTerms hOp hKeeps hTears hWrites hPiece
    | @reopened w j _ hOpen ih =>
      obtain ⟨history, hSurvive, ⟨reopened, hOpen', hFile⟩, -⟩ := ih
      refine ⟨history, hSurvive, ⟨reopened, hOpen', hFile⟩, ?_⟩
      rintro j' hJournal
      rw [hOpen] at hOpen'
      rw [← Option.some.inj hJournal, Option.some.inj hOpen']
      exact hFile
  obtain ⟨history, hSurvive, ⟨reopened, hOpen, hSame⟩, -⟩ := hIn
  exact ⟨reopened, history, hOpen, hSurvive, hSame⟩

theorem Chain.before (h : kind.Chain text j outcome) {before after : List Write}
    (hWrites : outcome.writes = before ++ .append records :: after) : ∃ mid, kind.Chain text j ⟨mid, before⟩ := by
  induction h generalizing before with
  | done j =>
    have hNil := congrArg List.length hWrites
    simp at hNil
  | @call j outcome rest hCall _ ih =>
    cases hCall with
    | idle =>
      obtain ⟨mid, hMid⟩ := ih hWrites
      exact ⟨mid, hMid⟩
    | logged appended next hNext =>
      rcases before with _ | ⟨write, before⟩
      · exact ⟨j, .done j⟩
      · obtain ⟨rfl, hRest⟩ := List.cons.inj hWrites
        obtain ⟨mid, hMid⟩ := ih hRest
        exact ⟨mid, .call (.logged appended next hNext) hMid⟩
    | compacted appended compacted next hNext hRead =>
      rcases before with _ | ⟨write, _ | ⟨write', before⟩⟩
      · exact ⟨j, .done j⟩
      · obtain ⟨-, hRest⟩ := List.cons.inj hWrites
        cases (List.cons.inj hRest).1
      · obtain ⟨rfl, hRest⟩ := List.cons.inj hWrites
        obtain ⟨rfl, hRest'⟩ := List.cons.inj hRest
        obtain ⟨mid, hMid⟩ := ih hRest'
        exact ⟨mid, .call (.compacted appended compacted next hNext hRead) hMid⟩

end JournalKind

end PrimeAgent
