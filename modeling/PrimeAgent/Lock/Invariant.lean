import Mathlib.Logic.Function.Basic

/-! # Directory locks

`LockDir` on one file, at the level of its calls: any number of agents make and remove one directory, each call atomic.
Every directory ever made has an identity, which the code cannot see.
-/
namespace PrimeAgent.Lock

structure DirId where
  creator : Nat
  seq : Nat
deriving DecidableEq

/-- What stands at the lock path; a regular file is an artifact of an older build, which may still hold its flock. -/
inductive PathEntry where
  | absent
  | file (flocked : Bool)
  | dir (id : DirId) (mtime : Nat)
  | other
deriving DecidableEq

/-- Where an agent stands; `since` is when it made its directory. -/
inductive Phase where
  | idle
  | creating (retry : Bool)
  | probing (retry : Bool) (id : DirId) (since : Nat)
  | cleaning (id : DirId) (since : Nat)
  | judging
  | aging (id : DirId) (mtime : Nat)
  | flocking
  | removingFile
  | reclaiming (id : DirId)
  | holding (id : DirId) (since : Nat)
  | released (id : DirId)
  | crashed
deriving DecidableEq

def Phase.owned : Phase → Option (DirId × Nat)
  | .probing _ id since => some (id, since)
  | .cleaning id since => some (id, since)
  | .holding id since => some (id, since)
  | _ => none

structure LockState where
  entry : PathEntry
  phase : Nat → Phase
  now : Nat
  next : Nat

def minStale : Nat := 2000000000

def probeMtime (now : Nat) : Nat :=
  (now / 1000000 + 999) / 1000 * 1000000000 + 5000000

def PathEntry.touch (mtime : Nat) : PathEntry → PathEntry
  | .dir id _ => .dir id mtime
  | entry => entry

namespace LockState

def initial : LockState where
  entry := .absent
  phase _ := .idle
  now := 0
  next := 0

def goto (s : LockState) (p : Nat) (phase : Phase) : LockState :=
  { s with phase := Function.update s.phase p phase }

/-- `fs::remove_dir`, by name: the next phase where the directory was removed, where none was there, and where the call
fails. -/
def removeDir (s : LockState) (p : Nat) (fails : Bool) (removed missing failed : Phase) : LockState :=
  match s.entry with
  | .absent => s.goto p missing
  | .dir .. => if fails then s.goto p failed else { s with entry := .absent }.goto p removed
  | _ => s.goto p failed

/-- The next call of an agent; `fails` where it ends in an error of its own. -/
def act (staleAfter : Nat) (p : Nat) (fails : Bool) (s : LockState) : LockState :=
  match s.phase p with
  | .idle => s.goto p (.creating false)
  | .creating retry =>
    if fails then s.goto p .idle
    else match s.entry with
      | .absent =>
        { s with entry := .dir ⟨p, s.next⟩ s.now, next := s.next + 1 }.goto p (.probing retry ⟨p, s.next⟩ s.now)
      | _ => s.goto p (if retry then .idle else .judging)
  | .probing _ id since =>
    if fails ∨ s.entry = .absent then s.goto p (.cleaning id since)
    else { s with entry := s.entry.touch (probeMtime s.now) }.goto p (.holding id since)
  | .cleaning _ _ => s.removeDir p fails .idle .idle .idle
  | .judging =>
    if fails then s.goto p .idle
    else match s.entry with
      | .absent => s.goto p (.creating true)
      | .file _ => s.goto p .flocking
      | .dir id mtime => s.goto p (.aging id mtime)
      | .other => s.goto p .idle
  | .aging id mtime => s.goto p (if max staleAfter minStale < s.now - mtime then .reclaiming id else .idle)
  | .flocking => s.goto p (if s.entry = .file true ∧ fails = false then .idle else .removingFile)
  | .removingFile =>
    match s.entry with
    | .absent => s.goto p (.creating true)
    | .dir .. => s.goto p .idle
    | _ => if fails then s.goto p .idle else { s with entry := .absent }.goto p (.creating true)
  | .reclaiming _ => s.removeDir p fails (.creating true) (.creating true) .idle
  | .holding _ _ => s.removeDir p fails .idle .idle .idle
  | .released _ => s.removeDir p fails .idle .idle .idle
  | .crashed => s

/-- `release` on a lock that is dropped later; the drop removes by name once more. -/
def release (p : Nat) (fails : Bool) (s : LockState) : LockState :=
  match s.phase p with
  | .holding id _ => s.removeDir p fails (.released id) (.released id) (.released id)
  | _ => s

end LockState

inductive LockStep where
  | act (p : Nat) (fails : Bool)
  | release (p : Nat) (fails : Bool)
  | crash (p : Nat)
  | tick (elapsed : Nat)
  | legacy (flocked : Bool)
deriving DecidableEq

namespace LockState

def step (staleAfter : Nat) (s : LockState) : LockStep → LockState
  | .act p fails => s.act staleAfter p fails
  | .release p fails => s.release p fails
  | .crash p => s.goto p .crashed
  | .tick elapsed => { s with now := s.now + elapsed }
  | .legacy flocked =>
    match s.entry with
    | .absent => { s with entry := .file flocked }
    | .file _ => { s with entry := .file flocked }
    | _ => s

/-- No live owner keeps its directory for longer than `staleAfter`. -/
def Punctual (staleAfter : Nat) (s : LockState) : LockStep → Prop
  | .tick elapsed => ∀ p id since, (s.phase p).owned = some (id, since) → s.now + elapsed ≤ since + staleAfter
  | _ => True

def Aimed (s : LockState) : LockStep → Prop
  | .act p _ =>
    match s.phase p with
    | .reclaiming id => ∀ id' mtime, s.entry = .dir id' mtime → id' = id
    | .released id => ∀ id' mtime, s.entry = .dir id' mtime → id' = id
    | _ => True
  | _ => True

end LockState

/-- The states of the runs in which live owners are punctual and every removal is aimed. -/
inductive Reached (staleAfter : Nat) : LockState → Prop where
  | initial : Reached staleAfter .initial
  | step {s : LockState} (step : LockStep) (hBefore : Reached staleAfter s) (hPunctual : s.Punctual staleAfter step)
      (hAimed : s.Aimed step) : Reached staleAfter (s.step staleAfter step)

end PrimeAgent.Lock

/-! ## The owner of the directory

A live owner's directory stands at the path, no older than the owner's claim to it. A directory judged stale has no
live owner, and never gets one again.
-/
namespace PrimeAgent.Lock

open LockState

variable {staleAfter : Nat} {s : LockState} {p : Nat} {phase : Phase} {entry : PathEntry}

structure Owned (staleAfter now : Nat) (entry : PathEntry) (p : Nat) (id : DirId) (since : Nat) : Prop where
  creator : id.creator = p
  started : since ≤ now
  timely : now ≤ since + staleAfter
  present : ∃ mtime, entry = .dir id mtime ∧ since ≤ mtime

structure Inv (staleAfter : Nat) (s : LockState) : Prop where
  owned : ∀ p id since, (s.phase p).owned = some (id, since) → Owned staleAfter s.now s.entry p id since
  entry : ∀ id mtime, s.entry = .dir id mtime → id.seq < s.next
  aging : ∀ p id mtime, s.phase p = .aging id mtime →
    id.seq < s.next ∧ ∀ q since, (s.phase q).owned = some (id, since) → since ≤ mtime
  reclaiming : ∀ p id, s.phase p = .reclaiming id →
    id.seq < s.next ∧ ∀ q since, (s.phase q).owned ≠ some (id, since)
  released : ∀ p id, s.phase p = .released id → id.creator = p

theorem inv_initial : Inv staleAfter .initial := by
  constructor
  · intro p id since hOwned
    cases hOwned
  · intro id mtime hEntry
    cases hEntry
  · intro p id mtime hPhase
    cases hPhase
  · intro p id hPhase
    cases hPhase
  · intro p id hPhase
    cases hPhase

theorem Inv.alone (i : Inv staleAfter s) {q : Nat} {id id' : DirId} {since since' : Nat}
    (hOwned : (s.phase p).owned = some (id, since)) (hOther : (s.phase q).owned = some (id', since')) :
    p = q ∧ id = id' ∧ since = since' := by
  have hFirst := i.owned p id since hOwned
  have hSecond := i.owned q id' since' hOther
  obtain ⟨mtime, hEntry, -⟩ := hFirst.present
  obtain ⟨mtime', hEntry', -⟩ := hSecond.present
  rw [hEntry] at hEntry'
  obtain ⟨rfl, -⟩ := PathEntry.dir.inj hEntry'
  obtain rfl : p = q := hFirst.creator.symm.trans hSecond.creator
  rw [hOwned] at hOther
  exact ⟨rfl, rfl, (Prod.mk.inj (Option.some.inj hOther)).2⟩

structure Move (staleAfter : Nat) (s : LockState) (p : Nat) (phase : Phase) (entry : PathEntry) (next : Nat) : Prop where
  others : ∀ q id since, q ≠ p → (s.phase q).owned = some (id, since) → ∃ mtime, entry = .dir id mtime ∧ since ≤ mtime
  owned : ∀ id since, phase.owned = some (id, since) → Owned staleAfter s.now entry p id since
  known : ∀ id since, phase.owned = some (id, since) → (s.phase p).owned = some (id, since) ∨ s.next ≤ id.seq
  entry : ∀ id mtime, entry = .dir id mtime → id.seq < next
  grows : s.next ≤ next
  aging : ∀ id mtime, phase = .aging id mtime →
    id.seq < next ∧ ∀ q since, q ≠ p → (s.phase q).owned = some (id, since) → since ≤ mtime
  reclaiming : ∀ id, phase = .reclaiming id → id.seq < next ∧ ∀ q since, q ≠ p → (s.phase q).owned ≠ some (id, since)
  released : ∀ id, phase = .released id → id.creator = p

theorem Inv.move (i : Inv staleAfter s) {next : Nat} (m : Move staleAfter s p phase entry next) :
    Inv staleAfter ({ s with entry := entry, next := next }.goto p phase) := by
  have hHere : ({ s with entry := entry, next := next }.goto p phase).phase p = phase := Function.update_self ..
  have hThere : ∀ q, q ≠ p → ({ s with entry := entry, next := next }.goto p phase).phase q = s.phase q :=
    fun q hNe => Function.update_of_ne hNe ..
  constructor
  · intro q id since hOwned
    by_cases hSame : q = p
    · subst hSame
      rw [hHere] at hOwned
      exact m.owned id since hOwned
    · rw [hThere q hSame] at hOwned
      have hBefore := i.owned q id since hOwned
      exact ⟨hBefore.creator, hBefore.started, hBefore.timely, m.others q id since hSame hOwned⟩
  · exact m.entry
  · intro q id mtime hPhase
    by_cases hSame : q = p
    · subst hSame
      rw [hHere] at hPhase
      obtain ⟨hSeq, hOthers⟩ := m.aging id mtime hPhase
      refine ⟨hSeq, fun q' since hOwned => ?_⟩
      by_cases hSelf : q' = q
      · subst hSelf
        rw [hHere, hPhase] at hOwned
        cases hOwned
      · rw [hThere q' hSelf] at hOwned
        exact hOthers q' since hSelf hOwned
    · rw [hThere q hSame] at hPhase
      obtain ⟨hSeq, hOwners⟩ := i.aging q id mtime hPhase
      refine ⟨Nat.lt_of_lt_of_le hSeq m.grows, fun q' since hOwned => ?_⟩
      by_cases hSelf : q' = p
      · subst hSelf
        rw [hHere] at hOwned
        obtain hOld | hNew := m.known id since hOwned
        · exact hOwners q' since hOld
        · omega
      · rw [hThere q' hSelf] at hOwned
        exact hOwners q' since hOwned
  · intro q id hPhase
    by_cases hSame : q = p
    · subst hSame
      rw [hHere] at hPhase
      obtain ⟨hSeq, hOthers⟩ := m.reclaiming id hPhase
      refine ⟨hSeq, fun q' since hOwned => ?_⟩
      by_cases hSelf : q' = q
      · subst hSelf
        rw [hHere, hPhase] at hOwned
        cases hOwned
      · rw [hThere q' hSelf] at hOwned
        exact hOthers q' since hSelf hOwned
    · rw [hThere q hSame] at hPhase
      obtain ⟨hSeq, hOwners⟩ := i.reclaiming q id hPhase
      refine ⟨Nat.lt_of_lt_of_le hSeq m.grows, fun q' since hOwned => ?_⟩
      by_cases hSelf : q' = p
      · subst hSelf
        rw [hHere] at hOwned
        obtain hOld | hNew := m.known id since hOwned
        · exact hOwners q' since hOld
        · omega
      · rw [hThere q' hSelf] at hOwned
        exact hOwners q' since hOwned

  · intro q id hPhase
    by_cases hSame : q = p
    · subst hSame
      rw [hHere] at hPhase
      exact m.released id hPhase
    · rw [hThere q hSame] at hPhase
      exact i.released q id hPhase

/-- A phase of `p` that owns nothing and has read no directory. -/
structure Quiet (p : Nat) (phase : Phase) : Prop where
  owned : phase.owned = none
  aging : ∀ id mtime, phase ≠ .aging id mtime
  reclaiming : ∀ id, phase ≠ .reclaiming id
  released : ∀ id, phase = .released id → id.creator = p

theorem Inv.quiet (i : Inv staleAfter s) (hQuiet : Quiet p phase)
    (hOthers : ∀ q id since, q ≠ p → (s.phase q).owned = some (id, since) → entry = s.entry)
    (hEntry : ∀ id mtime, entry = .dir id mtime → id.seq < s.next) :
    Inv staleAfter ({ s with entry := entry }.goto p phase) := by
  refine @Inv.move staleAfter s p phase entry i s.next ⟨?_, ?_, ?_, hEntry, Nat.le_refl _, ?_, ?_,
    hQuiet.released⟩
  · intro q id since hNe hOwned
    rw [hOthers q id since hNe hOwned]
    exact (i.owned q id since hOwned).present
  · intro id since hOwned
    rw [hQuiet.owned] at hOwned
    cases hOwned
  · intro id since hOwned
    rw [hQuiet.owned] at hOwned
    cases hOwned
  · exact fun id mtime hPhase => absurd hPhase (hQuiet.aging id mtime)
  · exact fun id hPhase => absurd hPhase (hQuiet.reclaiming id)

theorem Inv.goto_quiet (i : Inv staleAfter s) (hQuiet : Quiet p phase) : Inv staleAfter (s.goto p phase) :=
  i.quiet hQuiet (fun _ _ _ _ _ => rfl) i.entry

theorem quiet_idle : Quiet p .idle :=
  ⟨rfl, by simp, by simp, by simp⟩

theorem quiet_creating (retry : Bool) : Quiet p (.creating retry) :=
  ⟨rfl, by simp, by simp, by simp⟩

theorem quiet_judging : Quiet p .judging :=
  ⟨rfl, by simp, by simp, by simp⟩

theorem quiet_flocking : Quiet p .flocking :=
  ⟨rfl, by simp, by simp, by simp⟩

theorem quiet_removingFile : Quiet p .removingFile :=
  ⟨rfl, by simp, by simp, by simp⟩

theorem quiet_released {id : DirId} (hCreator : id.creator = p) : Quiet p (.released id) := by
  refine ⟨rfl, by simp, by simp, ?_⟩
  intro id' hSame
  obtain rfl := Phase.released.inj hSame
  exact hCreator

theorem quiet_crashed : Quiet p .crashed :=
  ⟨rfl, by simp, by simp, by simp⟩

theorem Inv.removeDir (i : Inv staleAfter s) {fails : Bool} {removed missing failed : Phase} (hRemoved : Quiet p removed)
    (hMissing : Quiet p missing) (hFailed : Quiet p failed)
    (hClear : ∀ id mtime q since, s.entry = .dir id mtime → q ≠ p → (s.phase q).owned ≠ some (id, since)) :
    Inv staleAfter (s.removeDir p fails removed missing failed) := by
  unfold LockState.removeDir
  split
  next => exact i.goto_quiet hMissing
  next id mtime hDir =>
    split
    next => exact i.goto_quiet hFailed
    next =>
      refine i.quiet hRemoved ?_ (by simp)
      intro q id' since hNe hOwned
      obtain ⟨mtime', hEntry, -⟩ := (i.owned q id' since hOwned).present
      exact absurd hOwned (hClear id' mtime' q since hEntry hNe)
  next => exact i.goto_quiet hFailed

theorem Inv.clear_of_owned (i : Inv staleAfter s) {id : DirId} {since : Nat}
    (hOwned : (s.phase p).owned = some (id, since)) {id' : DirId} {q since' : Nat} (hNe : q ≠ p) :
    (s.phase q).owned ≠ some (id', since') :=
  fun hOther => hNe (i.alone hOwned hOther).1.symm

theorem probeMtime_le (now : Nat) : now ≤ probeMtime now := by
  unfold probeMtime
  omega

end PrimeAgent.Lock
