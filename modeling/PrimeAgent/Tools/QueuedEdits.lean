import PrimeAgent.Tools.Edit
import PrimeAgent.Tools.MutationQueue
import Mathlib.Data.List.Pairwise

/-! # Edits under the mutation queue

The locked part of an edit reads the file, works out the new content and writes it while the call holds the mutex of the
file. Between the read and the write any other call may move.
-/
namespace PrimeAgent.MutationQueue

open Tools

/-- What the locked part of an edit receives. -/
structure Job where
  path : String
  absolutePath : String
  edits : List Edit
  signal : Option AbortSignal

/-- How far the locked part of the call that runs on a mutex has come. -/
inductive Locked where
  | before
  | read (job : Job) (raw : Bytes)
  | done

/-- `changes` are the changes of the files at their locations, in the order in which they were written. -/
structure Shared where
  queue : State
  content : Text → Bytes
  locked : Nat → Locked
  changes : List (Text × (Bytes → Bytes))

def Shared.new (content : Text → Bytes) : Shared :=
  ⟨.new, content, fun _ => .before, []⟩

section

variable (nfkc : Text → Text) (generateDiff : Text → Text → DiffStringResult)

/-- The content behind an edit that has read `raw` and whose write succeeds. -/
def Job.change (job : Job) (raw : Bytes) : Bytes :=
  ((executeEditLocked nfkc generateDiff job.path job.absolutePath ⟨.ok (), .ok raw, fun _ => .ok ()⟩ job.edits
    job.signal).writes.getLast?.map utf8).getD raw

def Shared.wrote (s : Shared) (file : Text) (queue : Nat) (raw : Bytes) (change : Bytes → Bytes) : Shared :=
  { s with
    content := Function.update s.content file (change raw)
    locked := Function.update s.locked queue .done
    changes := s.changes ++ [(file, change)] }

inductive Shared.Step (s : Shared) : Shared → Prop where
  -- a call that leaves the mutex takes what it has read with it
  | queue {action : Action} {queue' : State} {locked' : Nat → Locked} (hStep : MutationQueue.Step s.queue action queue')
      (hAlike : StartsAlike s.queue action)
      (hHeld : ∀ call queue, (call, .running queue) ∈ queue'.calls → locked' queue = s.locked queue)
      (hLeft : ∀ queue, (∀ call, (call, .running queue) ∉ queue'.calls) → locked' queue = .before) :
    Step s { s with queue := queue', locked := locked' }
  | read {call : Call} {queue : Nat} (job : Job) (hRuns : (call, .running queue) ∈ s.queue.calls)
      (hBefore : s.locked queue = .before) :
    Step s { s with locked := Function.update s.locked queue (.read job (s.content call.file)) }
  | write {call : Call} {queue : Nat} {job : Job} {raw : Bytes} (hRuns : (call, .running queue) ∈ s.queue.calls)
      (hRead : s.locked queue = .read job raw) :
    Step s (s.wrote call.file queue raw (job.change nfkc generateDiff))
  -- a write that fails leaves some part of the content or none
  | torn {call : Call} {queue : Nat} {job : Job} {raw : Bytes} (left : Bytes)
      (hRuns : (call, .running queue) ∈ s.queue.calls) (hRead : s.locked queue = .read job raw) :
    Step s (s.wrote call.file queue raw fun _ => left)

inductive Shared.Run (content : Text → Bytes) : Shared → Prop where
  | new : Run content (.new content)
  | step {s s' : Shared} (hRun : Run content s) (hStep : s.Step nfkc generateDiff s') : Run content s'

end

/-- The changes of one file, each made to what the one before it has left. -/
def replay (content : Text → Bytes) (changes : List (Text × (Bytes → Bytes))) (file : Text) : Bytes :=
  changes.foldl (fun raw change => if change.1 = file then change.2 raw else raw) (content file)

variable {nfkc : Text → Text} {generateDiff : Text → Text → DiffStringResult} {s s' : State} {action : Action}
  {call other : Call} {queue : Nat} {content : Text → Bytes}

theorem Held.one_holder (h : Held s) (hCall : (call, .running queue) ∈ s.calls) (hOther : (other, .running queue) ∈ s.calls) :
    call = other := by
  by_contra hNe
  have : Std.Symm fun x y : Call × Phase => ∀ queue, x.2 = .running queue → y.2 ≠ .running queue :=
    ⟨fun x y hApart queue hY hX => hApart queue hX hY⟩
  exact h.one.forall hCall hOther (mt (fun hSame => (Prod.mk.inj hSame).1) hNe) queue rfl rfl

theorem running_step (hStep : Step s action s') (hRuns : (call, .running queue) ∈ s'.calls) :
    (call, .running queue) ∈ s.calls ∨ ∀ other, (other, .running queue) ∉ s.calls := by
  cases hStep with
  | start fs filePath => exact .inl (by simpa using hRuns)
  | find hCalls _ | enter hCalls _ | arrive hCalls | finish hCalls | drop hCalls =>
    exact .inl ((taken_sublist hCalls).subset (by simpa using hRuns))
  | acquire hCalls hFree hFirst =>
    obtain hOld | hNew := List.mem_append.mp hRuns
    · exact .inl ((taken_sublist hCalls).subset hOld)
    · obtain ⟨rfl, hSame⟩ := Prod.mk.inj (List.mem_singleton.mp hNew)
      obtain rfl := Phase.running.inj hSame
      exact .inr hFree
  | remove hCalls _ _ | leave hCalls _ | cancel hCalls _ => exact .inl ((taken_sublist hCalls).subset hRuns)

theorem Run.queue_eq {queue' : Nat} (hRun : Run StartsAlike s) (hCall : (call, .running queue) ∈ s.calls)
    (hOther : (other, .running queue') ∈ s.calls) (hFile : other.file = call.file) : queue' = queue := by
  have hName := hRun.name_eq hCall hOther hFile
  rw [← hRun.key_eq hCall, ← hRun.key_eq hOther] at hName
  have hEntry := hRun.held.entry call _ queue hCall rfl
  rw [← hName, hRun.held.entry other _ queue' hOther rfl] at hEntry
  exact Option.some.inj hEntry

/-- What a running edit has read is what the file holds. -/
structure Fresh (content : Text → Bytes) (s : Shared) : Prop where
  run : Run StartsAlike s.queue
  current : ∀ queue job raw, s.locked queue = .read job raw →
    ∃ call, (call, .running queue) ∈ s.queue.calls ∧ s.content call.file = raw
  replayed : ∀ file, s.content file = replay content s.changes file

namespace Fresh

variable {s s' : Shared} {job : Job} {raw : Bytes}

theorem wrote (h : Fresh content s) (hRuns : (call, .running queue) ∈ s.queue.calls) (hRead : s.locked queue = .read job raw)
    (change : Bytes → Bytes) : Fresh content (s.wrote call.file queue raw change) where
  run := h.run
  current queue' job' raw' hRead' := by
    have hNe : queue' ≠ queue := by
      rintro rfl
      exact absurd ((Function.update_self ..).symm.trans hRead') (by simp)
    obtain ⟨other, hOther, hRaw⟩ := h.current queue' job' raw' ((Function.update_of_ne hNe ..).symm.trans hRead')
    refine ⟨other, hOther, (Function.update_of_ne ?_ ..).trans hRaw⟩
    exact fun hFile => hNe (h.run.queue_eq hRuns hOther hFile)
  replayed file := by
    obtain ⟨other, hOther, hRaw⟩ := h.current queue job raw hRead
    obtain rfl := h.run.held.one_holder hRuns hOther
    rw [Shared.wrote, replay, List.foldl_append]
    show Function.update s.content call.file (change raw) file = _
    rw [← replay, ← h.replayed file]
    by_cases hFile : call.file = file
    · simp [← hFile, hRaw]
    · simp [hFile, Function.update_of_ne (Ne.symm hFile)]

theorem step (h : Fresh content s) (hStep : s.Step nfkc generateDiff s') : Fresh content s' := by
  cases hStep with
  | @queue action queue' locked' hStep hAlike hHeld hLeft =>
    refine ⟨h.run.step hAlike hStep, fun queue job raw hRead => ?_, h.replayed⟩
    dsimp only at hRead
    have hHeldBy : ∃ call, (call, .running queue) ∈ queue'.calls := by
      by_contra hFree
      rw [hLeft queue (not_exists.mp hFree)] at hRead
      cases hRead
    obtain ⟨call, hRuns⟩ := hHeldBy
    rw [hHeld call queue hRuns] at hRead
    obtain ⟨other, hOther, hRaw⟩ := h.current queue job raw hRead
    obtain hSame | hNobody := running_step hStep hRuns
    · exact ⟨call, hRuns, h.run.held.one_holder hSame hOther ▸ hRaw⟩
    · exact absurd hOther (hNobody other)
  | @read call queue job hRuns hBefore =>
    refine ⟨h.run, fun queue' job' raw' hRead => ?_, h.replayed⟩
    rcases eq_or_ne queue' queue with rfl | hNe
    · obtain ⟨rfl, rfl⟩ := Locked.read.inj ((Function.update_self ..).symm.trans hRead)
      exact ⟨call, hRuns, rfl⟩
    · exact h.current queue' job' raw' ((Function.update_of_ne hNe ..).symm.trans hRead)
  | write hRuns hRead => exact h.wrote hRuns hRead _
  | torn left hRuns hRead => exact h.wrote hRuns hRead _

end Fresh

/-- Edits of one file lose no change: what it holds is what its changes make of its first content, one after the other. -/
theorem edits_replayed {s : Shared} (hRun : Shared.Run nfkc generateDiff content s) (file : Text) :
    s.content file = replay content s.changes file := by
  have hFresh : Fresh content s := by
    induction hRun with
    | new => exact ⟨.new, fun queue job raw hRead => (by cases hRead), fun file => rfl⟩
    | step _ hStep ih => exact ih.step hStep
  exact hFresh.replayed file

theorem Run.shared (hRun : Run StartsAlike s) (content : Text → Bytes) :
    Shared.Run nfkc generateDiff content { Shared.new content with queue := s } := by
  induction hRun with
  | new => exact .new
  | step _ hAlike hStep ih => exact ih.step (.queue hStep hAlike (fun _ _ _ => rfl) fun _ _ => rfl)

theorem lone_edit_replayed : ∃ s, Shared.Run id (fun _ _ => ⟨[], none⟩) (fun _ => utf8 ['a']) s ∧
    s.content "/f".toList = utf8 ['b'] ∧ s.content "/f".toList = replay (fun _ => utf8 ['a']) s.changes "/f".toList := by
  have hKeyed := (@Run.new StartsAlike).step (fun _ _ _ _ hMem => by cases hMem) (.start (linkedDir true) "/f".toList)
  have hEntered := hKeyed.step (fun _ hStart => by cases hStart) (@Step.enter _ [] [] _ rfl rfl)
  have hArrived := hEntered.step (fun _ hStart => by cases hStart) (@Step.arrive _ [] [] _ _ rfl)
  have hRuns := hArrived.step (fun _ hStart => by cases hStart)
    (@Step.acquire _ [] [] _ _ _ rfl (fun _ hMem => by simp at hMem) fun _ _ hMem => by cases hMem)
  have hRead := (@Run.shared id (fun _ _ => ⟨[], none⟩) _ hRuns fun _ => utf8 ['a']).step
    (.read ⟨"f", "/f", [⟨['a'], ['b']⟩], none⟩ List.mem_cons_self rfl)
  have hWritten := hRead.step (.write List.mem_cons_self rfl)
  exact ⟨_, hWritten, rfl, edits_replayed hWritten _⟩

end PrimeAgent.MutationQueue
