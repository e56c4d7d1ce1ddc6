import Mathlib.Algebra.Group.Nat.Defs
import Mathlib.Data.List.Basic
import Mathlib.Data.Nat.Init

/-! # Watching a worker process

Every crash of the worker and every failed relaunch is counted, up to the give-up. The count starts afresh when the latest
spawn is long past.
-/
namespace PrimeAgent.Supervisor.Watch

def maxConsecutiveFailures : Nat :=
  5

def stableLifetimeMs : Nat :=
  30000

def baseBackoffMs : Nat :=
  250

def maxBackoffMs : Nat :=
  30000

/-- The count, and the time of the latest spawn, `0` for none. -/
structure ResidentWorker where
  consecutiveFailures : Nat
  spawnedAtMs : Nat
deriving DecidableEq

def nextFailureCount (resident : ResidentWorker) (nowMs : Nat) : Nat × ResidentWorker :=
  if 0 < resident.spawnedAtMs ∧ stableLifetimeMs ≤ nowMs - resident.spawnedAtMs then
    (1, { resident with consecutiveFailures := 1 })
  else
    ((resident.consecutiveFailures + 1) % 2 ^ 32,
      { resident with consecutiveFailures := (resident.consecutiveFailures + 1) % 2 ^ 32 })

def backoffMs (failures : Nat) : Nat :=
  min ((baseBackoffMs <<< min (failures - 1) 7) % 2 ^ 64) maxBackoffMs

/-- What a relaunch comes to: it fails before it spawns, its child is killed, or its child runs until it exits. An adopted
worker, which was not spawned here, is watched as one that was refused. -/
inductive Relaunch where
  | refused
  | killed (spawnedAt killedAt : Nat)
  | running (spawnedAt exitedAt : Nat)
deriving DecidableEq

def Relaunch.stamp (spawnedAtMs : Nat) : Relaunch → Nat
  | .refused => spawnedAtMs
  | .killed spawnedAt _ => spawnedAt
  | .running spawnedAt _ => spawnedAt

/-- The store of `spawn_worker_process`. -/
def relaunchWorker (resident : ResidentWorker) (relaunch : Relaunch) : ResidentWorker :=
  { resident with spawnedAtMs := relaunch.stamp resident.spawnedAtMs }

/-- One turn of the loop: when the exit or the failed relaunch is noted, and the relaunch after it. -/
structure Round where
  notedAt : Nat
  relaunch : Relaunch

/-- `none` is the give-up. -/
def watchRound (resident : ResidentWorker) (round : Round) : Option ResidentWorker :=
  let (failures, resident) := nextFailureCount resident round.notedAt
  if maxConsecutiveFailures < failures then none
  else some (relaunchWorker resident round.relaunch)

def watchWorker (resident : ResidentWorker) (rounds : List Round) : Option ResidentWorker :=
  rounds.foldlM watchRound resident

def watched (first : Relaunch) : ResidentWorker :=
  relaunchWorker ⟨0, 0⟩ first

def Relaunch.stable : Relaunch → Bool
  | .running spawnedAt exitedAt => spawnedAt + stableLifetimeMs ≤ exitedAt
  | _ => false

/-- The rounds since the exit of a stable child was last noted, that one included. Each of them attempts a relaunch. -/
def attempts : Relaunch → Nat → List Round → Nat
  | _, count, [] => count
  | previous, count, round :: rounds =>
    attempts round.relaunch (if previous.stable then 1 else count + 1) rounds

def Timed (previous : Relaunch) : List Round → Prop
  | [] => True
  | round :: rounds =>
    (match previous with
      | .refused => True
      | .killed spawnedAt killedAt => spawnedAt ≤ killedAt ∧ killedAt ≤ round.notedAt
      | .running spawnedAt exitedAt => spawnedAt ≤ exitedAt ∧ exitedAt ≤ round.notedAt) ∧
    (match round.relaunch with
      | .refused => True
      | .killed spawnedAt _ => round.notedAt ≤ spawnedAt
      | .running spawnedAt _ => round.notedAt ≤ spawnedAt) ∧
    Timed round.relaunch rounds

/-- What is noted of anything but a stable child is noted less than the stable window after the latest spawn, and a stable
child has its time of spawn. -/
def Measured (spawnedAtMs : Nat) (previous : Relaunch) : List Round → Prop
  | [] => True
  | round :: rounds =>
    (if previous.stable then 0 < spawnedAtMs else spawnedAtMs = 0 ∨ round.notedAt < spawnedAtMs + stableLifetimeMs) ∧
    Measured (round.relaunch.stamp spawnedAtMs) round.relaunch rounds

section Counting

variable {resident : ResidentWorker} {previous first : Relaunch} {round : Round} {rounds : List Round} {nowMs count : Nat}

theorem nextFailureCount_stable (hSpawned : 0 < resident.spawnedAtMs) (hLong : resident.spawnedAtMs + stableLifetimeMs ≤ nowMs) :
    nextFailureCount resident nowMs = (1, { resident with consecutiveFailures := 1 }) :=
  if_pos ⟨hSpawned, by omega⟩

theorem nextFailureCount_short (hShort : resident.spawnedAtMs = 0 ∨ nowMs < resident.spawnedAtMs + stableLifetimeMs)
    (hCount : resident.consecutiveFailures ≤ maxConsecutiveFailures) : nextFailureCount resident nowMs =
      (resident.consecutiveFailures + 1, { resident with consecutiveFailures := resident.consecutiveFailures + 1 }) := by
  have hPos : 0 < stableLifetimeMs := by decide
  have hNot : ¬ (0 < resident.spawnedAtMs ∧ stableLifetimeMs ≤ nowMs - resident.spawnedAtMs) := by
    omega
  have hSmall : (resident.consecutiveFailures + 1) % 2 ^ 32 = resident.consecutiveFailures + 1 := by
    rw [maxConsecutiveFailures] at hCount
    omega
  rw [nextFailureCount, if_neg hNot, hSmall]

def Stamped (spawnedAtMs : Nat) (previous : Relaunch) : Prop :=
  previous.stamp spawnedAtMs = spawnedAtMs

theorem stamped_relaunch (spawnedAtMs : Nat) (relaunch : Relaunch) : Stamped (relaunch.stamp spawnedAtMs) relaunch := by
  cases relaunch <;> rfl

theorem nextFailureCount_measured (hTimed : Timed previous (round :: rounds))
    (hMeasured : Measured resident.spawnedAtMs previous (round :: rounds)) (hStamped : Stamped resident.spawnedAtMs previous)
    (hCount : resident.consecutiveFailures ≤ maxConsecutiveFailures) : nextFailureCount resident round.notedAt =
      (if previous.stable then 1 else resident.consecutiveFailures + 1,
        { resident with consecutiveFailures := if previous.stable then 1 else resident.consecutiveFailures + 1 }) := by
  obtain ⟨hRound, -⟩ := hMeasured
  split at hRound
  · rename_i hStable
    rw [if_pos hStable]
    cases previous with
    | refused | killed _ _ => cases hStable
    | running spawnedAt exitedAt =>
      have hLong : spawnedAt + stableLifetimeMs ≤ exitedAt := of_decide_eq_true hStable
      have hNoted := hTimed.1.2
      have hStamp : spawnedAt = resident.spawnedAtMs := hStamped
      exact nextFailureCount_stable hRound (by omega)
  · rename_i hStable
    rw [if_neg hStable]
    exact nextFailureCount_short hRound hCount

theorem watchWorker_counts (rounds : List Round) : ∀ (resident : ResidentWorker) (previous : Relaunch),
    Timed previous rounds → Measured resident.spawnedAtMs previous rounds → Stamped resident.spawnedAtMs previous →
    resident.consecutiveFailures ≤ maxConsecutiveFailures →
    (watchWorker resident rounds = none ↔
      ∃ n, maxConsecutiveFailures < attempts previous resident.consecutiveFailures (rounds.take n)) := by
  induction rounds with
  | nil =>
    intro resident previous _ _ _ hCount
    refine iff_of_false (fun h => nomatch h) ?_
    rintro ⟨n, hMany⟩
    rw [List.take_nil] at hMany
    exact absurd hCount (Nat.not_le.mpr hMany)
  | cons round rounds ih =>
    intro resident previous hTimed hMeasured hStamped hCount
    have hNext := nextFailureCount_measured hTimed hMeasured hStamped hCount
    generalize hFailures : (if previous.stable then 1 else resident.consecutiveFailures + 1) = failures at hNext
    have hAttempts (n : Nat) : attempts previous resident.consecutiveFailures ((round :: rounds).take (n + 1)) =
        attempts round.relaunch failures (rounds.take n) := by
      rw [List.take_succ_cons, attempts, hFailures]
    have hWatch : watchWorker resident (round :: rounds) =
        (watchRound resident round).bind fun resident => watchWorker resident rounds := rfl
    rw [hWatch, watchRound, hNext]
    dsimp only
    split
    · rename_i hMany
      refine iff_of_true rfl ⟨1, ?_⟩
      rw [hAttempts, List.take_zero]
      exact hMany
    · rename_i hFew
      have hRest := ih (relaunchWorker ⟨failures, resident.spawnedAtMs⟩ round.relaunch) round.relaunch hTimed.2.2
        hMeasured.2 (stamped_relaunch _ _) (Nat.le_of_not_lt hFew)
      refine hRest.trans ?_
      constructor
      · rintro ⟨n, hMany⟩
        exact ⟨n + 1, by rwa [hAttempts]⟩
      · rintro ⟨n, hMany⟩
        cases n with
        | zero => exact absurd hCount (Nat.not_le.mpr hMany)
        | succ n => exact ⟨n, by rwa [hAttempts] at hMany⟩

theorem attempts_stable (rounds : List Round) : ∀ (previous : Relaunch) (count : Nat), count ≤ 1 →
    (∀ round ∈ rounds, round.relaunch.stable = true) → previous.stable = true → attempts previous count rounds ≤ 1 := by
  induction rounds with
  | nil => exact fun _ _ hCount _ _ => hCount
  | cons round rounds ih =>
    intro previous count _ hStable hPrevious
    obtain ⟨hRound, hRounds⟩ := List.forall_mem_cons.mp hStable
    rw [attempts, if_pos hPrevious]
    exact ih round.relaunch 1 (Nat.le_refl 1) hRounds hRound

theorem measured_stable (rounds : List Round) : ∀ (previous : Relaunch) (spawnedAtMs : Nat), previous.stable = true →
    Stamped spawnedAtMs previous → 0 < spawnedAtMs → Timed previous rounds →
    (∀ round ∈ rounds, round.relaunch.stable = true) → Measured spawnedAtMs previous rounds := by
  induction rounds with
  | nil => exact fun _ _ _ _ _ _ _ => trivial
  | cons round rounds ih =>
    intro previous spawnedAtMs hPrevious hStamped hPos hTimed hStable
    obtain ⟨hRound, hRounds⟩ := List.forall_mem_cons.mp hStable
    refine ⟨by rwa [if_pos hPrevious], ih _ _ hRound (stamped_relaunch _ _) ?_ hTimed.2.2 hRounds⟩
    have hFrom := hTimed.1
    have hTo := hTimed.2.1
    cases previous with
    | refused | killed _ _ => cases hPrevious
    | running spawnedAt exitedAt =>
      have hStamp : spawnedAt = spawnedAtMs := hStamped
      dsimp only at hFrom
      generalize round.relaunch = relaunch at hTo hRound
      cases relaunch with
      | refused | killed _ _ => cases hRound
      | running spawnedAt' exitedAt' =>
        dsimp only [Relaunch.stamp] at hTo ⊢
        omega

theorem backoffMs_bounds (failures : Nat) : baseBackoffMs ≤ backoffMs failures ∧ backoffMs failures ≤ maxBackoffMs ∧
    baseBackoffMs <<< min (failures - 1) 7 < 2 ^ 64 := by
  have hAll : ∀ n ≤ 7, baseBackoffMs ≤ min ((baseBackoffMs <<< n) % 2 ^ 64) maxBackoffMs ∧
      min ((baseBackoffMs <<< n) % 2 ^ 64) maxBackoffMs ≤ maxBackoffMs ∧ baseBackoffMs <<< n < 2 ^ 64 := by
    decide
  exact hAll (min (failures - 1) 7) (Nat.min_le_right _ _)

/-- Where a failure is told from a stable lifetime by the time since the latest spawn, the watch gives up exactly when a sixth
attempt would be made since the last stable child. Stable children are never given up, and every backoff is in its bounds. -/
theorem watchWorker_gives_up (first : Relaunch) (rounds : List Round) :
    (Timed first rounds → Measured (watched first).spawnedAtMs first rounds →
      (watchWorker (watched first) rounds = none ↔ ∃ n, maxConsecutiveFailures < attempts first 0 (rounds.take n))) ∧
    (Timed first rounds → 0 < (watched first).spawnedAtMs → first.stable = true →
      (∀ round ∈ rounds, round.relaunch.stable = true) → ∃ resident, watchWorker (watched first) rounds = some resident) ∧
    ∀ failures, baseBackoffMs ≤ backoffMs failures ∧ backoffMs failures ≤ maxBackoffMs ∧
      baseBackoffMs <<< min (failures - 1) 7 < 2 ^ 64 := by
  have hCounts (hTimed : Timed first rounds) (hMeasured : Measured (watched first).spawnedAtMs first rounds) :=
    watchWorker_counts rounds (watched first) first hTimed hMeasured (stamped_relaunch 0 first) (Nat.zero_le _)
  refine ⟨hCounts, fun hTimed hPos hFirst hStable => ?_, backoffMs_bounds⟩
  have hMeasured := measured_stable rounds first (watched first).spawnedAtMs hFirst (stamped_relaunch 0 first) hPos hTimed hStable
  refine Option.ne_none_iff_exists'.mp fun hNone => ?_
  obtain ⟨n, hMany⟩ := (hCounts hTimed hMeasured).mp hNone
  have hOne := attempts_stable (rounds.take n) first 0 (Nat.zero_le 1)
    (fun round hMem => hStable round (List.mem_of_mem_take hMem)) hFirst
  exact absurd hMany (Nat.not_lt.mpr (Nat.le_trans hOne (by decide)))

end Counting

section Storm

def refusals : Nat → Nat → List Round
  | _, 0 => []
  | notedAt, n + 1 => ⟨notedAt, .refused⟩ :: refusals (notedAt + 250) n

theorem timed_refusals (n : Nat) : ∀ notedAt, Timed .refused (refusals notedAt n) := by
  induction n with
  | zero => exact fun _ => trivial
  | succ n ih => exact fun notedAt => ⟨trivial, trivial, ih (notedAt + 250)⟩

theorem attempts_refusals (n : Nat) : ∀ notedAt count, attempts .refused count (refusals notedAt n) = count + n := by
  induction n with
  | zero => exact fun _ _ => rfl
  | succ n ih =>
    intro notedAt count
    have hRest := ih (notedAt + 250) (count + 1)
    exact hRest.trans (by omega)

theorem watchWorker_refusals (n : Nat) : ∀ notedAt count, 30001 ≤ notedAt →
    watchWorker ⟨count, 1⟩ (refusals notedAt n) ≠ none := by
  induction n with
  | zero => exact fun _ _ _ h => nomatch h
  | succ n ih =>
    intro notedAt count hLate
    have hLong : 1 + stableLifetimeMs ≤ notedAt := by
      rw [stableLifetimeMs]
      omega
    have hNext : nextFailureCount ⟨count, 1⟩ notedAt = (1, ⟨1, 1⟩) := nextFailureCount_stable Nat.one_pos hLong
    have hRound : watchRound ⟨count, 1⟩ ⟨notedAt, .refused⟩ = some ⟨1, 1⟩ := by
      rw [watchRound, hNext]
      rfl
    have hWatch : watchWorker ⟨count, 1⟩ (refusals notedAt (n + 1)) =
        (watchRound ⟨count, 1⟩ ⟨notedAt, .refused⟩).bind fun resident => watchWorker resident (refusals (notedAt + 250) n) := rfl
    rw [hWatch, hRound, Option.bind_some]
    exact ih (notedAt + 250) 1 (Nat.le_add_right_of_le hLate)

theorem refusals_storm (n : Nat) : Timed (.running 1 30001) (refusals 30001 n) ∧
    attempts (.running 1 30001) 0 (refusals 30001 n) = n ∧
    watchWorker (watched (.running 1 30001)) (refusals 30001 n) ≠ none := by
  refine ⟨?_, ?_, watchWorker_refusals n 30001 0 (Nat.le_refl _)⟩
  · cases n with
    | zero => trivial
    | succ n => exact ⟨⟨by decide, Nat.le_refl _⟩, trivial, timed_refusals n _⟩
  · cases n with
    | zero => rfl
    | succ n => exact (attempts_refusals n _ 1).trans (Nat.add_comm 1 n)

/-- After a child that lived half a minute, six relaunches that never spawn are attempted, and no bound holds of them. -/
theorem watchWorker_storm :
    (Timed (.running 1 30001) (refusals 30001 6) ∧
      maxConsecutiveFailures < attempts (.running 1 30001) 0 (refusals 30001 6) ∧
      watchWorker (watched (.running 1 30001)) (refusals 30001 6) ≠ none) ∧
    ¬ ∃ bound, ∀ rounds, Timed (.running 1 30001) rounds →
      watchWorker (watched (.running 1 30001)) rounds ≠ none → attempts (.running 1 30001) 0 rounds ≤ bound := by
  constructor
  · obtain ⟨hTimed, hAttempts, hWatched⟩ := refusals_storm 6
    refine ⟨hTimed, ?_, hWatched⟩
    rw [hAttempts]
    decide
  · intro ⟨bound, hBound⟩
    obtain ⟨hTimed, hAttempts, hWatched⟩ := refusals_storm (bound + 1)
    have hLe := hBound (refusals 30001 (bound + 1)) hTimed hWatched
    omega

end Storm

end PrimeAgent.Supervisor.Watch
