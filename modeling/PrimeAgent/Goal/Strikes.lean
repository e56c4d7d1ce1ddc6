import PrimeAgent.Goal.Outstanding

/-! # Turns without output

The consults present turns of the session in any order, and a worker may be restarted between them. Beside the driver
stands a ledger of the rows that the consults have examined.
-/
namespace PrimeAgent.Goal

open Held

deriving instance DecidableEq for TurnPart, SettledTurn

/-! ## The restart -/

namespace Held

def newestRow (h : Held) : GoalState :=
  h.latestPersistedState (some (h.rows.length - 1))

def restorePersisted (state : GoalState) : GoalDriver :=
  let state := normalizeGoalState state
  { GoalDriver.new with
    state := state
    noProgressStreak := state.noProgressStreak.getD 0
    countedNoProgressTurnMs := state.noProgressTurnMs }

def loadPersisted (staleFailure : Option String) (h : Held) : Held :=
  { h with driver := restorePersisted (guardAdopted staleFailure h.newestRow) }

/-! ## The ledger -/

def turnIsThisGoals (h : Held) (turn : SettledTurn) : Bool :=
  h.driver.state.createdAt.all fun createdAt => i64 createdAt < turn.timestamp

def turnIsNew (h : Held) (turn : SettledTurn) : Bool :=
  h.driver.countedNoProgressTurnMs.all fun examined => examined < turn.timestamp

def Judges (h : Held) (turn : SettledTurn) : Prop :=
  h.driver.state.status = .active ∧ h.driver.state.objective ≠ none ∧ h.turnIsThisGoals turn = true

instance (h : Held) (turn : SettledTurn) : Decidable (h.Judges turn) :=
  inferInstanceAs (Decidable (_ ∧ _ ∧ _))

end Held

def Weighs (turn : SettledTurn) : Prop :=
  terminalProviderFailure turn = none ∧ turn.failureKind ≠ some "rate_limit"

instance (turn : SettledTurn) : Decidable (Weighs turn) :=
  inferInstanceAs (Decidable (_ ∧ _))

/-- `known` are the keys that were held before the run, `inherited` the streak that it began with; `strikes` are the
turns without output since the last newer turn with output. -/
structure StrikeLedger where
  known : List Int
  seen : List SettledTurn
  inherited : Nat
  strikes : List SettledTurn
  ended : Bool
  lateMints : Nat

namespace StrikeLedger

def newer (turn : SettledTurn) (l : StrikeLedger) : Bool :=
  decide (turn ∉ l.seen) && l.known.all (· < turn.timestamp) && l.seen.all (·.timestamp ≤ turn.timestamp)

def streak (l : StrikeLedger) : Nat :=
  l.inherited + l.strikes.length

def strike (turn : SettledTurn) (l : StrikeLedger) : StrikeLedger :=
  { l with
    strikes := turn :: l.strikes
    ended := l.ended || decide (continuationNoProgressCap ≤ l.streak + 1) }

def judge (turn : SettledTurn) (l : StrikeLedger) : StrikeLedger :=
  if (terminalProviderFailure turn).isSome then { l with ended := true }
  else if turn.failureKind = some "rate_limit" ∨ l.newer turn = false then l
  else if turnProducedNoOutput turn then l.strike turn
  else { l with inherited := 0, strikes := [] }

def examine (h : Held) (turn : SettledTurn) (l : StrikeLedger) : StrikeLedger :=
  if h.Judges turn then { l.judge turn with seen := turn :: l.seen } else l

def offered (result : Except GoalError (Option GoalContext)) (l : StrikeLedger) : StrikeLedger :=
  match result with
  | .ok (some _) => if l.ended then { l with lateMints := l.lateMints + 1 } else l
  | _ => l

end StrikeLedger

/-! ## Runs -/

inductive ConsultStep where
  | consult (env : OpEnv) (lastTurn : Option SettledTurn)
  | admitted
  | restart (staleFailure : Option String)

def consultNext (at_ : Held × StrikeLedger) : ConsultStep → Held × StrikeLedger
  | .consult env lastTurn =>
    let (result, h) := nextContinuationMessage env lastTurn at_.1
    (h, (lastTurn.elim at_.2 fun turn => at_.2.examine at_.1 turn).offered result)
  | .admitted => (at_.1.continuationConsumed, at_.2)
  | .restart staleFailure => (at_.1.loadPersisted staleFailure, at_.2)

def ledgerOf (h : Held) : StrikeLedger where
  known := [h.driver.countedNoProgressTurnMs, h.driver.state.noProgressTurnMs,
    h.newestRow.noProgressTurnMs].filterMap id
  seen := []
  inherited := h.driver.noProgressStreak
  strikes := []
  ended := false
  lateMints := 0

def afterConsults (h : Held) (steps : List ConsultStep) : Held × StrikeLedger :=
  steps.foldl consultNext (h, ledgerOf h)

/-- The driver's streak counts each turn without output once, and a goal that three of them or a provider failure have
ended is in error and mints nothing. -/
structure Tallied (at_ : Held × StrikeLedger) : Prop where
  streak : at_.1.driver.noProgressStreak = at_.2.streak
  once : at_.2.strikes.Nodup
  ended : at_.2.ended = true → at_.1.driver.state.status = .error
  quiet : at_.2.lateMints = 0

/-- The driver's key tells this turn from the examined ones: a turn that is not newer is not past it, and a newer turn
has another timestamp. -/
structure Told (h : Held) (l : StrikeLedger) (turn : SettledTurn) : Prop where
  past : l.newer turn = false → h.turnIsNew turn = false
  apart : l.newer turn = true → h.driver.countedNoProgressTurnMs ≠ some turn.timestamp

def EndWritten (env : OpEnv) (l : StrikeLedger) (turn : SettledTurn) : Prop :=
  if (terminalProviderFailure turn).isSome then env.persist 0 = .done
  else l.newer turn = true → turnProducedNoOutput turn = true → continuationNoProgressCap ≤ l.streak + 1 →
    env.persist 0 = .done ∧ env.persist 1 = .done

structure Settles (at_ : Held × StrikeLedger) (env : OpEnv) (turn : SettledTurn) : Prop where
  told : Weighs turn → (turnProducedNoOutput turn = true ∨ at_.2.streak ≠ 0) → Told at_.1 at_.2 turn
  written : turn.failureKind ≠ some "rate_limit" → EndWritten env at_.2 turn

def Holds (at_ : Held × StrikeLedger) : ConsultStep → Prop
  | .consult env (some turn) => at_.1.Judges turn → Settles at_ env turn
  | .consult _ none => True
  | .admitted => True
  | .restart _ => at_.1.newestRow.noProgressStreak.getD 0 = at_.1.driver.noProgressStreak

/-! ## Writes -/

variable {h h' : Held} {l : StrikeLedger} {env : OpEnv} {now : Nat} {persist : Persist} {next : GoalState}
  {turn : SettledTurn} {K : Int → Prop} {wrote : Bool} {step : ConsultStep}

theorem recorded_noProgressTurnMs : (recorded now next).noProgressTurnMs = next.noProgressTurnMs := by
  unfold recorded
  simp only
  split <;> rfl

theorem setState_streak (hSet : setState now persist next h = (wrote, h')) :
    h'.driver.noProgressStreak = h.driver.noProgressStreak := by
  cases wrote with
  | false => rw [setState_false hSet]
  | true => rw [(setState_true hSet).2]

theorem newestRow_of_append {rows : List GoalState} {row : GoalState} (hRows : h.rows = rows ++ [row]) :
    h.newestRow = normalizeGoalState row := by
  unfold newestRow latestPersistedState
  simp [hRows]

structure KeysIn (K : Int → Prop) (h : Held) : Prop where
  driver : ∀ key ∈ h.driver.countedNoProgressTurnMs, K key
  state : ∀ key ∈ h.driver.state.noProgressTurnMs, K key
  row : ∀ key ∈ h.newestRow.noProgressTurnMs, K key

theorem setState_keysIn (hSet : setState now persist next h = (wrote, h')) (hKeys : KeysIn K h)
    (hNext : ∀ key ∈ next.noProgressTurnMs, K key) : KeysIn K h' := by
  obtain rfl : (setState now persist next h).2 = h' := congrArg Prod.snd hSet
  have hRow : ∀ key ∈ (normalizeGoalState (recorded now next)).noProgressTurnMs, K key := by
    show ∀ key ∈ (recorded now next).noProgressTurnMs, K key
    rw [recorded_noProgressTurnMs]
    exact hNext
  cases persist with
  | appendFailed => exact hKeys
  | flushFailed =>
    refine ⟨hKeys.driver, hKeys.state, ?_⟩
    rw [newestRow_of_append rfl]
    exact hRow
  | done =>
    refine ⟨hKeys.driver, hRow, ?_⟩
    rw [newestRow_of_append rfl]
    exact hRow

theorem setState_outcome (hSet : setState now persist next h = (wrote, h')) :
    if persist = .done then wrote = true ∧ h'.driver.state.status = next.status ∧ h'.newestRow.status = next.status
    else wrote = false ∧ h'.driver.state.status = h.driver.state.status := by
  obtain ⟨rfl, rfl⟩ := Prod.mk.inj hSet
  cases persist with
  | appendFailed | flushFailed => exact ⟨rfl, rfl⟩
  | done =>
    refine ⟨rfl, recorded_status, ?_⟩
    rw [newestRow_of_append rfl]
    exact recorded_status

/-! ## The mint behind the gate -/

theorem mint_streak (env : OpEnv) (h : Held) : (mint env h).2.driver.noProgressStreak = h.driver.noProgressStreak := by
  unfold mint
  split
  next =>
    split
    next hSet => exact setState_streak hSet
    next hSet => exact setState_streak hSet
  next =>
    split
    next => rfl
    next =>
      split
      next => rfl
      next =>
        split
        next hSet => exact setState_streak hSet
        next hSet =>
          have hStreak := setState_streak hSet
          exact hStreak

theorem mint_keysIn (hKeys : KeysIn K h) : KeysIn K (mint env h).2 := by
  unfold mint
  split
  next =>
    split
    next hSet => exact setState_keysIn hSet hKeys hKeys.state
    next hSet => exact setState_keysIn hSet hKeys hKeys.state
  next =>
    split
    next => exact hKeys
    next =>
      split
      next => exact hKeys
      next =>
        split
        next hSet => exact setState_keysIn hSet hKeys hKeys.state
        next hSet =>
          obtain ⟨hDriver, hState, hRow⟩ := setState_keysIn hSet hKeys hKeys.state
          exact ⟨hDriver, hState, hRow⟩

/-! ## The gate -/

theorem finish_streak (error : String) (h : Held) :
    (finishForTerminalMessage env .error (some error) h).2.driver.noProgressStreak = h.driver.noProgressStreak := by
  unfold finishForTerminalMessage
  split
  next => rfl
  next =>
    split
    next => rfl
    next =>
      simp only
      split
      next hSet => exact setState_streak hSet
      next hSet => exact setState_streak hSet

theorem finish_keysIn (error : String) (hKeys : KeysIn K h) :
    KeysIn K (finishForTerminalMessage env .error (some error) h).2 := by
  unfold finishForTerminalMessage
  split
  next => exact hKeys
  next =>
    split
    next => exact hKeys
    next =>
      simp only
      split
      next hSet => exact setState_keysIn hSet hKeys hKeys.state
      next hSet => exact setState_keysIn hSet hKeys hKeys.state

theorem gate_foreign (hForeign : h.turnIsThisGoals turn = false) : progressGate env turn h = (.ok true, h) := by
  unfold turnIsThisGoals at hForeign
  unfold progressGate
  simp only [hForeign, Bool.false_and, Bool.false_eq_true, if_false]
  split <;> rfl

theorem gate_terminal {error : String} (hOurs : h.turnIsThisGoals turn = true)
    (hTerminal : terminalProviderFailure turn = some error) :
    (progressGate env turn h).1 ≠ .ok true ∧
      (progressGate env turn h).2 = (finishForTerminalMessage env .error (some error) h).2 := by
  unfold turnIsThisGoals at hOurs
  unfold progressGate
  simp only [hOurs, hTerminal, if_true]
  split
  next hFinish => exact ⟨nofun, by rw [hFinish]⟩
  next hFinish => exact ⟨nofun, by rw [hFinish]⟩

theorem gate_old (hTerminal : terminalProviderFailure turn = none) (hOld : h.turnIsNew turn = false) :
    progressGate env turn h = (.ok true, h) := by
  unfold turnIsNew at hOld
  unfold progressGate
  simp only [hTerminal, hOld, Bool.and_false, Bool.false_eq_true, if_false]

theorem gate_parked (hOurs : h.turnIsThisGoals turn = true) (hNew : h.turnIsNew turn = true)
    (hTerminal : terminalProviderFailure turn = none) (hParked : turn.failureKind = some "rate_limit") :
    progressGate env turn h = (.ok false, { h with driver := { h.driver with
      countedNoProgressTurnMs := some turn.timestamp
      noProgressBackoffUntilMs := 0
      parkedRefusalUntilMs := env.now 0 + backoffBaseMs } }) := by
  unfold turnIsThisGoals at hOurs
  unfold turnIsNew at hNew
  unfold progressGate
  simp only [hTerminal, hOurs, hNew, Bool.and_self, if_true, hParked]

def counting (env : OpEnv) (turn : SettledTurn) (h : Held) : Held :=
  { h with driver := { h.driver with
    countedNoProgressTurnMs := some turn.timestamp
    noProgressStreak := h.driver.noProgressStreak + 1
    noProgressBackoffUntilMs := env.now 0 + backoffBaseMs * saturatingPow (h.driver.noProgressStreak + 1 - 1) } }

def struckState (turn : SettledTurn) (h : Held) : GoalState :=
  { h.driver.state with
    noProgressStreak := some (h.driver.noProgressStreak + 1), noProgressTurnMs := some turn.timestamp }

theorem gate_strike (hOurs : h.turnIsThisGoals turn = true) (hNew : h.turnIsNew turn = true) (hWeighs : Weighs turn)
    (hEmpty : turnProducedNoOutput turn = true) :
    (progressGate env turn h).1 ≠ .ok true ∧
      (progressGate env turn h).2 =
        let wrote := setState (env.now 1) (env.persist 0) (struckState turn h) (counting env turn h)
        if wrote.1 = true ∧ continuationNoProgressCap ≤ h.driver.noProgressStreak + 1 then
          (setState (env.now 2) (env.persist 1) (capped (h.driver.noProgressStreak + 1) wrote.2.driver.state) wrote.2).2
        else wrote.2 := by
  unfold turnIsThisGoals at hOurs
  unfold turnIsNew at hNew
  obtain ⟨hTerminal, hPaid⟩ := hWeighs
  unfold progressGate
  simp only [hTerminal, hOurs, hNew, Bool.and_self, if_true, hPaid, if_false, hEmpty]
  have hStruck : ({ h.driver.state with
      noProgressStreak := some (h.driver.noProgressStreak + 1), noProgressTurnMs := some turn.timestamp } : GoalState) =
      struckState turn h := rfl
  split
  next hSet =>
    have hWrote : setState (env.now 1) (env.persist 0) (struckState turn h) (counting env turn h) = (false, _) := hSet
    simp [hWrote]
  next hSet =>
    have hWrote : setState (env.now 1) (env.persist 0) (struckState turn h) (counting env turn h) = (true, _) := hSet
    simp only [hWrote, true_and]
    split
    next hCap =>
      split
      next hLast => simp [hLast]
      next hLast => simp [hLast]
    next hCap => simp

theorem gate_output (hOurs : h.turnIsThisGoals turn = true) (hNew : h.turnIsNew turn = true) (hWeighs : Weighs turn)
    (hOutput : turnProducedNoOutput turn = false) :
    (progressGate env turn h).2.driver.noProgressStreak = 0 ∧
      (KeysIn K h → K turn.timestamp → KeysIn K (progressGate env turn h).2) := by
  unfold turnIsThisGoals at hOurs
  unfold turnIsNew at hNew
  obtain ⟨hTerminal, hPaid⟩ := hWeighs
  unfold progressGate
  simp only [hTerminal, hOurs, hNew, Bool.and_self, if_true, hPaid, if_false, hOutput, Bool.false_eq_true]
  split
  next =>
    have hReset : ∀ {wrote : Bool} {h' : Held}, setState (env.now 1) (env.persist 0) { h.driver.state with
        noProgressStreak := some 0, noProgressTurnMs := some turn.timestamp } { h with driver := { h.driver with
          noProgressStreak := 0, noProgressBackoffUntilMs := 0, parkedRefusalUntilMs := 0
          countedNoProgressTurnMs := some turn.timestamp } } = (wrote, h') →
        h'.driver.noProgressStreak = 0 ∧ (KeysIn K h → K turn.timestamp → KeysIn K h') := by
      intro wrote h' hSet
      refine ⟨setState_streak hSet, fun hKeys hTurn => setState_keysIn hSet ⟨?_, hKeys.state, hKeys.row⟩ ?_⟩
      · exact fun key hKey => Option.mem_some.mp hKey ▸ hTurn
      · exact fun key hKey => Option.mem_some.mp hKey ▸ hTurn
    split
    next hSet => exact hReset hSet
    next hSet => exact hReset hSet
  next hStill =>
    exact ⟨not_not.mp hStill, fun hKeys _ => hKeys⟩

theorem counting_keysIn (hKeys : KeysIn K h) (hTurn : K turn.timestamp) : KeysIn K (counting env turn h) :=
  ⟨fun _ hKey => Option.mem_some.mp hKey ▸ hTurn, hKeys.state, hKeys.row⟩

theorem strike_kept (hOurs : h.turnIsThisGoals turn = true) (hNew : h.turnIsNew turn = true) (hWeighs : Weighs turn)
    (hEmpty : turnProducedNoOutput turn = true) :
    (progressGate env turn h).2.driver.noProgressStreak = h.driver.noProgressStreak + 1 ∧
      (KeysIn K h → K turn.timestamp → KeysIn K (progressGate env turn h).2) := by
  rw [(gate_strike hOurs hNew hWeighs hEmpty).2]
  obtain ⟨wrote, counted, hSet⟩ : ∃ wrote counted,
      setState (env.now 1) (env.persist 0) (struckState turn h) (counting env turn h) = (wrote, counted) := ⟨_, _, rfl⟩
  have hCounted : counted.driver.noProgressStreak = h.driver.noProgressStreak + 1 := setState_streak hSet
  have hCountedKeys : KeysIn K h → K turn.timestamp → KeysIn K counted := by
    intro hKeys hTurn
    refine setState_keysIn hSet (counting_keysIn hKeys hTurn) ?_
    exact fun key hKey => Option.mem_some.mp hKey ▸ hTurn
  simp only [hSet]
  split
  next =>
    refine ⟨(setState_streak rfl).trans hCounted, fun hKeys hTurn => ?_⟩
    exact setState_keysIn rfl (hCountedKeys hKeys hTurn) (hCountedKeys hKeys hTurn).state
  next => exact ⟨hCounted, hCountedKeys⟩

def weighed (turn : SettledTurn) (h : Held) : Nat :=
  if h.turnIsNew turn = true ∧ Weighs turn then
    if turnProducedNoOutput turn then h.driver.noProgressStreak + 1 else 0
  else h.driver.noProgressStreak

theorem gate_kept (hOurs : h.turnIsThisGoals turn = true) :
    (progressGate env turn h).2.driver.noProgressStreak = weighed turn h ∧
      (KeysIn K h → K turn.timestamp → KeysIn K (progressGate env turn h).2) := by
  unfold weighed
  cases hTerminal : terminalProviderFailure turn with
  | some error =>
    have hNone : ¬ (h.turnIsNew turn = true ∧ Weighs turn) := by
      rintro ⟨-, hNone, -⟩
      rw [hTerminal] at hNone
      cases hNone
    rw [if_neg hNone, (gate_terminal hOurs hTerminal).2]
    exact ⟨finish_streak error h, fun hKeys _ => finish_keysIn error hKeys⟩
  | none =>
    cases hNew : h.turnIsNew turn with
    | false =>
      rw [if_neg (by simp), gate_old hTerminal hNew]
      exact ⟨rfl, fun hKeys _ => hKeys⟩
    | true =>
      by_cases hParked : turn.failureKind = some "rate_limit"
      · rw [if_neg fun hWeighed => hWeighed.2.2 hParked, gate_parked hOurs hNew hTerminal hParked]
        exact ⟨rfl, fun hKeys hTurn => ⟨fun _ hKey => Option.mem_some.mp hKey ▸ hTurn, hKeys.state, hKeys.row⟩⟩
      · have hWeighs : Weighs turn := ⟨hTerminal, hParked⟩
        rw [if_pos ⟨rfl, hWeighs⟩]
        cases hEmpty : turnProducedNoOutput turn with
        | true => exact strike_kept hOurs hNew hWeighs hEmpty
        | false => exact gate_output hOurs hNew hWeighs hEmpty

/-! ## The consult -/

theorem next_closed (hClosed : h.driver.state.status ≠ .active) (lastTurn : Option SettledTurn) :
    nextContinuationMessage env lastTurn h = (.ok none, h) := by
  unfold nextContinuationMessage
  rw [if_pos (.inl hClosed)]

theorem next_open (hActive : h.driver.state.status = .active) (hObjective : h.driver.state.objective ≠ none) :
    nextContinuationMessage env (some turn) h =
      match progressGate env turn h with
      | (.error error, h) => (.error error, h)
      | (.ok false, h) => (.ok none, h)
      | (.ok true, h) => mint env h := by
  unfold nextContinuationMessage
  exact if_neg (by tauto)

theorem next_unjudged (hForeign : ¬ h.Judges turn) :
    (nextContinuationMessage env (some turn) h).2.driver.noProgressStreak = h.driver.noProgressStreak ∧
      (KeysIn K h → KeysIn K (nextContinuationMessage env (some turn) h).2) := by
  by_cases hOpen : h.driver.state.status = .active ∧ h.driver.state.objective ≠ none
  · have hOurs : h.turnIsThisGoals turn = false :=
      Bool.not_eq_true _ ▸ fun hOurs => hForeign ⟨hOpen.1, hOpen.2, hOurs⟩
    rw [next_open hOpen.1 hOpen.2, gate_foreign hOurs]
    exact ⟨mint_streak env h, mint_keysIn⟩
  · unfold nextContinuationMessage
    rw [if_pos (by tauto)]
    exact ⟨rfl, id⟩

theorem next_none :
    (nextContinuationMessage env none h).2.driver.noProgressStreak = h.driver.noProgressStreak ∧
      (KeysIn K h → KeysIn K (nextContinuationMessage env none h).2) := by
  unfold nextContinuationMessage
  split
  next => exact ⟨rfl, id⟩
  next => exact ⟨mint_streak env h, mint_keysIn⟩

theorem next_judged (hJudges : h.Judges turn) :
    (nextContinuationMessage env (some turn) h).2.driver.noProgressStreak = weighed turn h ∧
      (KeysIn K h → K turn.timestamp → KeysIn K (nextContinuationMessage env (some turn) h).2) := by
  obtain ⟨hActive, hObjective, hOurs⟩ := hJudges
  rw [next_open hActive hObjective]
  obtain ⟨hStreak, hKeys⟩ := @gate_kept h env turn K hOurs
  split
  next hGate =>
    rw [hGate] at hStreak hKeys
    exact ⟨hStreak, hKeys⟩
  next hGate =>
    rw [hGate] at hStreak hKeys
    exact ⟨hStreak, hKeys⟩
  next hGate =>
    rw [hGate] at hStreak hKeys
    exact ⟨(mint_streak env _).trans hStreak, fun hIn hTurn => mint_keysIn (hKeys hIn hTurn)⟩

theorem next_refused (hJudges : h.Judges turn) (hGate : (progressGate env turn h).1 ≠ .ok true) :
    (∀ message, (nextContinuationMessage env (some turn) h).1 ≠ .ok (some message)) ∧
      (nextContinuationMessage env (some turn) h).2 = (progressGate env turn h).2 := by
  rw [next_open hJudges.1 hJudges.2.1]
  split
  next hOut => exact ⟨nofun, by rw [hOut]⟩
  next hOut => exact ⟨nofun, by rw [hOut]⟩
  next hOut => exact absurd (congrArg Prod.fst hOut) hGate

/-! ## The end of a goal -/

def Ended (h : Held) : Prop :=
  h.driver.state.status = .error ∧ h.newestRow.status = .error

theorem finish_outcome (error : String) (hActive : h.driver.state.status = .active) :
    if env.persist 0 = .done then Ended (finishForTerminalMessage env .error (some error) h).2
    else (finishForTerminalMessage env .error (some error) h).2.driver.state.status = .active := by
  unfold finishForTerminalMessage
  rw [if_neg (not_not.mpr hActive), if_neg (not_not.mpr rfl)]
  simp only
  by_cases hDone : env.persist 0 = .done
  · rw [if_pos hDone]
    split
    next hSet =>
      have hOutcome := setState_outcome hSet
      rw [if_pos hDone] at hOutcome
      cases hOutcome.1
    next hSet =>
      have hOutcome := setState_outcome hSet
      rw [if_pos hDone] at hOutcome
      exact hOutcome.2
  · rw [if_neg hDone]
    split
    next hSet =>
      have hOutcome := setState_outcome hSet
      rw [if_neg hDone] at hOutcome
      exact hOutcome.2.trans hActive
    next hSet =>
      have hOutcome := setState_outcome hSet
      rw [if_neg hDone] at hOutcome
      cases hOutcome.1

theorem strike_outcome (hJudges : h.Judges turn) (hNew : h.turnIsNew turn = true) (hWeighs : Weighs turn)
    (hEmpty : turnProducedNoOutput turn = true) (hCap : continuationNoProgressCap ≤ h.driver.noProgressStreak + 1) :
    if env.persist 0 = .done ∧ env.persist 1 = .done then Ended (progressGate env turn h).2
    else (progressGate env turn h).2.driver.state.status = .active := by
  rw [(gate_strike hJudges.2.2 hNew hWeighs hEmpty).2]
  simp only [hCap, and_true]
  obtain ⟨wrote, counted, hSet⟩ : ∃ wrote counted,
      setState (env.now 1) (env.persist 0) (struckState turn h) (counting env turn h) = (wrote, counted) := ⟨_, _, rfl⟩
  obtain ⟨wrote', dead, hSet'⟩ : ∃ wrote' dead, setState (env.now 2) (env.persist 1)
      (capped (h.driver.noProgressStreak + 1) counted.driver.state) counted = (wrote', dead) := ⟨_, _, rfl⟩
  have hFirst := setState_outcome hSet
  have hSecond := setState_outcome hSet'
  have hStruck : (struckState turn h).status = .active := hJudges.1
  simp only [hSet, hSet']
  by_cases hDone : env.persist 0 = .done
  · rw [if_pos hDone] at hFirst
    simp only [hDone, hFirst.1, true_and, if_true]
    by_cases hLast : env.persist 1 = .done
    · rw [if_pos hLast] at hSecond ⊢
      exact hSecond.2
    · rw [if_neg hLast] at hSecond ⊢
      exact hSecond.2.trans (hFirst.2.1.trans hStruck)
  · rw [if_neg hDone] at hFirst
    simp only [hDone, hFirst.1, false_and, Bool.false_eq_true, if_false]
    exact hFirst.2.trans hJudges.1

/-! ## One consult and the ledger -/

namespace StrikeLedger

def Known (l : StrikeLedger) (key : Int) : Prop :=
  key ∈ l.known ∨ ∃ turn ∈ l.seen, turn.timestamp = key

theorem offered_eq (result : Except GoalError (Option GoalContext)) (l : StrikeLedger) :
    ∃ lateMints, l.offered result = { l with lateMints := lateMints } := by
  unfold offered
  split
  next =>
    split
    next => exact ⟨_, rfl⟩
    next => exact ⟨_, rfl⟩
  next => exact ⟨_, rfl⟩

theorem offered_quiet {result : Except GoalError (Option GoalContext)}
    (hQuiet : l.ended = true → ∀ message, result ≠ .ok (some message)) : l.offered result = l := by
  unfold offered
  split
  next message =>
    split
    next hEnded => exact absurd rfl (hQuiet hEnded message)
    next => rfl
  next => rfl

theorem examine_seen (hJudges : h.Judges turn) : (l.examine h turn).seen = turn :: l.seen := by
  unfold examine
  rw [if_pos hJudges]

theorem judge_known (turn : SettledTurn) (l : StrikeLedger) : (l.judge turn).known = l.known := by
  unfold judge
  split
  next => rfl
  next =>
    split
    next => rfl
    next => split <;> rfl

theorem examine_known (h : Held) (turn : SettledTurn) (l : StrikeLedger) : (l.examine h turn).known = l.known := by
  unfold examine
  split
  next => exact judge_known turn l
  next => rfl

theorem examine_lateMints (h : Held) (turn : SettledTurn) (l : StrikeLedger) :
    (l.examine h turn).lateMints = l.lateMints := by
  unfold examine judge
  split
  next =>
    split
    next => rfl
    next =>
      split
      next => rfl
      next => split <;> rfl
  next => rfl

theorem examine_streak (hJudges : h.Judges turn) :
    (l.examine h turn).streak = if l.newer turn = true ∧ Weighs turn then
      if turnProducedNoOutput turn then l.streak + 1 else 0
    else l.streak := by
  unfold examine
  rw [if_pos hJudges]
  show (l.judge turn).streak = _
  unfold judge
  by_cases hWeighs : Weighs turn
  · obtain ⟨hTerminal, hPaid⟩ := id hWeighs
    cases hNewer : l.newer turn with
    | false => simp [hTerminal]
    | true =>
      cases hEmpty : turnProducedNoOutput turn with
      | true => simp [hTerminal, hPaid, hWeighs, strike, streak, Nat.add_assoc]
      | false => simp [hTerminal, hPaid, hWeighs, streak]
  · simp only [hWeighs, and_false, if_false]
    split
    next => rfl
    next hTerminal =>
      rw [if_pos (.inl (by_contra fun hPaid => hWeighs ⟨by simpa using hTerminal, hPaid⟩))]

theorem examine_strikes (hJudges : h.Judges turn) :
    (l.examine h turn).strikes = l.strikes ∨ (l.examine h turn).strikes = [] ∨
      (l.newer turn = true ∧ (l.examine h turn).strikes = turn :: l.strikes) := by
  unfold examine
  rw [if_pos hJudges]
  show (l.judge turn).strikes = _ ∨ _
  unfold judge
  split
  next => exact .inl rfl
  next =>
    split
    next => exact .inl rfl
    next hNewer =>
      split
      next => exact .inr (.inr ⟨by simpa using (not_or.mp hNewer).2, rfl⟩)
      next => exact .inr (.inl rfl)

theorem examine_ended (hJudges : h.Judges turn) (hOpen : l.ended = false) :
    (l.examine h turn).ended = true ↔ terminalProviderFailure turn ≠ none ∨
      (l.newer turn = true ∧ Weighs turn ∧ turnProducedNoOutput turn = true ∧
        continuationNoProgressCap ≤ l.streak + 1) := by
  unfold examine
  rw [if_pos hJudges]
  show (l.judge turn).ended = true ↔ _
  unfold judge
  cases hTerminal : terminalProviderFailure turn with
  | some error => simp
  | none =>
    by_cases hParked : turn.failureKind = some "rate_limit"
    · have hLight : ¬ Weighs turn := fun hWeighs => hWeighs.2 hParked
      simp [hParked, hOpen, hLight]
    · have hWeighs : Weighs turn := ⟨hTerminal, hParked⟩
      cases hNewer : l.newer turn with
      | false => simp [hOpen]
      | true =>
        cases hEmpty : turnProducedNoOutput turn with
        | true => simp [hParked, strike, hOpen, hWeighs]
        | false => simp [hParked, hOpen]

end StrikeLedger

theorem told_iff (hKeys : KeysIn l.Known h) : Told h l turn ↔ h.turnIsNew turn = l.newer turn := by
  constructor
  · rintro ⟨hPast, hApart⟩
    cases hNewer : l.newer turn with
    | false => exact hPast hNewer
    | true =>
      have hApart := hApart hNewer
      unfold StrikeLedger.newer at hNewer
      simp only [Bool.and_eq_true, List.all_eq_true, decide_eq_true_eq] at hNewer
      unfold turnIsNew
      cases hKey : h.driver.countedNoProgressTurnMs with
      | none => rfl
      | some key =>
        rw [hKey] at hApart
        have hApart : key ≠ turn.timestamp := fun hSame => hApart (congrArg some hSame)
        simp only [Option.all_some, decide_eq_true_eq]
        obtain hKnown | ⟨other, hOther, rfl⟩ := hKeys.driver key hKey
        · exact hNewer.1.2 key hKnown
        · exact Int.lt_iff_le_and_ne.mpr ⟨hNewer.2 other hOther, hApart⟩
  · intro hSame
    refine ⟨fun hOld => hSame.trans hOld, fun hNewer hKey => ?_⟩
    have hNew := hSame.trans hNewer
    unfold turnIsNew at hNew
    simp [hKey] at hNew

theorem weighed_iff (hJudges : h.Judges turn) (hKeys : KeysIn l.Known h)
    (hStreak : h.driver.noProgressStreak = l.streak) :
    weighed turn h = (l.examine h turn).streak ↔
      (Weighs turn → (turnProducedNoOutput turn = true ∨ l.streak ≠ 0) → Told h l turn) := by
  rw [l.examine_streak hJudges, told_iff hKeys]
  unfold weighed
  rw [hStreak]
  by_cases hWeighs : Weighs turn
  · cases hNew : h.turnIsNew turn with
    | false =>
      cases hNewer : l.newer turn with
      | false => simp
      | true =>
        cases hEmpty : turnProducedNoOutput turn with
        | true | false => simp [hWeighs]
    | true =>
      cases hNewer : l.newer turn with
      | false =>
        cases hEmpty : turnProducedNoOutput turn with
        | true => simp [hWeighs]
        | false => simp [hWeighs, eq_comm]
      | true => simp
  · simp [hWeighs]

/-! ## Runs of consults -/

structure Tracks (at_ : Held × StrikeLedger) : Prop where
  tallied : Tallied at_
  strikes : ∀ turn ∈ at_.2.strikes, turn ∈ at_.2.seen
  row : at_.2.ended = true → at_.1.newestRow.status = .error
  keys : KeysIn at_.2.Known at_.1

theorem end_outcome (hJudges : h.Judges turn) (hOpen : l.ended = false) (hStreak : h.driver.noProgressStreak = l.streak)
    (hNew : Weighs turn → turnProducedNoOutput turn = true → h.turnIsNew turn = l.newer turn)
    (hEnded : (l.examine h turn).ended = true) :
    (∀ message, (nextContinuationMessage env (some turn) h).1 ≠ .ok (some message)) ∧
      (EndWritten env l turn → Ended (nextContinuationMessage env (some turn) h).2) ∧
      ((nextContinuationMessage env (some turn) h).2.driver.state.status = .error → EndWritten env l turn) := by
  obtain hTerminal | ⟨hNewer, hWeighs, hEmpty, hCap⟩ := (l.examine_ended hJudges hOpen).mp hEnded
  · obtain ⟨error, hError⟩ := Option.ne_none_iff_exists'.mp hTerminal
    obtain ⟨hGate, hHeld⟩ := @gate_terminal h env turn error hJudges.2.2 hError
    obtain ⟨hRefused, hNext⟩ := next_refused hJudges hGate
    have hOutcome := @finish_outcome h env error hJudges.1
    rw [hNext, hHeld]
    refine ⟨hRefused, ?_⟩
    simp only [EndWritten, hError, Option.isSome_some, if_true]
    by_cases hDone : env.persist 0 = .done
    · rw [if_pos hDone] at hOutcome
      exact ⟨fun _ => hOutcome, fun _ => hDone⟩
    · rw [if_neg hDone] at hOutcome
      exact ⟨fun hWritten => absurd hWritten hDone, fun hError => by rw [hOutcome] at hError; cases hError⟩
  · have hNew : h.turnIsNew turn = true := (hNew hWeighs hEmpty).trans hNewer
    have hCounted : continuationNoProgressCap ≤ h.driver.noProgressStreak + 1 := hStreak ▸ hCap
    obtain ⟨hRefused, hNext⟩ := @next_refused h env turn hJudges (gate_strike hJudges.2.2 hNew hWeighs hEmpty).1
    have hOutcome := @strike_outcome h env turn hJudges hNew hWeighs hEmpty hCounted
    rw [hNext]
    refine ⟨hRefused, ?_⟩
    simp only [EndWritten, hWeighs.1, Option.isSome_none, Bool.false_eq_true, if_false, hNewer, hEmpty, hCap,
      true_imp_iff]
    by_cases hDone : env.persist 0 = .done ∧ env.persist 1 = .done
    · rw [if_pos hDone] at hOutcome
      exact ⟨fun _ => hOutcome, fun _ => hDone⟩
    · rw [if_neg hDone] at hOutcome
      exact ⟨fun hWritten => absurd hWritten hDone, fun hError => by rw [hOutcome] at hError; cases hError⟩

theorem Tracks.opened (t : Tracks (h, l)) (hActive : h.driver.state.status = .active) : l.ended = false := by
  cases hEnded : l.ended with
  | false => rfl
  | true => cases hActive.symm.trans (t.tallied.ended hEnded)

theorem KeysIn.mono {K' : Int → Prop} (hKeys : KeysIn K h) (hMono : ∀ key, K key → K' key) : KeysIn K' h :=
  ⟨fun key hKey => hMono key (hKeys.driver key hKey), fun key hKey => hMono key (hKeys.state key hKey),
    fun key hKey => hMono key (hKeys.row key hKey)⟩

theorem newer_unseen (hNewer : l.newer turn = true) : turn ∉ l.seen := by
  unfold StrikeLedger.newer at hNewer
  simp only [Bool.and_eq_true, decide_eq_true_eq] at hNewer
  exact hNewer.1.1

theorem judged_tracks (t : Tracks (h, l)) (hJudges : h.Judges turn) (hSettles : Settles (h, l) env turn) :
    Tracks (consultNext (h, l) (.consult env (some turn))) := by
  have hOpen := t.opened hJudges.1
  have hTold := (weighed_iff hJudges t.keys t.tallied.streak).mpr hSettles.told
  have hNew : Weighs turn → turnProducedNoOutput turn = true → h.turnIsNew turn = l.newer turn :=
    fun hWeighs hEmpty => (told_iff t.keys).mp (hSettles.told hWeighs (.inl hEmpty))
  have hPaid : (l.examine h turn).ended = true → turn.failureKind ≠ some "rate_limit" := by
    intro hEnded hParked
    obtain hTerminal | ⟨-, hWeighs, -⟩ := (l.examine_ended hJudges hOpen).mp hEnded
    · exact hTerminal (by simp [terminalProviderFailure, hParked])
    · exact hWeighs.2 hParked
  have hQuiet : (l.examine h turn).offered (nextContinuationMessage env (some turn) h).1 = l.examine h turn :=
    StrikeLedger.offered_quiet fun hEnded => (end_outcome hJudges hOpen t.tallied.streak hNew hEnded).1
  have hAfter : consultNext (h, l) (.consult env (some turn)) =
      ((nextContinuationMessage env (some turn) h).2, l.examine h turn) := congrArg (Prod.mk _) hQuiet
  have hEnd : (l.examine h turn).ended = true → Ended (nextContinuationMessage env (some turn) h).2 := by
    intro hEnded
    exact (end_outcome hJudges hOpen t.tallied.streak hNew hEnded).2.1 (hSettles.written (hPaid hEnded))
  have hStrikes := @StrikeLedger.examine_strikes h l turn hJudges
  rw [hAfter]
  have hStreak := (@next_judged h env turn (fun _ => True) hJudges).1.trans hTold
  refine ⟨⟨hStreak, ?_, fun hEnded => (hEnd hEnded).1, ?_⟩, ?_, fun hEnded => (hEnd hEnded).2, ?_⟩
  · show (l.examine h turn).strikes.Nodup
    obtain hSame | hNil | ⟨hNewer, hCons⟩ := hStrikes
    · exact hSame ▸ t.tallied.once
    · exact hNil ▸ List.nodup_nil
    · exact hCons ▸ List.nodup_cons.mpr ⟨fun hStruck => newer_unseen hNewer (t.strikes turn hStruck), t.tallied.once⟩
  · exact (l.examine_lateMints h turn).trans t.tallied.quiet
  · intro other hOther
    show other ∈ (l.examine h turn).seen
    rw [l.examine_seen hJudges]
    have hOther : other ∈ (l.examine h turn).strikes := hOther
    obtain hSame | hNil | ⟨-, hCons⟩ := hStrikes
    · exact List.mem_cons_of_mem turn (t.strikes other (hSame ▸ hOther))
    · cases hNil ▸ hOther
    · obtain rfl | hOther := List.mem_cons.mp (hCons ▸ hOther)
      · exact List.mem_cons_self
      · exact List.mem_cons_of_mem turn (t.strikes other hOther)
  · have hMono : ∀ key, l.Known key → (l.examine h turn).Known key := by
      rintro key (hKnown | ⟨other, hOther, hSame⟩)
      · exact .inl (l.examine_known h turn ▸ hKnown)
      · exact .inr ⟨other, l.examine_seen hJudges ▸ List.mem_cons_of_mem turn hOther, hSame⟩
    exact (next_judged hJudges).2 (t.keys.mono hMono) (.inr ⟨turn, l.examine_seen hJudges ▸ List.mem_cons_self, rfl⟩)

theorem judged_settles (t : Tracks (h, l)) (hJudges : h.Judges turn)
    (hTallied : Tallied (consultNext (h, l) (.consult env (some turn)))) : Settles (h, l) env turn := by
  have hOpen := t.opened hJudges.1
  obtain ⟨lateMints, hOffered⟩ :=
    StrikeLedger.offered_eq (nextContinuationMessage env (some turn) h).1 (l.examine h turn)
  have hAfter : consultNext (h, l) (.consult env (some turn)) =
      ((nextContinuationMessage env (some turn) h).2, { l.examine h turn with lateMints := lateMints }) :=
    congrArg (Prod.mk _) hOffered
  rw [hAfter] at hTallied
  have hTold := (weighed_iff hJudges t.keys t.tallied.streak).mp
    ((@next_judged h env turn (fun _ => True) hJudges).1.symm.trans hTallied.streak)
  have hNew : Weighs turn → turnProducedNoOutput turn = true → h.turnIsNew turn = l.newer turn :=
    fun hWeighs hEmpty => (told_iff t.keys).mp (hTold hWeighs (.inl hEmpty))
  refine ⟨hTold, fun hPaid => ?_⟩
  by_cases hEnded : (l.examine h turn).ended = true
  · exact (end_outcome hJudges hOpen t.tallied.streak hNew hEnded).2.2 (hTallied.ended hEnded)
  · have hNotEnded := mt (l.examine_ended hJudges hOpen).mpr hEnded
    obtain ⟨hHealthy, hShort⟩ := not_or.mp hNotEnded
    have hTerminal : terminalProviderFailure turn = none := not_not.mp hHealthy
    unfold EndWritten
    rw [if_neg (by simp [hTerminal])]
    exact fun hNewer hEmpty hCap => absurd ⟨hNewer, ⟨hTerminal, hPaid⟩, hEmpty, hCap⟩ hShort

theorem unjudged_tracks (t : Tracks (h, l)) {lastTurn : Option SettledTurn}
    (hExamined : lastTurn.elim l (l.examine h ·) = l)
    (hStreak : (nextContinuationMessage env lastTurn h).2.driver.noProgressStreak = h.driver.noProgressStreak)
    (hKeys : KeysIn l.Known (nextContinuationMessage env lastTurn h).2) :
    Tracks (consultNext (h, l) (.consult env lastTurn)) := by
  have hClosed : l.ended = true → nextContinuationMessage env lastTurn h = (.ok none, h) := by
    intro hEnded
    refine next_closed ?_ lastTurn
    rw [t.tallied.ended hEnded]
    decide
  have hQuiet : l.offered (nextContinuationMessage env lastTurn h).1 = l := by
    refine StrikeLedger.offered_quiet fun hEnded message => ?_
    rw [hClosed hEnded]
    nofun
  have hAfter : consultNext (h, l) (.consult env lastTurn) = ((nextContinuationMessage env lastTurn h).2, l) :=
    congrArg (Prod.mk _) ((congrArg (StrikeLedger.offered _) hExamined).trans hQuiet)
  rw [hAfter]
  refine ⟨⟨hStreak.trans t.tallied.streak, t.tallied.once, fun hEnded => ?_, t.tallied.quiet⟩, t.strikes, fun hEnded =>
    ?_, hKeys⟩
  · show (nextContinuationMessage env lastTurn h).2.driver.state.status = .error
    rw [hClosed hEnded]
    exact t.tallied.ended hEnded
  · show (nextContinuationMessage env lastTurn h).2.newestRow.status = .error
    rw [hClosed hEnded]
    exact t.row hEnded

theorem guardAdopted_kept (staleFailure : Option String) (state : GoalState) :
    (guardAdopted staleFailure state).noProgressStreak = state.noProgressStreak ∧
      (guardAdopted staleFailure state).noProgressTurnMs = state.noProgressTurnMs ∧
      (state.status = .error → (guardAdopted staleFailure state).status = .error) := by
  unfold guardAdopted
  split
  next hActive =>
    cases staleFailure with
    | none => exact ⟨rfl, rfl, id⟩
    | some error => exact ⟨rfl, rfl, fun _ => rfl⟩
  next => exact ⟨rfl, rfl, id⟩

theorem restart_tracks (t : Tracks (h, l)) {staleFailure : Option String}
    (hHolds : Holds (h, l) (.restart staleFailure)) :
    Tracks (consultNext (h, l) (.restart staleFailure)) := by
  obtain ⟨hStreak, hTurnMs, hStatus⟩ := guardAdopted_kept staleFailure h.newestRow
  refine ⟨⟨?_, t.tallied.once, fun hEnded => hStatus (t.row hEnded), t.tallied.quiet⟩, t.strikes, t.row,
    ⟨?_, ?_, t.keys.row⟩⟩
  · show (guardAdopted staleFailure h.newestRow).noProgressStreak.getD 0 = l.streak
    rw [hStreak]
    exact hHolds.trans t.tallied.streak
  · show ∀ key ∈ (guardAdopted staleFailure h.newestRow).noProgressTurnMs, l.Known key
    rw [hTurnMs]
    exact t.keys.row
  · show ∀ key ∈ (guardAdopted staleFailure h.newestRow).noProgressTurnMs, l.Known key
    rw [hTurnMs]
    exact t.keys.row

theorem tracks_step (t : Tracks (h, l)) (hHolds : Holds (h, l) step) :
    Tracks (consultNext (h, l) step) := by
  cases step with
  | consult env lastTurn =>
    cases lastTurn with
    | none => exact unjudged_tracks t rfl (@next_none h env l.Known).1 (next_none.2 t.keys)
    | some turn =>
      by_cases hJudges : h.Judges turn
      · exact judged_tracks t hJudges (hHolds hJudges)
      · exact unjudged_tracks t (if_neg hJudges) (@next_unjudged h env turn l.Known hJudges).1
          ((next_unjudged hJudges).2 t.keys)
  | admitted =>
    obtain ⟨hTallied, hStrikes, hRow, hKeys⟩ := t
    exact ⟨⟨hTallied.streak, hTallied.once, hTallied.ended, hTallied.quiet⟩, hStrikes, hRow,
      ⟨hKeys.driver, hKeys.state, hKeys.row⟩⟩
  | restart staleFailure => exact restart_tracks t hHolds

theorem holds_of_tallied (t : Tracks (h, l)) (hTallied : Tallied (consultNext (h, l) step)) :
    Holds (h, l) step := by
  cases step with
  | consult env lastTurn =>
    cases lastTurn with
    | none => trivial
    | some turn => exact fun hJudges => judged_settles t hJudges hTallied
  | admitted => trivial
  | restart staleFailure =>
    have hStreak : (guardAdopted staleFailure h.newestRow).noProgressStreak.getD 0 = l.streak := hTallied.streak
    rw [(guardAdopted_kept staleFailure h.newestRow).1] at hStreak
    exact hStreak.trans t.tallied.streak.symm

theorem tracks_opened (h : Held) : Tracks (h, ledgerOf h) := by
  refine ⟨⟨rfl, List.nodup_nil, nofun, rfl⟩, nofun, nofun, ⟨?_, ?_, ?_⟩⟩
  · intro key hKey
    have hKey : h.driver.countedNoProgressTurnMs = some key := hKey
    exact .inl (by simp [ledgerOf, hKey])
  · intro key hKey
    have hKey : h.driver.state.noProgressTurnMs = some key := hKey
    exact .inl (by simp [ledgerOf, hKey])
  · intro key hKey
    have hKey : h.newestRow.noProgressTurnMs = some key := hKey
    exact .inl (by simp [ledgerOf, hKey])

theorem afterConsults_concat (h : Held) (steps : List ConsultStep) (step : ConsultStep) :
    afterConsults h (steps ++ [step]) = consultNext (afterConsults h steps) step := by
  unfold afterConsults
  rw [List.foldl_append]
  rfl

theorem tracks_run (h : Held) (steps : List ConsultStep)
    (hHolds : ∀ before step after, steps = before ++ step :: after → Holds (afterConsults h before) step) :
    Tracks (afterConsults h steps) := by
  induction steps using List.reverseRecOn with
  | nil => exact tracks_opened h
  | append_singleton steps step ih =>
    rw [afterConsults_concat]
    refine tracks_step (ih ?_) (hHolds steps step [] rfl)
    rintro before other after rfl
    exact hHolds before other (after ++ [step]) (by simp)

theorem consults_tallied_iff (h : Held) (steps : List ConsultStep) :
    (∀ before after, steps = before ++ after → Tallied (afterConsults h before)) ↔
      ∀ before step after, steps = before ++ step :: after → Holds (afterConsults h before) step := by
  constructor
  · intro hTallied
    -- The first step that does not hold leaves a state that miscounts, so each prefix has only steps that hold.
    have hRun : ∀ before, before <+: steps → Tracks (afterConsults h before) := by
      intro before
      induction before using List.reverseRecOn with
      | nil => exact fun _ => tracks_opened h
      | append_singleton before step ih =>
        rintro ⟨after, rfl⟩
        have hBefore := ih ⟨step :: after, by simp⟩
        rw [afterConsults_concat]
        refine tracks_step hBefore (holds_of_tallied hBefore ?_)
        have hAfter := hTallied (before ++ [step]) after rfl
        rwa [afterConsults_concat] at hAfter
    rintro before step after rfl
    refine holds_of_tallied (hRun before ⟨step :: after, rfl⟩) ?_
    have hAfter := hTallied (before ++ [step]) after (by simp)
    rwa [afterConsults_concat] at hAfter
  · rintro hHolds before after rfl
    refine (tracks_run h before ?_).tallied
    rintro earlier step later rfl
    exact hHolds earlier step (later ++ after) (by simp)

/-- A turn with output is examined, which leaves no key at streak zero; then an older turn without output is counted. -/
theorem older_turn_strikes : ¬ ∀ h steps before after, steps = before ++ after → Tallied (afterConsults h before) := by
  intro hTallied
  have hStreak := (hTallied pursuing
    [.consult writing (some ⟨.stop, none, none, [.toolCall], 2⟩), .admitted,
      .consult writing (some ⟨.aborted, none, none, [], 1⟩)]
    _ [] (List.append_nil _).symm).streak
  revert hStreak
  decide +kernel

end PrimeAgent.Goal
