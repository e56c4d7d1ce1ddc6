import PrimeAgent.Lease.Invariant

/-! # The steps of a lease -/
namespace PrimeAgent.Lease

open NamedDir LeaseState

variable {s : LeaseState} {p q : Nat} {phase : Phase} {op : LeaseOp} {token tries : Nat} {guard : Dir} {since time : Nat}
  {fault : Fault}

/-! ## Around the guard -/

theorem Inv.plain (i : Inv s) (hView : phase.view = .nothing)
    (hReleasing : ∀ token, phase.releasing = some token → s.Released token) (hMoves : s.phase p ≠ .crashed) :
    Inv (s.goto p phase) := by
  obtain ⟨hOwned, hRest⟩ := View.mk.inj hView
  obtain ⟨hSeen, hCondemned⟩ := hRest
  refine i.look ?_ ?_ ?_ (reads_owned hOwned) hReleasing hMoves
  · simp [hOwned]
  · simp [hSeen]
  · simp [hCondemned]

theorem inv_idle (i : Inv s) (hMoves : s.phase p ≠ .crashed) : Inv (s.goto p .idle) :=
  i.plain rfl (by simp [Phase.releasing]) hMoves

theorem releasing_op (op : LeaseOp) (guard : Dir) (since : Nat) :
    (Phase.contended op).releasing = (Phase.entering op).releasing ∧
      (Phase.aged op guard since).releasing = (Phase.entering op).releasing ∧
      (Phase.checking op guard).releasing = (Phase.entering op).releasing ∧
      (Phase.stealing op guard).releasing = (Phase.entering op).releasing ∧
      (opened op guard since).releasing = (Phase.entering op).releasing := by
  cases op with
  | acquire | append token | release token => exact ⟨rfl, rfl, rfl, rfl, rfl⟩

theorem inv_entering (i : Inv s) (hMoves : s.phase p ≠ .crashed)
    (hReleasing : (s.phase p).releasing = (Phase.entering op).releasing) : Inv (s.goto p (.entering op)) :=
  i.plain rfl (fun token hHere => i.releasing p token (hReleasing.trans hHere)) hMoves

theorem inv_contended (i : Inv s) (hPhase : s.phase p = .entering op) : Inv (s.goto p (.contended op)) := by
  refine i.plain rfl ?_ (by simp [hPhase])
  intro token hHere
  rw [(releasing_op op ⟨0, 0⟩ 0).1] at hHere
  exact i.releasing p token (by rw [hPhase, hHere])

theorem inv_aged (i : Inv s) (hPhase : s.phase p = .contended op) (hGuard : s.guard = some (guard, time)) :
    Inv (s.goto p (.aged op guard time)) := by
  refine i.look (by simp [Phase.owned]) ?_ (by simp [Phase.condemned]) trivial ?_ (by simp [hPhase])
  · intro dir time' hSeen
    rw [hGuard]
    exact hSeen
  · intro token hHere
    rw [(releasing_op op guard time).2.1] at hHere
    exact i.releasing p token (by rw [hPhase, (releasing_op op guard time).1, hHere])

theorem inv_checking (i : Inv s) (hPhase : s.phase p = .aged op guard time)
    (hStale : staleGuardAfter < s.now - time) : Inv (s.goto p (.checking op guard)) := by
  refine i.look (by simp [Phase.owned]) (by simp [Phase.seen]) ?_ trivial ?_ (by simp [hPhase])
  · intro dir hHere
    obtain rfl := Option.some.inj hHere
    exact .inr ⟨time, by rw [hPhase]; rfl, hStale⟩
  · intro token hHere
    rw [(releasing_op op guard time).2.2.1] at hHere
    exact i.releasing p token (by rw [hPhase, (releasing_op op guard time).2.1, hHere])

theorem inv_stealing (i : Inv s) (hPhase : s.phase p = .checking op guard) : Inv (s.goto p (.stealing op guard)) := by
  refine i.look (by simp [Phase.owned]) (by simp [Phase.seen]) ?_ trivial ?_ (by simp [hPhase])
  · intro dir hHere
    exact .inl (by rw [hPhase]; exact hHere)
  · intro token hHere
    rw [(releasing_op op guard 0).2.2.2.1] at hHere
    exact i.releasing p token (by rw [hPhase, (releasing_op op guard 0).2.2.1, hHere])

theorem inv_stolen (i : Inv s) (hPhase : s.phase p = .stealing op guard)
    (hAimed : ∀ guard' time, s.guard = some (guard', time) → guard' = guard) :
    Inv ({ s with guard := none }.goto p (.entering op)) := by
  have hCondemned : (s.phase p).view.condemned = some guard := by rw [hPhase]; rfl
  refine i.step (i.guard.removeCondemned hCondemned hAimed) trivial ?_ (by simp [hPhase])
  intro token hHere
  exact i.releasing p token (by rw [hPhase, (releasing_op op guard 0).2.2.2.1, hHere])

theorem inv_opened (i : Inv s) (hPhase : s.phase p = .entering op) (hGuard : s.guard = none) :
    Inv ({ s with guard := some (⟨p, s.nextGuard⟩, s.now), nextGuard := s.nextGuard + 1 }.goto p
      (opened op ⟨p, s.nextGuard⟩ s.now)) := by
  have hView : (opened op ⟨p, s.nextGuard⟩ s.now).view = ⟨some (⟨p, s.nextGuard⟩, s.now), none, none⟩ := by
    cases op with
    | acquire => rfl
    | append token => rfl
    | release token => rfl
  have hReads : Reads s (opened op ⟨p, s.nextGuard⟩ s.now) := by
    cases op with
    | acquire | append token | release token => trivial
  refine i.step ?_ hReads ?_ (by simp [hPhase])
  · rw [hView]
    exact i.guard.create hGuard
  · intro token hHere
    rw [(releasing_op op _ _).2.2.2.2] at hHere
    exact i.releasing p token (by rw [hPhase, hHere])

/-! ## Under the guard -/

theorem Inv.inside (i : Inv s) (hOwned : (s.phase p).owned = some (guard, since))
    (hPhase : phase.owned = some (guard, since)) (hReads : Reads s phase)
    (hReleasing : ∀ token, phase.releasing = some token → s.Released token) : Inv (s.goto p phase) := by
  refine i.look ?_ ?_ ?_ hReads hReleasing ?_
  · intro dir since' hHere
    rw [hPhase] at hHere
    rw [hOwned, hHere]
  · intro dir time hHere
    cases phase with
    | aged => cases hPhase
    | _ => cases hHere
  · intro dir hHere
    cases phase with
    | checking | stealing => cases hPhase
    | _ => cases hHere
  · intro hCrashed
    rw [hCrashed] at hOwned
    cases hOwned

theorem inv_leaving (i : Inv s) (hOwned : (s.phase p).owned = some (guard, since)) :
    Inv (s.goto p (.leaving guard since)) :=
  i.inside hOwned rfl trivial (by simp [Phase.releasing])

theorem inv_again (i : Inv s) (hOwned : (s.phase p).owned = some (guard, since)) :
    Inv (s.goto p (again guard since tries)) := by
  unfold again
  split
  next => exact i.inside hOwned rfl trivial (by simp [Phase.releasing])
  next => exact inv_leaving i hOwned

theorem Inv.holder (i : Inv s) (hOwned : (s.phase p).owned = some (guard, since))
    (hView : phase.view = ⟨some (guard, since), none, none⟩) :
    NamedDir.Inv staleGuardAfter s.place (Function.update (fun q => (s.phase q).view) p phase.view) := by
  rw [hView]
  refine i.guard.look ?_ (by simp) (by simp)
  intro dir since' hHere
  exact hOwned.trans hHere

theorem moves_of_owned (hOwned : (s.phase p).owned = some (guard, since)) : s.phase p ≠ .crashed := by
  intro hCrashed
  rw [hCrashed] at hOwned
  cases hOwned

theorem again_view : (again guard since tries).view = ⟨some (guard, since), none, none⟩ ∧
    (again guard since tries).releasing = none ∧ Reads s (again guard since tries) := by
  unfold again
  split
  next => exact ⟨rfl, rfl, trivial⟩
  next => exact ⟨rfl, rfl, trivial⟩

theorem inv_placed (i : Inv s) (hOwned : (s.phase p).owned = some (guard, since)) (hLease : s.lease = none) :
    Inv ({ s with
      lease := some ⟨s.nextToken, s.home p⟩
      nextToken := s.nextToken + 1
      held := Function.update s.held s.nextToken (some ⟨s.home p, false⟩) }.goto p (.leaving guard since)) := by
  refine @Inv.move s p _ i _ ⟨i.holder hOwned rfl, ?_, ?_, .inr ⟨guard, since, hOwned⟩, trivial, ?_, by simp [Phase.releasing],
    i.appended, rfl, rfl, rfl, moves_of_owned hOwned⟩
  · intro token process hHeld hAlive
    change Function.update s.held s.nextToken (some ⟨s.home p, false⟩) token = some ⟨process, false⟩ at hHeld
    by_cases hNew : token = s.nextToken
    · subst hNew
      rw [Function.update_self] at hHeld
      obtain ⟨rfl, -⟩ := SessionLease.mk.inj (Option.some.inj hHeld)
      rfl
    · rw [Function.update_of_ne hNew] at hHeld
      have hBefore := i.recorded token process hHeld hAlive
      rw [hLease] at hBefore
      cases hBefore
  · intro token hLater
    have hLater : s.nextToken + 1 ≤ token := hLater
    show Function.update s.held s.nextToken _ token = none
    rw [Function.update_of_ne (by omega)]
    exact i.tokens token (by omega)
  · rintro token ⟨process, hHeld⟩
    refine ⟨process, ?_⟩
    show Function.update s.held s.nextToken _ token = _
    rw [Function.update_of_ne, hHeld]
    rintro rfl
    rw [i.tokens s.nextToken (Nat.le_refl _)] at hHeld
    cases hHeld

theorem inv_vacated (i : Inv s) (hOwned : (s.phase p).owned = some (guard, since))
    (hView : phase.view = ⟨some (guard, since), none, none⟩) (hReleasing : phase.releasing = none)
    (hReads : Reads { s with lease := none } phase)
    (hNone : ∀ token process, s.held token = some ⟨process, false⟩ → s.alive process = false) :
    Inv ({ s with lease := none }.goto p phase) := by
  refine @Inv.move s p _ i _ ⟨i.holder hOwned hView, ?_, i.tokens, .inr ⟨guard, since, hOwned⟩, hReads, fun _ hKept => hKept,
    by simp [hReleasing], i.appended, rfl, rfl, rfl, moves_of_owned hOwned⟩
  intro token process hHeld hAlive
  have hDead := hNone token process hHeld
  rw [show s.alive process = true from hAlive] at hDead
  cases hDead

theorem none_of_reclaiming (i : Inv s) (hDead : ∀ owner, s.lease = some owner → s.alive owner.process = false) :
    ∀ token process, s.held token = some ⟨process, false⟩ → s.alive process = false := by
  intro token process hHeld
  cases hAlive : s.alive process with
  | false => rfl
  | true =>
    have hRecorded := hDead _ (i.recorded token process hHeld hAlive)
    rw [show s.alive process = false from hRecorded] at hAlive
    cases hAlive

theorem none_of_dropping (i : Inv s) {process : Nat} (hLease : s.lease = some ⟨token, process⟩)
    (hReleased : s.Released token) :
    ∀ token process, s.held token = some ⟨process, false⟩ → s.alive process = false := by
  intro other process' hHeld
  cases hAlive : s.alive process' with
  | false => rfl
  | true =>
    have hRecorded := i.recorded other process' hHeld hAlive
    rw [hLease] at hRecorded
    obtain ⟨rfl, -⟩ := LeaseOwner.mk.inj (Option.some.inj hRecorded)
    obtain ⟨process'', hReleased⟩ := hReleased
    rw [hHeld] at hReleased
    cases hReleased

/-! ## All steps -/

theorem inv_act (i : Inv s) (hAimed : s.Aimed (.act p fault)) : Inv (s.act p fault) := by
  unfold LeaseState.act
  cases hPhase : s.phase p with
  | idle => exact i
  | entering op =>
    have hMoves : s.phase p ≠ .crashed := by simp [hPhase]
    simp only
    split
    next => exact inv_idle i hMoves
    next =>
      split
      next hGuard => exact inv_opened i hPhase hGuard
      next => exact inv_contended i hPhase
  | contended op =>
    have hMoves : s.phase p ≠ .crashed := by simp [hPhase]
    have hOp : (s.phase p).releasing = (Phase.entering op).releasing := by
      rw [hPhase]
      exact (releasing_op op ⟨0, 0⟩ 0).1
    simp only
    split
    next hGuard =>
      split
      next => exact inv_entering i hMoves hOp
      next => exact inv_aged i hPhase hGuard
    next => exact inv_entering i hMoves hOp
  | aged op guard time =>
    simp only
    split
    next hStale => exact inv_checking i hPhase hStale
    next =>
      refine inv_entering i (by simp [hPhase]) ?_
      rw [hPhase]
      exact (releasing_op op guard time).2.1
  | checking op guard =>
    have hMoves : s.phase p ≠ .crashed := by simp [hPhase]
    have hOp : (s.phase p).releasing = (Phase.entering op).releasing := by
      rw [hPhase]
      exact (releasing_op op guard 0).2.2.1
    simp only
    split
    next => exact inv_entering i hMoves hOp
    next =>
      split
      next => exact inv_entering i hMoves hOp
      next => exact inv_stealing i hPhase
  | stealing op guard =>
    simp only [Aimed, hPhase] at hAimed
    simp only
    split
    next =>
      refine inv_entering i (by simp [hPhase]) ?_
      rw [hPhase]
      exact (releasing_op op guard 0).2.2.2.1
    next => exact inv_stolen i hPhase hAimed
  | placing guard since tries =>
    have hOwned : (s.phase p).owned = some (guard, since) := by rw [hPhase]; rfl
    cases fault with
    | error => exact inv_leaving i hOwned
    | notFound => exact inv_again i hOwned
    | none =>
      simp only
      split
      next hLease => exact inv_placed i hOwned hLease
      next => exact i.inside hOwned rfl trivial (by simp [Phase.releasing])
  | inspecting guard since tries =>
    have hOwned : (s.phase p).owned = some (guard, since) := by rw [hPhase]; rfl
    simp only
    split
    next => exact inv_leaving i hOwned
    next =>
      split
      next => exact inv_leaving i hOwned
      next hNone =>
        refine i.inside hOwned rfl ?_ (by simp [Phase.releasing])
        intro owner hLease
        rw [hLease] at hNone
        simpa [ownerAlive] using hNone
  | reclaiming guard since tries =>
    have hOwned : (s.phase p).owned = some (guard, since) := by rw [hPhase]; rfl
    have hReads := i.reads p
    rw [hPhase] at hReads
    simp only
    split
    next => exact inv_again i hOwned
    next =>
      have hAgain : _ ∧ _ ∧ Reads { s with lease := none } (again guard since tries) := again_view
      exact inv_vacated i hOwned hAgain.1 hAgain.2.1 hAgain.2.2 (none_of_reclaiming i hReads)
  | verifying guard since token =>
    have hOwned : (s.phase p).owned = some (guard, since) := by rw [hPhase]; rfl
    simp only
    split
    next => exact inv_leaving i hOwned
    next =>
      split
      next hChecked =>
        refine i.inside hOwned rfl ?_ (by simp [Phase.releasing])
        obtain ⟨owner, hLease, hToken⟩ := (Option.any_eq_true ..).mp hChecked.1
        obtain rfl := of_decide_eq_true hToken
        exact ⟨owner.process, hLease⟩
      next => exact inv_leaving i hOwned
  | writing guard since token =>
    have hOwned : (s.phase p).owned = some (guard, since) := by rw [hPhase]; rfl
    have hReads := i.reads p
    rw [hPhase] at hReads
    simp only
    split
    next => exact inv_leaving i hOwned
    next =>
      refine @Inv.move s p _ i _ ⟨i.holder hOwned rfl, i.recorded, i.tokens, .inl rfl, trivial, fun _ hKept => hKept,
        by simp [Phase.releasing], ?_, rfl, rfl, rfl, moves_of_owned hOwned⟩
      intro write hMem
      obtain rfl | hMem := List.mem_cons.mp hMem
      · obtain ⟨process, hLease⟩ := hReads
        show s.lease.map (·.token) = some token
        rw [hLease]
        rfl
      · exact i.appended write hMem
  | matching guard since token =>
    have hOwned : (s.phase p).owned = some (guard, since) := by rw [hPhase]; rfl
    simp only
    split
    next => exact inv_leaving i hOwned
    next =>
      split
      next hMatch =>
        refine i.inside hOwned rfl ?_ ?_
        · obtain ⟨owner, hLease, hToken⟩ := (Option.any_eq_true ..).mp hMatch
          obtain rfl := of_decide_eq_true hToken
          exact ⟨owner.process, hLease⟩
        · intro other hHere
          exact i.releasing p other (by rw [hPhase]; exact hHere)
      next => exact inv_leaving i hOwned
  | dropping guard since token =>
    have hOwned : (s.phase p).owned = some (guard, since) := by rw [hPhase]; rfl
    have hReads := i.reads p
    rw [hPhase] at hReads
    have hReleased := i.releasing p token (by rw [hPhase]; rfl)
    simp only
    split
    next => exact inv_leaving i hOwned
    next =>
      obtain ⟨process, hLease⟩ := hReads
      exact inv_vacated i hOwned rfl rfl trivial (none_of_dropping i hLease hReleased)
  | leaving guard since =>
    have hOwned : (s.phase p).owned = some (guard, since) := by rw [hPhase]; rfl
    simp only
    split
    next => exact inv_idle i (moves_of_owned hOwned)
    next =>
      have hView : (s.phase p).view.owned = some (guard, since) := hOwned
      exact i.step (i.guard.removeOwn hView) trivial (by simp [Phase.releasing]) (moves_of_owned hOwned)
  | crashed => exact i

theorem inv_begin (i : Inv s) (p : Nat) (op : LeaseOp) : Inv (s.begin p op) := by
  unfold LeaseState.begin
  split
  next => exact i
  next hIdle =>
    have hIdle : s.phase p = .idle := not_not.mp hIdle
    have hMoves : s.phase p ≠ .crashed := by simp [hIdle]
    cases op with
    | acquire => exact i.plain rfl (by simp [Phase.releasing]) hMoves
    | append token =>
      simp only
      split
      next => exact i.plain rfl (by simp [Phase.releasing]) hMoves
      next => exact i
    | release token =>
      simp only
      split
      next hHeld =>
        have hUpdate : ∀ other lease, Function.update s.held token (some ⟨s.home p, true⟩) other = some lease →
            other = token ∧ lease = ⟨s.home p, true⟩ ∨ s.held other = some lease := by
          intro other lease hHere
          by_cases hSame : other = token
          · subst hSame
            rw [Function.update_self] at hHere
            exact .inl ⟨rfl, (Option.some.inj hHere).symm⟩
          · rw [Function.update_of_ne hSame] at hHere
            exact .inr hHere
        refine @Inv.move s p _ i _ ⟨?_, ?_, ?_, .inl rfl, trivial, ?_, ?_, i.appended, rfl, rfl, rfl, hMoves⟩
        · exact i.guard.look (by simp [Phase.view, Phase.owned]) (by simp [Phase.view, Phase.seen])
            (by simp [Phase.view, Phase.condemned])
        · intro other process hHere hAlive
          obtain ⟨-, hLease⟩ | hBefore := hUpdate other _ hHere
          · cases hLease
          · exact i.recorded other process hBefore hAlive
        · intro other hLater
          show Function.update s.held token _ other = none
          rw [Function.update_of_ne, i.tokens other hLater]
          rintro rfl
          rw [i.tokens other hLater] at hHeld
          cases hHeld
        · rintro other ⟨process, hHere⟩
          by_cases hSame : other = token
          · subst hSame
            exact ⟨s.home p, Function.update_self ..⟩
          · exact ⟨process, (Function.update_of_ne hSame ..).trans hHere⟩
        · intro other hHere
          obtain rfl := Option.some.inj hHere
          exact ⟨s.home p, Function.update_self ..⟩
      next => exact i

theorem inv_giveUp (i : Inv s) (p : Nat) : Inv (s.giveUp p) := by
  unfold LeaseState.giveUp
  split
  next hPhase => exact inv_idle i (by simp [hPhase])
  next => exact i

theorem inv_crash (i : Inv s) (process : Nat) : Inv (s.crash process) := by
  have hPhase : ∀ q, (s.crash process).phase q = .crashed ∨ (s.crash process).phase q = s.phase q := by
    intro q
    show (if s.home q = process then Phase.crashed else s.phase q) = _ ∨
      (if s.home q = process then Phase.crashed else s.phase q) = _
    split
    next => exact .inl rfl
    next => exact .inr rfl
  have hAlive : ∀ other, (s.crash process).alive other = true → s.alive other = true := by
    intro other hHere
    change Function.update s.alive process false other = true at hHere
    by_cases hSame : other = process
    · subst hSame
      rw [Function.update_self] at hHere
      cases hHere
    · rwa [Function.update_of_ne hSame] at hHere
  constructor
  · refine i.guard.forgetAll fun q => ?_
    obtain hCrashed | hSame := hPhase q
    · exact .inr (by rw [hCrashed]; rfl)
    · exact .inl (by rw [hSame])
  · exact fun token other hHeld hHere => i.recorded token other hHeld (hAlive other hHere)
  · exact i.tokens
  · intro q
    obtain hCrashed | hSame := hPhase q
    · rw [hCrashed]
      trivial
    · rw [hSame]
      have hReads := i.reads q
      revert hReads
      cases s.phase q with
      | reclaiming guard since tries =>
        intro hDead owner hOwner
        cases hHere : (s.crash process).alive owner.process with
        | false => rfl
        | true =>
          have hBefore := hAlive owner.process hHere
          rw [hDead owner hOwner] at hBefore
          cases hBefore
      | writing guard since token => exact id
      | dropping guard since token => exact id
      | _ => exact fun _ => trivial
  · intro q token hReleasing
    obtain hCrashed | hSame := hPhase q
    · rw [hCrashed] at hReleasing
      cases hReleasing
    · rw [hSame] at hReleasing
      exact i.releasing q token hReleasing
  · exact i.appended
  · intro q hDead
    change Function.update s.alive process false (s.home q) = false at hDead
    show (if s.home q = process then Phase.crashed else s.phase q) = _
    split
    next => rfl
    next hOther =>
      rw [Function.update_of_ne hOther] at hDead
      exact i.crashed q hDead

theorem inv_tick (i : Inv s) {elapsed : Nat} (hPunctual : s.Punctual (.tick elapsed)) :
    Inv { s with now := s.now + elapsed } := by
  refine ⟨i.guard.tick hPunctual, i.recorded, i.tokens, ?_, i.releasing, i.appended, i.crashed⟩
  intro p
  have hReads := i.reads p
  revert hReads
  cases s.phase p with
  | reclaiming | writing | dropping | _ => exact id

theorem inv_step {step : LeaseStep} (i : Inv s) (hPunctual : s.Punctual step) (hAimed : s.Aimed step) :
    Inv (s.step step) := by
  cases step with
  | act p fault => exact inv_act i hAimed
  | begin p op => exact inv_begin i p op
  | giveUp p => exact inv_giveUp i p
  | crash process => exact inv_crash i process
  | tick elapsed => exact inv_tick i hPunctual

theorem inv_reached {home : Nat → Nat} (hReached : Reached home s) : Inv s := by
  induction hReached with
  | initial => exact inv_initial home
  | step step _ hPunctual hAimed ih => exact inv_step ih hPunctual hAimed

end PrimeAgent.Lease
