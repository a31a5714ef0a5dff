import TwoWayPeg.Proofs.Change

/-!
# What a vote on a change does

`State.ballot` votes as `State.voteFederationChange` does and also tells whether the vote counts and
which call it carries out; the answer alone does not tell, since a call that fails and a vote that
does not count can have the same one.
-/

namespace TwoWayPeg

/-- What comes of a vote on a change. -/
inductive Ballot where
  /-- The vote does not count. -/
  | refused (response : ChangeResponse)
  /-- The vote counts, and no call has won. -/
  | recorded
  /-- The vote counts, and a call has won and been carried out. -/
  | executed (call : CallSpec) (result : ChangeResult)
deriving DecidableEq

/-- The answer to the voter. -/
def Ballot.result : Ballot → ChangeResult
  | .refused response => { response }
  | .recorded => { response := .voteRecorded }
  | .executed _ result => result

namespace State

/-- The state with another election on changes. -/
def withElection (s : State) (e : Election) : State := { s with federationElection := e }

@[simp] theorem federationElection_withElection (s : State) (e : Election) :
    (s.withElection e).federationElection = e := rfl

/-- Votes for a call, and tells what comes of it. -/
def ballot (s : State) (env : Env) (sender : ChainAddress) (spec : CallSpec) :
    Except PegError (Ballot × State) :=
  if !s.federationElection.authorizer.allows sender then .ok (.refused .unauthorizedCaller, s)
  else if (ChangeFunction.ofName? spec.function).isNone then
    .ok (.refused .nonExistingFunction, s)
  else s.execute env true spec >>= fun (tried, _) =>
    if !tried.response.isSuccess then .ok (.refused tried.response, s)
    else match s.federationElection.vote? spec sender with
      | none => .ok (.refused .genericError, s)
      | some voted =>
        match voted.winner? with
        | none => .ok (.recorded, s.withElection voted)
        | some winner => (s.withElection voted).execute env false winner >>= fun (result, t) =>
          .ok (.executed winner result, t.withElection t.federationElection.clearWinner)

variable {s s' : State} {env : Env} {sender : ChainAddress} {spec : CallSpec}

theorem voteFederationChange_eq_ballot :
    s.voteFederationChange env sender spec =
      s.ballot env sender spec >>= fun (b, t) => .ok (b.result, t) := by
  unfold voteFederationChange ballot Election.voteAndApplyWithin
  split
  · rfl
  split
  · rfl
  cases s.execute env true spec with
  | error e => rfl
  | ok tried =>
    simp only [bind, Except.bind]
    split
    · rfl
    cases s.federationElection.vote? spec sender with
    | none => rfl
    | some voted =>
      dsimp only
      cases voted.winner? with
      | none => rfl
      | some winner =>
        dsimp only [withElection]
        cases State.execute { s with federationElection := voted } env false winner <;> rfl

/-- What a vote can do: nothing, or be recorded, or carry out the call that then wins and take the
    winner's votes away. -/
inductive Cast (s : State) (env : Env) (sender : ChainAddress) (spec : CallSpec) :
    Ballot → State → Prop
  | refused (response : ChangeResponse) : Cast s env sender spec (.refused response) s
  | recorded {voted : Election} (counted : s.federationElection.vote? spec sender = some voted)
      (open' : voted.winner? = none) : Cast s env sender spec .recorded (s.withElection voted)
  | executed {voted : Election} {winner : CallSpec} {result : ChangeResult} {t : State}
      (counted : s.federationElection.vote? spec sender = some voted)
      (won : voted.winner? = some winner)
      (done : (s.withElection voted).execute env false winner = .ok (result, t)) :
      Cast s env sender spec (.executed winner result)
        (t.withElection t.federationElection.clearWinner)

theorem ballot_cast {ballot : Ballot} (h : s.ballot env sender spec = .ok (ballot, s')) :
    s.Cast env sender spec ballot s' := by
  unfold State.ballot at h
  split at h
  · cases h
    exact .refused _
  split at h
  · cases h
    exact .refused _
  obtain ⟨⟨tried, _⟩, _, h⟩ := bind_eq_ok_iff.1 h
  dsimp only at h
  split at h
  · cases h
    exact .refused _
  split at h
  · cases h
    exact .refused _
  next voted counted =>
  split at h
  · next open' =>
    cases h
    exact .recorded counted open'
  · next winner won =>
    obtain ⟨⟨result, t⟩, done, h⟩ := bind_eq_ok_iff.1 h
    cases h
    exact .executed counted won done

/-- Unless a vote is refused, the call was tried before with success. -/
theorem tried_of_ballot {ballot : Ballot} (h : s.ballot env sender spec = .ok (ballot, s')) :
    (∃ response, ballot = .refused response) ∨ ∃ tried t,
      s.execute env true spec = .ok (tried, t) ∧ tried.response.isSuccess = true := by
  unfold State.ballot at h
  split at h
  · cases h
    exact .inl ⟨_, rfl⟩
  split at h
  · cases h
    exact .inl ⟨_, rfl⟩
  obtain ⟨⟨tried, t⟩, done, h⟩ := bind_eq_ok_iff.1 h
  dsimp only at h
  split at h
  · cases h
    exact .inl ⟨_, rfl⟩
  · next success => exact .inr ⟨tried, t, done, by simpa using success⟩

theorem voteFederationChange_cast {result : ChangeResult}
    (h : s.voteFederationChange env sender spec = .ok (result, s')) :
    ∃ ballot, s.ballot env sender spec = .ok (ballot, s') ∧ ballot.result = result ∧
      s.Cast env sender spec ballot s' := by
  rw [voteFederationChange_eq_ballot] at h
  obtain ⟨⟨ballot, t⟩, cast, h⟩ := bind_eq_ok_iff.1 h
  cases h
  exact ⟨ballot, cast, rfl, ballot_cast cast⟩

end State

namespace Step

/-- What came of the vote in a step. -/
def ballot? (step : Step) : Option Ballot :=
  match step.operation with
  | .vote _ sender spec =>
    match step.before.env >>= fun env => step.before.state.ballot env sender spec with
    | .ok (ballot, _) => some ballot
    | .error _ => none
  | _ => none

theorem ballot?_eq_some {step : Step} {ballot : Ballot} (known : step.ballot? = some ballot) :
    ∃ log sender spec env s, step.operation = .vote log sender spec ∧
      step.before.env = .ok env ∧ step.before.state.ballot env sender spec = .ok (ballot, s) := by
  unfold ballot? at known
  split at known
  · next log sender spec called =>
    split at known
    · next ballot s voted =>
      obtain ⟨env, surroundings, cast⟩ := bind_eq_ok_iff.1 voted
      cases known
      exact ⟨log, sender, spec, env, s, called, surroundings, cast⟩
    · cases known
  · cases known

/-- The ballot behind the answer to a vote. -/
theorem ballot?_of_vote {b c : Bridge} {log : Bool} {sender : ChainAddress} {spec : CallSpec}
    {output : Output} (performed : b.perform (.vote log sender spec) = .ok (output, c)) :
    ∃ env ballot, b.env = .ok env ∧ b.state.ballot env sender spec = .ok (ballot, c.state) ∧
      ballot? ⟨b, .vote log sender spec, output, c⟩ = some ballot ∧
      output = .change ballot.result.response ∧ b.Proceeds (ballot.result.recorded log) c := by
  obtain ⟨env, result, surroundings, done, told, proceeds⟩ := Bridge.perform_vote performed
  obtain ⟨ballot, cast, rfl, _⟩ := State.voteFederationChange_cast done
  refine ⟨env, ballot, surroundings, cast, ?_, told, proceeds⟩
  have voted : (b.env >>= fun env => b.state.ballot env sender spec) = .ok (ballot, c.state) :=
    bind_eq_ok_iff.2 ⟨env, surroundings, cast⟩
  simp only [ballot?, voted]

end Step

end TwoWayPeg
