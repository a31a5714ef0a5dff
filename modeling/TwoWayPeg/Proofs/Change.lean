import TwoWayPeg.Proofs.Run

/-!
# What a change of the federation does

A change of the federation leaves the state as it is or is carried out, and `Carried` says all that
it does in the second case. What else is known of changes is derived from that.
-/

namespace TwoWayPeg

namespace State

/-- What a function does to the state when it is carried out, and what it announces. -/
inductive Carried (s : State) (env : Env) :
    ChangeFunction → Option CommitEvent → State → Prop
  | create (idle : s.pending = none)
      (settled : ∀ new, s.newFederation = some new → env.shouldBeActive new = .ok true)
      (free : s.retiringFederation env = .ok none) :
      Carried s env .create none { s with pending := some {} }
  | add {function : ChangeFunction} {pending : PendingFederation} {m : Member}
      (adds : function = .add ∨ function = .addMulti) (assembling : s.pending = some pending)
      (fresh : pending.conflictsWith m = false) :
      Carried s env function none { s with pending := some (pending.add m) }
  | rollback {pending : PendingFederation} (assembling : s.pending = some pending) :
      Carried s env .rollback none
        { s with pending := none, federationElection := s.federationElection.clear }
  | commit {pending : PendingFederation} {new active : Federation} {activationBlock : UInt64}
      (assembling : s.pending = some pending) (complete : pending.isComplete = true)
      (built : pending.build env.block.timestamp env.block.number env.constants env.activations
        = .ok new)
      (replaces : s.activeFederation env = .ok active)
      (due : addChecked env.block.number env.activationAge = .ok activationBlock) :
      Carried s env .commit
        (some
          { block := env.block.number, oldFederation := active, newFederation := new,
            activationBlock })
        (s.installed env new active)

/-- How a change ends: it leaves the state alone, or it is carried out. -/
inductive Ends (s : State) (env : Env) (dryRun : Bool) (function : Option ChangeFunction) :
    ChangeResult → State → Prop
  | untouched {response : ChangeResponse} (real : dryRun = false → response.isSuccess = false) :
      Ends s env dryRun function { response } s
  | carried {f : ChangeFunction} {event : Option CommitEvent} {s' : State}
      (real : dryRun = false) (named : function = some f) (done : Carried s env f event s') :
      Ends s env dryRun function { response := .success, event } s'

variable {s s' : State} {env : Env} {dryRun : Bool} {result : ChangeResult}

/-- Whether the federation that was committed last is still to become active. -/
def awaiting (s : State) (env : Env) : Except PegError Bool :=
  match s.newFederation with
  | some new => (! ·) <$> env.shouldBeActive new
  | none => pure false

theorem shouldBeActive_of_not_awaiting (settled : s.awaiting env = .ok false) {new : Federation}
    (found : s.newFederation = some new) : env.shouldBeActive new = .ok true := by
  simp only [awaiting, found] at settled
  cases active : env.shouldBeActive new with
  | error e =>
    rw [active] at settled
    cases settled
  | ok answer =>
    rw [active] at settled
    cases answer with
    | true => rfl
    | false => cases settled

theorem createFederation_eq (s : State) (env : Env) (dryRun : Bool) :
    s.createFederation env dryRun =
      if s.pending.isSome then .ok ({ response := .pendingFederationExists }, s)
      else s.awaiting env >>= fun awaiting =>
        if awaiting then .ok ({ response := .awaitingActivation }, s)
        else s.retiringFederation env >>= fun retiring =>
          if retiring.isSome then .ok ({ response := .retiringFederationExists }, s)
          else if dryRun then .ok ({ response := .success }, s)
          else .ok ({ response := .success }, { s with pending := some {} }) := by
  unfold createFederation awaiting
  cases s.newFederation <;> rfl

theorem createFederation_ends (h : s.createFederation env dryRun = .ok (result, s')) :
    s.Ends env dryRun (some .create) result s' := by
  rw [createFederation_eq] at h
  split at h
  · cases h
    exact .untouched fun _ => rfl
  next idle =>
  rw [Bool.not_eq_true, Option.isSome_eq_false_iff, Option.isNone_iff_eq_none] at idle
  obtain ⟨awaiting, settled, h⟩ := bind_eq_ok_iff.1 h
  split at h
  · cases h
    exact .untouched fun _ => rfl
  next active =>
  rw [Bool.not_eq_true] at active
  subst active
  obtain ⟨retiring, free, h⟩ := bind_eq_ok_iff.1 h
  split at h
  · cases h
    exact .untouched fun _ => rfl
  next none =>
  rw [Bool.not_eq_true, Option.isSome_eq_false_iff, Option.isNone_iff_eq_none] at none
  subst none
  split at h
  · next dry =>
    cases h
    exact .untouched fun real => by simp [real] at dry
  · next real =>
    cases h
    rw [Bool.not_eq_true] at real
    exact .carried real rfl
      (.create idle (fun _ found => shouldBeActive_of_not_awaiting settled found) free)

theorem addMember_ends {m : Member} {function : ChangeFunction}
    (adds : function = .add ∨ function = .addMulti) (h : s.addMember dryRun m = (result, s')) :
    s.Ends env dryRun (some function) result s' := by
  unfold addMember at h
  split at h
  · cases h
    exact .untouched fun _ => rfl
  next pending assembling =>
  split at h
  · cases h
    exact .untouched fun _ => rfl
  next fresh =>
  rw [Bool.not_eq_true] at fresh
  split at h
  · next dry =>
    cases h
    exact .untouched fun real => by simp [real] at dry
  · next real =>
    cases h
    rw [Bool.not_eq_true] at real
    exact .carried real rfl (.add adds assembling fresh)

theorem rollbackFederation_ends (h : s.rollbackFederation dryRun = (result, s')) :
    s.Ends env dryRun (some .rollback) result s' := by
  unfold rollbackFederation at h
  split at h
  · cases h
    exact .untouched fun _ => rfl
  next assembling =>
  rw [Option.isNone_iff_eq_none] at assembling
  obtain ⟨pending, assembling⟩ := Option.ne_none_iff_exists'.1 assembling
  split at h
  · next dry =>
    cases h
    exact .untouched fun real => by simp [real] at dry
  · next real =>
    cases h
    rw [Bool.not_eq_true] at real
    exact .carried real rfl (.rollback assembling)

theorem commitFederation_ends {hash : Hash256}
    (h : s.commitFederation env dryRun hash = .ok (result, s')) :
    s.Ends env dryRun (some .commit) result s' := by
  unfold commitFederation at h
  split at h
  · cases h
    exact .untouched fun _ => rfl
  next pending assembling =>
  split at h
  · cases h
    exact .untouched fun _ => rfl
  next complete =>
  rw [Bool.not_eq_true, Bool.not_eq_false'] at complete
  split at h
  · cases h
    exact .untouched fun _ => rfl
  split at h
  · next dry =>
    cases h
    exact .untouched fun real => by simp [real] at dry
  next real =>
  rw [Bool.not_eq_true] at real
  split at h
  · cases h
  · cases h
    exact .untouched fun _ => rfl
  · next new built =>
    obtain ⟨active, replaces, h⟩ := bind_eq_ok_iff.1 h
    obtain ⟨activationBlock, due, h⟩ := bind_eq_ok_iff.1 h
    cases h
    exact .carried real rfl (.commit assembling complete built replaces due)

theorem addArguments_ends {function : ChangeFunction} {arguments : List Bytes} {expected : Nat}
    (adds : function = .add ∨ function = .addMulti)
    (h : s.addArguments dryRun arguments expected = (result, s')) :
    s.Ends env dryRun (some function) result s' := by
  unfold addArguments at h
  split at h
  · exact addMember_ends adds h
  · cases h
    exact .untouched fun _ => rfl

theorem executeFunction_ends {function : ChangeFunction} {arguments : List Bytes}
    (h : s.executeFunction env dryRun function arguments = .ok (result, s')) :
    s.Ends env dryRun (some function) result s' := by
  cases function with
  | create => exact createFederation_ends h
  | add => exact addArguments_ends (.inl rfl) (pure_eq_ok_iff.1 h)
  | addMulti => exact addArguments_ends (.inr rfl) (pure_eq_ok_iff.1 h)
  | rollback => exact rollbackFederation_ends (pure_eq_ok_iff.1 h)
  | commit =>
    simp only [executeFunction] at h
    split at h
    · split at h
      · exact commitFederation_ends h
      · cases h
        exact .untouched fun _ => rfl
    · cases h
      exact .untouched fun _ => rfl

theorem execute_ends {spec : CallSpec} (h : s.execute env dryRun spec = .ok (result, s')) :
    s.Ends env dryRun (ChangeFunction.ofName? spec.function) result s' := by
  unfold execute at h
  split at h
  · next function named =>
    rw [named]
    exact executeFunction_ends h
  · cases h
    exact .untouched fun _ => rfl

/-- A change that is made for real and succeeds is carried out. -/
theorem Ends.carried_of_success {function : Option ChangeFunction}
    (ends : s.Ends env false function result s') (success : result.response.isSuccess = true) :
    ∃ f, function = some f ∧ s.Carried env f result.event s' := by
  cases ends with
  | untouched real =>
    rw [real rfl] at success
    cases success
  | carried _ named done => exact ⟨_, named, done⟩

end State

end TwoWayPeg
