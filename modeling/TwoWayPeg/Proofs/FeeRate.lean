import TwoWayPeg.Proofs.FeeVote
import TwoWayPeg.Proofs.Scenario
import TwoWayPeg.Proofs.Standing

/-!
# Which fee rate is in force

In a run of votes on the fee rate, the rate in force is the one for which the last vote was cast that
it took. Each rate has its own tally, which is taken away when the rate is set and not otherwise, so
that votes for a rate stand while others are set. `FeeTallying` says what one vote does, and
`FeeTallied` what holds after a run.
-/

namespace TwoWayPeg

/-- The call that sets a fee rate tells which one. -/
theorem CallSpec.setFee_injective {fee fee' : Int64}
    (same : setFee fee.toUInt64 = setFee fee'.toUInt64) : fee = fee' := by
  have rates := congrArg fee? same
  rw [fee?_setFee, fee?_setFee] at rates
  simpa using congrArg UInt64.toInt64 (Option.some.inj rates)

/-- If no call had won before a vote for a fee rate, the call that is carried out sets that rate. -/
theorem Election.eq_of_applied_setFee {e e' : Election} {fee : UInt64} {sender : ChainAddress}
    {rate : Option UInt64} (undecided : e.winner? = none)
    (applied : e.voteAndApply (.setFee fee) sender CallSpec.fee? = (.applied rate, e')) :
    rate = some fee := by
  unfold voteAndApply voteAndApplyWithin at applied
  dsimp only [id] at applied
  cases counted : e.vote? (.setFee fee) sender with
  | none =>
    rw [counted] at applied
    cases applied
  | some voted =>
    cases won : voted.winner? with
    | none =>
      simp only [counted, won] at applied
      cases applied
    | some winner =>
      simp only [counted, won] at applied
      cases applied
      obtain rfl := winner_eq_voted undecided counted won
      exact CallSpec.fee?_setFee fee

/-- A fee that is not negative is the same number without its sign. -/
theorem toNat_toUInt64_of_nonneg {fee : Int64} (nonneg : 0 ≤ fee.toInt) :
    (fee.toUInt64.toNat : Int) = fee.toInt := by
  have nonneg' : 0 ≤ fee := Int64.le_iff_toInt_le.2 nonneg
  rw [Int64.toNat_toUInt64_of_le nonneg', ← Int64.toNat_toInt]
  omega

theorem not_le_zero_iff {fee : Int64} : ¬ fee ≤ 0 ↔ 1 ≤ fee.toInt := by
  rw [Int64.le_iff_toInt_le, Int64.toInt_zero]
  omega

theorem not_lt_toUInt64_iff {fee : Int64} {bound : UInt64} (nonneg : 0 ≤ fee.toInt) :
    ¬ bound < fee.toUInt64 ↔ fee.toInt ≤ bound.toNat := by
  rw [UInt64.lt_iff_toNat_lt, ← toNat_toUInt64_of_nonneg nonneg]
  omega

/-- An answer is a success if its number is one. -/
theorem FeeResponse.code_eq_one_iff {response : FeeResponse} :
    response.code = 1 ↔ response = .success := by
  cases response <;> decide

namespace State

variable {s t : State} {c : Constants} {sender : ChainAddress} {fee : Int64} {ballot : FeeBallot}

/-- A vote on the fee rate counts: the voter is authorised and has not voted for this rate, which is
    positive and not above the maximum. -/
structure AdmitsFee (s : State) (c : Constants) (sender : ChainAddress) (fee : Int64) : Prop where
  allowed : s.feeElection.authorizer.allows sender = true
  positive : 1 ≤ fee.toInt
  moderate : fee.toInt ≤ c.maxFeePerKb.toNat
  fresh : sender ∉ s.feeElection.tally (.setFee fee.toUInt64)

/-- What a vote on the fee rate does while no rate has won. -/
inductive FeePoll (s : State) (c : Constants) (sender : ChainAddress) (fee : Int64) :
    FeeBallot → State → Prop
  | refused {response : FeeResponse} (failed : response ≠ .success)
      (rejected : ¬ s.AdmitsFee c sender fee) : FeePoll s c sender fee (.refused response) s
  | recorded {voted : Election} (admits : s.AdmitsFee c sender fee)
      (counted : s.feeElection.vote? (.setFee fee.toUInt64) sender = some voted)
      (few : ((s.feeElection.tally (.setFee fee.toUInt64)).insert sender).size <
        s.feeElection.authorizer.required) :
      FeePoll s c sender fee .recorded { s with feeElection := voted }
  | executed {voted : Election} (admits : s.AdmitsFee c sender fee)
      (counted : s.feeElection.vote? (.setFee fee.toUInt64) sender = some voted)
      (enough : s.feeElection.authorizer.required ≤
        ((s.feeElection.tally (.setFee fee.toUInt64)).insert sender).size) :
      FeePoll s c sender fee (.executed (.setFee fee.toUInt64))
        { s with
          feeElection := voted.remove (.setFee fee.toUInt64)
          feePerKb := some fee.toUInt64 }

theorem feeBallot_poll (undecided : s.feeElection.winner? = none)
    (cast : s.feeBallot c sender fee = (ballot, t)) : s.FeePoll c sender fee ballot t := by
  unfold feeBallot at cast
  split at cast
  · next barred =>
    cases cast
    exact .refused (by decide) fun admits => by simp [admits.allowed] at barred
  split at cast
  · next nonpositive =>
    cases cast
    exact .refused (by decide) fun admits => not_le_zero_iff.2 admits.positive nonpositive
  next positive =>
  have positive := not_le_zero_iff.1 positive
  have bounded : ¬ c.maxFeePerKb < fee.toUInt64 ↔ fee.toInt ≤ c.maxFeePerKb.toNat :=
    not_lt_toUInt64_iff (by omega)
  split at cast
  · next excessive =>
    cases cast
    exact .refused (by decide) fun admits => bounded.2 admits.moderate excessive
  next moderate =>
  split at cast
  · next refused =>
    cases cast
    refine .refused (by decide) fun admits => ?_
    rw [Election.vote?_of_fresh admits.allowed admits.fresh] at refused
    cases refused
  next voted counted =>
  obtain ⟨allowed, fresh, _⟩ := Election.vote?_eq_some counted
  have admits : s.AdmitsFee c sender fee := ⟨allowed, positive, bounded.1 moderate, fresh⟩
  have wins := Election.winner?_of_vote? undecided counted
  split at cast
  · next open' =>
    cases cast
    refine .recorded admits counted (Nat.lt_of_not_le fun enough => ?_)
    rw [open', if_pos enough] at wins
    cases wins
  · next winner won =>
    cases cast
    obtain rfl := Election.winner_eq_voted undecided counted won
    have enough := Election.required_le_of_winner? won
    rw [Election.authorizer_vote? counted, Election.tally_vote?_self counted] at enough
    rw [Election.clearWinner_eq_remove won, CallSpec.fee?_setFee]
    exact .executed admits counted enough

/-- A vote that counts is answered with success, and no other vote is. -/
theorem FeePoll.response_iff (poll : s.FeePoll c sender fee ballot t) :
    ballot.response = .success ↔ s.AdmitsFee c sender fee := by
  cases poll with
  | refused failed rejected => exact iff_of_false failed rejected
  | recorded admits => exact iff_of_true rfl admits
  | executed admits => exact iff_of_true (by simp [FeeBallot.response]) admits

/-- A vote sets the rate that it is for, if it counts and is the last that the rate takes. -/
theorem FeePoll.executed_iff (poll : s.FeePoll c sender fee ballot t) (rate : Int64) :
    ballot = .executed (.setFee rate.toUInt64) ↔
      (ballot.response = .success ∧ rate = fee) ∧ s.feeElection.authorizer.required ≤
        ((s.feeElection.tally (.setFee rate.toUInt64)).insert sender).size := by
  cases poll with
  | refused failed => exact iff_of_false (by simp) fun counts => failed counts.1.1
  | recorded _ _ few =>
    refine iff_of_false (by simp) ?_
    rintro ⟨⟨_, rfl⟩, enough⟩
    exact absurd enough (Nat.not_le_of_lt few)
  | executed _ _ enough =>
    constructor
    · intro same
      obtain rfl := CallSpec.setFee_injective (FeeBallot.executed.inj same)
      exact ⟨⟨by simp [FeeBallot.response], rfl⟩, enough⟩
    · rintro ⟨⟨_, rfl⟩, _⟩
      rfl

/-- The voters of a rate are those before the vote and the one who votes, and there are none once the
    rate is set. -/
theorem FeePoll.mem_tally (poll : s.FeePoll c sender fee ballot t) (rate : Int64)
    (voter : ChainAddress) : voter ∈ t.feeElection.tally (.setFee rate.toUInt64) ↔
      ballot ≠ .executed (.setFee rate.toUInt64) ∧
        (voter ∈ s.feeElection.tally (.setFee rate.toUInt64) ∨
          (ballot.response = .success ∧ rate = fee) ∧ voter = sender) := by
  have same : CallSpec.setFee rate.toUInt64 = .setFee fee.toUInt64 ↔ rate = fee :=
    ⟨CallSpec.setFee_injective, fun equal => equal ▸ rfl⟩
  cases poll with
  | refused failed => simp [FeeBallot.response, failed]
  | recorded _ counted =>
    have members := Election.mem_tally_vote? counted (.setFee rate.toUInt64) voter
    rw [same] at members
    simpa [FeeBallot.response] using members
  | executed _ counted =>
    have members := Election.mem_tally_vote? counted (.setFee rate.toUInt64) voter
    by_cases equal : rate = fee
    · subst equal
      simp
    · have differs : CallSpec.setFee rate.toUInt64 ≠ .setFee fee.toUInt64 := mt same.1 equal
      rw [Election.tally_remove_of_ne differs, members]
      simp [equal, differs, Ne.symm differs]

theorem FeePoll.sets (poll : s.FeePoll c sender fee ballot t) {rate : Int64}
    (executed : ballot = .executed (.setFee rate.toUInt64)) : t.feePerKb = some rate.toUInt64 := by
  cases poll with
  | refused => cases executed
  | recorded => cases executed
  | executed =>
    obtain rfl := CallSpec.setFee_injective (FeeBallot.executed.inj executed)
    rfl

theorem FeePoll.keeps (poll : s.FeePoll c sender fee ballot t)
    (none : ∀ rate : Int64, ballot ≠ .executed (.setFee rate.toUInt64)) :
    t.feePerKb = s.feePerKb := by
  cases poll with
  | refused => rfl
  | recorded => rfl
  | executed => exact absurd rfl (none fee)

end State

/-- Whether an operation is a vote on the fee rate, or goes to a block. -/
def Operation.isFeeVoting : Operation → Bool
  | .voteFee .. | .enterBlock .. => true
  | _ => false

namespace Step

/-- A voter's vote for a fee rate counts in the step. -/
def SupportsFee (step : Step) (fee : Int64) (voter : ChainAddress) : Prop :=
  step.operation = .voteFee voter fee ∧ step.output = .fee .success

/-- A fee rate is set in the step. -/
def SetsFee (step : Step) (fee : Int64) : Prop :=
  step.feeBallot? = some (.executed (.setFee fee.toUInt64))

/-- What a step of a run of votes on the fee rate does. -/
structure FeeTallying (step : Step) : Prop where
  authorizer : step.after.state.feeElection.authorizer = step.before.state.feeElection.authorizer
  undecided : step.after.state.feeElection.winner? = none
  tallies : ∀ fee voter, voter ∈ step.after.state.feeElection.tally (.setFee fee.toUInt64) ↔
    ¬ step.SetsFee fee ∧
      (voter ∈ step.before.state.feeElection.tally (.setFee fee.toUInt64) ∨
        step.SupportsFee fee voter)
  answers : ∀ voter fee, step.operation = .voteFee voter fee → ∃ response,
    step.output = .fee response ∧ (response = .success ↔
      step.before.state.AdmitsFee step.before.constants voter fee)
  quorum : ∀ fee, step.SetsFee fee ↔ ∃ voter, step.SupportsFee fee voter ∧
    step.before.state.feeElection.authorizer.required ≤
      ((step.before.state.feeElection.tally (.setFee fee.toUInt64)).insert voter).size
  sets : ∀ fee, step.SetsFee fee → step.after.state.feePerKb = some fee.toUInt64
  keeps : (∀ fee, ¬ step.SetsFee fee) → step.after.state.feePerKb = step.before.state.feePerKb
  others : step.after.state = { step.before.state with
    feeElection := step.after.state.feeElection
    feePerKb := step.after.state.feePerKb }

/-- Only an authorised voter's vote counts, and only for a rate that may be set. -/
theorem FeeTallying.admits {step : Step} (tallying : step.FeeTallying) {fee : Int64}
    {voter : ChainAddress} (supports : step.SupportsFee fee voter) :
    step.before.state.AdmitsFee step.before.constants voter fee := by
  obtain ⟨response, output, success⟩ := tallying.answers voter fee supports.1
  cases output.symm.trans supports.2
  exact success.1 rfl

theorem feeTallying_of_vote {b c : Bridge} {sender : ChainAddress} {fee : Int64} {output : Output}
    (performed : b.perform (.voteFee sender fee) = .ok (output, c))
    (undecided : b.state.feeElection.winner? = none) :
    FeeTallying ⟨b, .voteFee sender fee, output, c⟩ := by
  obtain ⟨ballot, cast, known, rfl⟩ := feeBallot?_of_vote performed
  have poll := State.feeBallot_poll undecided cast
  have sets {rate : Int64} : SetsFee ⟨b, .voteFee sender fee, .fee ballot.response, c⟩ rate ↔
      ballot = .executed (.setFee rate.toUInt64) := by
    rw [SetsFee, known, Option.some.injEq]
  have supports {rate : Int64} {voter : ChainAddress} :
      SupportsFee ⟨b, .voteFee sender fee, .fee ballot.response, c⟩ rate voter ↔
        (ballot.response = .success ∧ rate = fee) ∧ voter = sender := by
    rw [SupportsFee, Operation.voteFee.injEq, Output.fee.injEq]
    constructor
    · rintro ⟨⟨rfl, rfl⟩, success⟩
      exact ⟨⟨success, rfl⟩, rfl⟩
    · rintro ⟨⟨success, rfl⟩, rfl⟩
      exact ⟨⟨rfl, rfl⟩, success⟩
  constructor
  case authorizer => exact (State.feeBallot_cast cast).authorizer
  case undecided => exact (State.feeBallot_cast cast).undecided undecided
  case tallies =>
    intro rate voter
    rw [sets, supports]
    exact poll.mem_tally rate voter
  case answers =>
    rintro voter rate ⟨⟩
    exact ⟨_, rfl, poll.response_iff⟩
  case quorum =>
    intro rate
    rw [sets, poll.executed_iff]
    constructor
    · rintro ⟨counts, enough⟩
      exact ⟨sender, supports.2 ⟨counts, rfl⟩, enough⟩
    · rintro ⟨voter, supported, enough⟩
      obtain ⟨counts, rfl⟩ := supports.1 supported
      exact ⟨counts, enough⟩
  case sets =>
    intro rate set
    exact poll.sets (sets.1 set)
  case keeps =>
    intro none
    exact poll.keeps fun rate executed => none rate (sets.2 executed)
  case others =>
    obtain ⟨election, rate, same⟩ := State.feeBallot_eq cast
    change c.state = { b.state with feeElection := c.state.feeElection, feePerKb := c.state.feePerKb }
    rw [same]

/-- Going to a block is no vote and leaves the state as it is. -/
theorem feeTallying_of_enterBlock {b : Bridge} {block : Block} {activations : Activations}
    (undecided : b.state.feeElection.winner? = none) :
    FeeTallying ⟨b, .enterBlock block activations, .nothing, { b with block, activations }⟩ := by
  have silent {fee : Int64} : ¬ SetsFee
      ⟨b, .enterBlock block activations, .nothing, { b with block, activations }⟩ fee := nofun
  have still {fee : Int64} {voter : ChainAddress} : ¬ SupportsFee
      ⟨b, .enterBlock block activations, .nothing, { b with block, activations }⟩ fee voter := nofun
  constructor
  case authorizer => rfl
  case undecided => exact undecided
  case tallies => simp [silent, still]
  case answers => exact nofun
  case quorum => simp [silent, still]
  case sets => exact fun _ set => (silent set).elim
  case keeps => exact fun _ => rfl
  case others => rfl

theorem feeTallying {b c : Bridge} {operation : Operation} {output : Output}
    (voting : operation.isFeeVoting = true)
    (performed : b.perform operation = .ok (output, c))
    (undecided : b.state.feeElection.winner? = none) :
    FeeTallying ⟨b, operation, output, c⟩ := by
  cases operation with
  | enterBlock block activations =>
    cases performed
    exact feeTallying_of_enterBlock undecided
  | voteFee sender fee => exact feeTallying_of_vote performed undecided
  | _ => cases voting

end Step

/-- A voter's vote with some number is one of those for a fee rate in the step with another number:
    the rate has not been set in between. -/
def FeeCounted (history : List Step) (number : Nat) (fee : Int64) (vote : Nat)
    (voter : ChainAddress) : Prop :=
  Standing (fun step => step.SupportsFee fee voter) (fun step => step.SetsFee fee) history number vote

/-- The rate in force is the one that was set last. -/
inductive LastSet (c : Constants) (history : List Step) : Option UInt64 → Prop
  | never (still : ∀ step ∈ history, ∀ fee, ¬ step.SetsFee fee) : LastSet c history none
  | last {past later : List Step} {step : Step} {fee : Int64} {rate : UInt64}
      (whole : history = past ++ step :: later) (set : step.SetsFee fee)
      (still : ∀ other ∈ later, ∀ fee', ¬ other.SetsFee fee') (same : (rate.toNat : Int) = fee.toInt)
      (positive : 1 ≤ rate.toNat) (moderate : rate ≤ c.maxFeePerKb) : LastSet c history (some rate)

namespace LastSet

variable {c : Constants} {past : List Step} {step : Step} {fee : Int64}

theorem append {rate : Option UInt64} (last : LastSet c past rate)
    (keeps : ∀ fee, ¬ step.SetsFee fee) : LastSet c (past ++ [step]) rate := by
  cases last with
  | never still => exact .never (Runs.forall_mem_concat.2 ⟨still, keeps⟩)
  | @last past later setter fee rate whole set still same positive moderate =>
    subst whole
    exact .last (List.append_assoc ..) set (Runs.forall_mem_concat.2 ⟨still, keeps⟩) same positive
      moderate

theorem of_sets {s : State} {voter : ChainAddress} (set : step.SetsFee fee)
    (admits : s.AdmitsFee c voter fee) : LastSet c (past ++ [step]) (some fee.toUInt64) := by
  have positive := admits.positive
  have nonneg : 0 ≤ fee.toInt := by omega
  have same := toNat_toUInt64_of_nonneg nonneg
  have moderate := (not_lt_toUInt64_iff nonneg).2 admits.moderate
  exact .last rfl set (by simp) same (by omega) (UInt64.not_lt.1 moderate)

end LastSet

/-- The state after a run of votes on the fee rate: the tallies are those of the votes that stand, and
    apart from the votes and the rate nothing has changed. -/
structure FeeTallied (c : Constants) (history : List Step) (s : State) : Prop where
  authorizer : s.feeElection.authorizer = c.feeAuthorizer
  undecided : s.feeElection.winner? = none
  members : ∀ fee voter, voter ∈ s.feeElection.tally (.setFee fee.toUInt64) ↔
    ∃ vote, FeeCounted history history.length fee vote voter
  allowed : ∀ fee : Int64, ∀ voter ∈ s.feeElection.tally (.setFee fee.toUInt64),
    c.feeAuthorizer.allows voter = true
  rate : LastSet c history s.feePerKb
  others : s = { State.initial c with feeElection := s.feeElection, feePerKb := s.feePerKb }

namespace FeeTallied

variable {c : Constants} {past later : List Step} {step : Step} {fee : Int64}

theorem initial (c : Constants) : FeeTallied c [] (State.initial c) := by
  have nobody (call : CallSpec) (voter : ChainAddress) :
      voter ∉ (State.initial c).feeElection.tally call := OrderedSet.not_mem_empty
  refine ⟨rfl, rfl, ?_, ?_, .never (by simp), rfl⟩
  · intro fee voter
    refine iff_of_false (nobody _ _) ?_
    rintro ⟨_, _, ⟨_, found, _⟩, _⟩
    cases found
  · intro fee voter member
    exact absurd member (nobody _ _)

/-- The voters of a rate with the one who votes in a step are those whose votes count in it. -/
theorem exists_counted_iff (tallied : FeeTallied c past step.before.state) (later : List Step)
    {voter : ChainAddress} :
    (∃ vote, FeeCounted (past ++ step :: later) past.length fee vote voter) ↔
      voter ∈ step.before.state.feeElection.tally (.setFee fee.toUInt64) ∨
        step.SupportsFee fee voter := by
  rw [tallied.members]
  constructor
  · rintro ⟨vote, counted⟩
    rcases Standing.at_iff.1 counted with before | ⟨_, supports⟩
    · exact .inl ⟨vote, before⟩
    · exact .inr supports
  · rintro (⟨vote, before⟩ | supports)
    · exact ⟨vote, Standing.at_iff.2 (.inl before)⟩
    · exact ⟨past.length, Standing.at_iff.2 (.inr ⟨rfl, supports⟩)⟩

/-- The voters of a rate before a step are those whose votes stand in it. -/
theorem exists_standing_iff (tallied : FeeTallied c past step.before.state) (later : List Step)
    {voter : ChainAddress} :
    (∃ vote < past.length, FeeCounted (past ++ step :: later) past.length fee vote voter) ↔
      voter ∈ step.before.state.feeElection.tally (.setFee fee.toUInt64) := by
  rw [tallied.members]
  constructor
  · rintro ⟨vote, earlier, counted⟩
    rcases Standing.at_iff.1 counted with before | ⟨rfl, _⟩
    · exact ⟨vote, before⟩
    · exact absurd earlier (Nat.lt_irrefl _)
  · rintro ⟨vote, before⟩
    obtain ⟨_, ⟨supporter, found, _⟩, _⟩ := id before
    exact ⟨vote, (List.getElem?_eq_some_iff.1 found).1, Standing.at_iff.2 (.inl before)⟩

/-- A step sets a rate if it is a vote for it and enough voters have voted for it then. -/
theorem setsFee_iff (tallied : FeeTallied c past step.before.state) (tallying : step.FeeTallying)
    (later : List Step) : step.SetsFee fee ↔ (∃ caster, step.SupportsFee fee caster) ∧
      ∃ voters : List ChainAddress, voters.Nodup ∧ c.feeAuthorizer.required ≤ voters.length ∧
        ∀ voter ∈ voters, c.feeAuthorizer.allows voter = true ∧
          ∃ vote, FeeCounted (past ++ step :: later) past.length fee vote voter := by
  have counted_iff {caster voter : ChainAddress} (supports : step.SupportsFee fee caster) :
      voter ∈ ((step.before.state.feeElection.tally (.setFee fee.toUInt64)).insert caster).toList ↔
        ∃ vote, FeeCounted (past ++ step :: later) past.length fee vote voter := by
    rw [← OrderedSet.mem_def, OrderedSet.mem_insert, tallied.exists_counted_iff later, or_comm]
    refine or_congr_right ⟨fun same => same ▸ supports, fun supports' => ?_⟩
    cases supports.1.symm.trans supports'.1
    rfl
  rw [tallying.quorum, tallied.authorizer]
  constructor
  · rintro ⟨caster, supports, enough⟩
    refine ⟨⟨caster, supports⟩, _, OrderedSet.nodup_toList _, enough, fun voter member => ?_⟩
    refine ⟨?_, (counted_iff supports).1 member⟩
    rcases OrderedSet.mem_insert.1 member with rfl | before
    · exact tallied.authorizer ▸ (tallying.admits supports).allowed
    · exact tallied.allowed fee voter before
  · rintro ⟨⟨caster, supports⟩, voters, distinct, enough, counted⟩
    refine ⟨caster, supports, Nat.le_trans enough (distinct.length_le_of_subset fun voter member => ?_)⟩
    exact (counted_iff supports).2 (counted voter member).2

theorem append (tallied : FeeTallied c past step.before.state)
    (constants : step.before.constants = c) (tallying : step.FeeTallying) :
    FeeTallied c (past ++ [step]) step.after.state := by
  refine ⟨tallying.authorizer.trans tallied.authorizer, tallying.undecided, ?_, ?_, ?_, ?_⟩
  · intro fee voter
    rw [tallying.tallies, ← tallied.exists_counted_iff []]
    simp only [FeeCounted, Standing.append_iff, exists_and_left]
  · intro fee voter member
    rcases ((tallying.tallies fee voter).1 member).2 with before | supports
    · exact tallied.allowed fee voter before
    · exact tallied.authorizer ▸ (tallying.admits supports).allowed
  · by_cases sets : ∃ fee, step.SetsFee fee
    · obtain ⟨fee, set⟩ := sets
      obtain ⟨voter, supports, _⟩ := (tallying.quorum fee).1 set
      rw [tallying.sets fee set]
      exact .of_sets set (constants ▸ tallying.admits supports)
    · rw [not_exists] at sets
      rw [tallying.keeps sets]
      exact tallied.rate.append sets
  · rw [tallying.others, tallied.others]

end FeeTallied

namespace Runs

variable {c : Constants} {block : Block} {activations : Activations} {b : Bridge}
  {history : List Step}

theorem feeTallied (run : Runs (.startAt c block activations) history b)
    (voting : ∀ step ∈ history, step.operation.isFeeVoting = true) :
    FeeTallied c history b.state := by
  induction run with
  | refl => exact .initial c
  | step run performed ih =>
    obtain ⟨earlier, last⟩ := forall_mem_concat.1 voting
    have tallied := ih earlier
    exact tallied.append run.constants_eq (Step.feeTallying last performed tallied.undecided)

/-- What holds before a step of a run of votes on the fee rate, and what the step does. -/
theorem feeTallying_at (run : Runs (.startAt c block activations) history b)
    (voting : ∀ step ∈ history, step.operation.isFeeVoting = true) {number : Nat} {step : Step}
    (found : history[number]? = some step) :
    ∃ past later, history = past ++ step :: later ∧ past.length = number ∧
      step.before.constants = c ∧ FeeTallied c past step.before.state ∧ step.FeeTallying := by
  obtain ⟨past, later, rfl, length, before, performed, _⟩ := run.split_at found
  have tallied := before.feeTallied (List.forall_mem_append.1 voting).1
  exact ⟨past, later, rfl, length, before.constants_eq, tallied,
    Step.feeTallying (voting step (by simp)) performed tallied.undecided⟩

/-- In a run of votes on the fee rate, a rate is set exactly by the vote with which as many
    authorised voters as it takes have voted for it since it was last set, and the rate in force is
    the one that was set last. A vote is answered with success exactly if the voter is authorised,
    the rate is positive and not above the maximum, and no vote of the voter for it stands. Never has
    a call won that carries no rate, and nothing but the votes and the rate is changed. -/
theorem fee_rate_by_quorum (run : Runs (.startAt c block activations) history b)
    (voting : ∀ step ∈ history, step.operation.isFeeVoting = true) :
    LastSet c history b.state.feePerKb ∧
      (∀ number step fee, history[number]? = some step →
        (step.SetsFee fee ↔ (∃ caster, step.SupportsFee fee caster) ∧
          ∃ voters : List ChainAddress, voters.Nodup ∧
            c.feeAuthorizer.required ≤ voters.length ∧
            ∀ voter ∈ voters, c.feeAuthorizer.allows voter = true ∧
              ∃ vote, FeeCounted history number fee vote voter)) ∧
      (∀ number step sender fee, history[number]? = some step →
        step.operation = .voteFee sender fee → ∃ response, step.output = .fee response ∧
          (response.code = 1 ↔ c.feeAuthorizer.allows sender = true ∧ 1 ≤ fee.toInt ∧
            fee.toInt ≤ (c.maxFeePerKb.toNat : Int) ∧
            ¬ ∃ vote < number, FeeCounted history number fee vote sender)) ∧
      (∀ sender (fee : Int64) election, b.state.feeElection.voteAndApply (.setFee fee.toUInt64)
        sender CallSpec.fee? ≠ (.applied none, election)) ∧
      b.state = { State.initial c with
        feeElection := b.state.feeElection
        feePerKb := b.state.feePerKb } := by
  have tallied := run.feeTallied voting
  refine ⟨tallied.rate, ?_, ?_, ?_, tallied.others⟩
  · intro number step fee found
    obtain ⟨past, later, rfl, rfl, _, tallied, tallying⟩ := run.feeTallying_at voting found
    exact tallied.setsFee_iff tallying later
  · intro number step sender fee found called
    obtain ⟨past, later, rfl, rfl, constants, tallied, tallying⟩ := run.feeTallying_at voting found
    obtain ⟨response, output, success⟩ := tallying.answers sender fee called
    refine ⟨response, output, ?_⟩
    rw [FeeResponse.code_eq_one_iff, success, tallied.exists_standing_iff later]
    constructor
    · intro admits
      exact ⟨tallied.authorizer ▸ admits.allowed, admits.positive, constants ▸ admits.moderate,
        admits.fresh⟩
    · rintro ⟨allowed, positive, moderate, fresh⟩
      exact ⟨tallied.authorizer.symm ▸ allowed, positive, constants.symm ▸ moderate, fresh⟩
  · intro sender fee election applied
    cases Election.eq_of_applied_setFee tallied.undecided applied

/-- Two of three voters set a rate, and the vote of one of them for another rate still counts when the
    other one votes for it in a later block. -/
theorem fee_rate_by_quorum_of_two_rates :
    ∃ history b step, Runs (.startAt .regtest ⟨5, 0⟩ .none) history b ∧
      (∀ step ∈ history, step.operation.isFeeVoting = true) ∧
      history[2]?.bind Step.feeBallot? = some (.executed (.setFee 7000)) ∧
      history[4]? = some step ∧ step.SetsFee 5000 ∧ LastSet .regtest history (some 5000) ∧
      ∃ voters : List ChainAddress, voters.Nodup ∧
        Constants.regtest.feeAuthorizer.required ≤ voters.length ∧
        ∀ voter ∈ voters, Constants.regtest.feeAuthorizer.allows voter = true ∧
          ∃ vote, FeeCounted history 4 5000 vote voter := by
  obtain ⟨history, b, run, voting, first, second, rate⟩ := Bridge.exists_runs_of_play
    (P := fun history b => (∀ step ∈ history, step.operation.isFeeVoting = true) ∧
      history[2]?.bind Step.feeBallot? = some (.executed (.setFee 7000)) ∧
      history[4]?.bind Step.feeBallot? = some (.executed (.setFee 5000)) ∧
      b.state.feePerKb = some 5000)
    (b := .startAt .regtest ⟨5, 0⟩ .none)
    ([.voteFee Scenario.first 5000, .voteFee Scenario.second 7000, .voteFee Scenario.first 7000,
      .enterBlock ⟨6, 0⟩ .none, .voteFee Scenario.second 5000].map .perform)
    (by decide +kernel)
  obtain ⟨last, sets, _⟩ := run.fee_rate_by_quorum voting
  obtain ⟨step, found, set⟩ := Option.bind_eq_some_iff.1 second
  rw [rate] at last
  exact ⟨history, b, step, run, voting, first, found, set, last, ((sets 4 step 5000 found).1 set).2⟩

end Runs

end TwoWayPeg
