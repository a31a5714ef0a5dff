import Mathlib.Data.List.Induction
import TwoWayPeg.Proofs.Quorum

/-!
# Tallies and the history of an election

The tallies of an election can be told from what has happened in it: the voters of a call are those
that it had at the start, unless its votes have been taken away, and the authorised voters who have
voted for it since its votes were last taken away. What a request does is a row of events, and each
event changes the tally of a call as it changes the voters that are told from the history.
-/

namespace TwoWayPeg.Election

/-- What an election can be asked for. The effect of an applied call cannot reach the election, so
    the call itself is as good a result as any. -/
inductive Request where
  | vote (spec : CallSpec) (voter : ChainAddress)
  | voteAndApply (spec : CallSpec) (voter : ChainAddress)
  | takeWinner
  | clear
deriving DecidableEq

/-- What happens in an election. -/
inductive Event where
  /-- A voter votes for a call; the vote need not count. -/
  | voted (spec : CallSpec) (voter : ChainAddress)
  /-- The votes for a call are taken away. -/
  | removed (spec : CallSpec)
  /-- The votes for all calls are taken away. -/
  | cleared
deriving DecidableEq

namespace Event

/-- Whether the votes for a call are taken away. -/
def removes (spec : CallSpec) : Event → Bool
  | .voted _ _ => false
  | .removed other => other = spec
  | .cleared => true

/-- The voter, if an authorised one votes for a call. -/
def supporter? (a : Authorizer) (spec : CallSpec) : Event → Option ChainAddress
  | .voted other voter => if other = spec ∧ a.allows voter = true then some voter else none
  | _ => none

end Event

/-- What a request is answered with, told as what happens, and the election after it. -/
def perform (e : Election) : Request → List Event × Election
  | .vote spec voter => ([.voted spec voter], (e.vote? spec voter).getD e)
  | .voteAndApply spec voter =>
    match e.voteAndApply spec voter id with
    | (.applied winner, after) => ([.voted spec voter, .removed winner], after)
    | (_, after) => ([.voted spec voter], after)
  | .takeWinner =>
    match e.takeWinner? with
    | some (winner, after) => ([.removed winner], after)
    | none => ([], e)
  | .clear => ([.cleared], e.clear)

/-- What happens when requests are made one after the other, and the election after them. -/
def performAll (e : Election) : List Request → List Event × Election
  | [] => ([], e)
  | request :: rest =>
    let (events, after) := e.perform request
    let (later, last) := after.performAll rest
    (events ++ later, last)

section History

variable (start : Election) (history : List Event) (spec : CallSpec)

/-- Whether the votes that a call had at the start are still there. -/
def keeps : Bool := history.all fun event => !event.removes spec

/-- What has happened since the votes for a call were last taken away. -/
def since : List Event := (history.reverse.takeWhile fun event => !event.removes spec).reverse

/-- The authorised voters who have voted for a call since then, in turn. -/
def supporters : List ChainAddress :=
  (since history spec).filterMap (Event.supporter? start.authorizer spec)

/-- The voters of a call, as the history tells. -/
def standing : OrderedSet ChainAddress :=
  .ofList ((if keeps history spec then (start.tally spec).toList else [])
    ++ start.supporters history spec)

/-- Whether a call has a tally, as the history tells. -/
def isTallied : Bool :=
  keeps history spec && (start.votes.get? spec).isSome || !(start.supporters history spec).isEmpty

end History

/-- The election after an event. -/
def undergo (e : Election) : Event → Election
  | .voted spec voter => (e.vote? spec voter).getD e
  | .removed spec => e.remove spec
  | .cleared => e.clear

variable {start e : Election} {history : List Event} {event : Event} {spec : CallSpec}
  {voter : ChainAddress}

/-- A vote does not count just if its voter is not authorised or has voted for the call before. -/
theorem vote?_eq_none_iff :
    e.vote? spec voter = none ↔ (e.authorizer.allows voter = true → voter ∈ e.tally spec) := by
  by_cases allowed : e.authorizer.allows voter = true
  · by_cases member : voter ∈ e.tally spec
    · simp [vote?, accepts, member]
    · simp [vote?_of_fresh allowed member, allowed, member]
  · simp [vote?, accepts, allowed]

theorem isSome_vote?_iff : (e.vote? spec voter).isSome = true ↔
    e.authorizer.allows voter = true ∧ voter ∉ e.tally spec := by
  rw [← Option.ne_none_iff_isSome, Ne, vote?_eq_none_iff, Classical.not_imp]

theorem voteAndApply_eq {α : Type} (effect : CallSpec → α) :
    e.voteAndApply spec voter effect =
      match e.vote? spec voter with
      | none => (.rejected, e)
      | some voted =>
        match voted.winner? with
        | none => (.recorded, voted)
        | some winner => (.applied (effect winner), voted.remove winner) := by
  unfold voteAndApply voteAndApplyWithin
  dsimp only [id]
  cases e.vote? spec voter with
  | none => rfl
  | some voted =>
    dsimp only
    cases won : voted.winner? with
    | none => rfl
    | some winner => exact Prod.ext rfl (clearWinner_eq_remove won)

/-! ### What an event does -/

theorem authorizer_undergo (e : Election) (event : Event) :
    (e.undergo event).authorizer = e.authorizer := by
  cases event with
  | voted spec voter =>
    cases counted : e.vote? spec voter with
    | none => simp [undergo, counted]
    | some voted => simpa [undergo, counted] using authorizer_vote? counted
  | removed spec => rfl
  | cleared => rfl

theorem authorizer_foldl_undergo (e : Election) (history : List Event) :
    (history.foldl undergo e).authorizer = e.authorizer := by
  induction history generalizing e with
  | nil => rfl
  | cons event rest ih => rw [List.foldl_cons, ih, authorizer_undergo]

/-- After an event a call has the voters that it had, unless they are taken away, and the one who
    votes for it. -/
theorem mem_tally_undergo : voter ∈ (e.undergo event).tally spec ↔
    event.removes spec = false ∧
      (voter ∈ e.tally spec ∨ event.supporter? e.authorizer spec = some voter) := by
  cases event with
  | voted other v =>
    cases counted : e.vote? other v with
    | none =>
      have refused := vote?_eq_none_iff.1 counted
      simp only [undergo, counted, Event.removes, Event.supporter?]
      grind
    | some voted =>
      have allowed := (vote?_eq_some counted).1
      simp only [undergo, counted, Option.getD_some, mem_tally_vote? counted, Event.removes,
        Event.supporter?]
      grind
  | removed other =>
    by_cases same : spec = other
    · subst same
      simp [undergo, Event.removes]
    · simp [undergo, Event.removes, Event.supporter?, tally_remove_of_ne same, Ne.symm same]
  | cleared => simp [undergo, Event.removes]

theorem isSome_get?_of_mem_tally (member : voter ∈ e.tally spec) :
    (e.votes.get? spec).isSome = true := by
  cases found : e.votes.get? spec with
  | none => simp [tally, found] at member
  | some voters => rfl

/-- After an event a call has a tally if it had one that is not taken away, or has been voted
    for. -/
theorem isSome_get?_undergo : ((e.undergo event).votes.get? spec).isSome = true ↔
    event.removes spec = false ∧ ((e.votes.get? spec).isSome = true ∨
      (event.supporter? e.authorizer spec).isSome = true) := by
  cases event with
  | voted other v =>
    cases counted : e.vote? other v with
    | none =>
      have refused : e.authorizer.allows v = true → (e.votes.get? other).isSome = true :=
        fun allowed => isSome_get?_of_mem_tally (vote?_eq_none_iff.1 counted allowed)
      simp only [undergo, counted, Event.removes, Event.supporter?]
      grind
    | some voted =>
      obtain ⟨allowed, _, rfl⟩ := vote?_eq_some counted
      by_cases same : spec = other
      · subst same
        simp [undergo, counted, Event.removes, Event.supporter?, allowed]
      · simp [undergo, counted, Event.removes, Event.supporter?, Ne.symm same,
          OrderedMap.get?_insert_of_ne same]
  | removed other =>
    by_cases same : spec = other
    · subst same
      simp [undergo, remove, Event.removes]
    · simp [undergo, remove, Event.removes, Event.supporter?, OrderedMap.get?_erase_of_ne same,
        Ne.symm same]
  | cleared => simp [undergo, clear, Event.removes]

/-! ### What the history tells -/

theorem keeps_concat : keeps (history ++ [event]) spec =
    (keeps history spec && !event.removes spec) := by
  simp [keeps]

theorem supporters_concat : start.supporters (history ++ [event]) spec =
    if event.removes spec then []
    else start.supporters history spec ++ (event.supporter? start.authorizer spec).toList := by
  unfold supporters since
  rw [List.reverse_append, List.reverse_singleton, List.singleton_append, List.takeWhile_cons]
  cases removed : event.removes spec with
  | true => simp
  | false =>
    cases supporter : event.supporter? start.authorizer spec with
    | none => simp [supporter]
    | some voter => simp [supporter]

theorem mem_standing_iff : voter ∈ start.standing history spec ↔
    keeps history spec = true ∧ voter ∈ start.tally spec ∨
      voter ∈ start.supporters history spec := by
  rw [standing, OrderedSet.mem_ofList, List.mem_append]
  cases keeps history spec with
  | true => simp [OrderedSet.mem_def]
  | false => simp

theorem isTallied_iff : start.isTallied history spec = true ↔
    keeps history spec = true ∧ (start.votes.get? spec).isSome = true ∨
      start.supporters history spec ≠ [] := by
  simp [isTallied]

/-- The voters of a call are those whom the history tells. -/
theorem tally_foldl_undergo (start : Election) (history : List Event) (spec : CallSpec) :
    (history.foldl undergo start).tally spec = start.standing history spec := by
  apply OrderedSet.ext_mem
  intro voter
  induction history using List.reverseRecOn with
  | nil => simp [mem_standing_iff, keeps, supporters, since]
  | append_singleton history event ih =>
    rw [List.foldl_append, List.foldl_cons, List.foldl_nil, mem_tally_undergo,
      authorizer_foldl_undergo, ih, mem_standing_iff, mem_standing_iff, keeps_concat,
      supporters_concat]
    cases event.removes spec with
    | true => simp
    | false => simp [or_assoc]

theorem isSome_get?_foldl_undergo (start : Election) (history : List Event) (spec : CallSpec) :
    ((history.foldl undergo start).votes.get? spec).isSome = start.isTallied history spec := by
  apply Bool.eq_iff_iff.2
  induction history using List.reverseRecOn with
  | nil => simp [isTallied_iff, keeps, supporters, since]
  | append_singleton history event ih =>
    rw [List.foldl_append, List.foldl_cons, List.foldl_nil, isSome_get?_undergo,
      authorizer_foldl_undergo, ih, isTallied_iff, isTallied_iff, keeps_concat,
      supporters_concat]
    cases event.removes spec with
    | true => simp
    | false =>
      cases event.supporter? start.authorizer spec with
      | none => simp
      | some voter => simp

/-- The history tells the whole election. -/
theorem get?_foldl_undergo (start : Election) (history : List Event) (spec : CallSpec) :
    (history.foldl undergo start).votes.get? spec =
      if start.isTallied history spec then some (start.standing history spec) else none := by
  have present := isSome_get?_foldl_undergo start history spec
  have voters := tally_foldl_undergo start history spec
  cases found : (history.foldl undergo start).votes.get? spec with
  | none =>
    rw [found] at present
    rw [← present]
    rfl
  | some tallied =>
    rw [found] at present
    rw [tally, found] at voters
    rw [← present, ← voters]
    rfl

/-! ### Requests -/

theorem perform_eq_foldl (e : Election) (request : Request) :
    (e.perform request).2 = (e.perform request).1.foldl undergo e := by
  cases request with
  | vote spec voter => rfl
  | voteAndApply spec voter =>
    rw [perform, voteAndApply_eq]
    cases counted : e.vote? spec voter with
    | none => simp [undergo, counted]
    | some voted =>
      dsimp only
      cases won : voted.winner? with
      | none => simp [undergo, counted]
      | some winner => simp [undergo, counted]
  | takeWinner =>
    rw [perform]
    cases taken : e.takeWinner? with
    | none => rfl
    | some found =>
      obtain ⟨winner, rest⟩ := found
      obtain ⟨_, rfl⟩ := takeWinner?_eq_some taken
      rfl
  | clear => rfl

theorem perform_voteAndApply (e : Election) (spec : CallSpec) (voter : ChainAddress) :
    (e.perform (.voteAndApply spec voter)).2 = (e.voteAndApply spec voter id).2 := by
  rw [perform]
  split <;> next same => rw [same]

theorem performAll_eq_foldl (e : Election) (requests : List Request) :
    (e.performAll requests).2 = (e.performAll requests).1.foldl undergo e := by
  induction requests generalizing e with
  | nil => rfl
  | cons request rest ih =>
    dsimp only [performAll]
    rw [ih, List.foldl_append, ← perform_eq_foldl]

/-- Let requests be made to an election one after the other, whatever tallies it starts with. Then
    the voters of a call are those that it had at the start, unless they have been taken away since,
    and the authorised ones who have voted for it since its votes were last taken away. A vote
    counts just if its voter is authorised and none of them, and otherwise changes nothing. The
    winner is the least call whose tally has enough votes; that a call has a tally only needs to be
    asked if no vote is required. Taking winners out until there is none takes out just these calls,
    each once and in order, and leaves the other tallies as they are. What an applied call has for
    an effect makes no difference to the election. -/
theorem tallies_of_history (start : Election) (requests : List Request) :
    let history := (start.performAll requests).1
    let e := (start.performAll requests).2
    (∀ spec, e.tally spec = start.standing history spec ∧
        e.votes.get? spec =
          if start.isTallied history spec then some (start.standing history spec) else none) ∧
      (∀ spec voter,
        ((e.vote? spec voter).isSome = true ↔
          start.authorizer.allows voter = true ∧ voter ∉ start.standing history spec) ∧
        (e.vote? spec voter = none →
          (e.perform (.vote spec voter)).2 = e ∧ (e.perform (.voteAndApply spec voter)).2 = e)) ∧
      (∀ spec,
        (e.HasQuorum spec ↔ start.isTallied history spec = true ∧
          start.authorizer.required ≤ (start.standing history spec).size) ∧
        (0 < start.authorizer.required →
          (e.HasQuorum spec ↔
            start.authorizer.required ≤ (start.standing history spec).size))) ∧
      (∀ spec, e.winner? = some spec ↔
        e.HasQuorum spec ∧ ∀ other, e.HasQuorum other → (compare spec other).isLE = true) ∧
      ((∀ spec, spec ∈ e.takeWinners.1 ↔ e.HasQuorum spec) ∧
        (e.takeWinners.1.Pairwise fun a b => compare a b = .lt) ∧
        (∀ spec, e.takeWinners.2.votes.get? spec =
          if spec ∈ e.takeWinners.1 then none else e.votes.get? spec) ∧
        e.takeWinners.2.winner? = none) ∧
      (∀ spec voter (α : Type) (effect : CallSpec → α),
        (e.voteAndApply spec voter effect).2 = (e.perform (.voteAndApply spec voter)).2) := by
  intro history e
  have reached : e = history.foldl undergo start := performAll_eq_foldl start requests
  have tally (spec) : e.tally spec = start.standing history spec := by
    rw [reached, tally_foldl_undergo]
  have told (spec) : e.votes.get? spec =
      if start.isTallied history spec then some (start.standing history spec) else none := by
    rw [reached, get?_foldl_undergo]
  have authorizer : e.authorizer = start.authorizer := by
    rw [reached, authorizer_foldl_undergo]
  refine ⟨fun spec => ⟨tally spec, told spec⟩, fun spec voter => ⟨?_, fun refused => ?_⟩,
    fun spec => ⟨?_, fun required => ?_⟩, fun _ => winner?_eq_some_iff,
    ⟨fun _ => mem_takeWinners, increasing_takeWinners e, fun _ => get?_takeWinners,
      winner?_takeWinners e⟩,
    fun spec voter α effect => ?_⟩
  · rw [isSome_vote?_iff, authorizer, tally]
  · constructor
    · simp [perform, refused]
    · simp [perform, voteAndApply_eq, refused]
  · rw [HasQuorum, told, authorizer]
    cases start.isTallied history spec with
    | true => simp
    | false => simp
  · rw [← authorizer] at required ⊢
    rw [hasQuorum_iff_required_le required, tally]
  · rw [perform_voteAndApply, voteAndApply_eq, voteAndApply_eq]
    cases e.vote? spec voter with
    | none => rfl
    | some voted =>
      dsimp only
      cases voted.winner? <;> rfl

/-- An election that starts with enough votes for two calls, since each of its two voters decides
    alone. -/
def twoWinners : Election where
  authorizer := ⟨[.filled 1, .filled 2], .one⟩
  votes := .ofList
    [(⟨"create", []⟩, .ofList [.filled 1]), (⟨"rollback", []⟩, .ofList [.filled 1, .filled 2])]

/-- Once the creation has been taken out, its first voter votes for it again. A vote of this voter
    then changes nothing, and there are two winners to take out again. -/
theorem tallies_of_twoWinners :
    let requests : List Request := [.takeWinner, .vote ⟨"create", []⟩ (.filled 1)]
    let e := (twoWinners.performAll requests).2
    e.vote? ⟨"create", []⟩ (.filled 1) = none ∧
      (e.perform (.vote ⟨"create", []⟩ (.filled 1))).2 = e ∧
      0 < twoWinners.authorizer.required ∧
      e.tally ⟨"create", []⟩ = .ofList [.filled 1] ∧
      ⟨"create", []⟩ ∈ e.takeWinners.1 ∧ ⟨"rollback", []⟩ ∈ e.takeWinners.1 := by
  intro requests e
  obtain ⟨tallies, votes, quorums, _, ⟨taken, _⟩, _⟩ := tallies_of_history twoWinners requests
  have refused : e.vote? ⟨"create", []⟩ (.filled 1) = none := by decide +kernel
  have required : 0 < twoWinners.authorizer.required := by decide
  exact ⟨refused, ((votes _ _).2 refused).1, required, (tallies _).1.trans (by decide +kernel),
    (taken _).2 (((quorums _).2 required).2 (by decide +kernel)),
    (taken _).2 (((quorums _).2 required).2 (by decide +kernel))⟩

end TwoWayPeg.Election
