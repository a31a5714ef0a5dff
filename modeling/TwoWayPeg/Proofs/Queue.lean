import TwoWayPeg.Proofs.Checked
import TwoWayPeg.Proofs.Custody

/-!
# The queue of transactions that wait to be signed

A migration puts its transaction at the end of the queue. The transactions that have waited long
enough are taken out by a test of each transaction; as long as older ones stand before younger ones,
these are the ones at the front.
-/

namespace TwoWayPeg

/-- Whether a transaction has waited long enough at a block. -/
def WaitingPegout.isDue (p : WaitingPegout) (c : Constants) (block : UInt64) : Bool :=
  p.created.toNat + c.pegoutConfirmations.toNat ≤ block.toNat

/-- If what passes a test stands before what does not, a list is made of the two parts. -/
theorem filter_append_filter_not {α : Type} {p : α → Bool} {l : List α}
    (ordered : l.Pairwise fun a b => p b = true → p a = true) :
    l.filter p ++ (l.filter fun a => !p a) = l := by
  induction l with
  | nil => rfl
  | cons a l ih =>
    obtain ⟨first, ordered⟩ := List.pairwise_cons.1 ordered
    cases passes : p a with
    | true => simp [passes, ih ordered]
    | false =>
      have none : l.filter p = [] := by
        rw [List.filter_eq_nil_iff]
        intro b member pass
        rw [first b member pass] at passes
        cases passes
      have rest := ih ordered
      rw [none, List.nil_append] at rest
      simp [passes, none, rest]

namespace State

variable {s t : State} {c : Constants} {env : Env} {block : UInt64} {retiring active : Federation}

/-- Taking transactions out of the queue fails only if the block from which one of them may be taken
    is out of range. It takes out those that have waited long enough and leaves the others. -/
theorem takeConfirmed_eq_ok_iff {taken : List Transaction} :
    s.takeConfirmed c block = .ok (taken, t) ↔
      (∀ p ∈ s.waitingPegouts, p.created.toNat + c.pegoutConfirmations.toNat < UInt64.size) ∧
      taken = (s.waitingPegouts.filter (·.isDue c block)).map WaitingPegout.transaction ∧
      t = { s with waitingPegouts := s.waitingPegouts.filter fun p => !p.isDue c block } := by
  have judged (fits : ∀ p ∈ s.waitingPegouts,
      p.created.toNat + c.pegoutConfirmations.toNat < UInt64.size) :
      (s.waitingPegouts.mapM fun p => do
        let due ← addChecked p.created c.pegoutConfirmations
        return (p, decide (due ≤ block))) =
      (.ok (s.waitingPegouts.map fun p => (p, p.isDue c block)) : Except PegError _) := by
    refine mapM_eq_pure fun p member => bind_eq_ok_iff.2 ⟨p.created + c.pegoutConfirmations, ?_, ?_⟩
    · rw [addChecked, if_pos (fits p member)]
    · simp only [WaitingPegout.isDue, UInt64.le_iff_toNat_le, UInt64.toNat_add,
        Nat.mod_eq_of_lt (fits p member)]
      rfl
  unfold takeConfirmed
  constructor
  · intro took
    obtain ⟨all, whole, took⟩ := bind_eq_ok_iff.1 took
    have fits : ∀ p ∈ s.waitingPegouts,
        p.created.toNat + c.pegoutConfirmations.toNat < UInt64.size := by
      intro p member
      obtain ⟨_, judgement⟩ := exists_of_mapM_eq_ok whole p member
      obtain ⟨due, added, _⟩ := bind_eq_ok_iff.1 judgement
      rw [addChecked_eq_ok_iff] at added
      rw [added]
      exact due.toNat_lt_size
    cases (judged fits).symm.trans whole
    simp only [List.partition_eq_filter_filter, pure_eq_ok_iff, Prod.mk.injEq, List.filter_map,
      List.map_map] at took
    obtain ⟨rfl, rfl⟩ := took
    exact ⟨fits, rfl, by simp [Function.comp_def]⟩
  · rintro ⟨fits, rfl, rfl⟩
    refine bind_eq_ok_iff.2 ⟨_, judged fits, ?_⟩
    simp only [List.partition_eq_filter_filter, pure_eq_ok_iff, Prod.mk.injEq, List.filter_map,
      List.map_map]
    exact ⟨rfl, by simp [Function.comp_def]⟩

/-- In a queue with older transactions before younger ones, those that are taken out are at the
    front. -/
theorem waitingPegouts_of_takeConfirmed {taken : List Transaction}
    (took : s.takeConfirmed c block = .ok (taken, t))
    (ordered : s.waitingPegouts.Pairwise fun p q => p.created ≤ q.created) :
    ∃ due, s.waitingPegouts = due ++ t.waitingPegouts ∧
      taken = due.map WaitingPegout.transaction ∧
      (∀ p ∈ due, p.created.toNat + c.pegoutConfirmations.toNat ≤ block.toNat) ∧
      ∀ p ∈ t.waitingPegouts, block.toNat < p.created.toNat + c.pegoutConfirmations.toNat := by
  obtain ⟨_, rfl, rfl⟩ := takeConfirmed_eq_ok_iff.1 took
  refine ⟨_, (filter_append_filter_not ?_).symm, rfl, ?_, ?_⟩
  · refine ordered.imp fun {p q} older due => ?_
    rw [WaitingPegout.isDue, decide_eq_true_iff] at due ⊢
    have := UInt64.le_iff_toNat_le.1 older
    omega
  · intro p member
    simpa [WaitingPegout.isDue] using (List.mem_filter.1 member).2
  · intro p member
    simpa [WaitingPegout.isDue] using (List.mem_filter.1 member).2

/-- A migration that moves a batch puts its transaction at the end of the queue. -/
theorem Moved.waitingPegouts {migration : Option MigrationTransaction}
    (moves : s.Moved env retiring active migration t) :
    t.waitingPegouts = s.waitingPegouts ++
      (migration.map fun m => ⟨env.block.number, m.transaction⟩).toList := by
  cases moves with
  | nothing => exact (List.append_nil _).symm
  | batch => rfl

theorem Migrated.waitingPegouts {outcome : MigrationOutcome} (done : s.Migrated env outcome t) :
    t.waitingPegouts = s.waitingPegouts ++
      (outcome.migration.map fun m => ⟨env.block.number, m.transaction⟩).toList := by
  cases done with
  | idle => exact (List.append_nil _).symm
  | moved _ _ moves => exact moves.waitingPegouts
  | retired _ _ moves => exact moves.waitingPegouts

/-- Nothing of a migration transaction is signed, so its witnesses are empty. -/
theorem Migrated.witness_eq_nil {outcome : MigrationOutcome} (done : s.Migrated env outcome t)
    {m : MigrationTransaction} (made : outcome.migration = some m) :
    ∀ i ∈ m.transaction.inputs, i.witness = [] := by
  have bare {retiring active : Federation} {t : State}
      (moves : s.Moved env retiring active (some m) t) :
      ∀ i ∈ m.transaction.inputs, i.witness = [] := by
    cases moves with
    | batch _ made _ =>
      obtain ⟨_, value, written⟩ := Migration.moveBatch_spec made
      simp [written, Migration.transaction]
  cases done with
  | idle => cases made
  | moved _ _ moves =>
    cases made
    exact bare moves
  | retired _ _ moves =>
    cases made
    exact bare moves

end State

namespace Step

/-- The transactions that a step takes out of the queue. -/
def taken (step : Step) : List Transaction :=
  match step.output with
  | .taken transactions => transactions
  | _ => []

/-- What a step puts into the queue. -/
def queued (step : Step) : List WaitingPegout :=
  (step.emitted?.map fun m => ⟨step.before.block.number, m.transaction⟩).toList

end Step

end TwoWayPeg
