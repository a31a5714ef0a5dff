import TwoWayPeg.Proofs.Run

/-!
# Votes that stand

A vote counts towards a decision until the votes for it are taken away. Which votes stand in a step
can be told from the run alone, if it is known of each step whether it is such a vote and whether it
takes them away.
-/

namespace TwoWayPeg

/-- The step with some number is a vote that stands in the step with another number: no step from the
    vote on takes it away. -/
def Standing (supports clears : Step → Prop) (history : List Step) (number vote : Nat) : Prop :=
  vote ≤ number ∧ (∃ step, history[vote]? = some step ∧ supports step) ∧
    ∀ between step, vote ≤ between → between < number → history[between]? = some step →
      ¬ clears step

namespace Standing

variable {supports clears : Step → Prop} {past later : List Step} {step : Step} {vote : Nat}

/-- What stands in a step is the step itself and what has stood before it. -/
theorem at_iff : Standing supports clears (past ++ step :: later) past.length vote ↔
    Standing supports clears past past.length vote ∨ vote = past.length ∧ supports step := by
  have here : (past ++ step :: later)[past.length]? = some step := by simp
  have before {i : Nat} (inside : i < past.length) :
      (past ++ step :: later)[i]? = past[i]? := List.getElem?_append_left inside
  constructor
  · rintro ⟨within, ⟨supporter, found, supported⟩, stands⟩
    by_cases last : vote = past.length
    · subst last
      cases here.symm.trans found
      exact .inr ⟨rfl, supported⟩
    · have inside : vote < past.length := Nat.lt_of_le_of_ne within last
      refine .inl ⟨within, ⟨supporter, (before inside).symm.trans found, supported⟩, ?_⟩
      intro between other after below found
      exact stands between other after below ((before below).trans found)
  · rintro (⟨within, ⟨supporter, found, supported⟩, stands⟩ | ⟨rfl, supported⟩)
    · have inside : vote < past.length := (List.getElem?_eq_some_iff.1 found).1
      refine ⟨within, ⟨supporter, (before inside).trans found, supported⟩, ?_⟩
      intro between other after below found
      exact stands between other after below ((before below).symm.trans found)
    · refine ⟨Nat.le_refl _, ⟨step, here, supported⟩, ?_⟩
      intro between other after below
      exact absurd (Nat.lt_of_le_of_lt after below) (Nat.lt_irrefl _)

/-- What stands after a step has not been taken away in it. -/
theorem append_iff : Standing supports clears (past ++ [step]) (past ++ [step]).length vote ↔
    ¬ clears step ∧ Standing supports clears (past ++ [step]) past.length vote := by
  have here : (past ++ [step])[past.length]? = some step := by simp
  rw [List.length_append, List.length_singleton]
  constructor
  · rintro ⟨_, ⟨supporter, found, supported⟩, stands⟩
    have inside : vote < (past ++ [step]).length := (List.getElem?_eq_some_iff.1 found).1
    rw [List.length_append, List.length_singleton] at inside
    refine ⟨stands _ step (by omega) (by omega) here, by omega, ⟨supporter, found, supported⟩, ?_⟩
    intro between other after below found
    exact stands between other after (by omega) found
  · rintro ⟨keeps, within, supported, stands⟩
    refine ⟨by omega, supported, ?_⟩
    intro between other after below found
    by_cases last : between = past.length
    · subst last
      cases here.symm.trans found
      exact keeps
    · exact stands between other after (by omega) found

end Standing

end TwoWayPeg
