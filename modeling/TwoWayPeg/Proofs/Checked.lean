import Mathlib.Algebra.Ring.Nat
import TwoWayPeg.Checked

/-!
# Arithmetic in range

A checked sum or product is that of the natural numbers, and fails by an overflow only. A list is
added up number by number, but whether it can be is told by its sum alone.
-/

namespace TwoWayPeg

theorem addChecked_eq_ok_iff {a b c : UInt64} :
    addChecked a b = .ok c ↔ a.toNat + b.toNat = c.toNat := by
  have := c.toNat_lt_size
  unfold addChecked
  split
  · next h =>
    rw [Except.ok.injEq, ← UInt64.toNat_inj, UInt64.toNat_add, Nat.mod_eq_of_lt h]
  · simp
    omega

theorem mulChecked_eq_ok_iff {a c : UInt64} {n : Nat} :
    mulChecked a n = .ok c ↔ a.toNat * n = c.toNat := by
  have := c.toNat_lt_size
  unfold mulChecked
  split
  · next h =>
    rw [Except.ok.injEq, ← UInt64.toNat_inj, UInt64.toNat_ofNat', Nat.mod_eq_of_lt h]
  · simp
    omega

/-- A list of numbers is added up just if their sum is in range. -/
theorem sumChecked_eq (l : List UInt64) : sumChecked l =
    if (l.map UInt64.toNat).sum < UInt64.size then .ok (.ofNat (l.map UInt64.toNat).sum)
    else .error (.overflow .add) := by
  induction l with
  | nil => rfl
  | cons a rest ih =>
    rw [sumChecked, ih, List.map_cons, List.sum_cons]
    by_cases fits : (rest.map UInt64.toNat).sum < UInt64.size
    · have value := UInt64.toNat_ofNat_of_lt' fits
      rw [if_pos fits]
      show addChecked a _ = _
      rw [addChecked, value, UInt64.ofNat_add, UInt64.ofNat_toNat]
    · rw [if_neg fits, if_neg (by omega)]
      rfl

theorem overflow_of_addChecked {a b : UInt64} {e : PegError} (failed : addChecked a b = .error e) :
    ∃ cause, e = .overflow cause := by
  unfold addChecked at failed
  split at failed <;> cases failed
  exact ⟨_, rfl⟩

theorem overflow_of_mulChecked {a : UInt64} {n : Nat} {e : PegError}
    (failed : mulChecked a n = .error e) : ∃ cause, e = .overflow cause := by
  unfold mulChecked at failed
  split at failed <;> cases failed
  exact ⟨_, rfl⟩

theorem overflow_of_sumChecked {l : List UInt64} {e : PegError} (failed : sumChecked l = .error e) :
    ∃ cause, e = .overflow cause := by
  rw [sumChecked_eq] at failed
  split at failed <;> cases failed
  exact ⟨_, rfl⟩

end TwoWayPeg
