/-!
# How a computation ends

A computation of several parts, or one that goes through a list, succeeds if all of its parts do and
fails as the first of them does that fails.
-/

namespace TwoWayPeg

/-- A bind of two parts succeeds if both do. -/
theorem bind_eq_ok_iff {ε α β : Type} {x : Except ε α} {f : α → Except ε β} {b : β} :
    x >>= f = .ok b ↔ ∃ a, x = .ok a ∧ f a = .ok b := by
  cases x with
  | error e => simp [bind, Except.bind]
  | ok a => simp [bind, Except.bind]

/-- A bind of two parts succeeds if the first does, and the second whatever the first gives. -/
theorem exists_bind_eq_ok {ε α β : Type} {x : Except ε α} {f : α → Except ε β}
    (first : ∃ a, x = .ok a) (second : ∀ a, ∃ b, f a = .ok b) : ∃ b, x >>= f = .ok b := by
  obtain ⟨a, done⟩ := first
  obtain ⟨b, finished⟩ := second a
  exact ⟨b, bind_eq_ok_iff.2 ⟨a, done, finished⟩⟩

/-- A bind of two parts fails if one of them does. -/
theorem bind_eq_error_iff {ε α β : Type} {x : Except ε α} {f : α → Except ε β} {e : ε} :
    x >>= f = .error e ↔ x = .error e ∨ ∃ a, x = .ok a ∧ f a = .error e := by
  cases x with
  | error e' => simp [bind, Except.bind]
  | ok a => simp [bind, Except.bind]

@[simp] theorem pure_eq_ok_iff {ε α : Type} {a b : α} :
    (pure a : Except ε α) = .ok b ↔ a = b := by
  rw [show (pure a : Except ε α) = .ok a from rfl, Except.ok.injEq]

theorem toOption_eq_some_iff {ε α : Type} {x : Except ε α} {a : α} :
    x.toOption = some a ↔ x = .ok a := by
  cases x with
  | error e => simp [Except.toOption]
  | ok b => simp [Except.toOption]

/-- Going through a list gives the list of results if each item gives one. -/
theorem mapM_eq_pure {m : Type → Type} [Monad m] [LawfulMonad m] {α β : Type} {f : α → m β}
    {g : α → β} {l : List α} (each : ∀ a ∈ l, f a = pure (g a)) : l.mapM f = pure (l.map g) := by
  induction l with
  | nil => rfl
  | cons a l ih =>
    obtain ⟨first, rest⟩ := List.forall_mem_cons.1 each
    rw [List.mapM_cons, first, ih rest, pure_bind, pure_bind, List.map_cons]

/-- Items that were written one by one are read one by one. -/
theorem mapM_map_eq_some {α β : Type} {write : α → β} {read? : β → Option α} {l : List α}
    (each : ∀ a ∈ l, read? (write a) = some a) : (l.map write).mapM read? = some l := by
  have whole := mapM_eq_pure (f := read? ∘ write) (g := id) each
  rw [List.map_id] at whole
  exact List.mapM_map.trans whole

theorem exists_of_mapM_eq_ok {ε α β : Type} {f : α → Except ε β} {l : List α} {r : List β}
    (whole : l.mapM f = .ok r) : ∀ a ∈ l, ∃ b, f a = .ok b := by
  induction l generalizing r with
  | nil =>
    intro a member
    cases member
  | cons a l ih =>
    rw [List.mapM_cons] at whole
    obtain ⟨b, first, whole⟩ := bind_eq_ok_iff.1 whole
    obtain ⟨rest, others, _⟩ := bind_eq_ok_iff.1 whole
    exact List.forall_mem_cons.2 ⟨⟨b, first⟩, ih others⟩

/-- A traversal fails just as its first failing item does. -/
theorem forM_eq_error_iff {α ε : Type} {check : α → Except ε Unit} {l : List α} {e : ε} :
    forM l check = .error e ↔ ∃ before a after, l = before ++ a :: after ∧
      (∀ b ∈ before, check b = .ok ()) ∧ check a = .error e := by
  induction l with
  | nil => simp [pure, Except.pure]
  | cons b l ih =>
    rw [List.forM_cons, bind_eq_error_iff]
    constructor
    · rintro (failed | ⟨u, passed, failed⟩)
      · exact ⟨[], b, l, rfl, by simp, failed⟩
      · obtain ⟨before, a, after, rfl, earlier, failed⟩ := ih.1 failed
        exact ⟨b :: before, a, after, rfl, List.forall_mem_cons.2 ⟨passed, earlier⟩, failed⟩
    · rintro ⟨before, a, after, split, earlier, failed⟩
      cases before with
      | nil =>
        cases split
        exact .inl failed
      | cons c before =>
        cases split
        rw [List.forall_mem_cons] at earlier
        exact .inr ⟨(), earlier.1, ih.2 ⟨before, a, after, rfl, earlier.2, failed⟩⟩

theorem forM_eq_ok_iff {α ε : Type} {check : α → Except ε Unit} {l : List α} :
    forM l check = .ok () ↔ ∀ a ∈ l, check a = .ok () := by
  induction l with
  | nil => simp [pure, Except.pure]
  | cons a l ih =>
    rw [List.forM_cons, bind_eq_ok_iff, List.forall_mem_cons, ← ih]
    exact ⟨fun ⟨_, first, rest⟩ => ⟨first, rest⟩, fun ⟨first, rest⟩ => ⟨(), first, rest⟩⟩

end TwoWayPeg
