/-!
# Computations that can fail

A computation in `Except` is a sequence of steps of which the first refusal is the result.

* `refuseIf`: a step that refuses on a condition;
* `answered`: what a step with a state answers, and the state that it leaves;
* `bind_eq_ok_iff`, `map_eq_ok_iff`, `refuseIf_eq_ok_iff`: what a success says about the steps that
  led to it;
* `mapM_cons_eq_ok_iff`, `length_of_mapM_eq_ok`: the steps of a list, one for each element.
-/

namespace CqlWire

variable {ε σ α β : Type}

/-- Refuses when a condition holds. -/
def refuseIf (c : Prop) [Decidable c] (e : ε) : Except ε Unit :=
  if c then .error e else .ok ()

/-- The answer of a step, and the state after it. -/
def answered : EStateM.Result ε σ α → Except ε α × σ
  | .ok a s => (.ok a, s)
  | .error e s => (.error e, s)

theorem refuseIf_eq_ok_iff {c : Prop} [Decidable c] {e : ε} {u : Unit} :
    refuseIf c e = .ok u ↔ ¬c := by
  by_cases h : c <;> simp [refuseIf, h]

theorem refuseIf_eq_error_iff {c : Prop} [Decidable c] {e e' : ε} :
    refuseIf c e = .error e' ↔ c ∧ e = e' := by
  by_cases h : c <;> simp [refuseIf, h]

theorem bind_eq_ok_iff {x : Except ε α} {f : α → Except ε β} {b : β} :
    (x >>= f) = .ok b ↔ ∃ a, x = .ok a ∧ f a = .ok b := by
  cases x <;> simp [bind, Except.bind]

theorem bind_eq_error_iff {x : Except ε α} {f : α → Except ε β} {e : ε} :
    (x >>= f) = .error e ↔ x = .error e ∨ ∃ a, x = .ok a ∧ f a = .error e := by
  cases x <;> simp [bind, Except.bind]

theorem map_eq_ok_iff {x : Except ε α} {f : α → β} {b : β} :
    (f <$> x) = .ok b ↔ ∃ a, x = .ok a ∧ f a = b := by
  cases x <;> simp [Functor.map, Except.map]

theorem map_eq_error_iff {x : Except ε α} {f : α → β} {e : ε} :
    (f <$> x) = .error e ↔ x = .error e := by
  cases x <;> simp [Functor.map, Except.map]

theorem pure_eq_ok_iff {a b : α} : (pure a : Except ε α) = .ok b ↔ a = b := by
  simp [pure, Except.pure]

/-! ## One step for each element of a list -/

theorem mapM_nil_eq_ok_iff {f : α → Except ε β} {bs : List β} :
    ([] : List α).mapM f = .ok bs ↔ bs = [] := by
  simp [pure, Except.pure, eq_comm]

theorem mapM_cons_eq_ok_iff {f : α → Except ε β} {a : α} {as : List α} {bs : List β} :
    (a :: as).mapM f = .ok bs ↔ ∃ b rest, f a = .ok b ∧ as.mapM f = .ok rest ∧ bs = b :: rest := by
  simp only [List.mapM_cons, bind_eq_ok_iff, pure_eq_ok_iff]
  constructor
  · rintro ⟨b, hb, rest, hr, rfl⟩
    exact ⟨b, rest, hb, hr, rfl⟩
  · rintro ⟨b, rest, hb, hr, rfl⟩
    exact ⟨b, hb, rest, hr, rfl⟩

/-- As many results as elements. -/
theorem length_of_mapM_eq_ok {f : α → Except ε β} {as : List α} {bs : List β}
    (h : as.mapM f = .ok bs) : bs.length = as.length := by
  induction as generalizing bs with
  | nil => simp [mapM_nil_eq_ok_iff.1 h]
  | cons a as ih =>
    obtain ⟨b, rest, -, hr, rfl⟩ := mapM_cons_eq_ok_iff.1 h
    simp [ih hr]

end CqlWire
