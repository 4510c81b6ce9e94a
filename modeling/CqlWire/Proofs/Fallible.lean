import CqlWire.Fallible
import Mathlib.Data.List.Forall2

/-!
# Computations that fail together

Two computations run side by side. `FailTogether R x y` says that they both fail, with whatever
errors, or both give results, which `R` relates. Steps that keep this up can be put one after the
other (`failTogether_bind`), also over lists that are related element by element
(`failTogether_mapM`, `failTogether_foldlM`).

A computation over a list fails at one of its elements (`exists_of_mapM_eq_error`,
`exists_of_foldlM_eq_error`), and if it succeeds, so did each step (`mapM_eq_ok_iff`,
`exists_of_foldlM_eq_ok`). So what holds of the errors of each step holds of the errors of the whole:
`FailsOnly E x` says that `E` holds of every error of `x`.
-/

namespace CqlWire

variable {ε α β γ δ : Type}

theorem mapError_eq_ok_iff {ε' : Type} {f : ε → ε'} {x : Except ε α} {a : α} :
    x.mapError f = .ok a ↔ x = .ok a := by
  cases x <;> simp [Except.mapError]

theorem ite_eq_ok_iff {c : Prop} [Decidable c] {a b : α} {e : ε} :
    (if c then .ok a else .error e : Except ε α) = .ok b ↔ c ∧ a = b := by
  by_cases h : c <;> simp [h]

/-- Both fail, or both give results that are related. -/
inductive FailTogether (R : α → β → Prop) : Except ε α → Except ε β → Prop where
  | failed (e e' : ε) : FailTogether R (.error e) (.error e')
  | done {a : α} {b : β} (h : R a b) : FailTogether R (.ok a) (.ok b)

section

variable {R : α → β → Prop} {S : γ → δ → Prop} {x : Except ε α} {y : Except ε β}

theorem FailTogether.of_ok (h : FailTogether R x y) {a : α} {b : β} (hx : x = .ok a)
    (hy : y = .ok b) : R a b := by
  subst hx hy
  cases h with
  | done h => exact h

theorem FailTogether.exists_ok_iff (h : FailTogether R x y) :
    (∃ a, x = .ok a) ↔ ∃ b, y = .ok b := by
  cases h with
  | failed e e' => exact ⟨nofun, nofun⟩
  | @done a b _ => exact ⟨fun _ => ⟨b, rfl⟩, fun _ => ⟨a, rfl⟩⟩

theorem failTogether_self (x : Except ε α) : FailTogether Eq x x := by
  cases x with
  | ok a => exact .done rfl
  | error e => exact .failed e e

/-- Computations that succeed together fail together. -/
theorem failTogether_of_exists_ok_iff (h : (∃ a, x = .ok a) ↔ ∃ b, y = .ok b)
    (hR : ∀ a b, x = .ok a → y = .ok b → R a b) : FailTogether R x y := by
  cases x with
  | ok a =>
    obtain ⟨b, rfl⟩ := h.1 ⟨a, rfl⟩
    exact .done (hR a b rfl rfl)
  | error e =>
    cases y with
    | ok b =>
      obtain ⟨a, ha⟩ := h.2 ⟨b, rfl⟩
      cases ha
    | error e' => exact .failed e e'

/-- Computations with the same results fail together. -/
theorem failTogether_of_ok_iff {x y : Except ε α} (h : ∀ a, x = .ok a ↔ y = .ok a) :
    FailTogether Eq x y := by
  refine failTogether_of_exists_ok_iff (exists_congr h) fun a b hx hy => ?_
  rw [(h a).1 hx] at hy
  exact Except.ok.inj hy

theorem failTogether_mapError {ε' : Type} {f g : ε → ε'} (h : FailTogether R x y) :
    FailTogether R (x.mapError f) (y.mapError g) := by
  cases h with
  | failed e e' => exact .failed (f e) (g e')
  | done h => exact .done h

/-- The same condition refuses on both sides. -/
theorem failTogether_refuseIf {c : Prop} [Decidable c] (e e' : ε) :
    FailTogether Eq (refuseIf c e) (refuseIf c e') := by
  unfold refuseIf
  split
  · exact .failed e e'
  · exact .done rfl

theorem failTogether_bind {f : α → Except ε γ} {g : β → Except ε δ} (h : FailTogether R x y)
    (hfg : ∀ a b, R a b → FailTogether S (f a) (g b)) : FailTogether S (x >>= f) (y >>= g) := by
  cases h with
  | failed e e' => exact .failed e e'
  | done h => exact hfg _ _ h

theorem failTogether_map {f : α → γ} {g : β → δ} (h : FailTogether R x y)
    (hfg : ∀ a b, R a b → S (f a) (g b)) : FailTogether S (f <$> x) (g <$> y) := by
  cases h with
  | failed e e' => exact .failed e e'
  | done h => exact .done (hfg _ _ h)

end

/-! ## Lists -/

/-- Related elements with related companions. -/
theorem forall₂_zip {R : α → β → Prop} {S : γ → δ → Prop} {as : List α} {bs : List β}
    {cs : List γ} {ds : List δ} (h : List.Forall₂ R as bs) (h' : List.Forall₂ S cs ds) :
    List.Forall₂ (fun p q => R p.1 q.1 ∧ S p.2 q.2) (as.zip cs) (bs.zip ds) := by
  induction h generalizing cs ds with
  | nil => exact .nil
  | cons hab _ ih =>
    cases h' with
    | nil => exact .nil
    | cons hcd hrest => exact .cons ⟨hab, hcd⟩ (ih hrest)

theorem forall₂_set {R : α → β → Prop} {as : List α} {bs : List β} (h : List.Forall₂ R as bs)
    (i : Nat) {a : α} {b : β} (hab : R a b) : List.Forall₂ R (as.set i a) (bs.set i b) := by
  induction h generalizing i with
  | nil => exact .nil
  | cons hab' hrest ih =>
    cases i with
    | zero => exact .cons hab hrest
    | succ i => exact .cons hab' (ih i)

/-- A list of what there is for each element. -/
theorem exists_forall₂ {R : α → β → Prop} {as : List α} (h : ∀ a ∈ as, ∃ b, R a b) :
    ∃ bs, List.Forall₂ R as bs := by
  induction as with
  | nil => exact ⟨[], .nil⟩
  | cons a as ih =>
    obtain ⟨⟨b, hb⟩, hrest⟩ := List.forall_mem_cons.1 h
    obtain ⟨bs, hbs⟩ := ih hrest
    exact ⟨b :: bs, .cons hb hbs⟩

/-- A list of what there is for each position. -/
theorem exists_list {P : Nat → α → Prop} {n : Nat} (h : ∀ i < n, ∃ a, P i a) :
    ∃ as : List α, as.length = n ∧ ∀ i a, as[i]? = some a → P i a := by
  induction n with
  | zero => exact ⟨[], rfl, nofun⟩
  | succ n ih =>
    obtain ⟨as, hlen, has⟩ := ih fun i hi => h i (Nat.lt_succ_of_lt hi)
    obtain ⟨a, ha⟩ := h n (Nat.lt_succ_self n)
    refine ⟨as ++ [a], by rw [List.length_append, hlen, List.length_singleton], fun i b hb => ?_⟩
    rcases Nat.lt_or_ge i as.length with hi | hi
    · rw [List.getElem?_append_left hi] at hb
      exact has i b hb
    · rw [List.getElem?_append_right hi, List.getElem?_singleton] at hb
      split at hb
      · cases hb
        obtain rfl : i = n := by omega
        exact ha
      · cases hb

section

variable {P : α → β → Prop} {R : γ → δ → Prop} {as : List α} {bs : List β}

theorem failTogether_mapM {f : α → Except ε γ} {g : β → Except ε δ}
    (hfg : ∀ a b, P a b → FailTogether R (f a) (g b)) (h : List.Forall₂ P as bs) :
    FailTogether (List.Forall₂ R) (as.mapM f) (bs.mapM g) := by
  induction h with
  | nil => exact .done .nil
  | cons hab _ ih =>
    rw [List.mapM_cons, List.mapM_cons]
    refine failTogether_bind (hfg _ _ hab) fun c d hcd => ?_
    exact failTogether_bind ih fun cs ds hall => .done (.cons hcd hall)

theorem failTogether_foldlM {f : γ → α → Except ε γ} {g : δ → β → Except ε δ}
    (hfg : ∀ a b, P a b → ∀ c d, R c d → FailTogether R (f c a) (g d b))
    (h : List.Forall₂ P as bs) {c : γ} {d : δ} (hcd : R c d) :
    FailTogether R (as.foldlM f c) (bs.foldlM g d) := by
  induction h generalizing c d with
  | nil => exact .done hcd
  | cons hab _ ih =>
    rw [List.foldlM_cons, List.foldlM_cons]
    exact failTogether_bind (hfg _ _ hab c d hcd) fun c d h => ih h

theorem failTogether_mapM_eq {f g : α → Except ε β} (hfg : ∀ a, FailTogether Eq (f a) (g a))
    (as : List α) : FailTogether Eq (as.mapM f) (as.mapM g) := by
  rw [← List.forall₂_eq_eq_eq]
  have hself : List.Forall₂ Eq as as := List.forall₂_refl as
  refine failTogether_mapM ?_ hself
  rintro a _ rfl
  exact hfg a

/-- Steps that give the same on related elements give the same on the lists. -/
theorem mapM_eq_of_forall₂ {f : α → Except ε γ} {g : β → Except ε γ}
    (hfg : ∀ a b, P a b → f a = g b) (h : List.Forall₂ P as bs) : as.mapM f = bs.mapM g := by
  induction h with
  | nil => rfl
  | cons hab _ ih => rw [List.mapM_cons, List.mapM_cons, hfg _ _ hab, ih]

end

/-- The results of the steps of a list, one by one. -/
theorem mapM_eq_ok_iff {f : α → Except ε β} {as : List α} {bs : List β} :
    as.mapM f = .ok bs ↔ List.Forall₂ (fun a b => f a = .ok b) as bs := by
  induction as generalizing bs with
  | nil =>
    rw [mapM_nil_eq_ok_iff]
    exact List.forall₂_nil_left_iff.symm
  | cons a as ih =>
    rw [mapM_cons_eq_ok_iff, List.forall₂_cons_left_iff]
    simp only [ih]

/-- The results of the steps of a list, one by one, where each may be lacking. -/
theorem mapM_eq_some_iff {f : α → Option β} {as : List α} {bs : List β} :
    as.mapM f = some bs ↔ List.Forall₂ (fun a b => f a = some b) as bs := by
  induction as generalizing bs with
  | nil =>
    rw [List.mapM_nil, List.forall₂_nil_left_iff]
    exact Option.some_inj.trans eq_comm
  | cons a as ih =>
    rw [List.mapM_cons, List.forall₂_cons_left_iff]
    simp only [Option.bind_eq_bind, Option.bind_eq_some_iff, ih, Option.pure_def, Option.some_inj]
    constructor
    · rintro ⟨b, hb, bs', hbs, rfl⟩
      exact ⟨b, bs', hb, hbs, rfl⟩
    · rintro ⟨b, bs', hb, hbs, rfl⟩
      exact ⟨b, hb, bs', hbs, rfl⟩

theorem mapM_eq_ok_iff_map_eq {f : α → Except ε β} {as : List α} {bs : List β} :
    as.mapM f = .ok bs ↔ as.map f = bs.map Except.ok := by
  rw [mapM_eq_ok_iff, ← List.forall₂_map_left_iff (f := f) (R := fun x b => x = .ok b),
    ← List.forall₂_map_right_iff (f := Except.ok) (R := Eq), List.forall₂_eq_eq_eq]

theorem exists_eq_ok_of_mapM {f : α → Except ε β} {as : List α} {bs : List β}
    (h : as.mapM f = .ok bs) : ∀ a ∈ as, ∃ b, f a = .ok b := by
  have hall := mapM_eq_ok_iff.1 h
  clear h
  induction hall with
  | nil => exact List.forall_mem_nil _
  | cons hab _ ih => exact List.forall_mem_cons.2 ⟨⟨_, hab⟩, ih⟩

/-- Steps that succeed on each element succeed on the list. -/
theorem exists_mapM_eq_ok {f : α → Except ε β} {as : List α} (h : ∀ a ∈ as, ∃ b, f a = .ok b) :
    ∃ bs, as.mapM f = .ok bs := by
  induction as with
  | nil => exact ⟨[], rfl⟩
  | cons a as ih =>
    obtain ⟨⟨b, hb⟩, hrest⟩ := List.forall_mem_cons.1 h
    obtain ⟨bs, hbs⟩ := ih hrest
    exact ⟨b :: bs, mapM_cons_eq_ok_iff.2 ⟨b, bs, hb, hbs, rfl⟩⟩

/-- What stands at a place on the left has a partner at that place on the right. -/
theorem getElem?_of_forall₂ {R : α → β → Prop} {as : List α} {bs : List β}
    (h : List.Forall₂ R as bs) {i : Nat} {a : α} (ha : as[i]? = some a) :
    ∃ b, bs[i]? = some b ∧ R a b := by
  obtain ⟨hlen, hget⟩ := List.forall₂_iff_get.1 h
  obtain ⟨hi, rfl⟩ := List.getElem?_eq_some_iff.1 ha
  have hi' : i < bs.length := by rwa [← hlen]
  exact ⟨bs[i], List.getElem?_eq_getElem hi', hget i hi hi'⟩

theorem forall₂_of_getElem? {R : α → β → Prop} {as : List α} {bs : List β}
    (hlen : as.length = bs.length)
    (h : ∀ (i : Nat) (a : α) (b : β), as[i]? = some a → bs[i]? = some b → R a b) :
    List.Forall₂ R as bs := by
  refine List.forall₂_iff_get.2 ⟨hlen, fun i hi hi' => ?_⟩
  exact h i _ _ (List.getElem?_eq_getElem hi) (List.getElem?_eq_getElem hi')

theorem getElem?_of_mapM_eq_ok {f : α → Except ε β} {as : List α} {bs : List β}
    (h : as.mapM f = .ok bs) {i : Nat} {a : α} (ha : as[i]? = some a) :
    ∃ b, bs[i]? = some b ∧ f a = .ok b :=
  getElem?_of_forall₂ (mapM_eq_ok_iff.1 h) ha

/-- Steps that change nothing change nothing one after another. -/
theorem foldlM_eq_self {f : β → α → Except ε β} {as : List α} {b : β}
    (h : ∀ a ∈ as, f b a = .ok b) : as.foldlM f b = .ok b := by
  induction as with
  | nil => rfl
  | cons a as ih =>
    rw [List.foldlM_cons, h a List.mem_cons_self]
    exact ih fun a' ha' => h a' (List.mem_cons_of_mem _ ha')

/-- What every step keeps holds after all of them. -/
theorem of_foldlM_eq_ok {P : β → Prop} {f : β → α → Except ε β}
    (hstep : ∀ b a b', P b → f b a = .ok b' → P b') {as : List α} {b c : β} (hb : P b)
    (h : as.foldlM f b = .ok c) : P c := by
  induction as generalizing b with
  | nil =>
    cases h
    exact hb
  | cons a as ih =>
    rw [List.foldlM_cons, bind_eq_ok_iff] at h
    obtain ⟨b', hb', hrest⟩ := h
    exact ih (hstep b a b' hb hb') hrest

/-! ## The step that fails -/

theorem exists_bind_eq_error {x : Except ε α} {f : α → Except ε β} (h : ∃ e, x = .error e) :
    ∃ e, (x >>= f) = .error e := by
  obtain ⟨e, he⟩ := h
  exact ⟨e, bind_eq_error_iff.2 (.inl he)⟩

theorem exists_of_mapM_eq_error {f : α → Except ε β} {as : List α} {e : ε}
    (h : as.mapM f = .error e) : ∃ a ∈ as, f a = .error e := by
  induction as with
  | nil => cases h
  | cons a as ih =>
    rw [List.mapM_cons, bind_eq_error_iff] at h
    rcases h with h | ⟨b, -, h⟩
    · exact ⟨a, List.mem_cons_self, h⟩
    · rw [bind_eq_error_iff] at h
      rcases h with h | ⟨bs, -, h⟩
      · obtain ⟨a', ha', he⟩ := ih h
        exact ⟨a', List.mem_cons_of_mem _ ha', he⟩
      · cases h

theorem exists_of_foldlM_eq_error {f : β → α → Except ε β} {as : List α} {b : β} {e : ε}
    (h : as.foldlM f b = .error e) : ∃ a ∈ as, ∃ b', f b' a = .error e := by
  induction as generalizing b with
  | nil => cases h
  | cons a as ih =>
    rw [List.foldlM_cons, bind_eq_error_iff] at h
    rcases h with h | ⟨b', -, h⟩
    · exact ⟨a, List.mem_cons_self, b, h⟩
    · obtain ⟨a', ha', he⟩ := ih h
      exact ⟨a', List.mem_cons_of_mem _ ha', he⟩

theorem exists_of_foldlM_eq_ok {f : β → α → Except ε β} {as : List α} {b c : β}
    (h : as.foldlM f b = .ok c) : ∀ a ∈ as, ∃ b' c', f b' a = .ok c' := by
  induction as generalizing b with
  | nil => exact List.forall_mem_nil _
  | cons a as ih =>
    rw [List.foldlM_cons, bind_eq_ok_iff] at h
    obtain ⟨b', hb', hrest⟩ := h
    exact List.forall_mem_cons.2 ⟨⟨b, b', hb'⟩, ih hrest⟩

/-! ## Kinds of errors -/

/-- If the computation fails, then with such an error. -/
def FailsOnly (E : ε → Prop) (x : Except ε α) : Prop :=
  ∀ e, x = .error e → E e

section

variable {E : ε → Prop} {x : Except ε α}

theorem failsOnly_mono {E' : ε → Prop} (hE : ∀ e, E e → E' e) (h : FailsOnly E x) :
    FailsOnly E' x :=
  fun e he => hE e (h e he)

theorem failsOnly_ok (a : α) : FailsOnly E (.ok a) :=
  nofun

theorem failsOnly_error {e : ε} (h : E e) : FailsOnly E (.error e : Except ε α) := by
  rintro e' heq
  cases heq
  exact h

theorem failsOnly_refuseIf {c : Prop} [Decidable c] {e : ε} (h : E e) :
    FailsOnly E (refuseIf c e) := by
  intro e' heq
  rw [← (refuseIf_eq_error_iff.1 heq).2]
  exact h

theorem failsOnly_bind {f : α → Except ε β} (hx : FailsOnly E x)
    (hf : ∀ a, x = .ok a → FailsOnly E (f a)) : FailsOnly E (x >>= f) := by
  intro e he
  rcases bind_eq_error_iff.1 he with he | ⟨a, ha, he⟩
  · exact hx e he
  · exact hf a ha e he

theorem failsOnly_map (f : α → β) (hx : FailsOnly E x) : FailsOnly E (f <$> x) :=
  fun e he => hx e (map_eq_error_iff.1 he)

theorem failsOnly_mapM {f : α → Except ε β} {as : List α} (h : ∀ a ∈ as, FailsOnly E (f a)) :
    FailsOnly E (as.mapM f) := by
  intro e he
  obtain ⟨a, ha, hfails⟩ := exists_of_mapM_eq_error he
  exact h a ha e hfails

end

end CqlWire
