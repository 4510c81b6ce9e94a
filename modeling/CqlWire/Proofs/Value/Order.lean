import CqlWire.Value.Order
import Mathlib.Data.Rat.Lemmas
import Mathlib.Algebra.Order.Field.Rat
import Mathlib.Algebra.Order.Field.Basic
import Mathlib.Tactic.Positivity

/-!
# The order of values is an order

`Value.compare` is total and transitive on values of every kind, so containers can be kept in its
order (`instTransCmpCompare`). It goes by kinds: between kinds the rank decides, within one kind the
comparison of what the values hold (`lawfulAt_of_kind`). Values are taken apart by induction on
their parts (`induction_parts`), at which the laws are known, hence laws at one left argument
(`LawfulAt`).
-/

namespace CqlWire

variable {α β : Type}

/-! ## Laws at one value -/

/-- The comparison obeys the laws of an order wherever `a` is on the left. -/
structure LawfulAt (cmp : α → α → Ordering) (a : α) : Prop where
  swap (b : α) : cmp a b = (cmp b a).swap
  trans (b c : α) (hab : cmp a b ≠ .gt) (hbc : cmp b c ≠ .gt) : cmp a c = (cmp a b).then (cmp b c)

namespace LawfulAt

theorem of_transCmp {cmp : α → α → Ordering} [Std.TransCmp cmp] (a : α) : LawfulAt cmp a where
  swap b := Std.OrientedCmp.eq_swap
  trans b c hab hbc := by
    cases h : cmp a b with
    | gt => exact absurd h hab
    | lt =>
      have hbc' : (cmp b c).isLE = true := by cases h' : cmp b c <;> simp_all
      exact Std.TransCmp.lt_of_lt_of_isLE h hbc'
    | eq => exact Std.TransCmp.congr_left h

/-- What is compared by a view obeys the laws of the view. -/
theorem comap {cmp : β → β → Ordering} (f : α → β) {a : α} (h : LawfulAt cmp (f a)) :
    LawfulAt (fun a b => cmp (f a) (f b)) a :=
  ⟨fun b => h.swap (f b), fun b c => h.trans (f b) (f c)⟩

/-- A comparison that decides between what another leaves equal. -/
theorem lex {cmp cmp' : α → α → Ordering} {a : α} (h : LawfulAt cmp a) (h' : LawfulAt cmp' a) :
    LawfulAt (fun a b => (cmp a b).then (cmp' a b)) a where
  swap b := by rw [h.swap b, h'.swap b, Ordering.swap_then]
  trans b c hab hbc := by
    have ht := h.trans b c
    have ht' := h'.trans b c
    revert hab hbc ht ht'
    cases cmp a b <;> cases cmp b c <;> cases cmp' a b <;> cases cmp' b c <;> simp +contextual

/-- The lexicographic order of lists. -/
theorem lists {cmp : α → α → Ordering} {as : List α} (h : ∀ a ∈ as, LawfulAt cmp a) :
    LawfulAt (compareLists cmp) as := by
  induction as with
  | nil =>
    refine ⟨fun bs => ?_, fun bs cs hab hbc => ?_⟩
    · cases bs <;> rfl
    · cases bs <;> cases cs <;> simp_all [compareLists]
  | cons a as ih =>
    have ha := h a List.mem_cons_self
    have has := ih fun b hb => h b (List.mem_cons_of_mem _ hb)
    refine ⟨fun bs => ?_, fun bs cs hab hbc => ?_⟩
    · cases bs with
      | nil => rfl
      | cons b bs => simp only [compareLists, ha.swap b, has.swap bs, Ordering.swap_then]
    · cases bs with
      | nil => simp [compareLists] at hab
      | cons b bs =>
        cases cs with
        | nil => simp [compareLists] at hbc
        | cons c cs =>
          have ht := ha.trans b c
          have hts := has.trans bs cs
          simp only [compareLists] at hab hbc ⊢
          revert hab hbc ht hts
          cases cmp a b <;> cases cmp b c <;> cases compareLists cmp as bs <;>
            cases compareLists cmp bs cs <;> simp +contextual

end LawfulAt

/-! ## Parts without parts -/

/-- Decimals are compared as the numbers that they stand for. -/
theorem Decimal.compare_eq (a b : Decimal) :
    a.compare b =
      Ord.compare ((a.mantissa : ℚ) / 10 ^ a.scale) ((b.mantissa : ℚ) / 10 ^ b.scale) := by
  have ha : (0 : ℚ) < 10 ^ a.scale := by positivity
  have hb : (0 : ℚ) < 10 ^ b.scale := by positivity
  have hlt : (a.mantissa : ℚ) / 10 ^ a.scale < (b.mantissa : ℚ) / 10 ^ b.scale ↔
      a.mantissa * 10 ^ b.scale < b.mantissa * 10 ^ a.scale := by
    rw [div_lt_div_iff₀ ha hb]
    exact_mod_cast Iff.rfl
  have heq : (a.mantissa : ℚ) / 10 ^ a.scale = (b.mantissa : ℚ) / 10 ^ b.scale ↔
      a.mantissa * 10 ^ b.scale = b.mantissa * 10 ^ a.scale := by
    rw [div_eq_div_iff ha.ne' hb.ne']
    exact_mod_cast Iff.rfl
  simp only [Decimal.compare, compareOfLessAndEq, Ord.compare, hlt, heq, Nat.pow_eq, Nat.cast_pow,
    Nat.cast_ofNat]

theorem lawfulAt_decimal (a : Decimal) : LawfulAt Decimal.compare a := by
  have h : Decimal.compare = fun a b : Decimal =>
      Ord.compare ((a.mantissa : ℚ) / 10 ^ a.scale) ((b.mantissa : ℚ) / 10 ^ b.scale) :=
    funext fun a => funext fun b => Decimal.compare_eq a b
  rw [h]
  exact .comap (fun a : Decimal => (a.mantissa : ℚ) / 10 ^ a.scale) (.of_transCmp _)

theorem lawfulAt_time (a : TimeOfDay) : LawfulAt TimeOfDay.compare a :=
  .lex (.comap TimeOfDay.seconds (.of_transCmp _)) (.comap TimeOfDay.nanos (.of_transCmp _))

theorem lawfulAt_instant (a : Instant) : LawfulAt Instant.compare a :=
  .lex (.comap (fun t : Instant => t.date.days) (.of_transCmp _))
    (.comap Instant.time (lawfulAt_time a.time))

theorem lawfulAt_unscaled (a : UnscaledDecimal) : LawfulAt (fun a b : UnscaledDecimal =>
    (Ord.compare a.unscaled b.unscaled).then (Ord.compare a.scale b.scale)) a :=
  .lex (.comap UnscaledDecimal.unscaled (.of_transCmp _))
    (.comap UnscaledDecimal.scale (.of_transCmp _))

theorem lawfulAt_bytes (a : Bytes) : LawfulAt (compareLists Ord.compare) a :=
  .lists fun b _ => .of_transCmp b

theorem lawfulAt_inet (a : Inet) : LawfulAt Inet.compare a :=
  .lex (.comap (fun a : Inet => a.bytes.length) (.of_transCmp _))
    (.comap Inet.bytes (lawfulAt_bytes a.bytes))

/-! ## Values -/

namespace Value

/-- The values that a value is made of directly. -/
def parts : Value → List Value
  | .present v => [v]
  | .sequence vs | .record vs => vs
  | .mapping es => es.flatMap fun e => [e.1, e.2]
  | _ => []

theorem sizeOf_parts {v u : Value} (h : u ∈ v.parts) : sizeOf u < sizeOf v := by
  cases v with
  | present w =>
    simp only [parts, List.mem_singleton] at h
    simp [h]
  | sequence vs | record vs =>
    have : sizeOf u < sizeOf vs := List.sizeOf_lt_of_mem h
    simp only [sequence.sizeOf_spec, record.sizeOf_spec]
    omega
  | mapping es =>
    simp only [parts, List.mem_flatMap, List.mem_cons, List.not_mem_nil, or_false] at h
    obtain ⟨⟨k, w⟩, he, h⟩ := h
    have := List.sizeOf_lt_of_mem he
    simp only [Prod.mk.sizeOf_spec] at this
    simp only [mapping.sizeOf_spec]
    rcases h with rfl | rfl <;> omega
  | _ => simp [parts] at h

/-- What holds of a value if it holds of its parts holds of every value. -/
theorem induction_parts {P : Value → Prop} (step : ∀ v, (∀ u ∈ v.parts, P u) → P v) (v : Value) :
    P v :=
  step v fun u _ => induction_parts step u
termination_by v
decreasing_by exact sizeOf_parts ‹_›

/-- Between kinds the rank decides. -/
theorem compare_of_rank_ne {a b : Value} (h : a.rank ≠ b.rank) :
    a.compare b = Ord.compare a.rank b.rank := by
  cases a <;> cases b <;> first | rfl | exact absurd rfl h

theorem rank_le_of_compare {a b : Value} (h : a.compare b ≠ .gt) : a.rank ≤ b.rank := by
  by_cases hr : a.rank = b.rank
  · omega
  · rw [compare_of_rank_ne hr] at h
    exact Nat.compare_ne_gt.1 h

theorem compare_of_rank_lt {a b : Value} (h : a.rank < b.rank) : a.compare b = .lt := by
  rw [compare_of_rank_ne (by omega), Nat.compare_eq_lt.2 h]

theorem compareAll_eq (as bs : List Value) : compareAll as bs = compareLists compare as bs := by
  induction as generalizing bs with
  | nil => cases bs <;> rfl
  | cons a as ih => cases bs <;> simp [compareAll, compareLists, ih]

theorem compareEntries_eq (as bs : List (Value × Value)) : compareEntries as bs =
    compareLists (fun a b => (a.1.compare b.1).then (a.2.compare b.2)) as bs := by
  induction as generalizing bs with
  | nil => cases bs <;> rfl
  | cons a as ih => cases bs <;> simp [compareEntries, compareLists, ih]

/-- Within one kind the comparison of what the values hold decides. -/
theorem lawfulAt_of_kind (cmp : β → β → Ordering) (make : β → Value) {x : β} (h : LawfulAt cmp x)
    (hcmp : ∀ x y, (make x).compare (make y) = cmp x y)
    (hkind : ∀ v : Value, v.rank = (make x).rank → ∃ y, v = make y := by
      intro v hv
      cases v <;> first | exact ⟨_, rfl⟩ | simp [rank] at hv) :
    LawfulAt compare (make x) where
  swap b := by
    by_cases hb : b.rank = (make x).rank
    · obtain ⟨y, rfl⟩ := hkind b hb
      rw [hcmp, hcmp, h.swap y]
    · rw [compare_of_rank_ne hb, compare_of_rank_ne (Ne.symm hb)]
      exact Std.OrientedCmp.eq_swap
  trans b c hab hbc := by
    have hr := rank_le_of_compare hab
    have hr' := rank_le_of_compare hbc
    rcases Nat.lt_or_ge (make x).rank b.rank with hlt | hge
    · rw [compare_of_rank_lt hlt, compare_of_rank_lt (show (make x).rank < c.rank by omega)]
      rfl
    obtain ⟨y, rfl⟩ := hkind b (by omega)
    rcases Nat.lt_or_ge (make y).rank c.rank with hlt | hge'
    · rw [compare_of_rank_lt hlt, compare_of_rank_lt (show (make x).rank < c.rank by omega)]
      revert hab
      cases (make x).compare (make y) <;> simp
    obtain ⟨z, rfl⟩ := hkind c (by omega)
    rw [hcmp] at hab hbc ⊢
    rw [hcmp, hcmp]
    exact h.trans y z hab hbc

/-- The order of values obeys the laws of an order wherever a value is on the left. -/
theorem lawfulAt_compare (v : Value) : LawfulAt compare v := by
  induction v using induction_parts with
  | step v ih =>
    cases v with
    | bool b => exact lawfulAt_of_kind Ord.compare .bool (.of_transCmp b) (fun _ _ => rfl)
    | int n => exact lawfulAt_of_kind Ord.compare .int (.of_transCmp n) (fun _ _ => rfl)
    | float n => exact lawfulAt_of_kind Ord.compare .float (.of_transCmp n) (fun _ _ => rfl)
    | double n => exact lawfulAt_of_kind Ord.compare .double (.of_transCmp n) (fun _ _ => rfl)
    | text s =>
      exact lawfulAt_of_kind (compareLists Ord.compare) .text (.lists fun c _ => .of_transCmp c)
        (fun _ _ => rfl)
    | bytes bs => exact lawfulAt_of_kind _ .bytes (lawfulAt_bytes bs) (fun _ _ => rfl)
    | uuid u =>
      exact lawfulAt_of_kind (fun a b => compareLists Ord.compare a.1 b.1) .uuid
        (.comap Subtype.val (lawfulAt_bytes u.1)) (fun _ _ => rfl)
    | instant t => exact lawfulAt_of_kind _ .instant (lawfulAt_instant t) (fun _ _ => rfl)
    | date d =>
      exact lawfulAt_of_kind (fun a b => Ord.compare a.days b.days) .date
        (.comap Date.days (.of_transCmp _)) (fun _ _ => rfl)
    | time t => exact lawfulAt_of_kind _ .time (lawfulAt_time t) (fun _ _ => rfl)
    | unscaled d => exact lawfulAt_of_kind _ .unscaled (lawfulAt_unscaled d) (fun _ _ => rfl)
    | decimal d => exact lawfulAt_of_kind _ .decimal (lawfulAt_decimal d) (fun _ _ => rfl)
    | inet a => exact lawfulAt_of_kind _ .inet (lawfulAt_inet a) (fun _ _ => rfl)
    | absent =>
      refine lawfulAt_of_kind (fun _ _ => .eq) (fun _ : Unit => .absent) (x := ())
        ⟨fun _ => rfl, fun _ _ _ _ => rfl⟩ (fun _ _ => rfl) fun v hv => ⟨(), ?_⟩
      cases v <;> first | rfl | simp [rank] at hv
    | present v =>
      exact lawfulAt_of_kind compare .present (ih v (by simp [parts])) (fun _ _ => rfl)
    | sequence vs =>
      exact lawfulAt_of_kind (compareLists compare) .sequence (.lists fun v hv => ih v hv)
        compareAll_eq
    | mapping es =>
      have part : ∀ e ∈ es, ∀ v ∈ [e.1, e.2], LawfulAt compare v := fun e he v hv =>
        ih v (List.mem_flatMap.2 ⟨e, he, hv⟩)
      exact lawfulAt_of_kind _ .mapping (.lists fun e he => .lex
        (.comap Prod.fst (part e he e.1 (by simp))) (.comap Prod.snd (part e he e.2 (by simp))))
        compareEntries_eq
    | variant n => exact lawfulAt_of_kind Ord.compare .variant (.of_transCmp n) (fun _ _ => rfl)
    | record vs =>
      exact lawfulAt_of_kind (compareLists compare) .record (.lists fun v hv => ih v hv)
        compareAll_eq

instance : Std.OrientedCmp compare where
  eq_swap := (lawfulAt_compare _).swap _

instance : Std.TransCmp compare where
  isLE_trans {a b c} hab hbc := by
    have h := (lawfulAt_compare a).trans b c
    revert hab hbc h
    cases compare a b <;> cases compare b c <;> simp +contextual

end Value

end CqlWire
