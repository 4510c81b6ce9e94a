import CqlWire.Codec.Built
import CqlWire.Registry
import Mathlib.Data.List.Basic

/-!
# Which registration is found

A look-up finds the last registration that fits (`Registry.Selects`, `latest?_eq_some_iff`). A codec
with absence also takes the samples of the codec inside it, so which of the two is found depends on
the order in which they are registered. In a registry that has got every codec behind itself with
absence (`Registry.ofNullable`) a sample finds what its type finds
(`Registry.resolve_agrees_with_resolveFor`): the codec itself, or for an option the one with
absence.
-/

namespace CqlWire

namespace Codec

/-- A codec whose values are never absent takes the samples of its own type only. -/
theorem acceptsSample_of_not_isNullable {c : Codec} (h : c.valueType.isNullable = false)
    (s : Sample) : c.acceptsSample s = c.holds s := by
  match c with
  | .shared c => exact acceptsSample_of_not_isNullable (c := c) h s
  | .option c => cases h
  | .scalar _ | .decimal | .enumeration .. | .elements .. | .entries .. | .record .. => rfl

theorem not_isOption_of_not_isNullable {c : Codec} (h : c.valueType.isNullable = false) :
    ¬c.IsOption := by
  match c with
  | .shared c => exact not_isOption_of_not_isNullable (c := c) h
  | .option c => cases h
  | .scalar _ | .decimal | .enumeration .. | .elements .. | .entries .. | .record .. => exact id

end Codec

namespace Registry

/-! ## The last registration -/

/-- The registration at a position is of the codec and fits, and no later one does. -/
structure Selects (r : Registry) (p : Codec → Bool) (i : Nat) (c : Codec) : Prop where
  registered : r.codecs[i]? = some c
  fits : p c = true
  last : ∀ j d, i < j → r.codecs[j]? = some d → p d = false

theorem latest?_eq_some_iff {r : Registry} {p : Codec → Bool} {c : Codec} :
    r.latest? p = some c ↔ ∃ i, r.Selects p i c := by
  rw [latest?, List.find?_eq_some_iff_append]
  constructor
  · rintro ⟨hp, later, earlier, hsplit, hlater⟩
    have hcodecs : r.codecs = earlier.reverse ++ c :: later.reverse := by
      rw [← List.reverse_reverse r.codecs, hsplit]
      simp
    have hlen : earlier.reverse.length = earlier.length := List.length_reverse
    refine ⟨earlier.length, ?_, hp, fun j d hj hd => ?_⟩
    · rw [hcodecs, List.getElem?_append_right (by omega), hlen, Nat.sub_self]
      rfl
    · rw [hcodecs, List.getElem?_append_right (by omega), hlen,
        List.getElem?_cons, if_neg (by omega)] at hd
      have hmem : d ∈ later := List.mem_reverse.1 (List.mem_of_getElem? hd)
      simpa using hlater d hmem
  · rintro ⟨i, hi, hp, hlast⟩
    obtain ⟨hlt, rfl⟩ := List.getElem?_eq_some_iff.1 hi
    refine ⟨hp, (r.codecs.drop (i + 1)).reverse, (r.codecs.take i).reverse, ?_, fun d hd => ?_⟩
    · have hsplit : r.codecs.take i ++ r.codecs[i] :: r.codecs.drop (i + 1) = r.codecs := by
        rw [List.getElem_cons_drop, List.take_append_drop]
      have hreverse := congrArg List.reverse hsplit
      rw [← hreverse]
      simp
    · obtain ⟨j, hj⟩ := List.mem_iff_getElem?.1 (List.mem_reverse.1 hd)
      rw [List.getElem?_drop] at hj
      rw [hlast _ d (by omega) hj]
      rfl

theorem latest?_eq_none_iff {r : Registry} {p : Codec → Bool} :
    r.latest? p = none ↔ ∀ c ∈ r.codecs, p c = false := by
  rw [latest?, List.find?_eq_none]
  simp

/-- What fits the type of a sample and a column type. -/
def fitsType (t : SampleType) (w : ColumnType) (c : Codec) : Bool :=
  t = .stored c.valueType && c.acceptsType w

/-- What fits a sample and a column type. -/
def fitsSample (s : Sample) (w : ColumnType) (c : Codec) : Bool :=
  c.acceptsType w && c.acceptsSample s

/-! ## Every codec behind itself with absence -/

/-- The registry that has got the codecs in turn, each with and without absence. -/
def ofNullable (cs : List Codec) : Registry :=
  cs.foldl registerNullable empty

/-- What is added to the default registry stands behind the scalar codecs. -/
theorem foldl_registerNullable_withDefaults (cs : List Codec) :
    cs.foldl registerNullable withDefaults = ofNullable (scalarCodecs ++ cs) :=
  List.foldl_append.symm

theorem codecs_foldl_registerNullable (cs : List Codec) (r : Registry) :
    (cs.foldl registerNullable r).codecs = r.codecs ++ cs.flatMap fun c => [.option c, c] := by
  induction cs generalizing r with
  | nil => simp
  | cons c cs ih =>
    rw [List.foldl_cons, ih]
    simp [registerNullable, register]

theorem codecs_ofNullable (cs : List Codec) :
    (ofNullable cs).codecs = cs.flatMap fun c => [.option c, c] :=
  codecs_foldl_registerNullable cs empty

/-- The codec with absence stands at twice the position of the codec, the codec itself behind. -/
theorem getElem?_ofNullable (cs : List Codec) (k : Nat) :
    (ofNullable cs).codecs[2 * k]? = cs[k]?.map Codec.option ∧
      (ofNullable cs).codecs[2 * k + 1]? = cs[k]? := by
  rw [codecs_ofNullable]
  induction cs generalizing k with
  | nil => exact ⟨rfl, rfl⟩
  | cons c cs ih =>
    cases k with
    | zero => exact ⟨rfl, rfl⟩
    | succ k => exact ih k

theorem mem_ofNullable {cs : List Codec} {d : Codec} (h : d ∈ (ofNullable cs).codecs) :
    ∃ c ∈ cs, d = .option c ∨ d = c := by
  rw [codecs_ofNullable, List.mem_flatMap] at h
  obtain ⟨c, hc, hd⟩ := h
  exact ⟨c, hc, by simpa using hd⟩

/-- What stands behind the last codec that fits does not fit, with and without absence. -/
theorem not_fits_of_later {cs : List Codec} {p q : Codec → Bool}
    (hpq : ∀ c ∈ cs, q c = false → p c = false ∧ p (.option c) = false) {k : Nat} {c : Codec}
    (h : (Registry.mk cs).Selects q k c) {j : Nat} (hj : 2 * k + 1 < j) {d : Codec}
    (hd : (ofNullable cs).codecs[j]? = some d) : p d = false := by
  have heach : ∀ {m : Nat} {e : Codec}, k < m → cs[m]? = some e →
      p e = false ∧ p (.option e) = false := fun hm he =>
    hpq _ (List.mem_of_getElem? he) (h.last _ _ hm he)
  obtain ⟨heven, hodd⟩ := getElem?_ofNullable cs (j / 2)
  rcases Nat.mod_two_eq_zero_or_one j with hmod | hmod
  · rw [show 2 * (j / 2) = j by omega, hd] at heven
    obtain ⟨e, he, rfl⟩ := Option.map_eq_some_iff.1 heven.symm
    exact (heach (by omega) he).2
  · rw [show 2 * (j / 2) + 1 = j by omega, hd] at hodd
    exact (heach (by omega) hodd.symm).1

theorem selects_plain {cs : List Codec} {p q : Codec → Bool}
    (hp : ∀ c ∈ cs, p c = q c ∧ (p (.option c) = true → q c = true)) {k : Nat} {c : Codec}
    (h : (Registry.mk cs).Selects q k c) : (ofNullable cs).Selects p (2 * k + 1) c := by
  have hk : cs[k]? = some c := h.registered
  refine ⟨(getElem?_ofNullable cs k).2.trans hk, ?_, fun j d hj hd => ?_⟩
  · rw [(hp c (List.mem_of_getElem? hk)).1, h.fits]
  · refine not_fits_of_later (fun e he hq => ?_) h hj hd
    obtain ⟨hplain, hoption⟩ := hp e he
    refine ⟨hplain.trans hq, Bool.eq_false_iff.2 fun htrue => ?_⟩
    rw [hoption htrue] at hq
    cases hq

theorem selects_option {cs : List Codec} {p q : Codec → Bool}
    (hp : ∀ c ∈ cs, p c = false ∧ p (.option c) = q c) {k : Nat} {c : Codec}
    (h : (Registry.mk cs).Selects q k c) : (ofNullable cs).Selects p (2 * k) (.option c) := by
  have hk : cs[k]? = some c := h.registered
  obtain ⟨heven, hodd⟩ := getElem?_ofNullable cs k
  refine ⟨by rw [heven, hk, Option.map_some], ?_, fun j d hj hd => ?_⟩
  · rw [(hp c (List.mem_of_getElem? hk)).2, h.fits]
  · by_cases hnext : j = 2 * k + 1
    · rw [hnext, hodd, hk, Option.some.injEq] at hd
      rw [← hd, (hp c (List.mem_of_getElem? hk)).1]
    · refine not_fits_of_later (fun e he hq => ?_) h (by omega) hd
      obtain ⟨hplain, hoption⟩ := hp e he
      exact ⟨hplain, hoption.trans hq⟩

theorem latest?_ofNullable_eq_none {cs : List Codec} {p q : Codec → Bool}
    (hp : ∀ c ∈ cs, q c = false → p c = false ∧ p (.option c) = false)
    (h : (Registry.mk cs).latest? q = none) : (ofNullable cs).latest? p = none := by
  rw [latest?_eq_none_iff] at h ⊢
  intro d hd
  obtain ⟨c, hc, rfl | rfl⟩ := mem_ofNullable hd
  · exact (hp c hc (h c hc)).2
  · exact (hp _ hc (h _ hc)).1

/-! ## Samples and their types -/

/-- What the look-ups by the type of a sample and by the sample itself find, if they both find the
same registration. -/
structure Finds (r : Registry) (s : Sample) (w : ColumnType) (i : Nat) (c : Codec) : Prop where
  typed : r.Selects (fitsType s.type w) i c
  erased : r.Selects (fitsSample s w) i c
  resolve_eq : r.resolve s.type w = .ok c
  resolveFor_eq : r.resolveFor w (some s) = .ok c

/-- Neither look-up finds a codec. -/
structure FindsNone (r : Registry) (s : Sample) (w : ColumnType) : Prop where
  resolve_eq : r.resolve s.type w = .error (.codecNotFound w.toText s.type.name)
  resolveFor_eq : r.resolveFor w (some s) = .error (.codecNotFound w.toText "given sample")

theorem finds_of_selects {r : Registry} {s : Sample} {w : ColumnType} {i : Nat} {c : Codec}
    (htyped : r.Selects (fitsType s.type w) i c) (herased : r.Selects (fitsSample s w) i c) :
    r.Finds s w i c := by
  refine ⟨htyped, herased, ?_, ?_⟩
  · exact congrArg (orNotFound _ _) (latest?_eq_some_iff.2 ⟨i, htyped⟩)
  · exact congrArg (orNotFound _ _) (latest?_eq_some_iff.2 ⟨i, herased⟩)

theorem findsNone_of_latest? {r : Registry} {s : Sample} {w : ColumnType}
    (htyped : r.latest? (fitsType s.type w) = none)
    (herased : r.latest? (fitsSample s w) = none) : r.FindsNone s w :=
  ⟨congrArg (orNotFound _ _) htyped, congrArg (orNotFound _ _) herased⟩

section

variable {cs : List Codec} (hcs : ∀ c ∈ cs, c.valueType.isNullable = false) (w : ColumnType)
  {s : Sample}

include hcs

/-- A sample that is no option finds the codec itself, as its type does. -/
theorem finds_plain (hs : ∀ t, s.type ≠ .stored (.option t)) :
    (ofNullable cs).FindsNone s w ∨
      ∃ k c, cs[k]? = some c ∧ ¬c.IsOption ∧ (ofNullable cs).Finds s w (2 * k + 1) c := by
  have hoption : ∀ c : Codec, (Codec.option c).holds s = false := fun c =>
    decide_eq_false (hs c.valueType)
  have htyped : ∀ c : Codec, fitsType s.type w (.option c) = false := fun c => by
    have hne := hoption c
    rw [Codec.holds] at hne
    rw [fitsType, hne, Bool.false_and]
  have herased : ∀ c ∈ cs, fitsSample s w c = fitsType s.type w c ∧
      fitsSample s w (.option c) = fitsType s.type w c := by
    intro c hc
    have haccepts := Codec.acceptsSample_of_not_isNullable (hcs c hc) s
    have hplain : fitsSample s w c = fitsType s.type w c := by
      rw [fitsSample, haccepts, Bool.and_comm, Codec.holds, fitsType]
    refine ⟨hplain, ?_⟩
    rw [← hplain, fitsSample, fitsSample, Codec.acceptsSample, hoption, Bool.false_or]
    rfl
  cases hlatest : (Registry.mk cs).latest? (fitsType s.type w) with
  | none =>
    refine .inl (findsNone_of_latest? ?_ ?_)
    · exact latest?_ofNullable_eq_none (fun c _ hc => ⟨hc, htyped c⟩) hlatest
    · refine latest?_ofNullable_eq_none (fun c hmem hc => ?_) hlatest
      exact ⟨(herased c hmem).1.trans hc, (herased c hmem).2.trans hc⟩
  | some c =>
    obtain ⟨k, hk⟩ := latest?_eq_some_iff.1 hlatest
    have hmem : c ∈ cs := List.mem_of_getElem? hk.registered
    refine .inr ⟨k, c, hk.registered, Codec.not_isOption_of_not_isNullable (hcs c hmem), ?_⟩
    refine finds_of_selects (selects_plain (fun c _ => ⟨rfl, fun h => ?_⟩) hk)
      (selects_plain (fun c hc => ⟨(herased c hc).1, fun h => ?_⟩) hk)
    · rw [htyped c] at h
      cases h
    · rw [← (herased c hc).2, h]

/-- An option finds the codec with absence, as its type does. -/
theorem finds_option {t : ValueType} (hs : s.type = .stored (.option t)) :
    (ofNullable cs).FindsNone s w ∨
      ∃ k c, cs[k]? = some c ∧ (ofNullable cs).Finds s w (2 * k) (.option c) := by
  have hplain : ∀ c ∈ cs, c.holds s = false := by
    refine fun c hc => decide_eq_false fun heq => ?_
    have hnull := hcs c hc
    rw [← SampleType.stored.inj (hs.symm.trans heq)] at hnull
    cases hnull
  have htyped : ∀ c ∈ cs, fitsType s.type w c = false := fun c hc => by
    have hne := hplain c hc
    rw [Codec.holds] at hne
    rw [fitsType, hne, Bool.false_and]
  have herased : ∀ c ∈ cs, fitsSample s w c = false ∧
      fitsSample s w (.option c) = fitsType s.type w (.option c) := by
    intro c hc
    have haccepts := Codec.acceptsSample_of_not_isNullable (hcs c hc) s
    refine ⟨by rw [fitsSample, haccepts, hplain c hc, Bool.and_false], ?_⟩
    rw [fitsSample, Codec.acceptsSample, haccepts, hplain c hc, Bool.or_false, Bool.and_comm]
    rfl
  cases hlatest : (Registry.mk cs).latest? fun c => fitsType s.type w (.option c) with
  | none =>
    refine .inl (findsNone_of_latest? ?_ ?_)
    · exact latest?_ofNullable_eq_none (fun c hmem hc => ⟨htyped c hmem, hc⟩) hlatest
    · refine latest?_ofNullable_eq_none (fun c hmem hc => ?_) hlatest
      exact ⟨(herased c hmem).1, (herased c hmem).2.trans hc⟩
  | some c =>
    obtain ⟨k, hk⟩ := latest?_eq_some_iff.1 hlatest
    refine .inr ⟨k, c, hk.registered, finds_of_selects ?_ ?_⟩
    · exact selects_option (fun c hc => ⟨htyped c hc, rfl⟩) hk
    · exact selects_option herased hk

end

/-- Where every codec is registered behind itself with absence, a sample and its type find the same
registration: the codec itself, and for an option the one with absence. -/
theorem resolve_agrees_with_resolveFor {cs : List Codec}
    (hcs : ∀ c ∈ cs, c.valueType.isNullable = false) (w : ColumnType) (s : Sample) :
    let r := cs.foldl registerNullable empty
    ((∀ t, s.type ≠ .stored (.option t)) → r.FindsNone s w ∨
      ∃ k c, cs[k]? = some c ∧ ¬c.IsOption ∧ r.Finds s w (2 * k + 1) c) ∧
    (∀ t, s.type = .stored (.option t) → r.FindsNone s w ∨
      ∃ k c, cs[k]? = some c ∧ r.Finds s w (2 * k) (.option c)) :=
  ⟨finds_plain hcs w, fun _ => finds_option hcs w⟩

/-- The default registry with a list of variants, which finds the plain codec for a bare list and
the one with absence for an optional number. -/
theorem resolve_agrees_with_resolveFor_defaults :
    let e : Enumeration := ⟨"Color", "Color", ["Red", "Blue"], ["RED", "BLUE"], false⟩
    let c : Codec := .elements .list .vector false (.enumeration e false)
    let r := withDefaults.registerNullable c
    let bare : Sample := ⟨.stored (.sequence .vector (.enumeration e)), .sequence [.variant 1]⟩
    let optional : Sample := ⟨.stored (.option (.base .int32)), .present (.int 7)⟩
    (∀ d ∈ scalarCodecs ++ [c], d.valueType.isNullable = false) ∧
      r = (scalarCodecs ++ [c]).foldl registerNullable empty ∧
      (∀ t, bare.type ≠ .stored (.option t)) ∧
      (∃ k, (scalarCodecs ++ [c])[k]? = some c ∧
        r.Finds bare (.list true (.scalar .text)) (2 * k + 1) c) ∧
      (∃ k, (scalarCodecs ++ [c])[k]? = some (.scalar .int) ∧
        r.Finds optional (.scalar .int) (2 * k) (.option (.scalar .int))) ∧
      r.FindsNone optional (.scalar .bigint) := by
  intro e c r bare optional
  have hcs : ∀ d ∈ scalarCodecs ++ [c], d.valueType.isNullable = false := by decide
  have hr : r = (scalarCodecs ++ [c]).foldl registerNullable empty :=
    foldl_registerNullable_withDefaults [c]
  have hbare : ∀ t, bare.type ≠ .stored (.option t) := nofun
  obtain ⟨hplain, -⟩ := resolve_agrees_with_resolveFor hcs (.list true (.scalar .text)) bare
  obtain ⟨-, hoption⟩ := resolve_agrees_with_resolveFor hcs (.scalar .int) optional
  obtain ⟨-, hnone⟩ := resolve_agrees_with_resolveFor hcs (.scalar .bigint) optional
  refine ⟨hcs, hr, hbare, ?_, ?_, ?_⟩
  · have hfound : r.resolve bare.type (.list true (.scalar .text)) = .ok c := by rfl
    rcases hplain hbare with hfails | ⟨k, d, hk, -, hfinds⟩
    · cases hfound.symm.trans hfails.resolve_eq
    · obtain rfl : c = d := Except.ok.inj (hfound.symm.trans hfinds.resolve_eq)
      exact ⟨k, hk, hfinds⟩
  · have hfound : r.resolve optional.type (.scalar .int) = .ok (.option (.scalar .int)) := by rfl
    rcases hoption _ rfl with hfails | ⟨k, d, hk, hfinds⟩
    · cases hfound.symm.trans hfails.resolve_eq
    · have hd := Except.ok.inj (hfound.symm.trans hfinds.resolve_eq)
      obtain rfl : .scalar .int = d := Codec.option.inj hd
      exact ⟨k, hk, hfinds⟩
  · have hfails : ∀ d, r.resolve optional.type (.scalar .bigint) ≠ .ok d := nofun
    rcases hnone _ rfl with hfails | ⟨k, d, -, hfinds⟩
    · exact hfails
    · exact absurd hfinds.resolve_eq (hfails _)

end Registry

end CqlWire
