import CqlWire.ColumnType.Reader
import CqlWire.Fallible
import Mathlib.Data.List.TakeWhile

/-!
# User-defined types in what is read

A column type that is read from a text holds user-defined types by value. Each of them comes out of
the lookup: it is a definition that was found for a name of the text, or stands inside of one, at any
depth, and only its `frozen` annotation may have changed (`supplies_of_resolve`, by induction on the
expression). The names of a text have at most one dot (`fewDots_of_read`), the one between a
keyspace and the name of a type.
-/

namespace CqlWire

/-! ## Occurrences -/

/-- A user-defined type occurs in a column type, at any depth. -/
inductive UserTypeOver.OccursIn (u : UserTypeOver ColumnType) : ColumnType → Prop where
  | self : OccursIn u (.user u)
  | field {v : UserType} {f : Field ColumnType} (hf : f ∈ v.fields) (h : OccursIn u f.type) :
    OccursIn u (.user v)
  | list {frozen : Bool} {t : ColumnType} (h : OccursIn u t) : OccursIn u (.list frozen t)
  | set {frozen : Bool} {t : ColumnType} (h : OccursIn u t) : OccursIn u (.set frozen t)
  | key {frozen : Bool} {k v : ColumnType} (h : OccursIn u k) : OccursIn u (.map frozen k v)
  | value {frozen : Bool} {k v : ColumnType} (h : OccursIn u v) : OccursIn u (.map frozen k v)

/-- Freezing a type changes no more than the annotation of the type itself. -/
theorem exists_occursIn_of_withFrozen {u : UserType} {t : ColumnType} {frozen : Bool}
    (h : u.OccursIn (t.withFrozen frozen)) : ∃ w : UserType, w.OccursIn t ∧ w.version = u.version := by
  cases t with
  | scalar s => exact ⟨u, h, rfl⟩
  | list _ e =>
    cases h with
    | list h => exact ⟨u, .list h, rfl⟩
  | set _ e =>
    cases h with
    | set h => exact ⟨u, .set h, rfl⟩
  | map _ k v =>
    cases h with
    | key h => exact ⟨u, .key h, rfl⟩
    | value h => exact ⟨u, .value h, rfl⟩
  | user v =>
    cases h with
    | self => exact ⟨v, .self, rfl⟩
    | field hf h => exact ⟨u, .field hf h, rfl⟩

namespace TypeExpr

mutual

/-- The names of an expression. -/
def names : TypeExpr → List String
  | .node name params => name :: namesOf params
termination_by structural e => e

/-- The names of several expressions. -/
def namesOf : List TypeExpr → List String
  | [] => []
  | e :: es => e.names ++ namesOf es
termination_by structural es => es

end

theorem mem_namesOf_iff {name : String} {es : List TypeExpr} :
    name ∈ namesOf es ↔ ∃ e ∈ es, name ∈ e.names := by
  induction es with
  | nil => simp [namesOf]
  | cons e es ih => simp [namesOf, ih]

/-! ## The names of a text -/

theorem count_dot_of_identifier? {s name r : List Char} (h : identifier? s = some (name, r)) :
    name.count '.' = 0 := by
  match s with
  | c :: rest =>
    simp only [identifier?] at h
    split at h
    · rename_i hletter
      cases h
      rw [List.count_eq_zero]
      intro hdot
      rcases List.mem_cons.1 hdot with rfl | hdot
      · exact absurd hletter (by decide)
      · exact absurd (List.mem_takeWhile_imp hdot) (by decide)
    · cases h

theorem count_dot_of_qualified? {s name r : List Char} (h : qualified? s = some (name, r)) :
    name.count '.' ≤ 1 := by
  unfold qualified? at h
  split at h
  · cases h
  · rename_i first rest hfirst
    have hzero := count_dot_of_identifier? hfirst
    split at h
    · rename_i second rest' hsecond
      have hzero' := count_dot_of_identifier? hsecond
      cases h
      rw [List.count_append, List.count_cons_self]
      omega
    · cases h
      omega
  · have := count_dot_of_identifier? h
    omega

/-- There is at most one dot in each name. -/
def FewDots (names : List String) : Prop :=
  ∀ name ∈ names, name.toList.count '.' ≤ 1

theorem fewDots_nil : FewDots [] :=
  List.forall_mem_nil _

theorem fewDots_node {name : List Char} {params : List TypeExpr} (h : name.count '.' ≤ 1)
    (hparams : FewDots (namesOf params)) : FewDots (node (String.ofList name) params).names := by
  refine List.forall_mem_cons.2 ⟨?_, hparams⟩
  rwa [String.toList_ofList]

theorem fewDots_cons {e : TypeExpr} {es : List TypeExpr} (h : FewDots e.names)
    (hes : FewDots (namesOf es)) : FewDots (namesOf (e :: es)) :=
  fun name hname => (List.mem_append.1 hname).elim (h name) (hes name)

/-- Each of the readers gives names with at most one dot, if those that it calls do. -/
theorem fewDots_of_readers (fuel : Nat) :
    (∀ {s e r}, expr? fuel s = some (e, r) → FewDots e.names) ∧
    (∀ {s es r}, params? fuel s = some (es, r) → FewDots (namesOf es)) ∧
    ∀ s, FewDots (namesOf (moreParams fuel s).1) := by
  induction fuel with
  | zero => exact ⟨nofun, nofun, fun s => fewDots_nil⟩
  | succ fuel ih =>
    obtain ⟨hexpr, hparams, hmore⟩ := ih
    refine ⟨fun h => ?_, fun h => ?_, fun s => ?_⟩
    · unfold expr? at h
      split at h
      · cases h
      · rename_i hname
        have hdots := count_dot_of_qualified? hname
        split at h
        · rename_i hr
          cases h
          exact fewDots_node hdots (hparams hr)
        · cases h
          exact fewDots_node hdots fewDots_nil
    · unfold params? at h
      split at h
      · split at h
        · cases h
        · rename_i hfirst
          dsimp only at h
          split at h
          · cases h
            exact fewDots_cons (hexpr hfirst) (hmore _)
          · cases h
      · cases h
    · unfold moreParams
      split
      · split
        · exact fewDots_nil
        · rename_i hnext
          exact fewDots_cons (hexpr hnext) (hmore _)
      · exact fewDots_nil

/-- A name of a type has at most the dot behind its keyspace. -/
theorem fewDots_of_read {text : List Char} {e : TypeExpr} (h : read text = .ok e) :
    FewDots e.names := by
  simp only [read] at h
  split at h
  · cases h
  · rename_i he
    split at h
    · cases h
      exact (fewDots_of_readers _).1 he
    · cases h

/-! ## The types of the names -/

/-- A name of the expression is the one of a definition that a type occurs in; annotations aside. -/
def Supplies (lookup : String → Option UserType) (e : TypeExpr) (u : UserType) : Prop :=
  ∃ name ∈ e.names, ∃ d w : UserType,
    lookup name = some d ∧ w.OccursIn (.user d) ∧ w.version = u.version

section

variable {lookup : String → Option UserType} {e : TypeExpr} {u w : UserType}

theorem Supplies.of_version (h : e.Supplies lookup w) (hwu : w.version = u.version) :
    e.Supplies lookup u := by
  obtain ⟨name, hname, d, v, hd, hv, hvw⟩ := h
  exact ⟨name, hname, d, v, hd, hv, hvw.trans hwu⟩

theorem Supplies.of_param {name : String} {params : List TypeExpr} (he : e ∈ params)
    (h : e.Supplies lookup u) : (node name params).Supplies lookup u := by
  obtain ⟨name', hname, hfound⟩ := h
  exact ⟨name', List.mem_cons_of_mem _ (mem_namesOf_iff.2 ⟨e, he, hname⟩), hfound⟩

/-- Every user-defined type of what an expression means comes out of the lookup. -/
theorem supplies_of_resolve {input : List Char} {t : ColumnType}
    (h : e.resolve lookup input = .ok t) (hu : u.OccursIn t) : e.Supplies lookup u := by
  fun_induction resolve lookup input e generalizing t u with
  | case1 name e _ ih =>
    obtain ⟨t', ht', heq⟩ := bind_eq_ok_iff.1 h
    cases pure_eq_ok_iff.1 heq
    cases hu with
    | list hu => exact (ih ht' hu).of_param List.mem_cons_self
  | case3 name e _ ih =>
    obtain ⟨t', ht', heq⟩ := bind_eq_ok_iff.1 h
    cases pure_eq_ok_iff.1 heq
    cases hu with
    | set hu => exact (ih ht' hu).of_param List.mem_cons_self
  | case5 name k v _ ihk ihv =>
    obtain ⟨key, hkey, h⟩ := bind_eq_ok_iff.1 h
    obtain ⟨value, hvalue, heq⟩ := bind_eq_ok_iff.1 h
    cases pure_eq_ok_iff.1 heq
    cases hu with
    | key hu => exact (ihk hkey hu).of_param List.mem_cons_self
    | value hu => exact (ihv hvalue hu).of_param (List.mem_cons_of_mem _ List.mem_cons_self)
  | case7 name e _ ih =>
    obtain ⟨t', ht', heq⟩ := bind_eq_ok_iff.1 h
    cases pure_eq_ok_iff.1 heq
    obtain ⟨w, hw, hwu⟩ := exists_occursIn_of_withFrozen hu
    exact ((ih ht' hw).of_version hwu).of_param List.mem_cons_self
  | case10 =>
    cases h
    cases hu
  | case11 name d hd =>
    cases h
    exact ⟨name, List.mem_cons_self, d, u, hd, hu, rfl⟩
  | _ => cases h

end

end TypeExpr

/-- Every user-defined type of what is read comes out of the lookup of a name with at most one dot:
it is a copy of what was found, or of something inside it. -/
theorem ColumnType.exists_of_read {lookup : String → Option UserType} {text : List Char}
    {t : ColumnType} (h : ColumnType.read lookup text = .ok t) {u : UserType} (hu : u.OccursIn t) :
    ∃ (name : String) (d w : UserType), name.toList.count '.' ≤ 1 ∧ lookup name = some d ∧
      w.OccursIn (.user d) ∧ w.version = u.version := by
  unfold ColumnType.read at h
  split at h
  · rename_i e he
    obtain ⟨name, hname, d, w, hd, hw, hwu⟩ := TypeExpr.supplies_of_resolve h hu
    exact ⟨name, d, w, TypeExpr.fewDots_of_read he name hname, hd, hw, hwu⟩
  · cases h

end CqlWire
