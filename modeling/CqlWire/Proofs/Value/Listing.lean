import CqlWire.Codec.Basic
import CqlWire.Proofs.SortedMap
import CqlWire.Proofs.Value.Order
import Mathlib.Data.List.Forall2

/-!
# What a program sees of a container

A program goes through the elements of a container in its order, but the elements of a hashed
container come in any order. `ValueType.Listing t v w` says that `w` is the value `v` as a program
may see it; `Value` itself holds the elements of hashed containers in the order of values. A
container that gets the elements as they were seen is the container again (`ofList_of_reorders`),
and a value without hashed containers is seen as it is held (`eq_of_listing`). Whatever elements a
container gets, it keeps some of them as it can (`keeps_ofList`, `forall_mem_ofList`).
-/

namespace CqlWire

variable {α β : Type}

/-- Whether the elements come in any order. -/
def Container.isHashed : Container → Bool
  | .hashed => true
  | .vector | .deque | .ordered => false

/-- Whether the entries come in any order. -/
def MapContainer.isHashed : MapContainer → Bool
  | .hashed => true
  | .ordered | .sorted _ => false

/-- The elements `as` come as `bs`. -/
def Reorders (hashed : Bool) (as bs : List α) : Prop :=
  if hashed then bs.Perm as else bs = as

theorem reorders_refl (hashed : Bool) (as : List α) : Reorders hashed as as := by
  cases hashed
  · rfl
  · exact .refl as

theorem Reorders.perm {hashed : Bool} {as bs : List α} (h : Reorders hashed as bs) :
    bs.Perm as := by
  cases hashed
  · exact .of_eq h
  · exact h

theorem Reorders.map {hashed : Bool} {as bs : List α} (f : α → β) (h : Reorders hashed as bs) :
    Reorders hashed (as.map f) (bs.map f) := by
  cases hashed
  · exact congrArg (List.map f) h
  · exact List.Perm.map f h

/-- Every element on the right has one on the left. -/
theorem exists_of_forall₂ {R : α → β → Prop} {as : List α} {bs : List β}
    (h : List.Forall₂ R as bs) {b : β} (hb : b ∈ bs) : ∃ a ∈ as, R a b := by
  induction h with
  | nil => cases hb
  | cons hab _ ih =>
    rcases List.mem_cons.1 hb with rfl | hb
    · exact ⟨_, List.mem_cons_self, hab⟩
    · obtain ⟨a, ha, hr⟩ := ih hb
      exact ⟨a, List.mem_cons_of_mem _ ha, hr⟩

/-! ## Containers that get what was seen -/

/-- A set of ordered elements is a map without values. -/
theorem insertDistinct_eq (v : Value) (vs : List Value) : insertDistinct v vs =
    (SortedMap.insertEntry Value.compare v () (vs.map fun u => (u, ()))).2.map Prod.fst := by
  induction vs with
  | nil => rfl
  | cons u vs ih =>
    simp only [insertDistinct, List.map_cons, SortedMap.insertEntry]
    split <;> simp_all [Function.comp_def]

theorem foldl_insertDistinct (us : List Value) (m : SortedMap Value Unit) :
    us.foldl (fun s v => insertDistinct v s) m.keys =
      ((us.map fun u => (u, ())).foldl (fun m e => (m.insert Value.compare e.1 e.2).2) m).keys := by
  induction us generalizing m with
  | nil => rfl
  | cons u us ih =>
    have hm : (m.keys.map fun u => (u, ())) = m.entries := by
      simp [SortedMap.keys, Function.comp_def]
    have hu : insertDistinct u m.keys = (m.insert Value.compare u ()).2.keys := by
      rw [insertDistinct_eq, hm]
      rfl
    simp only [List.foldl_cons, List.map_cons, hu, ih]

/-- The elements of an ordered container are the keys of a map without values. -/
theorem foldl_insertDistinct_nil (us : List Value) :
    us.foldl (fun s v => insertDistinct v s) [] =
      (SortedMap.ofList Value.compare (us.map fun u => (u, ()))).keys :=
  foldl_insertDistinct us .empty

/-- A container that gets its elements as they were seen is itself. -/
theorem Container.ofList_of_reorders {into : Container} {vs us : List Value} (hk : into.Keeps vs)
    (hr : Reorders into.isHashed vs us) : into.ofList us = vs := by
  have sorted : ∀ {us : List Value}, vs.Pairwise (fun a b => a.compare b = .lt) → us.Perm vs →
      us.foldl (fun s v => insertDistinct v s) [] = vs := by
    intro us hv hp
    have hasc : SortedMap.Ascending Value.compare (vs.map fun u => (u, ())) :=
      List.pairwise_map.2 hv
    rw [foldl_insertDistinct_nil, SortedMap.keys, SortedMap.entries_ofList hasc (hp.map _),
      List.map_map]
    simp [Function.comp_def]
  cases into with
  | vector | deque => exact hr
  | ordered | hashed => exact sorted hk hr.perm

/-- A container that gets its entries as they were seen is itself. -/
theorem MapContainer.ofList_of_reorders {into : MapContainer} {es fs : List (Value × Value)}
    (hk : into.Keeps es) (hr : Reorders into.isHashed es fs) : into.ofList fs = es :=
  SortedMap.entries_ofList hk hr.perm

/-! ## Containers that get any elements -/

theorem Container.keeps_ofList (into : Container) (us : List Value) :
    into.Keeps (into.ofList us) := by
  have sorted : (us.foldl (fun s v => insertDistinct v s) []).Pairwise
      fun a b => a.compare b = .lt := by
    rw [foldl_insertDistinct_nil]
    exact List.pairwise_map.2 (SortedMap.ascending_ofList _)
  cases into with
  | vector | deque => trivial
  | ordered | hashed => exact sorted

/-- What holds of all elements that a container gets holds of those that it has. -/
theorem Container.forall_mem_ofList (into : Container) {us : List Value} {P : Value → Prop}
    (h : ∀ u ∈ us, P u) : ∀ v ∈ into.ofList us, P v := by
  have sorted : ∀ v ∈ us.foldl (fun s v => insertDistinct v s) [], P v := by
    rw [foldl_insertDistinct_nil]
    refine List.forall_mem_map.2 fun e he => ?_
    have hall := SortedMap.forall_mem_ofList (Q := fun _ => True)
      (List.forall_mem_map.2 fun u hu => ⟨h u hu, trivial⟩) e he
    exact hall.1
  cases into with
  | vector | deque => exact h
  | ordered | hashed => exact sorted

theorem Container.length_ofList_le (into : Container) (us : List Value) :
    (into.ofList us).length ≤ us.length := by
  have sorted : (us.foldl (fun s v => insertDistinct v s) []).length ≤ us.length := by
    rw [foldl_insertDistinct_nil, SortedMap.keys, List.length_map]
    exact Nat.le_trans (SortedMap.length_ofList_le _) (Nat.le_of_eq (List.length_map _))
  cases into with
  | vector | deque => exact Nat.le_refl _
  | ordered | hashed => exact sorted

theorem MapContainer.keeps_ofList (into : MapContainer) (fs : List (Value × Value)) :
    into.Keeps (into.ofList fs) :=
  SortedMap.ascending_ofList fs

/-- What holds of all keys and values that a container gets holds of those that it has. -/
theorem MapContainer.forall_mem_ofList (into : MapContainer) {fs : List (Value × Value)}
    {P Q : Value → Prop} (h : ∀ f ∈ fs, P f.1 ∧ Q f.2) : ∀ e ∈ into.ofList fs, P e.1 ∧ Q e.2 :=
  SortedMap.forall_mem_ofList h

theorem MapContainer.length_ofList_le (into : MapContainer) (fs : List (Value × Value)) :
    (into.ofList fs).length ≤ fs.length :=
  SortedMap.length_ofList_le fs

/-! ## Values as they are seen -/

namespace ValueType

mutual

/-- `w` is the value `v` of the type with the elements of all its hashed containers in the order in
which a program sees them. -/
def Listing : ValueType → (v w : Value) → Prop
  | .base _, v, w | .enumeration _, v, w => v = w
  | .option _, .absent, .absent => True
  | .option t, .present v, .present w => t.Listing v w
  | .sequence into t, .sequence vs, .sequence ws =>
    ∃ us, Reorders into.isHashed vs us ∧ List.Forall₂ (fun u w => t.Listing u w) us ws
  | .mapping into k t, .mapping es, .mapping fs =>
    ∃ gs, Reorders into.isHashed es gs ∧
      List.Forall₂ (fun g f => k.Listing g.1 f.1 ∧ t.Listing g.2 f.2) gs fs
  | .record _ ts, .record vs, .record ws => ListingAll ts vs ws
  | _, _, _ => False
termination_by structural t => t

/-- The same of one value of each type. -/
def ListingAll : List ValueType → (vs ws : List Value) → Prop
  | [], [], [] => True
  | t :: ts, v :: vs, w :: ws => t.Listing v w ∧ ListingAll ts vs ws
  | _, _, _ => False
termination_by structural ts => ts

end

theorem listing_option_iff {t : ValueType} {v w : Value} :
    (ValueType.option t).Listing v w ↔
      v = .absent ∧ w = .absent ∨ ∃ a b, v = .present a ∧ w = .present b ∧ t.Listing a b := by
  constructor
  · intro h
    cases v with
    | absent =>
      cases w with
      | absent => exact .inl ⟨rfl, rfl⟩
      | _ => exact h.elim
    | present a =>
      cases w with
      | present b => exact .inr ⟨a, b, rfl, rfl, h⟩
      | _ => exact h.elim
    | _ => exact h.elim
  · rintro (⟨rfl, rfl⟩ | ⟨a, b, rfl, rfl, h⟩)
    · trivial
    · exact h

theorem listing_sequence_iff {into : Container} {t : ValueType} {vs : List Value} {w : Value} :
    (ValueType.sequence into t).Listing (.sequence vs) w ↔ ∃ ws us, w = .sequence ws ∧
      Reorders into.isHashed vs us ∧ List.Forall₂ (fun u w => t.Listing u w) us ws := by
  cases w <;> simp [Listing]

theorem listing_mapping_iff {into : MapContainer} {k t : ValueType} {es : List (Value × Value)}
    {w : Value} :
    (ValueType.mapping into k t).Listing (.mapping es) w ↔ ∃ fs gs, w = .mapping fs ∧
      Reorders into.isHashed es gs ∧
        List.Forall₂ (fun g f => k.Listing g.1 f.1 ∧ t.Listing g.2 f.2) gs fs := by
  cases w <;> simp [Listing]

theorem listing_record_iff {header : RecordHeader} {ts : List ValueType} {vs : List Value}
    {w : Value} :
    (ValueType.record header ts).Listing (.record vs) w ↔
      ∃ ws, w = .record ws ∧ ListingAll ts vs ws := by
  cases w <;> simp [Listing]

/-- Whatever element is seen is one of the elements as it may be seen. -/
theorem elements_of_listing {into : Container} {t : ValueType} {vs : List Value} {w : Value}
    (h : (ValueType.sequence into t).Listing (.sequence vs) w) : ∃ ws, w = .sequence ws ∧
      ws.length = vs.length ∧ ∀ w ∈ ws, ∃ v ∈ vs, t.Listing v w := by
  obtain ⟨ws, us, rfl, hr, hus⟩ := listing_sequence_iff.1 h
  refine ⟨ws, rfl, hus.length_eq.symm.trans hr.perm.length_eq, fun w hw => ?_⟩
  obtain ⟨u, hu, huw⟩ := exists_of_forall₂ hus hw
  exact ⟨u, hr.perm.mem_iff.1 hu, huw⟩

/-- The same of the entries of a map. -/
theorem entries_of_listing {into : MapContainer} {k t : ValueType} {es : List (Value × Value)}
    {w : Value} (h : (ValueType.mapping into k t).Listing (.mapping es) w) :
    ∃ fs, w = .mapping fs ∧ fs.length = es.length ∧
      ∀ f ∈ fs, ∃ e ∈ es, k.Listing e.1 f.1 ∧ t.Listing e.2 f.2 := by
  obtain ⟨fs, gs, rfl, hr, hgs⟩ := listing_mapping_iff.1 h
  refine ⟨fs, rfl, hgs.length_eq.symm.trans hr.perm.length_eq, fun f hf => ?_⟩
  obtain ⟨g, hg, hgf⟩ := exists_of_forall₂ hgs hf
  exact ⟨g, hr.perm.mem_iff.1 hg, hgf⟩

mutual

/-- A program may see every value as it is held. -/
theorem listing_refl {t : ValueType} {v : Value} (h : t.Holds v) : t.Listing v v := by
  match t with
  | .base _ | .enumeration _ => rfl
  | .option t =>
    rcases holds_option_iff.1 h with rfl | ⟨u, rfl, hu⟩
    · trivial
    · exact listing_refl (t := t) hu
  | .sequence into t =>
    obtain ⟨vs, rfl, -, hvs⟩ := holds_sequence_iff.1 h
    exact ⟨vs, reorders_refl _ _, List.forall₂_same.2 fun v hv => listing_refl (hvs v hv)⟩
  | .mapping into k t =>
    obtain ⟨es, rfl, -, hes⟩ := holds_mapping_iff.1 h
    exact ⟨es, reorders_refl _ _, List.forall₂_same.2 fun e he =>
      ⟨listing_refl (hes e he).1, listing_refl (hes e he).2⟩⟩
  | .record _ ts =>
    obtain ⟨vs, rfl, hvs⟩ := holds_record_iff.1 h
    exact listingAll_refl hvs

theorem listingAll_refl {ts : List ValueType} {vs : List Value} (h : HoldAll ts vs) :
    ListingAll ts vs vs := by
  match ts, vs with
  | [], [] => trivial
  | t :: ts, v :: vs => exact ⟨listing_refl h.1, listingAll_refl h.2⟩

end

/-! ## Values that are seen as they are held -/

mutual

/-- No hashed container is part of a value. -/
def IsHashFree : ValueType → Prop
  | .base _ | .enumeration _ => True
  | .option t => t.IsHashFree
  | .sequence into t => into.isHashed = false ∧ t.IsHashFree
  | .mapping into k t => into.isHashed = false ∧ k.IsHashFree ∧ t.IsHashFree
  | .record _ ts => AllHashFree ts
termination_by structural t => t

/-- The same of several types. -/
def AllHashFree : List ValueType → Prop
  | [] => True
  | t :: ts => t.IsHashFree ∧ AllHashFree ts
termination_by structural ts => ts

end

mutual

/-- A value without hashed containers is seen in one way only. -/
theorem eq_of_listing {t : ValueType} (ht : t.IsHashFree) {v w : Value} (h : t.Holds v)
    (hw : t.Listing v w) : v = w := by
  match t with
  | .base _ | .enumeration _ => exact hw
  | .option t =>
    rcases listing_option_iff.1 hw with ⟨rfl, rfl⟩ | ⟨a, b, rfl, rfl, hab⟩
    · rfl
    · exact congrArg Value.present (eq_of_listing (t := t) ht h hab)
  | .sequence into t =>
    obtain ⟨vs, rfl, -, hvs⟩ := holds_sequence_iff.1 h
    obtain ⟨ws, us, rfl, hr, hus⟩ := listing_sequence_iff.1 hw
    rw [Reorders, ht.1] at hr
    obtain rfl : us = vs := hr
    have hall : List.Forall₂ (· = ·) us ws :=
      ((List.forall₂_and_left _ _).2 ⟨hvs, hus⟩).imp fun _ _ hu => eq_of_listing ht.2 hu.1 hu.2
    rw [List.forall₂_eq_eq_eq] at hall
    exact congrArg Value.sequence hall
  | .mapping into k t =>
    obtain ⟨es, rfl, -, hes⟩ := holds_mapping_iff.1 h
    obtain ⟨fs, gs, rfl, hr, hgs⟩ := listing_mapping_iff.1 hw
    rw [Reorders, ht.1] at hr
    obtain rfl : gs = es := hr
    have hall : List.Forall₂ (· = ·) gs fs :=
      ((List.forall₂_and_left _ _).2 ⟨hes, hgs⟩).imp fun _ _ hg =>
        Prod.ext (eq_of_listing ht.2.1 hg.1.1 hg.2.1) (eq_of_listing ht.2.2 hg.1.2 hg.2.2)
    rw [List.forall₂_eq_eq_eq] at hall
    exact congrArg Value.mapping hall
  | .record _ ts =>
    obtain ⟨vs, rfl, hvs⟩ := holds_record_iff.1 h
    obtain ⟨ws, rfl, hws⟩ := listing_record_iff.1 hw
    exact congrArg Value.record (eq_of_listingAll ht hvs hws)

theorem eq_of_listingAll {ts : List ValueType} (ht : AllHashFree ts) {vs ws : List Value}
    (h : HoldAll ts vs) (hw : ListingAll ts vs ws) : vs = ws := by
  match ts, vs, ws with
  | [], [], [] => rfl
  | t :: ts, v :: vs, w :: ws =>
    exact List.cons_eq_cons.2 ⟨eq_of_listing ht.1 h.1 hw.1, eq_of_listingAll ht.2 h.2 hw.2⟩

end

end ValueType

end CqlWire
