import CqlWire.Coding.Collection
import CqlWire.Proofs.SortedMap.Contents
import CqlWire.Proofs.Value.Order
import Mathlib.Data.Set.Card

/-!
# What a map holds after any history

A history is a list of insertions, removals, look-ups, counts and collections of pairs
(`MapAction`). What it does to a map is defined once for everything that has the operations of a map
(`MapOperations.run`), and one kind of map refines another if their operations agree on related
maps (`MapOperations.Refines`); then every history gives the same answers and related maps
(`Refines.run`).

There are three kinds of maps here:

* `Association.operations`: functions on the classes of equal keys (`Association`), in which every
  operation looks at or changes one class;
* `SortedMap.operations`: sorted maps with the operations as they are defined;
* `SortedMap.searching`: sorted maps whose operations first look for the place of the key, by any
  search that finds places among ascending entries (`IsSearch`). Bisection is one.

The last refines the second and the second refines the first, where a map represents an association
if its entries are ascending and are what the association has for their keys (`Represents`).
-/

namespace CqlWire

variable {κ ν σ τ : Type}

/-! ## Histories -/

/-- The operations of a map. Those that change the map give what the key had before. -/
structure MapOperations (σ κ ν : Type) where
  empty : σ
  insert : σ → κ → ν → Option ν × σ
  erase : σ → κ → Option ν × σ
  find? : σ → κ → Option ν
  size : σ → Nat

/-- What can be done with a map. -/
inductive MapAction (κ ν : Type) where
  | insert (key : κ) (value : ν)
  | erase (key : κ)
  | find (key : κ)
  | size
  /-- Goes on with the map that has got these pairs in turn. -/
  | collect (pairs : List (κ × ν))

/-- What an action gives. -/
inductive MapAnswer (ν : Type) where
  | value (v : Option ν)
  | size (n : Nat)
  | done

namespace MapOperations

/-- The map that has got the pairs in turn. -/
def ofList (M : MapOperations σ κ ν) (pairs : List (κ × ν)) : σ :=
  pairs.foldl (fun s p => (M.insert s p.1 p.2).2) M.empty

/-- One action. -/
def step (M : MapOperations σ κ ν) (s : σ) : MapAction κ ν → MapAnswer ν × σ
  | .insert key value => (.value (M.insert s key value).1, (M.insert s key value).2)
  | .erase key => (.value (M.erase s key).1, (M.erase s key).2)
  | .find key => (.value (M.find? s key), s)
  | .size => (.size (M.size s), s)
  | .collect pairs => (.done, M.ofList pairs)

/-- The answers of several actions, and the map after them. -/
def run (M : MapOperations σ κ ν) (s : σ) : List (MapAction κ ν) → List (MapAnswer ν) × σ
  | [] => ([], s)
  | action :: history =>
    let r := M.step s action
    let rest := M.run r.2 history
    (r.1 :: rest.1, rest.2)

/-- The map after a history from the start. -/
def after (M : MapOperations σ κ ν) (history : List (MapAction κ ν)) : σ :=
  (M.run M.empty history).2

/-- The answers of a history from the start. -/
def answers (M : MapOperations σ κ ν) (history : List (MapAction κ ν)) : List (MapAnswer ν) :=
  (M.run M.empty history).1

/-- On related maps, the operations agree and lead to related maps. -/
structure Refines (M : MapOperations σ κ ν) (N : MapOperations τ κ ν) (R : σ → τ → Prop) :
    Prop where
  empty : R M.empty N.empty
  insert {s : σ} {t : τ} (h : R s t) (key : κ) (value : ν) :
    (M.insert s key value).1 = (N.insert t key value).1 ∧
      R (M.insert s key value).2 (N.insert t key value).2
  erase {s : σ} {t : τ} (h : R s t) (key : κ) :
    (M.erase s key).1 = (N.erase t key).1 ∧ R (M.erase s key).2 (N.erase t key).2
  find? {s : σ} {t : τ} (h : R s t) (key : κ) : M.find? s key = N.find? t key
  size {s : σ} {t : τ} (h : R s t) : M.size s = N.size t

namespace Refines

variable {M : MapOperations σ κ ν} {N : MapOperations τ κ ν} {R : σ → τ → Prop}

theorem ofList (h : Refines M N R) (pairs : List (κ × ν)) : R (M.ofList pairs) (N.ofList pairs) := by
  unfold MapOperations.ofList
  induction pairs using List.reverseRecOn with
  | nil => exact h.empty
  | append_singleton pairs p ih =>
    rw [List.foldl_append, List.foldl_append]
    exact (h.insert ih p.1 p.2).2

theorem step (h : Refines M N R) {s : σ} {t : τ} (hst : R s t) (action : MapAction κ ν) :
    (M.step s action).1 = (N.step t action).1 ∧ R (M.step s action).2 (N.step t action).2 := by
  cases action with
  | insert key value =>
    obtain ⟨hanswer, hnext⟩ := h.insert hst key value
    exact ⟨congrArg MapAnswer.value hanswer, hnext⟩
  | erase key =>
    obtain ⟨hanswer, hnext⟩ := h.erase hst key
    exact ⟨congrArg MapAnswer.value hanswer, hnext⟩
  | find key => exact ⟨congrArg MapAnswer.value (h.find? hst key), hst⟩
  | size => exact ⟨congrArg MapAnswer.size (h.size hst), hst⟩
  | collect pairs => exact ⟨rfl, h.ofList pairs⟩

/-- A history gives the same answers on related maps and leaves related maps. -/
theorem run (h : Refines M N R) (history : List (MapAction κ ν)) {s : σ} {t : τ} (hst : R s t) :
    (M.run s history).1 = (N.run t history).1 ∧ R (M.run s history).2 (N.run t history).2 := by
  induction history generalizing s t with
  | nil => exact ⟨rfl, hst⟩
  | cons action history ih =>
    obtain ⟨hanswer, hnext⟩ := h.step hst action
    obtain ⟨hanswers, hlast⟩ := ih hnext
    refine ⟨?_, hlast⟩
    simp only [MapOperations.run, hanswer, hanswers]

theorem answers (h : Refines M N R) (history : List (MapAction κ ν)) :
    M.answers history = N.answers history :=
  (h.run history h.empty).1

theorem after (h : Refines M N R) (history : List (MapAction κ ν)) :
    R (M.after history) (N.after history) :=
  (h.run history h.empty).2

end Refines

end MapOperations

namespace SortedMap

variable {cmp : κ → κ → Ordering}

/-! ## What the operations give -/

/-- Inserting gives the value that looking up gives. -/
theorem fst_insertEntry (key : κ) (value : ν) (es : List (κ × ν)) :
    (insertEntry cmp key value es).1 = findEntry? cmp key es := by
  induction es with
  | nil => rfl
  | cons a es ih =>
    simp only [insertEntry, findEntry?]
    split
    · exact ih
    · rfl
    · rfl

/-- Removing gives the value that looking up gives. -/
theorem fst_eraseEntry (key : κ) (es : List (κ × ν)) :
    (eraseEntry cmp key es).1 = findEntry? cmp key es := by
  induction es with
  | nil => rfl
  | cons a es ih =>
    simp only [eraseEntry, findEntry?]
    split
    · exact ih
    · rfl
    · rfl

theorem eraseEntry_sublist (key : κ) (es : List (κ × ν)) :
    (eraseEntry cmp key es).2.Sublist es := by
  induction es with
  | nil => exact .slnil
  | cons a es ih =>
    simp only [eraseEntry]
    split
    · exact ih.cons_cons a
    · exact List.sublist_cons_self a es
    · exact .refl _

theorem ascending_eraseEntry {key : κ} {es : List (κ × ν)} (h : Ascending cmp es) :
    Ascending cmp (eraseEntry cmp key es).2 :=
  h.sublist (eraseEntry_sublist key es)

section

variable [Std.TransCmp cmp]

/-- No key behind an equal one is equal. -/
theorem ofKey?_eq_none_of_eq {a : κ × ν} {es : List (κ × ν)} (h : Ascending cmp (a :: es)) {key : κ}
    (heq : cmp a.1 key = .eq) : ofKey? cmp es key = none := by
  obtain ⟨ha, -⟩ := List.pairwise_cons.1 h
  refine ofKey?_eq_none fun e he => ?_
  have hgt : cmp e.1 key = .gt :=
    Std.TransCmp.gt_of_gt_of_eq (Std.OrientedCmp.gt_of_lt (ha e he)) heq
  simp [hgt]

/-- Looking up gives the value of the entry of the key. -/
theorem findEntry?_eq {es : List (κ × ν)} (h : Ascending cmp es) (key : κ) :
    findEntry? cmp key es = (ofKey? cmp es key).map Prod.snd := by
  induction es with
  | nil => rfl
  | cons a es ih =>
    simp only [ findEntry?]
    split
    · rename_i hlt
      rw [ofKey?_cons, if_neg (by simp [hlt])]
      exact ih (List.pairwise_cons.1 h).2
    · rename_i heq
      rw [ofKey?_cons, if_pos heq]
      rfl
    · rename_i hgt
      rw [ofKey?_eq_none_of_gt h hgt]
      rfl

/-- Removing takes away the entry of the key and no other. -/
theorem ofKey?_eraseEntry {es : List (κ × ν)} (h : Ascending cmp es) (key k : κ) :
    ofKey? cmp (eraseEntry cmp key es).2 k = if cmp key k = .eq then none else ofKey? cmp es k := by
  induction es with
  | nil => exact (ite_self none).symm
  | cons a es ih =>
    simp only [eraseEntry]
    split
    · rename_i hlt
      rw [ofKey?_cons, ih (List.pairwise_cons.1 h).2, ofKey?_cons a es k]
      by_cases hk : cmp key k = .eq
      · have hskip : cmp a.1 k ≠ .eq := by simp [Std.TransCmp.lt_of_lt_of_eq hlt hk]
        rw [if_neg hskip, if_pos hk, if_pos hk]
      · rw [if_neg hk, if_neg hk]
    · rename_i heq
      have hk : cmp a.1 k = .eq ↔ cmp key k = .eq := by rw [Std.TransCmp.congr_left heq]
      by_cases hkey : cmp key k = .eq
      · rw [if_pos hkey, ofKey?_eq_none_of_eq h (hk.2 hkey)]
      · rw [if_neg hkey, ofKey?_cons, if_neg (mt hk.1 hkey)]
    · rename_i hgt
      by_cases hkey : cmp key k = .eq
      · rw [if_pos hkey, ofKey?_eq_none_of_gt h (Std.TransCmp.gt_of_gt_of_eq hgt hkey)]
      · rw [if_neg hkey]

theorem Ascending.nodup {es : List (κ × ν)} (h : Ascending cmp es) : es.Nodup := by
  refine List.Pairwise.imp (fun {a b} hlt heq => ?_) (show es.Pairwise _ from h)
  have hself : cmp b.1 b.1 = .eq := Std.ReflCmp.compare_self
  rw [heq, hself] at hlt
  cases hlt

/-- Ascending entries are determined by which entries they are. -/
theorem Ascending.eq_of_mem_iff {es es' : List (κ × ν)} (h : Ascending cmp es)
    (h' : Ascending cmp es') (hmem : ∀ e, e ∈ es ↔ e ∈ es') : es = es' :=
  h.eq_of_perm h' ((List.perm_ext_iff_of_nodup h.nodup h'.nodup).2 hmem)

end

/-! ## Operations at a place -/

/-- Takes out the entry at the place of an equal key. The value that was there comes with the
result. -/
def eraseAt (es : List (κ × ν)) : Except Nat Nat → Option ν × List (κ × ν)
  | .ok i => (es[i]?.map Prod.snd, es.eraseIdx i)
  | .error _ => (none, es)

/-- The value at the place of an equal key. -/
def valueAt (es : List (κ × ν)) : Except Nat Nat → Option ν
  | .ok i => es[i]?.map Prod.snd
  | .error _ => none

theorem eraseEntry_append {key : κ} {before : List (κ × ν)}
    (hbefore : ∀ e ∈ before, cmp e.1 key = .lt) (es : List (κ × ν)) :
    eraseEntry cmp key (before ++ es) =
      ((eraseEntry cmp key es).1, before ++ (eraseEntry cmp key es).2) := by
  induction before with
  | nil => rfl
  | cons e before ih =>
    obtain ⟨he, hbefore⟩ := List.forall_mem_cons.1 hbefore
    rw [List.cons_append, eraseEntry]
    simp only [he, ih hbefore]
    rfl

theorem eraseEntry_of_gt {key : κ} {es : List (κ × ν)} (h : ∀ e ∈ es, cmp e.1 key = .gt) :
    eraseEntry cmp key es = (none, es) := by
  cases es with
  | nil => rfl
  | cons e es => simp only [eraseEntry, h e List.mem_cons_self]

section

variable [Std.TransCmp cmp] {key : κ} {es : List (κ × ν)}

/-- Removing at a place is removing. -/
theorem eraseAt_of_isPlace (h : Ascending cmp es) {place : Except Nat Nat}
    (hplace : IsPlace cmp key es place) : eraseAt es place = eraseEntry cmp key es := by
  cases hplace with
  | @found i e he heq =>
    have hbefore : ∀ a ∈ es.take i, cmp a.1 key = .lt := fun a ha =>
      Std.TransCmp.lt_of_lt_of_eq ((h.around he).1 a ha) heq
    conv_rhs => rw [← List.take_append_drop i es, eraseEntry_append hbefore, drop_eq_cons he]
    simp only [eraseAt, he, eraseEntry, heq, List.eraseIdx_eq_take_drop_succ, Option.map_some]
  | @missing i hbefore hbehind =>
    conv_rhs => rw [← List.take_append_drop i es, eraseEntry_append hbefore,
      eraseEntry_of_gt hbehind, List.take_append_drop]
    rfl

/-- Looking up at a place is looking up. -/
theorem valueAt_of_isPlace (h : Ascending cmp es) {place : Except Nat Nat}
    (hplace : IsPlace cmp key es place) : valueAt es place = findEntry? cmp key es := by
  rw [← fst_eraseEntry, ← eraseAt_of_isPlace h hplace]
  cases place with
  | ok i => rfl
  | error i => rfl

end

/-- The search finds the place of every key among ascending entries. -/
def IsSearch (cmp : κ → κ → Ordering) (search : κ → List (κ × ν) → Except Nat Nat) : Prop :=
  ∀ key es, Ascending cmp es → IsPlace cmp key es (search key es)

theorem isSearch_bisect [Std.TransCmp cmp] :
    IsSearch cmp fun key (es : List (κ × ν)) => bisect cmp key es 0 es.length := by
  intro key es h
  refine isPlace_bisect h (Nat.zero_le _) (Nat.le_refl _) (List.forall_mem_nil _) ?_
  rw [List.drop_length]
  exact List.forall_mem_nil _

/-! ## Kinds of maps -/

/-- The operations of sorted maps. -/
def operations (cmp : κ → κ → Ordering) : MapOperations (SortedMap κ ν) κ ν where
  empty := empty
  insert := insert cmp
  erase := erase cmp
  find? := find? cmp
  size := size

/-- The operations of sorted maps by way of a search. -/
def searching (search : κ → List (κ × ν) → Except Nat Nat) :
    MapOperations (SortedMap κ ν) κ ν where
  empty := empty
  insert m key value :=
    let r := insertAt key value m.entries (search key m.entries)
    (r.1, ⟨r.2⟩)
  erase m key :=
    let r := eraseAt m.entries (search key m.entries)
    (r.1, ⟨r.2⟩)
  find? m key := valueAt m.entries (search key m.entries)
  size := size

section

variable [Std.TransCmp cmp]

/-- It does not matter how a map searches, as long as it finds the places. -/
theorem refines_searching {search : κ → List (κ × ν) → Except Nat Nat} (hs : IsSearch cmp search) :
    (operations cmp).Refines (searching search) fun m n => m = n ∧ Ascending cmp m.entries where
  empty := ⟨rfl, .nil⟩
  insert {m n} h key value := by
    obtain ⟨rfl, hm⟩ := h
    have hplace := insertAt_of_isPlace hm value (hs key m.entries hm)
    simp only [operations, searching, insert, hplace, true_and]
    exact ascending_insertEntry hm
  erase {m n} h key := by
    obtain ⟨rfl, hm⟩ := h
    have hplace := eraseAt_of_isPlace hm (hs key m.entries hm)
    simp only [operations, searching, erase, hplace, true_and]
    exact ascending_eraseEntry hm
  find? {m n} h key := by
    obtain ⟨rfl, hm⟩ := h
    exact (valueAt_of_isPlace hm (hs key m.entries hm)).symm
  size {m n} h := congrArg size h.1

end

end SortedMap

/-! ## Associations -/

section

variable (cmp : κ → κ → Ordering) [Std.TransCmp cmp]

/-- Keys that compare as equal. -/
def keySetoid : Setoid κ where
  r a b := cmp a b = .eq
  iseqv :=
    { refl := fun _ => Std.ReflCmp.compare_self
      symm := Std.OrientedCmp.eq_symm
      trans := Std.TransCmp.eq_trans }

/-- A class of equal keys. -/
def KeyClass : Type := Quotient (keySetoid cmp)

/-- What each class of keys has: the key that stands for it, and its value. -/
def Association (ν : Type) : Type := KeyClass cmp → Option (κ × ν)

end

section

variable {cmp : κ → κ → Ordering} [Std.TransCmp cmp]

/-- The class of a key. -/
def KeyClass.of (key : κ) : KeyClass cmp := Quotient.mk (keySetoid cmp) key

theorem KeyClass.of_eq_of_iff {a b : κ} : (of a : KeyClass cmp) = of b ↔ cmp a b = .eq :=
  Quotient.eq (r := keySetoid cmp)

instance : DecidableEq (KeyClass cmp) :=
  @Quotient.decidableEq κ (keySetoid cmp) fun a b => inferInstanceAs (Decidable (cmp a b = .eq))

namespace Association

/-- The value of a key. -/
def value? (a : Association cmp ν) (key : κ) : Option ν := (a (.of key)).map Prod.snd

/-- Gives the class of a key this value. The first key of the class goes on standing for it. -/
def put (a : Association cmp ν) (key : κ) (value : ν) : Association cmp ν :=
  Function.update a (.of key) (some (((a (.of key)).map Prod.fst).getD key, value))

/-- Takes the class of a key away. -/
def drop (a : Association cmp ν) (key : κ) : Association cmp ν :=
  Function.update a (.of key) none

theorem update_of (a : Association cmp ν) (key : κ) (entry : Option (κ × ν)) (k : κ) :
    Function.update (β := fun _ => Option (κ × ν)) a (.of key) entry (.of k) =
      if cmp key k = .eq then entry else a (.of k) := by
  by_cases hk : cmp key k = .eq
  · rw [if_pos hk, ← KeyClass.of_eq_of_iff.2 hk]
    exact Function.update_self _ _ _
  · rw [if_neg hk]
    exact Function.update_of_ne (fun heq => hk (KeyClass.of_eq_of_iff.1 heq.symm)) _ _

theorem put_of (a : Association cmp ν) (key : κ) (value : ν) (k : κ) :
    a.put key value (.of k) =
      if cmp key k = .eq then some (((a (.of key)).map Prod.fst).getD key, value)
      else a (.of k) :=
  a.update_of key _ k

theorem drop_of (a : Association cmp ν) (key k : κ) :
    a.drop key (.of k) = if cmp key k = .eq then none else a (.of k) :=
  a.update_of key none k

/-- The number of classes that have a value. -/
noncomputable def size (a : Association cmp ν) : Nat := {c | (a c).isSome}.ncard

/-- The operations of associations. -/
noncomputable def operations (cmp : κ → κ → Ordering) [Std.TransCmp cmp] :
    MapOperations (Association cmp ν) κ ν where
  empty := fun _ => none
  insert a key value := (a.value? key, a.put key value)
  erase a key := (a.value? key, a.drop key)
  find? := value?
  size := size

end Association

namespace SortedMap

/-- A map in order has the entries of an association: for each key the one of its class. -/
structure Represents (m : SortedMap κ ν) (a : Association cmp ν) : Prop where
  ascending : Ascending cmp m.entries
  ofKey?_eq (key : κ) : ofKey? cmp m.entries key = a (.of key)

namespace Represents

variable {m : SortedMap κ ν} {a : Association cmp ν}

theorem mem_iff (h : m.Represents a) {e : κ × ν} : e ∈ m.entries ↔ a (.of e.1) = some e := by
  rw [mem_iff_ofKey?_eq_some h.ascending, h.ofKey?_eq]

theorem find?_eq (h : m.Represents a) (key : κ) : m.find? cmp key = a.value? key := by
  rw [find?, findEntry?_eq h.ascending, h.ofKey?_eq]
  rfl

/-- An association has values for the classes of the keys of the map. -/
theorem isSome_iff (h : m.Represents a) (c : KeyClass cmp) :
    (a c).isSome ↔ c ∈ m.entries.map fun e => KeyClass.of e.1 := by
  obtain ⟨key, rfl⟩ : ∃ key, KeyClass.of key = c := Quotient.exists_rep c
  rw [← h.ofKey?_eq, ofKey?, List.find?_isSome, List.mem_map]
  simp only [beq_iff_eq, KeyClass.of_eq_of_iff]

theorem size_eq (h : m.Represents a) : m.size = a.size := by
  have hnodup : (m.entries.map fun e => (KeyClass.of e.1 : KeyClass cmp)).Nodup := by
    rw [List.Nodup, List.pairwise_map]
    exact h.ascending.imp fun hlt heq => by simp [KeyClass.of_eq_of_iff.1 heq] at hlt
  have hclasses : {c | (a c).isSome} =
      ((m.entries.map fun e => (KeyClass.of e.1 : KeyClass cmp)).toFinset : Set (KeyClass cmp)) := by
    ext c
    rw [Set.mem_ofPred_eq, h.isSome_iff, Finset.mem_coe, List.mem_toFinset]
  rw [Association.size, hclasses, Set.ncard_coe_finset, List.toFinset_card_of_nodup hnodup,
    List.length_map]
  rfl

theorem empty : (empty : SortedMap κ ν).Represents (fun _ => none : Association cmp ν) :=
  ⟨.nil, fun _ => rfl⟩

/-- Inserting into a map is putting into what it represents. -/
theorem insert (h : m.Represents a) (key : κ) (value : ν) :
    (m.insert cmp key value).1 = a.value? key ∧
      (m.insert cmp key value).2.Represents (a.put key value) := by
  refine ⟨(fst_insertEntry key value m.entries).trans (h.find?_eq key), ?_, fun k => ?_⟩
  · exact ascending_insertEntry h.ascending
  · refine (ofKey?_insertEntry h.ascending key value k).trans ?_
    rw [a.put_of, h.ofKey?_eq, h.ofKey?_eq]

/-- Removing from a map is dropping from what it represents. -/
theorem erase (h : m.Represents a) (key : κ) :
    (m.erase cmp key).1 = a.value? key ∧ (m.erase cmp key).2.Represents (a.drop key) := by
  refine ⟨(fst_eraseEntry key m.entries).trans (h.find?_eq key), ?_, fun k => ?_⟩
  · exact ascending_eraseEntry h.ascending
  · refine (ofKey?_eraseEntry h.ascending key k).trans ?_
    rw [a.drop_of, h.ofKey?_eq]

end Represents

theorem refines_associations :
    (operations cmp : MapOperations (SortedMap κ ν) κ ν).Refines (Association.operations cmp)
      Represents where
  empty := .empty
  insert h key value := h.insert key value
  erase h key := h.erase key
  find? h key := h.find?_eq key
  size h := h.size_eq

/-- Maps in order with the same entries are the same map. -/
theorem eq_of_mem_iff {m m' : SortedMap κ ν} (h : Ascending cmp m.entries)
    (h' : Ascending cmp m'.entries) (hmem : ∀ e, e ∈ m.entries ↔ e ∈ m'.entries) : m = m' :=
  congrArg SortedMap.mk (h.eq_of_mem_iff h' hmem)

theorem isEqv_self {same : κ × ν → κ × ν → Bool} {es : List (κ × ν)} (h : ∀ e ∈ es, same e e) :
    es.isEqv es same := by
  induction es with
  | nil => rfl
  | cons e es ih =>
    obtain ⟨he, hes⟩ := List.forall_mem_cons.1 h
    rw [List.isEqv, he, ih hes]
    rfl

/-- **A sorted map is a finite map in every history.** However it searches, after any actions it has
given the answers of an association of key classes and holds the entries of that association, in
strictly ascending order. One more insertion gives the new value to the class of its key, where the
key that was there stays, and one more removal takes that class away; other entries stay. Of two
histories that end with the same entries, the maps cannot be told apart, nor can what is stored and
written of them. -/
theorem history_is_association {search : κ → List (κ × ν) → Except Nat Nat}
    (hsearch : IsSearch cmp search) (history : List (MapAction κ ν)) :
    let maps : MapOperations (SortedMap κ ν) κ ν := operations cmp
    let associations : MapOperations (Association cmp ν) κ ν := Association.operations cmp
    let m := maps.after history
    let a := associations.after history
    (searching search).after history = m ∧
      (searching search).answers history = associations.answers history ∧
      maps.answers history = associations.answers history ∧
      Ascending cmp m.entries ∧
      (∀ e, e ∈ m.entries ↔ a (.of e.1) = some e) ∧
      (∀ key, m.find? cmp key = a.value? key) ∧
      m.size = a.size ∧
      (∀ key value, (m.insert cmp key value).1 = a.value? key ∧
        ∀ e, e ∈ (m.insert cmp key value).2.entries ↔
          if cmp key e.1 = .eq then (((a (.of key)).map Prod.fst).getD key, value) = e
          else e ∈ m.entries) ∧
      (∀ key, (m.erase cmp key).1 = a.value? key ∧
        ∀ e, e ∈ (m.erase cmp key).2.entries ↔ cmp key e.1 ≠ .eq ∧ e ∈ m.entries) ∧
      ∀ history', let m' := maps.after history'
        (∀ e, e ∈ m.entries ↔ e ∈ m'.entries) →
          m = m' ∧ m.entries = m'.entries ∧
            (∀ same : κ × ν → κ × ν → Bool, (∀ e ∈ m.entries, same e e) →
              m.entries.isEqv m'.entries same) ∧
            ∀ frozen (k : Coding κ) (v : Coding ν),
              (Coding.entries frozen k v).encode m.entries =
                  (Coding.entries frozen k v).encode m'.entries ∧
                (Coding.entries frozen k v).format m.entries =
                  (Coding.entries frozen k v).format m'.entries := by
  intro maps associations m a
  have hsearched := refines_searching (ν := ν) hsearch
  have hclasses : maps.Refines associations Represents := refines_associations
  have hm : m.Represents a := hclasses.after history
  have hanswers := hclasses.answers history
  refine ⟨(hsearched.after history).1.symm, (hsearched.answers history).symm.trans hanswers,
    hanswers, hm.ascending, fun e => hm.mem_iff, hm.find?_eq, hm.size_eq, fun key value => ?_,
    fun key => ?_, ?_⟩
  · obtain ⟨hvalue, hinserted⟩ := hm.insert key value
    refine ⟨hvalue, fun e => ?_⟩
    rw [hinserted.mem_iff, a.put_of, hm.mem_iff]
    split
    · exact Option.some_inj
    · rfl
  · obtain ⟨hvalue, herased⟩ := hm.erase key
    refine ⟨hvalue, fun e => ?_⟩
    rw [herased.mem_iff, a.drop_of, hm.mem_iff]
    split
    · rename_i hkey
      simp [hkey]
    · rename_i hkey
      simp [hkey]
  · intro history' m' hmem
    have heq : m = m' := eq_of_mem_iff hm.ascending (hclasses.after history').ascending hmem
    refine ⟨heq, congrArg entries heq, fun same hsame => ?_, fun frozen k v => ?_⟩
    · rw [← heq]
      exact isEqv_self hsame
    · rw [heq]
      exact ⟨rfl, rfl⟩

end SortedMap

end

namespace SortedMap

/-- Keys in descending order, of which the decimals 1.0 and 1.00 are equal: two histories that end
with one entry, under the key that came first. -/
theorem history_is_association_decimals :
    let cmp : Value → Value → Ordering := (KeyOrder.reversed .natural).compare Value.compare
    let short : Value := .decimal ⟨10, 1, by decide, by decide⟩
    let long : Value := .decimal ⟨100, 2, by decide, by decide⟩
    let history : List (MapAction Value Nat) :=
      [.insert short 1, .insert (.int 3) 2, .insert long 3, .erase (.int 3), .find long, .size]
    let history' : List (MapAction Value Nat) := [.collect [(short, 4), (long, 3)]]
    IsSearch cmp (fun key (es : List (Value × Nat)) => bisect cmp key es 0 es.length) ∧
      (operations cmp).answers history =
        [.value none, .value none, .value (some 1), .value (some 2), .value (some 3), .size 1] ∧
      (Association.operations cmp).answers history = (operations cmp).answers history ∧
      ((operations cmp).after history).entries = [(short, 3)] ∧
      (operations cmp).after history = (operations cmp).after history' := by
  intro cmp short long history history'
  have hsearch : IsSearch cmp fun key (es : List (Value × Nat)) => bisect cmp key es 0 es.length :=
    isSearch_bisect
  obtain ⟨-, -, hanswers, -, -, -, -, -, -, hunique⟩ := history_is_association hsearch history
  exact ⟨hsearch, by rfl, hanswers.symm, by rfl, (hunique history' fun e => Iff.rfl).1⟩

end SortedMap

end CqlWire
