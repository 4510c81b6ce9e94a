import CqlWire.SortedMap
import Mathlib.Data.List.Sort

/-!
# Sorted maps are sorted

Inserting keeps the entries strictly ascending (`ascending_insertEntry`), and where no key equals
another one it adds its entry and changes nothing else (`insertEntry_perm`). A map that has got the
entries of an ascending list, in whatever turn, is therefore that list (`entries_ofList`). Whatever
pairs a map has got, its entries are ascending (`ascending_ofList`), and their keys and values are
among those of the pairs (`forall_mem_ofList`), though not always together.
-/

namespace CqlWire

variable {κ ν : Type}

instance KeyOrder.transCmp (cmp : κ → κ → Ordering) [Std.TransCmp cmp] (order : KeyOrder) :
    Std.TransCmp (order.compare cmp) := by
  induction order with
  | natural => assumption
  | reversed order ih =>
    show Std.TransCmp fun a b => order.compare cmp b a
    exact Std.TransCmp.opposite

namespace SortedMap

variable (cmp : κ → κ → Ordering)

/-- Entries in the strict order of their keys. -/
def Ascending (es : List (κ × ν)) : Prop :=
  es.Pairwise fun a b => cmp a.1 b.1 = .lt

/-- Entries of which no two have equal keys. -/
def Distinct (es : List (κ × ν)) : Prop :=
  es.Pairwise fun a b => cmp a.1 b.1 ≠ .eq

variable {cmp}

/-- What holds of the keys and values that there were and of the new ones holds afterwards. -/
theorem forall_mem_insertEntry {P : κ → Prop} {Q : ν → Prop} {key : κ} {value : ν}
    {es : List (κ × ν)} (hkey : P key) (hvalue : Q value) (h : ∀ e ∈ es, P e.1 ∧ Q e.2) :
    ∀ e ∈ (insertEntry cmp key value es).2, P e.1 ∧ Q e.2 := by
  induction es with
  | nil => exact List.forall_mem_singleton.2 ⟨hkey, hvalue⟩
  | cons a es ih =>
    obtain ⟨ha, hes⟩ := List.forall_mem_cons.1 h
    simp only [insertEntry]
    split
    · exact List.forall_mem_cons.2 ⟨ha, ih hes⟩
    · exact List.forall_mem_cons.2 ⟨⟨ha.1, hvalue⟩, hes⟩
    · exact List.forall_mem_cons.2 ⟨⟨hkey, hvalue⟩, h⟩

theorem length_insertEntry_le (key : κ) (value : ν) (es : List (κ × ν)) :
    (insertEntry cmp key value es).2.length ≤ es.length + 1 := by
  induction es with
  | nil => exact Nat.le_refl 1
  | cons a es ih =>
    simp only [insertEntry]
    split
    · exact Nat.succ_le_succ ih
    · exact Nat.le_succ _
    · exact Nat.le_refl _

theorem ascending_insertEntry [Std.TransCmp cmp] {key : κ} {value : ν} {es : List (κ × ν)}
    (h : Ascending cmp es) : Ascending cmp (insertEntry cmp key value es).2 := by
  induction es with
  | nil => exact List.pairwise_singleton _ _
  | cons a es ih =>
    obtain ⟨ha, hes⟩ := List.pairwise_cons.1 h
    simp only [insertEntry]
    split
    · rename_i hlt
      have hnew : ∀ e ∈ (insertEntry cmp key value es).2, cmp a.1 e.1 = .lt ∧ True :=
        forall_mem_insertEntry (P := fun k => cmp a.1 k = .lt) (Q := fun _ => True) hlt trivial
          fun e he => ⟨ha e he, trivial⟩
      exact List.pairwise_cons.2 ⟨fun e he => (hnew e he).1, ih hes⟩
    · exact List.pairwise_cons.2 ⟨ha, hes⟩
    · rename_i hgt
      have hlt : cmp key a.1 = .lt := Std.OrientedCmp.lt_of_gt hgt
      refine List.pairwise_cons.2 ⟨fun e he => ?_, h⟩
      rcases List.mem_cons.1 he with rfl | he
      · exact hlt
      · exact Std.TransCmp.lt_trans hlt (ha e he)

/-- A key that is not there is added. -/
theorem insertEntry_perm {key : κ} {value : ν} {es : List (κ × ν)}
    (h : ∀ e ∈ es, cmp e.1 key ≠ .eq) :
    (insertEntry cmp key value es).2.Perm ((key, value) :: es) := by
  induction es with
  | nil => exact .refl _
  | cons a es ih =>
    simp only [insertEntry]
    split
    · exact ((ih fun e he => h e (List.mem_cons_of_mem _ he)).cons a).trans (.swap _ _ _)
    · exact absurd ‹_› (h a List.mem_cons_self)
    · exact .refl _

/-- The entries after several insertions into a map. -/
theorem foldl_insert [Std.TransCmp cmp] {pairs : List (κ × ν)} {m : SortedMap κ ν}
    (hm : Ascending cmp m.entries) (hp : Distinct cmp (m.entries ++ pairs)) :
    Ascending cmp (pairs.foldl (fun m e => (m.insert cmp e.1 e.2).2) m).entries ∧
      (pairs.foldl (fun m e => (m.insert cmp e.1 e.2).2) m).entries.Perm (m.entries ++ pairs) := by
  induction pairs generalizing m with
  | nil => exact ⟨hm, by simp⟩
  | cons e pairs ih =>
    have hnew : ∀ e' ∈ m.entries, cmp e'.1 e.1 ≠ .eq := fun e' he' =>
      (List.pairwise_append.1 hp).2.2 e' he' e List.mem_cons_self
    have hperm : (m.insert cmp e.1 e.2).2.entries.Perm (e :: m.entries) := insertEntry_perm hnew
    have hmiddle : ((m.insert cmp e.1 e.2).2.entries ++ pairs).Perm (m.entries ++ e :: pairs) :=
      (hperm.append_right pairs).trans List.perm_middle.symm
    have hdistinct : Distinct cmp ((m.insert cmp e.1 e.2).2.entries ++ pairs) :=
      (hmiddle.symm.pairwise_iff fun h h' => h (Std.OrientedCmp.eq_symm h')).1 hp
    obtain ⟨hasc, hfold⟩ := ih (ascending_insertEntry hm) hdistinct
    exact ⟨hasc, hfold.trans hmiddle⟩

/-- There is one ascending order of the same entries. -/
theorem Ascending.eq_of_perm [Std.TransCmp cmp] {es es' : List (κ × ν)} (h : Ascending cmp es)
    (h' : Ascending cmp es') (hperm : es.Perm es') : es = es' := by
  refine hperm.eq_of_pairwise (fun a b _ _ hab hba => ?_) h h'
  rw [Std.OrientedCmp.gt_of_lt hab] at hba
  cases hba

/-- A map that has got the entries of an ascending list, in whatever turn, holds that list. -/
theorem entries_ofList [Std.TransCmp cmp] {es pairs : List (κ × ν)} (h : Ascending cmp es)
    (hp : pairs.Perm es) : (ofList cmp pairs).entries = es := by
  have hdistinct : Distinct cmp ((empty : SortedMap κ ν).entries ++ pairs) :=
    (hp.pairwise_iff fun h h' => h (Std.OrientedCmp.eq_symm h')).2 (h.imp fun hlt heq => by
      rw [hlt] at heq
      cases heq)
  obtain ⟨hasc, hperm⟩ := foldl_insert List.Pairwise.nil hdistinct
  exact hasc.eq_of_perm h (hperm.trans hp)

/-! ## Maps that have got any pairs -/

theorem ascending_ofList [Std.TransCmp cmp] (pairs : List (κ × ν)) :
    Ascending cmp (ofList cmp pairs).entries :=
  List.foldlRecOn (motive := fun m : SortedMap κ ν => Ascending cmp m.entries) pairs _ .nil
    fun _ hm _ _ => ascending_insertEntry hm

/-- What holds of the keys and values of the pairs holds of those of the map. -/
theorem forall_mem_ofList {P : κ → Prop} {Q : ν → Prop} {pairs : List (κ × ν)}
    (h : ∀ p ∈ pairs, P p.1 ∧ Q p.2) : ∀ e ∈ (ofList cmp pairs).entries, P e.1 ∧ Q e.2 :=
  List.foldlRecOn (motive := fun m : SortedMap κ ν => ∀ e ∈ m.entries, P e.1 ∧ Q e.2) pairs _
    (List.forall_mem_nil _) fun _ hm p hp => forall_mem_insertEntry (h p hp).1 (h p hp).2 hm

theorem length_foldl_insert_le (pairs : List (κ × ν)) (m : SortedMap κ ν) :
    (pairs.foldl (fun m e => (m.insert cmp e.1 e.2).2) m).entries.length ≤
      m.entries.length + pairs.length := by
  induction pairs generalizing m with
  | nil => exact Nat.le_refl _
  | cons e pairs ih =>
    have hstep : (m.insert cmp e.1 e.2).2.entries.length ≤ m.entries.length + 1 :=
      length_insertEntry_le e.1 e.2 m.entries
    have hrest := ih (m.insert cmp e.1 e.2).2
    rw [List.foldl_cons, List.length_cons]
    omega

theorem length_ofList_le (pairs : List (κ × ν)) :
    (ofList cmp pairs).entries.length ≤ pairs.length :=
  Nat.le_trans (length_foldl_insert_le pairs empty) (Nat.le_of_eq (Nat.zero_add _))

end SortedMap

end CqlWire
