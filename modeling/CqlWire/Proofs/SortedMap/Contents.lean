import CqlWire.Proofs.SortedMap
import Mathlib.Data.List.Induction

/-!
# What a map holds of the pairs that it got

Of several pairs with equal keys a map keeps the first key and the last value, and it has no other
entries: `mem_ofList_iff`, by induction on the pairs from the last one back, where
`ofKey?_insertEntry` is what one insertion does.

A map may look for the place of a key by bisection and insert there (`insertAt`). Among ascending
entries there is one place only, so that is the same insertion (`insertAt_bisect`).
-/

namespace CqlWire

variable {κ ν : Type} {cmp : κ → κ → Ordering}

/-- Reversing an order changes nothing about which keys are equal. -/
theorem KeyOrder.compare_eq_eq_iff [Std.OrientedCmp cmp] (order : KeyOrder) {a b : κ} :
    order.compare cmp a b = .eq ↔ cmp a b = .eq := by
  induction order generalizing a b with
  | natural => exact Iff.rfl
  | reversed order ih => exact ih.trans Std.OrientedCmp.eq_comm

namespace SortedMap

/-! ## The entry of a key -/

/-- The first of the pairs that has an equal key. -/
def ofKey? (cmp : κ → κ → Ordering) (pairs : List (κ × ν)) (key : κ) : Option (κ × ν) :=
  pairs.find? fun p => cmp p.1 key == .eq

theorem ofKey?_cons (p : κ × ν) (pairs : List (κ × ν)) (key : κ) :
    ofKey? cmp (p :: pairs) key = if cmp p.1 key = .eq then some p else ofKey? cmp pairs key := by
  rw [ofKey?, List.find?_cons]
  cases h : cmp p.1 key <;> rfl

theorem ofKey?_concat (pairs : List (κ × ν)) (p : κ × ν) (key : κ) :
    ofKey? cmp (pairs ++ [p]) key =
      (ofKey? cmp pairs key).or (if cmp p.1 key = .eq then some p else none) := by
  rw [ofKey?, List.find?_append]
  exact congrArg _ (ofKey?_cons p [] key)

theorem ofKey?_congr {cmp' : κ → κ → Ordering} {key key' : κ}
    (h : ∀ k, cmp k key = .eq ↔ cmp' k key' = .eq) (pairs : List (κ × ν)) :
    ofKey? cmp pairs key = ofKey? cmp' pairs key' := by
  induction pairs with
  | nil => rfl
  | cons p pairs ih => simp only [ofKey?_cons, h, ih]

theorem ofKey?_eq_none {pairs : List (κ × ν)} {key : κ} (h : ∀ p ∈ pairs, cmp p.1 key ≠ .eq) :
    ofKey? cmp pairs key = none :=
  List.find?_eq_none.2 fun p hp heq => h p hp (beq_iff_eq.1 heq)

section

variable [Std.TransCmp cmp]

/-- An entry of a map is the one of its key. -/
theorem mem_iff_ofKey?_eq_some {es : List (κ × ν)} (h : Ascending cmp es) {e : κ × ν} :
    e ∈ es ↔ ofKey? cmp es e.1 = some e := by
  refine ⟨fun he => ?_, List.mem_of_find?_eq_some⟩
  induction es with
  | nil => cases he
  | cons a es ih =>
    obtain ⟨ha, hes⟩ := List.pairwise_cons.1 h
    rw [ofKey?_cons]
    rcases List.mem_cons.1 he with rfl | he
    · exact if_pos Std.ReflCmp.compare_self
    · have hne : cmp a.1 e.1 ≠ .eq := by simp [ha e he]
      rw [if_neg hne]
      exact ih hes he

/-- No key behind a greater one is equal. -/
theorem ofKey?_eq_none_of_gt {a : κ × ν} {es : List (κ × ν)} (h : Ascending cmp (a :: es)) {key : κ}
    (hgt : cmp a.1 key = .gt) : ofKey? cmp (a :: es) key = none := by
  obtain ⟨ha, -⟩ := List.pairwise_cons.1 h
  refine ofKey?_eq_none (List.forall_mem_cons.2 ⟨by simp [hgt], fun e he => ?_⟩)
  simp [Std.TransCmp.gt_trans (Std.OrientedCmp.gt_of_lt (ha e he)) hgt]

/-- Inserting gives the key the new value; an equal key that is there stays. -/
theorem ofKey?_insertEntry {es : List (κ × ν)} (h : Ascending cmp es) (key : κ) (value : ν)
    (k : κ) : ofKey? cmp (insertEntry cmp key value es).2 k =
      if cmp key k = .eq then some (((ofKey? cmp es key).map Prod.fst).getD key, value)
      else ofKey? cmp es k := by
  induction es with
  | nil => exact ofKey?_cons _ [] k
  | cons a es ih =>
    obtain ⟨ha, hes⟩ := List.pairwise_cons.1 h
    simp only [insertEntry]
    split
    · rename_i hlt
      have hne : cmp a.1 key ≠ .eq := by simp [hlt]
      rw [ofKey?_cons, ih hes, ofKey?_cons a es k, ofKey?_cons a es key, if_neg hne]
      by_cases hk : cmp key k = .eq
      · have hskip : cmp a.1 k ≠ .eq := by simp [Std.TransCmp.lt_of_lt_of_eq hlt hk]
        rw [if_neg hskip, if_pos hk, if_pos hk]
      · rw [if_neg hk, if_neg hk]
    · rename_i heq
      rw [ofKey?_cons, ofKey?_cons a es k, ofKey?_cons a es key, if_pos heq]
      have hk : cmp a.1 k = .eq ↔ cmp key k = .eq := by rw [Std.TransCmp.congr_left heq]
      simp only [hk]
      split
      · rfl
      · rfl
    · rename_i hgt
      rw [ofKey?_cons, ofKey?_eq_none_of_gt h hgt]
      rfl

end

/-! ## Maps that have got any pairs -/

theorem entries_ofList_concat (pairs : List (κ × ν)) (p : κ × ν) :
    (ofList cmp (pairs ++ [p])).entries =
      (insertEntry cmp p.1 p.2 (ofList cmp pairs).entries).2 := by
  rw [ofList, List.foldl_append]
  rfl

section

variable [Std.TransCmp cmp]

/-- A map keeps the first of several equal keys. -/
theorem fst_ofKey?_ofList (pairs : List (κ × ν)) (key : κ) :
    (ofKey? cmp (ofList cmp pairs).entries key).map Prod.fst =
      (ofKey? cmp pairs key).map Prod.fst := by
  induction pairs using List.reverseRecOn generalizing key with
  | nil => rfl
  | append_singleton pairs p ih =>
    rw [entries_ofList_concat, ofKey?_insertEntry (ascending_ofList pairs), ofKey?_concat]
    by_cases hk : cmp p.1 key = .eq
    · have hsame : ofKey? cmp pairs p.1 = ofKey? cmp pairs key :=
        ofKey?_congr (fun k => by rw [Std.TransCmp.congr_right hk]) pairs
      rw [if_pos hk, if_pos hk, ih, hsame]
      cases ofKey? cmp pairs key with
      | none => rfl
      | some q => rfl
    · rw [if_neg hk, if_neg hk, Option.or_none]
      exact ih key

/-- A map keeps the last value of several equal keys. -/
theorem snd_ofKey?_ofList (pairs : List (κ × ν)) (key : κ) :
    (ofKey? cmp (ofList cmp pairs).entries key).map Prod.snd =
      (ofKey? cmp pairs.reverse key).map Prod.snd := by
  induction pairs using List.reverseRecOn with
  | nil => rfl
  | append_singleton pairs p ih =>
    rw [entries_ofList_concat, ofKey?_insertEntry (ascending_ofList pairs), List.reverse_concat,
      ofKey?_cons]
    by_cases hk : cmp p.1 key = .eq
    · rw [if_pos hk, if_pos hk]
      rfl
    · rw [if_neg hk, if_neg hk]
      exact ih

/-- The entries of a map are the first key and the last value of all pairs with equal keys. -/
theorem mem_ofList_iff {pairs : List (κ × ν)} {e : κ × ν} :
    e ∈ (ofList cmp pairs).entries ↔
      (ofKey? cmp pairs e.1).map Prod.fst = some e.1 ∧
        (ofKey? cmp pairs.reverse e.1).map Prod.snd = some e.2 := by
  rw [mem_iff_ofKey?_eq_some (ascending_ofList pairs), ← fst_ofKey?_ofList, ← snd_ofKey?_ofList]
  cases ofKey? cmp (ofList cmp pairs).entries e.1 <;> simp [Prod.ext_iff]

end

/-! ## Inserting at a place -/

/-- Looks for a key among the entries from `lo` to before `hi`: the place of an equal key, or the
one where the key belongs. -/
def bisect (cmp : κ → κ → Ordering) (key : κ) (es : List (κ × ν)) (lo hi : Nat) : Except Nat Nat :=
  if lo < hi then
    let mid := lo + (hi - lo) / 2
    match es[mid]? with
    | none => .error lo
    | some e =>
      match cmp e.1 key with
      | .eq => .ok mid
      | .lt => bisect cmp key es (mid + 1) hi
      | .gt => bisect cmp key es lo mid
  else .error lo
termination_by hi - lo

/-- Replaces the value at the place of an equal key, or puts the entry where it belongs. The value
that was there comes with the result. -/
def insertAt (key : κ) (value : ν) (es : List (κ × ν)) : Except Nat Nat → Option ν × List (κ × ν)
  | .ok i =>
    match es[i]? with
    | some e => (some e.2, es.set i (e.1, value))
    | none => (none, es)
  | .error i => (none, es.take i ++ (key, value) :: es.drop i)

/-- The place of an equal key, or the one between the smaller and the greater keys. -/
inductive IsPlace (cmp : κ → κ → Ordering) (key : κ) (es : List (κ × ν)) :
    Except Nat Nat → Prop where
  | found {i : Nat} {e : κ × ν} (he : es[i]? = some e) (heq : cmp e.1 key = .eq) :
    IsPlace cmp key es (.ok i)
  | missing {i : Nat} (hbefore : ∀ e ∈ es.take i, cmp e.1 key = .lt)
    (hbehind : ∀ e ∈ es.drop i, cmp e.1 key = .gt) : IsPlace cmp key es (.error i)

theorem drop_eq_cons {es : List (κ × ν)} {i : Nat} {e : κ × ν} (he : es[i]? = some e) :
    es.drop i = e :: es.drop (i + 1) := by
  rw [List.drop_eq_getElem?_toList_append, he]
  rfl

theorem insertEntry_append {key : κ} {pre : List (κ × ν)} (hpre : ∀ e ∈ pre, cmp e.1 key = .lt)
    (value : ν) (post : List (κ × ν)) : insertEntry cmp key value (pre ++ post) =
      ((insertEntry cmp key value post).1, pre ++ (insertEntry cmp key value post).2) := by
  induction pre with
  | nil => rfl
  | cons e pre ih =>
    obtain ⟨he, hpre⟩ := List.forall_mem_cons.1 hpre
    rw [List.cons_append, insertEntry]
    simp only [he, ih hpre]
    rfl

theorem insertEntry_of_gt {key : κ} {es : List (κ × ν)} (h : ∀ e ∈ es, cmp e.1 key = .gt)
    (value : ν) : insertEntry cmp key value es = (none, (key, value) :: es) := by
  cases es with
  | nil => rfl
  | cons e es => simp only [insertEntry, h e List.mem_cons_self]

section

variable [Std.TransCmp cmp] {key : κ} {es : List (κ × ν)}

/-- The entries before and behind one of ascending entries. -/
theorem Ascending.around (h : Ascending cmp es) {i : Nat} {e : κ × ν} (he : es[i]? = some e) :
    (∀ a ∈ es.take i, cmp a.1 e.1 = .lt) ∧ ∀ a ∈ es.drop (i + 1), cmp a.1 e.1 = .gt := by
  rw [← List.take_append_drop i es, drop_eq_cons he] at h
  obtain ⟨-, hbehind, hbefore⟩ := List.pairwise_append.1 h
  refine ⟨fun a ha => hbefore a ha e List.mem_cons_self, fun a ha => ?_⟩
  exact Std.OrientedCmp.gt_of_lt ((List.pairwise_cons.1 hbehind).1 a ha)

/-- Bisection finds a place, if the keys outside of its bounds are on the right sides. -/
theorem isPlace_bisect (h : Ascending cmp es) {lo hi : Nat} (hlo : lo ≤ hi) (hhi : hi ≤ es.length)
    (hbefore : ∀ e ∈ es.take lo, cmp e.1 key = .lt)
    (hbehind : ∀ e ∈ es.drop hi, cmp e.1 key = .gt) :
    IsPlace cmp key es (bisect cmp key es lo hi) := by
  fun_induction bisect cmp key es lo hi with
  | case1 lo hi hlt mid hnone =>
    rw [List.getElem?_eq_none_iff] at hnone
    omega
  | case2 lo hi hlt mid e he heq => exact .found he heq
  | case3 lo hi hlt mid e he hless ih =>
    -- the entry in the middle and all before it are smaller
    refine ih (by omega) hhi (fun a ha => ?_) hbehind
    rw [List.take_add_one, he] at ha
    rcases List.mem_append.1 ha with ha | ha
    · exact Std.TransCmp.lt_trans ((h.around he).1 a ha) hless
    · cases List.mem_singleton.1 ha
      exact hless
  | case4 lo hi hlt mid e he hgreater ih =>
    -- the entry in the middle and all behind it are greater
    refine ih (by omega) (by omega) hbefore ?_
    rw [drop_eq_cons he]
    refine List.forall_mem_cons.2 ⟨hgreater, fun a ha => ?_⟩
    exact Std.TransCmp.gt_trans ((h.around he).2 a ha) hgreater
  | case5 lo hi hge =>
    obtain rfl : lo = hi := by omega
    exact .missing hbefore hbehind

/-- There is one place for a key among ascending entries, and inserting there is inserting. -/
theorem insertAt_of_isPlace (h : Ascending cmp es) (value : ν) {place : Except Nat Nat}
    (hplace : IsPlace cmp key es place) :
    insertAt key value es place = insertEntry cmp key value es := by
  cases hplace with
  | @found i e he heq =>
    obtain ⟨hi, -⟩ := List.getElem?_eq_some_iff.1 he
    have hbefore : ∀ a ∈ es.take i, cmp a.1 key = .lt := fun a ha =>
      Std.TransCmp.lt_of_lt_of_eq ((h.around he).1 a ha) heq
    conv_rhs => rw [← List.take_append_drop i es, insertEntry_append hbefore, drop_eq_cons he]
    simp only [insertAt, he, insertEntry, heq, List.set_eq_take_cons_drop _ hi]
  | @missing i hbefore hbehind =>
    conv_rhs => rw [← List.take_append_drop i es, insertEntry_append hbefore,
      insertEntry_of_gt hbehind]
    rfl

/-- Inserting at the place that bisection finds is inserting. -/
theorem insertAt_bisect (h : Ascending cmp es) (value : ν) :
    insertAt key value es (bisect cmp key es 0 es.length) = insertEntry cmp key value es := by
  refine insertAt_of_isPlace h value (isPlace_bisect h (Nat.zero_le _) (Nat.le_refl _) ?_ ?_)
  · exact List.forall_mem_nil _
  · rw [List.drop_length]
    exact List.forall_mem_nil _

end

end SortedMap

end CqlWire
