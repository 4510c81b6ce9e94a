import CqlWire.Proofs.Fallible
import CqlWire.Proofs.SortedMap.History

/-!
# Reversing the order of the keys

Two orders that agree on which keys are equal put the same entries into a map in every history. For
each key the two maps have one entry or none (`Parallel`), and that alone decides what an insertion
or a removal does, wherever the search for the key has probed. So the maps give the same answers
(`refines_parallel`) and hold the same entries (`Parallel.perm`); where one order is the other one
reversed, the entries stand in reverse (`Parallel.entries_reversed`).

What is written of a map is the number of its entries and the frames of each
(`encode_entries_eq_ok_iff`), so the frames of reversed entries are the reversed frames
(`FramedAs.reverse`).
-/

namespace CqlWire

variable {κ ν : Type}

namespace Coding

/-! ## The frames of a map -/

/-- The bytes of the number of entries, and the frames of one entry after another. -/
structure FramedAs (frozen : Bool) (k : Coding κ) (v : Coding ν) (es : List (κ × ν))
    (count : Bytes) (frames : List Bytes) : Prop where
  count_eq : Frame.writeCount es.length = .ok count
  frames_eq : List.Forall₂
    (fun e frame => encodeEntry (.map frozen k.type v.type) k v e = .ok frame) es frames

variable {frozen : Bool} {k : Coding κ} {v : Coding ν} {es : List (κ × ν)}

theorem encode_entries_eq_ok_iff {out : Option Bytes} : (entries frozen k v).encode es = .ok out ↔
    ∃ count frames, FramedAs frozen k v es count frames ∧ out = some (count ++ frames.flatten) := by
  simp only [entries, bind_eq_ok_iff, pure_eq_ok_iff]
  constructor
  · rintro ⟨count, hcount, frames, hframes, rfl⟩
    exact ⟨count, frames, ⟨hcount, mapM_eq_ok_iff.1 hframes⟩, rfl⟩
  · rintro ⟨count, frames, h, rfl⟩
    exact ⟨count, h.count_eq, frames, mapM_eq_ok_iff.2 h.frames_eq, rfl⟩

/-- Entries in reverse have the same count and their frames in reverse. -/
theorem FramedAs.reverse {count : Bytes} {frames : List Bytes}
    (h : FramedAs frozen k v es count frames) :
    FramedAs frozen k v es.reverse count frames.reverse where
  count_eq := by rw [List.length_reverse, h.count_eq]
  frames_eq := List.forall₂_reverse_iff.2 h.frames_eq

theorem encode_entries_reverse_eq_ok_iff {out : Option Bytes} :
    (entries frozen k v).encode es.reverse = .ok out ↔ ∃ count frames,
      FramedAs frozen k v es count frames ∧ out = some (count ++ frames.reverse.flatten) := by
  rw [encode_entries_eq_ok_iff]
  constructor
  · rintro ⟨count, frames, h, rfl⟩
    refine ⟨count, frames.reverse, ?_, by rw [List.reverse_reverse]⟩
    rw [← List.reverse_reverse es]
    exact h.reverse
  · rintro ⟨count, frames, h, rfl⟩
    exact ⟨count, frames.reverse, h.reverse, rfl⟩

end Coding

namespace SortedMap

variable {cmp cmp' : κ → κ → Ordering}

/-! ## Orders with the same equal keys -/

/-- Two maps, each ascending in its own order, that have the same entry for each key. -/
structure Parallel (cmp cmp' : κ → κ → Ordering) (m n : SortedMap κ ν) : Prop where
  left : Ascending cmp m.entries
  right : Ascending cmp' n.entries
  ofKey?_eq (key : κ) : ofKey? cmp m.entries key = ofKey? cmp' n.entries key

section

variable [Std.TransCmp cmp] [Std.TransCmp cmp'] {m n : SortedMap κ ν}

theorem Parallel.perm (h : Parallel cmp cmp' m n) : m.entries.Perm n.entries := by
  refine (List.perm_ext_iff_of_nodup h.left.nodup h.right.nodup).2 fun e => ?_
  rw [mem_iff_ofKey?_eq_some h.left, mem_iff_ofKey?_eq_some h.right, h.ofKey?_eq]

theorem Parallel.find?_eq (h : Parallel cmp cmp' m n) (key : κ) :
    m.find? cmp key = n.find? cmp' key := by
  rw [find?, find?, findEntry?_eq h.left, findEntry?_eq h.right, h.ofKey?_eq]

/-- Maps under orders with the same equal keys give the same answers. Of two equal keys both keep
the one that they had first. -/
theorem refines_parallel (heq : ∀ a b, cmp a b = .eq ↔ cmp' a b = .eq) :
    (operations cmp : MapOperations (SortedMap κ ν) κ ν).Refines (operations cmp')
      (Parallel cmp cmp') where
  empty := ⟨.nil, .nil, fun _ => rfl⟩
  insert {m n} h key value := by
    have hvalue := h.find?_eq key
    refine ⟨?_, ascending_insertEntry h.left, ascending_insertEntry h.right, fun k => ?_⟩
    · exact (fst_insertEntry key value m.entries).trans
        (hvalue.trans (fst_insertEntry key value n.entries).symm)
    · have hm := ofKey?_insertEntry h.left key value k
      have hn := ofKey?_insertEntry h.right key value k
      simp only [heq, h.ofKey?_eq] at hm
      exact hm.trans hn.symm
  erase {m n} h key := by
    have hvalue := h.find?_eq key
    refine ⟨?_, ascending_eraseEntry h.left, ascending_eraseEntry h.right, fun k => ?_⟩
    · exact (fst_eraseEntry key m.entries).trans (hvalue.trans (fst_eraseEntry key n.entries).symm)
    · have hm := ofKey?_eraseEntry h.left key k
      have hn := ofKey?_eraseEntry h.right key k
      simp only [heq, h.ofKey?_eq] at hm
      exact hm.trans hn.symm
  find? h key := h.find?_eq key
  size h := h.perm.length_eq

end

/-! ## Reversed orders -/

/-- Entries ascend in the reversed order if they ascend in the order from the last one back. -/
theorem ascending_reversed_iff {order : KeyOrder} {es : List (κ × ν)} :
    Ascending (order.reversed.compare cmp) es ↔ Ascending (order.compare cmp) es.reverse :=
  List.pairwise_reverse.symm

section

variable [Std.TransCmp cmp]

theorem Parallel.entries_reversed {order : KeyOrder} {m n : SortedMap κ ν}
    (h : Parallel (order.compare cmp) (order.reversed.compare cmp) m n) :
    n.entries = m.entries.reverse := by
  have hreverse : n.entries.reverse = m.entries :=
    (ascending_reversed_iff.1 h.right).eq_of_perm h.left
      ((List.reverse_perm n.entries).trans h.perm.symm)
  rw [← hreverse, List.reverse_reverse]

/-- A map that searches and one that does not are the same after a history, with the same
answers. -/
theorem searching_eq {search : κ → List (κ × ν) → Except Nat Nat} (hsearch : IsSearch cmp search)
    (history : List (MapAction κ ν)) :
    (searching search).after history = (operations cmp).after history ∧
      (searching search).answers history = (operations cmp).answers history := by
  have hrefines := refines_searching (ν := ν) hsearch
  exact ⟨(hrefines.after history).1.symm, (hrefines.answers history).symm⟩

/-- **Reversing the order reverses the map.** After any actions, and so after each of them, the map
under the reversed order holds the entries of the other one in reverse, whatever searches the two
use; all actions have given the same answers; and the map under the order reversed twice is the same
again. What is written of the one map is its count and its frames, and of the other the same count
and these frames in reverse; if an entry has no frames, neither map is written. -/
theorem reversed_order_reverses_map (order : KeyOrder)
    {search searchBack searchTwice : κ → List (κ × ν) → Except Nat Nat}
    (hsearch : IsSearch (order.compare cmp) search)
    (hback : IsSearch (order.reversed.compare cmp) searchBack)
    (htwice : IsSearch (order.reversed.reversed.compare cmp) searchTwice)
    (history : List (MapAction κ ν)) :
    let m := (searching search).after history
    let back := (searching searchBack).after history
    let twice := (searching searchTwice).after history
    back.entries = m.entries.reverse ∧ twice.entries = m.entries ∧
      (searching searchBack).answers history = (searching search).answers history ∧
      (searching searchTwice).answers history = (searching search).answers history ∧
      m = (operations (order.compare cmp)).after history ∧
      back = (operations (order.reversed.compare cmp)).after history ∧
      ∀ frozen (k : Coding κ) (v : Coding ν) out,
        ((Coding.entries frozen k v).encode m.entries = .ok out ↔
          ∃ count frames, Coding.FramedAs frozen k v m.entries count frames ∧
            out = some (count ++ frames.flatten)) ∧
        ((Coding.entries frozen k v).encode back.entries = .ok out ↔
          ∃ count frames, Coding.FramedAs frozen k v m.entries count frames ∧
            out = some (count ++ frames.reverse.flatten)) := by
  intro m back twice
  obtain ⟨hm, hanswers⟩ := searching_eq hsearch history
  obtain ⟨hback, hanswersBack⟩ := searching_eq hback history
  obtain ⟨htwice, hanswersTwice⟩ := searching_eq htwice history
  have hparallel : (operations (order.compare cmp) : MapOperations (SortedMap κ ν) κ ν).Refines
      (operations (order.reversed.compare cmp))
      (Parallel (order.compare cmp) (order.reversed.compare cmp)) :=
    refines_parallel fun _ _ => order.compare_eq_eq_iff.trans order.reversed.compare_eq_eq_iff.symm
  have hreverse : back.entries = m.entries.reverse := by
    show ((searching searchBack).after history).entries =
      ((searching search).after history).entries.reverse
    rw [hm, hback]
    exact (hparallel.after history).entries_reversed
  refine ⟨hreverse, ?_, ?_, ?_, hm, hback, fun frozen k v out => ⟨?_, ?_⟩⟩
  · exact congrArg entries (htwice.trans hm.symm)
  · rw [hanswersBack, hanswers, hparallel.answers history]
  · exact hanswersTwice.trans hanswers.symm
  · exact Coding.encode_entries_eq_ok_iff
  · rw [hreverse]
    exact Coding.encode_entries_reverse_eq_ok_iff

end

/-- Decimals in their own order and in descending order, by bisection: of 1.0 and 1.00 both maps
keep the one that came first, with the value that came last. -/
theorem reversed_order_reverses_map_decimals :
    let bisection (order : KeyOrder) (key : Value) (es : List (Value × Value)) :=
      bisect (order.compare Value.compare) key es 0 es.length
    let short : Value := .decimal ⟨10, 1, by decide, by decide⟩
    let long : Value := .decimal ⟨100, 2, by decide, by decide⟩
    let half : Value := .decimal ⟨5, 1, by decide, by decide⟩
    let history : List (MapAction Value Value) :=
      [.insert short (.int 1), .insert half (.int 2), .insert long (.int 3), .find short]
    let back := (searching (bisection (.reversed .natural))).after history
    (∀ order, IsSearch (order.compare Value.compare) (bisection order)) ∧
      ((searching (bisection .natural)).after history).entries =
        [(half, .int 2), (short, .int 3)] ∧
      back.entries = [(short, .int 3), (half, .int 2)] ∧
      (searching (bisection (.reversed .natural))).answers history =
        [.value none, .value none, .value (some (.int 1)), .value (some (.int 3))] := by
  intro bisection short long half history back
  have hsearch : ∀ order, IsSearch (order.compare Value.compare) (bisection order) :=
    fun order => isSearch_bisect
  obtain ⟨hreverse, -, hanswers, -, hm, -, -⟩ := reversed_order_reverses_map .natural
    (hsearch .natural) (hsearch (.reversed .natural)) (hsearch (.reversed (.reversed .natural)))
    history
  have hentries : ((searching (bisection .natural)).after history).entries =
      [(half, .int 2), (short, .int 3)] := by
    rw [hm]
    rfl
  refine ⟨hsearch, hentries, ?_, hanswers.trans ?_⟩
  · rw [hreverse, hentries]
    rfl
  · rw [(searching_eq (hsearch .natural) history).2]
    rfl

end SortedMap

end CqlWire
