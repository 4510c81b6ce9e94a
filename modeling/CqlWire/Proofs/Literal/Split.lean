import CqlWire.Literal.Split
import CqlWire.Coding.Collection
import CqlWire.Proofs.Literal.Grammar

/-!
# Collection literals are split where they were joined

An item that stands where a list has one, with layout in front of it, is `Written`. A list of such
items behind a bracket, with commas between them, is read as the items (`enclosed_written`),
whatever layout stands around. So the terms and the entries of a literal are those that it was
made of (`splitElements_braced`, `splitEntries_braced`).
-/

namespace CqlWire.Literal

open Text (isLayout isBlank skipLayout trim IsTight)

variable {α : Type}

/-! ## Items -/

/-- An item of a list: the layout in front of it, the text that is read and what it is read as. -/
structure Written (α : Type) where
  lead : List Char
  text : List Char
  value : α

/-- The item is read from its text, wherever the text of an item ends. -/
structure Written.IsRead (item : Item α) (w : Written α) : Prop where
  lead : ∀ c ∈ w.lead, isLayout c = true
  nonempty : w.text ≠ []
  start : ∀ c, w.text.head? = some c → isLayout c = false
  read : ∀ r, Stops r → item (w.text ++ r) = some (w.value, r)

/-- The items behind the first one, each behind its comma. -/
def joinMore (ws : List (Written α)) : List Char :=
  ws.flatMap fun w => ',' :: (w.lead ++ w.text)

/-- The items with commas between them. -/
def joinItems : List (Written α) → List Char
  | [] => []
  | w :: ws => w.lead ++ w.text ++ joinMore ws

theorem joinMore_cons (w : Written α) (ws : List (Written α)) (r : List Char) :
    joinMore (w :: ws) ++ r = ',' :: (w.lead ++ (w.text ++ (joinMore ws ++ r))) := by
  rw [joinMore, List.flatMap_cons, ← joinMore, List.cons_append, List.cons_append,
    List.append_assoc, List.append_assoc]

theorem stops_closing {closing : Char} (h : isCloser closing = true) (r : List Char) :
    Stops (closing :: r) := by
  intro c hc
  obtain rfl : closing = c := Option.some.inj hc
  exact .inr (.inr h)

theorem stops_comma (r : List Char) : Stops (',' :: r) := by
  intro c hc
  obtain rfl : ',' = c := Option.some.inj hc
  exact .inl rfl

theorem stops_colon (r : List Char) : Stops (':' :: r) := by
  intro c hc
  obtain rfl : ':' = c := Option.some.inj hc
  exact .inr (.inl rfl)

theorem stops_joinMore (ws : List (Written α)) {r : List Char} (h : Stops r) :
    Stops (joinMore ws ++ r) := by
  cases ws with
  | nil => exact h
  | cons w ws => exact stops_comma _

theorem isLayout_of_isCloser {c : Char} (h : isCloser c = true) : isLayout c = false := by
  rcases eq_of_isCloser h with rfl | rfl | rfl <;> rfl

theorem Stops.start {r : List Char} (h : Stops r) :
    ∀ c, r.head? = some c → isLayout c = false := by
  intro c hc
  rcases h c hc with rfl | rfl | hc
  · rfl
  · rfl
  · exact isLayout_of_isCloser hc

theorem skipLayout_append {lead s : List Char} (hlead : ∀ c ∈ lead, isLayout c = true)
    (hs : ∀ c, s.head? = some c → isLayout c = false) : skipLayout (lead ++ s) = s :=
  Text.dropWhile_append hlead hs

theorem skipLayout_of_start {s : List Char} (h : ∀ c, s.head? = some c → isLayout c = false) :
    skipLayout s = s :=
  skipLayout_append (List.forall_mem_nil _) h

theorem skipLayout_closing {closing : Char} (h : isCloser closing = true) (r : List Char) :
    skipLayout (closing :: r) = closing :: r :=
  skipLayout_of_start (stops_closing h r).start

/-- A separator is read with the layout behind it. -/
theorem separator?_cons {sep : Char} (hsep : isLayout sep = false) (s : List Char) :
    separator? sep (sep :: s) = some (skipLayout s) := by
  rw [separator?, skipLayout, List.dropWhile_cons_of_neg (by rw [hsep]; exact Bool.false_ne_true)]
  simp only [if_true]

theorem separator?_append {sep : Char} (hsep : isLayout sep = false) {gap s : List Char}
    (hgap : ∀ c ∈ gap, isLayout c = true) (hs : ∀ c, s.head? = some c → isLayout c = false) :
    separator? sep (sep :: (gap ++ s)) = some s := by
  rw [separator?_cons hsep, skipLayout_append hgap hs]

theorem Written.IsRead.head_append {item : Item α} {w : Written α} (h : w.IsRead item)
    (r : List Char) : ∀ c, (w.text ++ r).head? = some c → isLayout c = false := by
  intro c hc
  rw [List.head?_append, Option.or_of_isSome (List.isSome_head?.2 h.nonempty)] at hc
  exact h.start c hc

/-- The items behind the first one are read up to where no other item follows. -/
theorem moreItems_append {item : Item α} {ws : List (Written α)} (h : ∀ w ∈ ws, w.IsRead item)
    {r : List Char} (hr : Stops r) (hend : moreItems item r = ([], r)) :
    moreItems item (joinMore ws ++ r) = (ws.map Written.value, r) := by
  induction ws with
  | nil => exact hend
  | cons w ws ih =>
    have hw := h w List.mem_cons_self
    have hsep : separator? ',' (',' :: (w.lead ++ (w.text ++ (joinMore ws ++ r)))) =
        some (w.text ++ (joinMore ws ++ r)) :=
      separator?_append rfl hw.lead (hw.head_append _)
    have hitem := hw.read _ (stops_joinMore ws hr)
    have hshort : (joinMore ws ++ r).length <
        (',' :: (w.lead ++ (w.text ++ (joinMore ws ++ r)))).length := by
      simp only [List.length_cons, List.length_append]
      omega
    rw [joinMore_cons, moreItems]
    simp only [hsep, hitem]
    rw [if_pos hshort, ih fun w' hw' => h w' (List.mem_cons_of_mem w hw')]
    rfl

/-- The items of a list are read up to where no other item follows. -/
theorem items_append {item : Item α} {ws : List (Written α)} (h : ∀ w ∈ ws, w.IsRead item)
    {lead : List Char} (hlead : ∀ c ∈ lead, isLayout c = true) {r : List Char} (hr : Stops r)
    (hend : moreItems item r = ([], r)) (hnone : ws = [] → item r = none) :
    items item (skipLayout (lead ++ (joinItems ws ++ r))) = (ws.map Written.value, r) := by
  cases ws with
  | nil =>
    show items item (skipLayout (lead ++ r)) = _
    rw [skipLayout_append hlead hr.start, items, hnone rfl]
    rfl
  | cons w ws =>
    have hw := h w List.mem_cons_self
    have hskip : skipLayout (lead ++ (w.lead ++ (w.text ++ (joinMore ws ++ r)))) =
        w.text ++ (joinMore ws ++ r) := by
      rw [← List.append_assoc]
      refine skipLayout_append (fun c hmem => ?_) (hw.head_append _)
      rcases List.mem_append.1 hmem with hmem | hmem
      · exact hlead c hmem
      · exact hw.lead c hmem
    have hitem := hw.read _ (stops_joinMore ws hr)
    rw [joinItems, List.append_assoc, List.append_assoc, hskip, items, hitem]
    simp only [moreItems_append (fun w' hw' => h w' (List.mem_cons_of_mem w hw')) hr hend,
      List.map_cons]

/-- No item follows where the closing bracket stands. -/
theorem moreItems_closing (item : Item α) {closing : Char} (hc : isCloser closing = true)
    (r : List Char) : moreItems item (closing :: r) = ([], closing :: r) := by
  have hsep : separator? ',' (closing :: r) = none := by
    rw [separator?, skipLayout_closing hc]
    rcases eq_of_isCloser hc with rfl | rfl | rfl <;> rfl
  rw [moreItems]
  simp only [hsep]

/-- A bracket pair around items is read as the items, whatever blanks stand around it. -/
theorem enclosed_written {item : Item α} {ws : List (Written α)} (h : ∀ w ∈ ws, w.IsRead item)
    (hnone : ∀ r, Stops r → item r = none) {opening closing : Char}
    (hc : closer? opening = some closing) {pre lead post : List Char}
    (hpre : ∀ c ∈ pre, isBlank c = true) (hlead : ∀ c ∈ lead, isLayout c = true)
    (hpost : ∀ c ∈ post, isBlank c = true) :
    enclosed item opening closing
      (pre ++ (opening :: (lead ++ joinItems ws) ++ [closing] ++ post)) =
        .ok (ws.map Written.value) := by
  have hclose := isCloser_of_closer? hc
  have htrim : trim (pre ++ (opening :: (lead ++ joinItems ws) ++ [closing] ++ post)) =
      opening :: (lead ++ joinItems ws) ++ [closing] := by
    refine Text.trim_append hpre hpost ?_ (List.cons_ne_nil _ _)
    rcases eq_of_closer? hc with ⟨rfl, rfl⟩ | ⟨rfl, rfl⟩ | ⟨rfl, rfl⟩ <;>
      exact Text.isTight_cons_concat (by decide) (by decide) _
  have hstops := stops_closing hclose []
  have hitems := items_append h hlead hstops (moreItems_closing item hclose []) fun _ =>
    hnone _ hstops
  have hskip := skipLayout_closing hclose []
  rw [enclosed, htrim, List.cons_append, List.append_assoc]
  simp only [hitems, hskip, ne_eq, not_true_eq_false, if_false, if_true]

/-! ## Terms -/

theorem term?_append {t r : List Char} (ht : Pieces t) (hne : t ≠ []) (hr : Stops r) :
    term? (t ++ r) = some (t, r) := by
  rw [term?, pieces_append ht hr, if_neg hne]

theorem term?_of_stops {r : List Char} (h : Stops r) : term? r = none := by
  rw [term?, pieces_of_stops h, if_pos rfl]

theorem entry?_of_stops {r : List Char} (h : Stops r) : entry? r = none := by
  rw [ entry?, term?_of_stops h]
  rfl

theorem IsTerm.start {t : List Char} (h : IsTerm t) :
    ∀ c, t.head? = some c → isLayout c = false := by
  intro c hc
  have hblank := h.tight.1 c hc
  cases hlayout : isLayout c with
  | false => rfl
  | true =>
    rw [Text.isBlank_of_isLayout hlayout] at hblank
    cases hblank

/-- Pieces that are read as a term where no layout stands. White space may stand at their end. -/
structure IsLoose (t : List Char) : Prop where
  pieces : Pieces t
  nonempty : t ≠ []
  start : ∀ c, t.head? = some c → isLayout c = false

theorem IsTerm.isLoose {t : List Char} (h : IsTerm t) : IsLoose t :=
  ⟨h.pieces, h.nonempty, h.start⟩

/-- A term by itself. -/
theorem isRead_term {t : List Char} (h : IsLoose t) : Written.IsRead term? ⟨[], t, t⟩ :=
  ⟨nofun, h.nonempty, h.start, fun _ hr => term?_append h.pieces h.nonempty hr⟩

/-- Two terms with a colon between them, and layout behind the colon. -/
theorem isRead_entry {k gap v : List Char} (hk : IsLoose k) (hgap : ∀ c ∈ gap, isLayout c = true)
    (hv : IsLoose v) : Written.IsRead entry? ⟨[], k ++ ':' :: (gap ++ v), (k, v)⟩ := by
  refine ⟨nofun, by simp, fun c hc => ?_, fun r hr => ?_⟩
  · rw [List.head?_append, Option.or_of_isSome (List.isSome_head?.2 hk.nonempty)] at hc
    exact hk.start c hc
  · have hkey := term?_append hk.pieces hk.nonempty (stops_colon (gap ++ (v ++ r)))
    have hsep : separator? ':' (':' :: (gap ++ (v ++ r))) = some (v ++ r) :=
      separator?_append rfl hgap ((isRead_term hv).head_append r)
    have hvalue := term?_append hv.pieces hv.nonempty hr
    rw [List.append_assoc, List.cons_append, List.append_assoc]
    simp only [ entry?, hkey, hsep, hvalue, Option.bind_eq_bind, Option.bind_some]
    rfl

/-! ## Literals -/

theorem intercalate_cons (p : List Char) (ps : List (List Char)) :
    List.intercalate [','] (p :: ps) = p ++ ps.flatMap fun q => ',' :: q := by
  induction ps generalizing p with
  | nil => simp [List.intercalate]
  | cons q ps ih =>
    rw [List.flatMap_cons, List.cons_append, ← ih q]
    simp [List.intercalate]

theorem joinItems_eq_intercalate (ws : List (Written α)) :
    joinItems ws = List.intercalate [','] (ws.map fun w => w.lead ++ w.text) := by
  cases ws with
  | nil => rfl
  | cons w ws => rw [List.map_cons, intercalate_cons, joinItems, joinMore, List.flatMap_map]

/-- Items without layout between braces are read as the items. -/
theorem enclosed_braced {β : Type} {item : Item α} {text : β → List Char} {value : β → α}
    {parts : List β} (h : ∀ p ∈ parts, Written.IsRead item ⟨[], text p, value p⟩)
    (hnone : ∀ r, Stops r → item r = none) :
    enclosed item '\x7b' '\x7d' (braced (parts.map text)) = .ok (parts.map value) := by
  have henclosed := enclosed_written (List.forall_mem_map.2 h) hnone
    (show closer? '\x7b' = some '\x7d' from rfl)
    (List.forall_mem_nil _) (List.forall_mem_nil _) (List.forall_mem_nil _)
  rwa [List.nil_append, List.nil_append, List.append_nil, joinItems_eq_intercalate, List.map_map,
    List.map_map] at henclosed

/-- The terms of a literal are those that it was made of. -/
theorem splitElements_braced {parts : List (List Char)} (h : ∀ p ∈ parts, IsTerm p) :
    splitElements '\x7b' '\x7d' (braced parts) = .ok parts := by
  have henclosed := enclosed_braced (fun p hp => isRead_term (h p hp).isLoose)
    fun _ => term?_of_stops
  have htrim : parts.map trim = parts := by
    refine Eq.trans (List.map_congr_left fun p hp => ?_) (List.map_id parts)
    exact Text.trim_of_isTight (h p hp).tight
  rw [List.map_id'] at henclosed
  rw [splitElements, henclosed, Except.map, htrim]

/-- The entries of a literal are those that it was made of. -/
theorem splitEntries_braced {parts : List (List Char × List Char)}
    (h : ∀ p ∈ parts, IsTerm p.1 ∧ IsTerm p.2) :
    splitEntries '\x7b' '\x7d' (braced (parts.map fun p => p.1 ++ ':' :: p.2)) = .ok parts := by
  have henclosed := enclosed_braced
    (fun p hp => isRead_entry (h p hp).1.isLoose (List.forall_mem_nil _) (h p hp).2.isLoose)
    fun _ => entry?_of_stops
  have htrim : parts.map (fun p => (trim p.1, trim p.2)) = parts := by
    refine Eq.trans (List.map_congr_left fun p hp => ?_) (List.map_id parts)
    rw [Text.trim_of_isTight (h p hp).1.tight, Text.trim_of_isTight (h p hp).2.tight]
    rfl
  simp only [List.nil_append] at henclosed
  rw [show (parts.map fun p => (p.1, p.2)) = parts from List.map_id parts] at henclosed
  rw [splitEntries, henclosed, Except.map, htrim]

/-- A literal made of terms is a term. -/
theorem isTerm_braced {parts : List (List Char)} (h : ∀ p ∈ parts, Group p) :
    IsTerm (braced parts) := by
  refine isTerm_group rfl ?_
  cases parts with
  | nil => exact .nil
  | cons p parts =>
    rw [intercalate_cons]
    refine (h p List.mem_cons_self).append ?_
    have hparts : ∀ q ∈ parts, Group q := fun q hq => h q (List.mem_cons_of_mem p hq)
    clear h
    induction parts with
    | nil => exact .nil
    | cons q parts ih =>
      rw [List.flatMap_cons, List.cons_append]
      exact .inner rfl ((hparts q List.mem_cons_self).append
        (ih fun q' hq' => hparts q' (List.mem_cons_of_mem q hq')))

/-- A literal made of pairs of terms is a term. -/
theorem isTerm_braced_entries {parts : List (List Char × List Char)}
    (h : ∀ p ∈ parts, IsTerm p.1 ∧ IsTerm p.2) :
    IsTerm (braced (parts.map fun p => p.1 ++ ':' :: p.2)) := by
  refine isTerm_braced (List.forall_mem_map.2 fun p hp => ?_)
  exact (group_of_pieces (h p hp).1.pieces).append
    (.inner rfl (group_of_pieces (h p hp).2.pieces))

end CqlWire.Literal
