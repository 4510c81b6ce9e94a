import CqlWire.Proofs.Literal.Reading
import Mathlib.Algebra.Order.BigOperators.Group.List
import Mathlib.Algebra.Order.Group.Nat

/-!
# Splitting the parts of a literal again

The grammar takes the white space that is not layout for bare characters, and trimming takes it
away. So a part of a literal is a term, or it is empty, where white space alone stood for it
(`HasBlankPart`). Parts that are terms are found again when they are joined. Parts of which one is
empty are not: joined, they are shorter than any literal that has them
(`Encloses.length_braced_lt`). This is shown once for elements and entries (`Splitting`).

Layout alone is no item. It is refused where an item is needed, and so is an entry with nothing but
layout for its key or its value (`enclosed_noItem_first`, `enclosed_noItem_behind`).
-/

namespace CqlWire.Literal

open Text (isLayout isBlank skipLayout trim)

variable {α : Type}

/-! ## Parts -/

/-- A loose term is a term without the white space at its ends, or it is white space alone. -/
theorem IsLoose.trim_eq_nil_or_isTerm {t : List Char} (h : IsLoose t) :
    trim t = [] ∨ IsTerm (trim t) :=
  or_iff_not_imp_left.2 h.pieces.isTerm_trim

theorem IsLoose.length_trim_lt {t : List Char} (h : IsLoose t) (hempty : trim t = []) :
    (trim t).length < t.length := by
  rw [hempty]
  exact List.length_pos_iff.2 h.nonempty

theorem IsLoose.exists_not_isLayout {t : List Char} (h : IsLoose t) :
    ∃ c ∈ t, isLayout c = false := by
  obtain ⟨c, r, rfl⟩ := List.exists_cons_of_ne_nil h.nonempty
  exact ⟨c, List.mem_cons_self, h.start c rfl⟩

/-- White space alone stands for one of the parts that the items of a literal have. -/
def HasBlankPart (item : Item α) (parts : α → List (List Char)) (s : List Char) : Prop :=
  ∃ ws : List (Written α), (∀ w ∈ ws, w.IsRead item) ∧ Encloses '\x7b' '\x7d' ws s ∧
    ∃ w ∈ ws, ∃ t ∈ parts w.value, ∀ c ∈ t, isBlank c = true

theorem mem_joinItems {ws : List (Written α)} {w : Written α} (hw : w ∈ ws) :
    ∀ c ∈ w.text, c ∈ joinItems ws := by
  intro c hc
  cases ws with
  | nil => cases hw
  | cons w' ws =>
    rw [joinItems, joinMore, List.mem_append, List.mem_append, List.mem_flatMap]
    rcases List.mem_cons.1 hw with rfl | hw
    · exact .inl (.inr hc)
    · exact .inr ⟨w, hw, List.mem_cons_of_mem _ (List.mem_append_right _ hc)⟩

theorem Encloses.mem {opening closing : Char} {ws : List (Written α)} {s : List Char}
    (h : Encloses opening closing ws s) {w : Written α} (hw : w ∈ ws) : ∀ c ∈ w.text, c ∈ s := by
  intro c hc
  have hmem := mem_joinItems hw c hc
  cases h
  simp [hmem]

/-! ## Lengths -/

theorem length_intercalate_lt {f g : α → List Char} {as : List α}
    (hle : ∀ a ∈ as, (f a).length ≤ (g a).length) (hlt : ∃ a ∈ as, (f a).length < (g a).length) :
    (List.intercalate [','] (as.map f)).length < (List.intercalate [','] (as.map g)).length := by
  have hsum := List.sum_lt_sum (fun a => (f a).length + 1) (fun a => (g a).length + 1)
    (fun a ha => Nat.succ_le_succ (hle a ha)) (hlt.imp fun a ha => ⟨ha.1, Nat.succ_lt_succ ha.2⟩)
  obtain ⟨a, ha, -⟩ := hlt
  obtain ⟨b, bs, rfl⟩ := List.exists_cons_of_ne_nil (List.ne_nil_of_mem ha)
  simp only [List.map_cons, List.sum_cons] at hsum
  rw [List.map_cons, List.map_cons, intercalate_cons, intercalate_cons, List.length_append,
    List.length_append, List.length_flatMap, List.length_flatMap, List.map_map, List.map_map]
  simp only [Function.comp_def, List.length_cons]
  omega

/-- A literal is longer than its items are when they are joined without all of their text. -/
theorem Encloses.length_braced_lt {ws : List (Written α)} {s : List Char}
    (hs : Encloses '\x7b' '\x7d' ws s) {text : Written α → List Char}
    (hle : ∀ w ∈ ws, (text w).length ≤ w.text.length)
    (hlt : ∃ w ∈ ws, (text w).length < w.text.length) :
    (braced (ws.map text)).length < s.length := by
  have hwhole : ∀ w : Written α, w.text.length ≤ (w.lead ++ w.text).length := fun w => by
    rw [List.length_append]
    exact Nat.le_add_left ..
  have hjoined := length_intercalate_lt (fun w hw => (hle w hw).trans (hwhole w))
    (hlt.imp fun w hw => ⟨hw.1, hw.2.trans_le (hwhole w)⟩)
  cases hs
  rw [joinItems_eq_intercalate]
  simp only [braced, List.length_append, List.length_cons]
  omega

theorem IsLooseEntry.length_lt {text : List Char} {e : List Char × List Char}
    (h : IsLooseEntry text e) : e.1.length + e.2.length < text.length := by
  obtain ⟨-, -, gap, -, rfl⟩ := h
  simp only [List.length_append, List.length_cons]
  omega

/-! ## What elements and entries have in common -/

/-- The items of a literal in braces, with their parts trimmed. -/
def splitBy (item : Item α) (trimParts : α → α) (s : List Char) : Except SplitError (List α) :=
  (enclosed item '\x7b' '\x7d' s).map (·.map trimParts)

/-- A way of splitting literals: the reader of the items, the parts of an item, trimming them, and
the text that is made of them again. -/
structure Splitting (item : Item α) (parts : α → List (List Char)) (trimParts : α → α)
    (join : α → List Char) : Prop where
  readsItems : ReadsItems item
  none_of_stops : ∀ r, Stops r → item r = none
  isLoose {w : Written α} (hw : w.IsRead item) : ∀ t ∈ parts w.value, IsLoose t
  mem {w : Written α} (hw : w.IsRead item) : ∀ t ∈ parts w.value, ∀ c ∈ t, c ∈ w.text
  parts_trimParts (a : α) : parts (trimParts a) = (parts a).map trim
  /-- Items whose parts are terms are found again when they are joined. -/
  splitBy_braced {found : List α} (h : ∀ a ∈ found, ∀ t ∈ parts a, IsTerm t) :
    splitBy item trimParts (braced (found.map join)) = .ok found
  length_join_le {w : Written α} (hw : w.IsRead item) :
    (join (trimParts w.value)).length ≤ w.text.length
  length_join_lt {w : Written α} (hw : w.IsRead item) (hempty : [] ∈ parts (trimParts w.value)) :
    (join (trimParts w.value)).length < w.text.length

namespace Splitting

variable {item : Item α} {parts : α → List (List Char)} {trimParts : α → α} {join : α → List Char}
  {s : List Char} {found : List α}

theorem splitBy_eq_ok_iff (h : Splitting item parts trimParts join) :
    splitBy item trimParts s = .ok found ↔ ∃ ws : List (Written α), (∀ w ∈ ws, w.IsRead item) ∧
      Encloses '\x7b' '\x7d' ws s ∧ ws.map (fun w => trimParts w.value) = found :=
  enclosed_map_eq_ok_iff h.readsItems h.none_of_stops rfl trimParts

/-- Where all white space is layout, no part is white space alone. -/
theorem not_hasBlankPart (h : Splitting item parts trimParts join)
    (hs : ∀ c ∈ s, isBlank c = true → isLayout c = true) : ¬HasBlankPart item parts s := by
  rintro ⟨ws, hws, hencloses, w, hw, t, ht, hblank⟩
  obtain ⟨c, hc, hnot⟩ := (h.isLoose (hws w hw) t ht).exists_not_isLayout
  have hmem := hencloses.mem hw c (h.mem (hws w hw) t ht c hc)
  rw [hs c hmem (hblank c hc)] at hnot
  cases hnot

theorem part_eq_nil_or_isTerm (h : Splitting item parts trimParts join)
    (hsplit : splitBy item trimParts s = .ok found) :
    ∀ a ∈ found, ∀ p ∈ parts a, p = [] ∨ IsTerm p := by
  obtain ⟨ws, hws, -, rfl⟩ := h.splitBy_eq_ok_iff.1 hsplit
  refine List.forall_mem_map.2 fun w hw => ?_
  rw [h.parts_trimParts]
  exact List.forall_mem_map.2 fun t ht => (h.isLoose (hws w hw) t ht).trim_eq_nil_or_isTerm

theorem hasBlankPart_iff (h : Splitting item parts trimParts join)
    (hsplit : splitBy item trimParts s = .ok found) :
    HasBlankPart item parts s ↔ ∃ a ∈ found, [] ∈ parts a := by
  constructor
  · rintro ⟨ws, hws, hs, w, hw, t, ht, hblank⟩
    have hfound := h.splitBy_eq_ok_iff.2 ⟨ws, hws, hs, rfl⟩
    rw [hfound] at hsplit
    rw [← Except.ok.inj hsplit]
    refine ⟨_, List.mem_map_of_mem hw, ?_⟩
    rw [h.parts_trimParts]
    exact List.mem_map.2 ⟨t, ht, Text.trim_eq_nil_iff.2 hblank⟩
  · rintro ⟨a, ha, hmem⟩
    obtain ⟨ws, hws, hs, rfl⟩ := h.splitBy_eq_ok_iff.1 hsplit
    obtain ⟨w, hw, rfl⟩ := List.mem_map.1 ha
    rw [h.parts_trimParts] at hmem
    obtain ⟨t, ht, hempty⟩ := List.mem_map.1 hmem
    exact ⟨ws, hws, hs, w, hw, t, ht, Text.trim_eq_nil_iff.1 hempty⟩

/-- Joined, items of which one has an empty part are too short to be split into them. -/
theorem not_mem_of_braced (h : Splitting item parts trimParts join)
    (hsplit : splitBy item trimParts (braced (found.map join)) = .ok found) :
    ∀ a ∈ found, [] ∉ parts a := by
  intro a ha hmem
  obtain ⟨ws, hws, hs, rfl⟩ := h.splitBy_eq_ok_iff.1 hsplit
  obtain ⟨w, hw, rfl⟩ := List.mem_map.1 ha
  rw [List.map_map] at hs
  exact Nat.lt_irrefl _ (hs.length_braced_lt (fun w hw => h.length_join_le (hws w hw))
    ⟨w, hw, h.length_join_lt (hws w hw) hmem⟩)

theorem resplit_iff (h : Splitting item parts trimParts join)
    (hsplit : splitBy item trimParts s = .ok found) :
    splitBy item trimParts (braced (found.map join)) = .ok found ↔ ∀ a ∈ found, [] ∉ parts a := by
  refine ⟨h.not_mem_of_braced, fun hnot => h.splitBy_braced fun a ha p hp => ?_⟩
  exact (h.part_eq_nil_or_isTerm hsplit a ha p hp).resolve_left fun hnil => hnot a ha (hnil ▸ hp)

end Splitting

/-- The elements of a list. -/
theorem splitting_term : Splitting term? (fun t => [t]) trim id where
  readsItems := readsItems_term
  none_of_stops := fun _ => term?_of_stops
  isLoose hw := by
    obtain ⟨-, hloose, hvalue⟩ := isRead_term_iff.1 hw
    rw [hvalue]
    exact List.forall_mem_singleton.2 hloose
  mem hw := by
    rw [(isRead_term_iff.1 hw).2.2]
    exact List.forall_mem_singleton.2 fun c hc => hc
  parts_trimParts _ := rfl
  splitBy_braced h := by
    rw [List.map_id]
    exact splitElements_braced fun p hp => h p hp p List.mem_cons_self
  length_join_le hw := by
    rw [(isRead_term_iff.1 hw).2.2]
    exact Text.length_trim_le _
  length_join_lt hw hempty := by
    obtain ⟨-, hloose, hvalue⟩ := isRead_term_iff.1 hw
    rw [hvalue] at hempty ⊢
    exact hloose.length_trim_lt (List.mem_singleton.1 hempty).symm

/-- The entries of a map. -/
theorem splitting_entry : Splitting entry? (fun e => [e.1, e.2]) (fun e => (trim e.1, trim e.2))
    (fun e => e.1 ++ ':' :: e.2) where
  readsItems := readsItems_entry
  none_of_stops := fun _ => entry?_of_stops
  isLoose hw := by
    have hloose := (isRead_entry_iff.1 hw).2
    exact List.forall_mem_cons.2 ⟨hloose.key, List.forall_mem_singleton.2 hloose.value⟩
  mem hw := by
    obtain ⟨-, -, gap, -, htext⟩ := (isRead_entry_iff.1 hw).2
    rw [htext]
    refine List.forall_mem_cons.2 ⟨fun c hc => List.mem_append_left _ hc, ?_⟩
    exact List.forall_mem_singleton.2 fun c hc => by simp [hc]
  parts_trimParts _ := rfl
  splitBy_braced h := splitEntries_braced fun e he =>
    ⟨h e he e.1 List.mem_cons_self, h e he e.2 (List.mem_cons_of_mem _ List.mem_cons_self)⟩
  length_join_le {w} hw := by
    have hlength := (isRead_entry_iff.1 hw).2.length_lt
    have hkey := Text.length_trim_le w.value.1
    have hvalue := Text.length_trim_le w.value.2
    simp only [List.length_append, List.length_cons]
    omega
  length_join_lt {w} hw hempty := by
    have hloose := (isRead_entry_iff.1 hw).2
    have hlength := hloose.length_lt
    have hkey := Text.length_trim_le w.value.1
    have hvalue := Text.length_trim_le w.value.2
    simp only [List.length_append, List.length_cons]
    rcases List.mem_pair.1 hempty with hnil | hnil
    · have hshort := hloose.key.length_trim_lt hnil.symm
      omega
    · have hshort := hloose.value.length_trim_lt hnil.symm
      omega

/-! ## Layout alone -/

/-- The text is no item and begins none, whatever follows. -/
def NoItem (item : Item α) (t : List Char) : Prop :=
  ∀ r, Stops r → item (skipLayout (t ++ r)) = none

/-- An entry that has nothing but layout for its key or its value. -/
inductive LacksTerm : List Char → Prop where
  | key {gap : List Char} (hgap : ∀ c ∈ gap, isLayout c = true) (value : List Char) :
    LacksTerm (gap ++ ':' :: value)
  | value {lead key gap : List Char} (hlead : ∀ c ∈ lead, isLayout c = true) (hkey : IsLoose key)
    (hgap : ∀ c ∈ gap, isLayout c = true) : LacksTerm (lead ++ (key ++ ':' :: gap))

theorem noItem_layout {item : Item α} (hnone : ∀ r, Stops r → item r = none) {gap : List Char}
    (hgap : ∀ c ∈ gap, isLayout c = true) : NoItem item gap := by
  intro r hr
  rw [skipLayout_append hgap hr.start]
  exact hnone r hr

theorem LacksTerm.noItem {t : List Char} (h : LacksTerm t) : NoItem entry? t := by
  intro r hr
  cases h with
  | @key gap hgap value =>
    have hcolon := stops_colon (value ++ r)
    rw [List.append_assoc, List.cons_append, skipLayout_append hgap hcolon.start]
    exact entry?_of_stops hcolon
  | @value lead key gap hlead hkey hgap =>
    have hread := term?_append hkey.pieces hkey.nonempty (stops_colon (gap ++ r))
    have hsep : separator? ':' (':' :: (gap ++ r)) = some r :=
      separator?_append rfl hgap hr.start
    rw [List.append_assoc, List.append_assoc, List.cons_append,
      skipLayout_append hlead ((isRead_term hkey).head_append _)]
    simp only [ entry?, hread, hsep, term?_of_stops hr, Option.bind_eq_bind, Option.bind_some,
      Option.bind_none]

/-- What is left behind the items of a literal is refused unless it is the closing bracket. -/
theorem enclosed_eq_error {item : Item α} {found : List α} {opening closing c : Char}
    {s r rest : List Char} (hs : trim s = opening :: r)
    (hitems : items item (skipLayout r) = (found, c :: rest)) (hlayout : isLayout c = false)
    (hc : c ≠ closing) : enclosed item opening closing s = .error (.malformedNear (c :: rest)) := by
  have hskip : skipLayout (c :: rest) = c :: rest := skipLayout_of_start fun d hd => by
    obtain rfl : c = d := Option.some.inj hd
    exact hlayout
  rw [enclosed, hs]
  simp only [ne_eq, not_true_eq_false, if_false, hitems, hskip, hc, not_false_eq_true, if_true,
    SplitError.from]

/-- A literal of items, one more text behind them, and any further texts. -/
def bracedWith (ws : List (Written α)) (t : List Char) (after : List (List Char)) : List Char :=
  braced ((ws.map fun w => w.lead ++ w.text) ++ t :: after)

/-- The further texts of a literal, and its closing brace. -/
def closed (after : List (List Char)) : List Char :=
  after.flatMap (',' :: ·) ++ ['\x7d']

theorem closed_cons (p : List Char) (after : List (List Char)) :
    closed (p :: after) = ',' :: (p ++ closed after) := by
  rw [closed, List.flatMap_cons, List.cons_append, List.cons_append, List.append_assoc, closed]

theorem stops_closed (after : List (List Char)) : Stops (closed after) := by
  cases after with
  | nil => exact stops_closing rfl []
  | cons p after =>
    rw [closed_cons]
    exact stops_comma _

theorem trim_braced (parts : List (List Char)) : trim (braced parts) = braced parts :=
  Text.trim_of_isTight (Text.isTight_cons_concat (by decide) (by decide) _)

theorem braced_cons (t : List Char) (after : List (List Char)) :
    braced (t :: after) = '\x7b' :: (t ++ closed after) := by
  rw [braced, intercalate_cons, List.cons_append, List.append_assoc, closed]

theorem bracedWith_nil (t : List Char) (after : List (List Char)) :
    bracedWith ([] : List (Written α)) t after = '\x7b' :: (t ++ closed after) :=
  braced_cons t after

theorem bracedWith_of_ne_nil {ws : List (Written α)} (hne : ws ≠ []) (t : List Char)
    (after : List (List Char)) :
    bracedWith ws t after = '\x7b' :: (joinItems ws ++ ',' :: (t ++ closed after)) := by
  obtain ⟨w, ws, rfl⟩ := List.exists_cons_of_ne_nil hne
  rw [bracedWith, List.map_cons, List.cons_append, braced_cons, closed, List.flatMap_append,
    List.flatMap_cons, joinItems, joinMore, List.flatMap_map, closed]
  simp

section

variable {item : Item α} {ws : List (Written α)} {t : List Char}

/-- Where no item stands first, the literal is refused unless it is closed there. -/
theorem enclosed_noItem_first (ht : NoItem item t) {after : List (List Char)} {c : Char}
    {rest : List Char} (hrest : skipLayout (t ++ closed after) = c :: rest) (hc : c ≠ '\x7d') :
    enclosed item '\x7b' '\x7d' (bracedWith ([] : List (Written α)) t after) =
      .error (.malformedNear (c :: rest)) := by
  have hnone := ht _ (stops_closed after)
  have hitems : items item (skipLayout (t ++ closed after)) = ([], c :: rest) := by
    rw [items, hnone, hrest]
  have hlayout : isLayout c = false :=
    Text.head?_dropWhile_eq_false (congrArg List.head? hrest)
  have htrim : trim (bracedWith ([] : List (Written α)) t after) = bracedWith [] t after :=
    trim_braced _
  rw [bracedWith_nil] at htrim ⊢
  exact enclosed_eq_error htrim hitems hlayout hc

/-- Where no item stands behind a comma, the literal is refused from that comma on. -/
theorem enclosed_noItem_behind (h : ∀ w ∈ ws, w.IsRead item) (hne : ws ≠ []) (ht : NoItem item t)
    (after : List (List Char)) :
    enclosed item '\x7b' '\x7d' (bracedWith ws t after) =
      .error (.malformedNear (',' :: (t ++ closed after))) := by
  have hend : moreItems item (',' :: (t ++ closed after)) = ([], ',' :: (t ++ closed after)) := by
    rw [moreItems]
    simp only [separator?_cons (show isLayout ',' = false from rfl), ht _ (stops_closed after)]
  have hitems := items_append h (List.forall_mem_nil _) (stops_comma _) hend fun hnil =>
    absurd hnil hne
  rw [List.nil_append] at hitems
  have htrim : trim (bracedWith ws t after) = bracedWith ws t after := trim_braced _
  rw [bracedWith_of_ne_nil hne] at htrim ⊢
  exact enclosed_eq_error htrim hitems rfl (by decide)

/-- Layout alone is refused where other items stand before or behind it. -/
theorem exists_of_layout_item (hnone : ∀ r, Stops r → item r = none)
    (h : ∀ w ∈ ws, w.IsRead item) (ht : ∀ c ∈ t, isLayout c = true) {after : List (List Char)}
    (hne : ws ≠ [] ∨ after ≠ []) : ∃ rest,
      enclosed item '\x7b' '\x7d' (bracedWith ws t after) =
        .error (.malformedNear (',' :: rest)) := by
  have hnoItem := noItem_layout hnone ht
  by_cases hws : ws = []
  · subst hws
    obtain ⟨p, after, rfl⟩ := List.exists_cons_of_ne_nil (hne.resolve_left (not_not.2 rfl))
    have hrest := skipLayout_append ht (stops_closed (p :: after)).start
    exact ⟨_, enclosed_noItem_first hnoItem (hrest.trans (closed_cons p after)) (by decide)⟩
  · exact ⟨_, enclosed_noItem_behind h hws hnoItem after⟩

end

theorem Pieces.head?_ne_closing {t : List Char} (h : Pieces t) : t.head? ≠ some '\x7d' := by
  intro hhead
  cases h with
  | nil => cases hhead
  | bare hc hr =>
    cases hhead
    cases hc
  | quoted s hr => cases hhead
  | group ho hb hr =>
    cases hhead
    cases ho

theorem LacksTerm.exists_skipLayout {t : List Char} (h : LacksTerm t) (r : List Char) :
    ∃ c rest, skipLayout (t ++ r) = c :: rest ∧ c ≠ '\x7d' := by
  cases h with
  | @key gap hgap value =>
    refine ⟨':', value ++ r, ?_, by decide⟩
    rw [List.append_assoc, List.cons_append]
    exact skipLayout_append hgap (stops_colon _).start
  | @value lead key gap hlead hkey hgap =>
    obtain ⟨c, key, rfl⟩ := List.exists_cons_of_ne_nil hkey.nonempty
    refine ⟨c, key ++ ':' :: (gap ++ r), ?_, ?_⟩
    · rw [List.append_assoc, List.append_assoc]
      exact skipLayout_append hlead ((isRead_term hkey).head_append (':' :: (gap ++ r)))
    · rintro rfl
      exact hkey.pieces.head?_ne_closing rfl

/-- An entry that lacks its key or its value is refused. -/
theorem LacksTerm.exists_error {ws : List (Written (List Char × List Char))}
    (h : ∀ w ∈ ws, w.IsRead entry?) {t : List Char} (ht : LacksTerm t)
    (after : List (List Char)) : ∃ rest,
      enclosed entry? '\x7b' '\x7d' (bracedWith ws t after) = .error (.malformedNear rest) := by
  by_cases hws : ws = []
  · subst hws
    obtain ⟨c, rest, hrest, hc⟩ := ht.exists_skipLayout (closed after)
    exact ⟨_, enclosed_noItem_first ht.noItem hrest hc⟩
  · exact ⟨_, enclosed_noItem_behind h hws ht.noItem after⟩

/-! ## Splitting again -/

/-- **Splitting the parts again.** The parts of a literal are terms or empty, and one is empty
exactly if white space alone stands for it. Joined again, they are split into the same parts
exactly if none is empty, as it is where all white space is layout. Layout alone is refused where an
item is needed, and so is an entry with nothing else for its key or its value. -/
theorem resplit_iff_no_part_empty (s : List Char) :
    (∀ parts, splitElements '\x7b' '\x7d' s = .ok parts →
      (∀ p ∈ parts, p = [] ∨ IsTerm p) ∧
      (HasBlankPart term? (fun t => [t]) s ↔ [] ∈ parts) ∧
      (splitElements '\x7b' '\x7d' (braced parts) = .ok parts ↔ [] ∉ parts)) ∧
    (∀ entries, splitEntries '\x7b' '\x7d' s = .ok entries →
      (∀ e ∈ entries, ∀ p ∈ [e.1, e.2], p = [] ∨ IsTerm p) ∧
      (HasBlankPart entry? (fun e => [e.1, e.2]) s ↔ ∃ e ∈ entries, [] ∈ [e.1, e.2]) ∧
      (splitEntries '\x7b' '\x7d' (braced (entries.map fun e => e.1 ++ ':' :: e.2)) = .ok entries ↔
        ∀ e ∈ entries, [] ∉ [e.1, e.2])) ∧
    ((∀ c ∈ s, isBlank c = true → isLayout c = true) →
      ¬HasBlankPart term? (fun t => [t]) s ∧ ¬HasBlankPart entry? (fun e => [e.1, e.2]) s) ∧
    (∀ (ws : List (Written (List Char))) (gap : List Char) (after : List (List Char)),
      (∀ w ∈ ws, w.IsRead term?) → (∀ c ∈ gap, isLayout c = true) → (ws ≠ [] ∨ after ≠ []) →
        ∃ rest, splitElements '\x7b' '\x7d' (bracedWith ws gap after) =
          .error (.malformedNear (',' :: rest))) ∧
    (∀ (ws : List (Written (List Char × List Char))) (t : List Char) (after : List (List Char)),
      (∀ w ∈ ws, w.IsRead entry?) →
      (LacksTerm t ∨ (∀ c ∈ t, isLayout c = true) ∧ (ws ≠ [] ∨ after ≠ [])) →
        ∃ rest, splitEntries '\x7b' '\x7d' (bracedWith ws t after) =
          .error (.malformedNear rest)) := by
  refine ⟨fun parts h => ?_, fun entries h => ?_, fun hs => ⟨?_, ?_⟩,
    fun ws gap after hws hgap hne => ?_, fun ws t after hws ht => ?_⟩
  · have hempty : (∃ t ∈ parts, [] ∈ [t]) ↔ [] ∈ parts := by simp
    have hresplit := splitting_term.resplit_iff h
    rw [List.map_id] at hresplit
    refine ⟨fun p hp => splitting_term.part_eq_nil_or_isTerm h p hp p List.mem_cons_self,
      (splitting_term.hasBlankPart_iff h).trans hempty, hresplit.trans ?_⟩
    simp only [← hempty, not_exists, not_and]
  · exact ⟨splitting_entry.part_eq_nil_or_isTerm h, splitting_entry.hasBlankPart_iff h,
      splitting_entry.resplit_iff h⟩
  · exact splitting_term.not_hasBlankPart hs
  · exact splitting_entry.not_hasBlankPart hs
  · obtain ⟨rest, hrest⟩ := exists_of_layout_item (fun _ => term?_of_stops) hws hgap hne
    exact ⟨rest, by rw [splitElements, hrest]; rfl⟩
  · rcases ht with ht | ⟨ht, hne⟩
    · obtain ⟨rest, hrest⟩ := ht.exists_error hws after
      exact ⟨rest, by rw [splitEntries, hrest]; rfl⟩
    · obtain ⟨rest, hrest⟩ := exists_of_layout_item (fun _ => entry?_of_stops) hws ht hne
      exact ⟨',' :: rest, by rw [splitEntries, hrest]; rfl⟩

/-- A no-break space between two commas, an entry with layout around its terms, and a space between
two commas. -/
theorem resplit_iff_no_part_empty_spaces :
    let blank : List Char := ['\x7b', '1', ',', '\xa0', ',', '2', '\x7d']
    let entry : List Char := ['\x7b', 'k', ' ', ':', ' ', '\x27', ',', '\x27', '\x7d']
    splitElements '\x7b' '\x7d' blank = .ok [['1'], [], ['2']] ∧
      HasBlankPart term? (fun t => [t]) blank ∧
      splitElements '\x7b' '\x7d' (braced [['1'], [], ['2']]) ≠ .ok [['1'], [], ['2']] ∧
      splitEntries '\x7b' '\x7d' entry = .ok [(['k'], ['\x27', ',', '\x27'])] ∧
      ¬HasBlankPart entry? (fun e => [e.1, e.2]) entry ∧
      splitEntries '\x7b' '\x7d' (braced [['k', ':', '\x27', ',', '\x27']]) =
        .ok [(['k'], ['\x27', ',', '\x27'])] ∧
      ∃ rest, splitElements '\x7b' '\x7d' (braced [['1'], [' '], ['2']]) =
        .error (.malformedNear (',' :: rest)) := by
  intro blank entry
  have hblank : splitElements '\x7b' '\x7d' blank = .ok [['1'], [], ['2']] := by decide +kernel
  have hentry : splitEntries '\x7b' '\x7d' entry = .ok [(['k'], ['\x27', ',', '\x27'])] := by
    decide +kernel
  have hspaces : ∀ c ∈ entry, isBlank c = true → isLayout c = true := fun c hc => by
    have hall : (entry.all fun c => !isBlank c || isLayout c) = true := by decide
    have hc := List.all_eq_true.1 hall c hc
    intro hblank
    rwa [hblank, Bool.not_true, Bool.false_or] at hc
  have hone : IsTerm ['1'] := isTerm_word (by decide) (List.all_eq_true.1 rfl)
  obtain ⟨helements, -, -, hlayout, -⟩ := resplit_iff_no_part_empty blank
  obtain ⟨-, hpart, hresplit⟩ := helements _ hblank
  obtain ⟨-, hentries, hplain, -⟩ := resplit_iff_no_part_empty entry
  refine ⟨hblank, hpart.2 (by decide), ?_, hentry, (hplain hspaces).2, ?_, ?_⟩
  · rw [ne_eq, hresplit]
    decide
  · exact (hentries _ hentry).2.2.2 (by decide)
  · exact hlayout [⟨[], ['1'], ['1']⟩] [' '] [['2']]
      (List.forall_mem_singleton.2 (isRead_term hone.isLoose)) (List.all_eq_true.1 rfl)
      (.inr (List.cons_ne_nil _ _))

/-- The element between the commas is a no-break space. -/
theorem blank_element_becomes_empty :
    splitElements '\x7b' '\x7d' ['\x7b', '1', ',', '\xa0', ',', '2', '\x7d'] =
      .ok [['1'], [], ['2']] ∧
    splitElements '\x7b' '\x7d' (braced [['1'], [], ['2']]) =
      .error (.malformedNear [',', ',', '2', '\x7d']) := by
  decide +kernel

end CqlWire.Literal
