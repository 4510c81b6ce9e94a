import CqlWire.Proofs.Literal.Reading

/-!
# Layout between the parts of a literal

A term may have layout on both sides (`Padded`). The layout in front of it is skipped, and what is
behind it is read with it, since layout characters are bare, and trimmed off
(`Padded.isLoose`, `Padded.trim_loose`). So whatever layout stands around the terms, the brackets,
the commas and the colons of a literal, it is split into its terms (`split_recovers_terms`).
-/

namespace CqlWire.Literal

open Text (quote isLayout isBlank trim)

/-- A term with layout around it. -/
structure Padded where
  before : List Char
  term : List Char
  after : List Char
  isLayout_before : ∀ c ∈ before, isLayout c = true
  isTerm : IsTerm term
  isLayout_after : ∀ c ∈ after, isLayout c = true

namespace Padded

/-- The term and the layout around it. -/
def text (p : Padded) : List Char := p.before ++ (p.term ++ p.after)

theorem isLoose (p : Padded) : IsLoose (p.term ++ p.after) where
  pieces := p.isTerm.pieces.append
    (pieces_of_isBare fun c hc => isBare_of_isLayout (p.isLayout_after c hc))
  nonempty := List.append_ne_nil_of_left_ne_nil p.isTerm.nonempty p.after
  start := (isRead_term p.isTerm.isLoose).head_append p.after

theorem trim_loose (p : Padded) : trim (p.term ++ p.after) = p.term :=
  Text.trim_append (List.forall_mem_nil _)
    (fun c hc => Text.isBlank_of_isLayout (p.isLayout_after c hc)) p.isTerm.tight p.isTerm.nonempty

/-- The item that is read where the term stands. -/
def element (p : Padded) : Written (List Char) :=
  ⟨p.before, p.term ++ p.after, p.term ++ p.after⟩

theorem isRead_element (p : Padded) : p.element.IsRead term? :=
  (isRead_term p.isLoose).with_lead p.isLayout_before

/-- The item that is read where two terms stand with a colon between them. -/
def entry (k v : Padded) : Written (List Char × List Char) :=
  ⟨k.before, k.term ++ k.after ++ ':' :: v.text, (k.term ++ k.after, v.term ++ v.after)⟩

theorem isRead_entry (k v : Padded) : (k.entry v).IsRead entry? :=
  (Literal.isRead_entry k.isLoose v.isLayout_before v.isLoose).with_lead k.isLayout_before

theorem text_entry (k v : Padded) :
    (k.entry v).lead ++ (k.entry v).text = k.text ++ ':' :: v.text :=
  (List.append_assoc ..).symm

end Padded

/-- A bracket pair around texts with commas between them, layout behind the opening bracket and
white space around the whole. -/
def literalText (opening closing : Char) (pre lead post : List Char) (items : List (List Char)) :
    List Char :=
  pre ++ (opening :: (lead ++ List.intercalate [','] items) ++ [closing] ++ post)

section

variable {pre lead post : List Char}

theorem encloses_literalText {α : Type} (opening closing : Char)
    (hpre : ∀ c ∈ pre, isBlank c = true) (hlead : ∀ c ∈ lead, isLayout c = true)
    (hpost : ∀ c ∈ post, isBlank c = true) (ws : List (Written α)) : Encloses opening closing ws
      (literalText opening closing pre lead post (ws.map fun w => w.lead ++ w.text)) := by
  rw [literalText, ← joinItems_eq_intercalate]
  exact .intro hpre hlead hpost

/-- **Splitting recovers the terms.** In each of the three bracket pairs, terms with commas between
them and entries of two terms with a colon between them are split into these terms, whatever layout
stands around brackets, commas and colons, and whatever white space around the whole. -/
theorem split_recovers_terms {opening closing : Char} (hpair : closer? opening = some closing)
    (hpre : ∀ c ∈ pre, isBlank c = true) (hlead : ∀ c ∈ lead, isLayout c = true)
    (hpost : ∀ c ∈ post, isBlank c = true) :
    (∀ ps : List Padded, splitElements opening closing
        (literalText opening closing pre lead post (ps.map Padded.text)) =
      .ok (ps.map Padded.term)) ∧
    ∀ es : List (Padded × Padded), splitEntries opening closing
        (literalText opening closing pre lead post
          (es.map fun e => e.1.text ++ ':' :: e.2.text)) =
      .ok (es.map fun e => (e.1.term, e.2.term)) := by
  constructor
  · intro ps
    have htext := encloses_literalText opening closing hpre hlead hpost
      (ps.map Padded.element)
    rw [List.map_map] at htext
    refine (splitElements_eq_ok_iff hpair).2
      ⟨_, List.forall_mem_map.2 fun p _ => p.isRead_element, htext, ?_⟩
    rw [List.map_map]
    exact List.map_congr_left fun p _ => p.trim_loose
  · intro es
    have htext := encloses_literalText opening closing hpre hlead hpost
      (es.map fun e => e.1.entry e.2)
    simp only [List.map_map, Function.comp_def, Padded.text_entry] at htext
    refine (splitEntries_eq_ok_iff hpair).2
      ⟨_, List.forall_mem_map.2 fun e _ => e.1.isRead_entry e.2, htext, ?_⟩
    rw [List.map_map]
    exact List.map_congr_left fun e _ => Prod.ext e.1.trim_loose e.2.trim_loose

end

/-- A list and a map in square brackets, whose terms hold commas, colons, quotes and brackets. -/
theorem split_recovers_terms_nested :
    let text : Padded := ⟨[' '], quote ['a', ',', '\x27'], ['\t', ' '], List.all_eq_true.1 rfl,
      isTerm_quote _, List.all_eq_true.1 rfl⟩
    let group : Padded := ⟨[], '\x7b' :: ['1', ':', '[', ']'] ++ ['\x7d'], ['\n'],
      List.forall_mem_nil _, isTerm_group rfl (.inner rfl (.inner rfl (.group rfl .nil .nil))),
      List.all_eq_true.1 rfl⟩
    let literal := literalText '[' ']' ['\r', ' '] [' '] [' ']
    closer? '[' = some ']' ∧ (∀ c ∈ ['\r', ' '], isBlank c = true) ∧
      (∀ c ∈ [' '], isLayout c = true) ∧ (∀ c ∈ [' '], isBlank c = true) ∧
      literal [text.text, group.text] = "\r [  'a,'''\t ,\x7b1:[]\x7d\n] ".toList ∧
      splitElements '[' ']' (literal [text.text, group.text]) =
        .ok ["'a,'''".toList, "\x7b1:[]\x7d".toList] ∧
      splitEntries '[' ']' (literal [text.text ++ ':' :: group.text]) =
        .ok [("'a,'''".toList, "\x7b1:[]\x7d".toList)] := by
  intro text group literal
  have hpre : ∀ c ∈ ['\r', ' '], isBlank c = true := List.all_eq_true.1 rfl
  have hlead : ∀ c ∈ [' '], isLayout c = true := List.all_eq_true.1 rfl
  have hpost : ∀ c ∈ [' '], isBlank c = true := List.all_eq_true.1 rfl
  have hpair : closer? '[' = some ']' := rfl
  obtain ⟨helements, hentries⟩ := split_recovers_terms hpair hpre hlead hpost
  refine ⟨hpair, hpre, hlead, hpost, by decide, ?_, ?_⟩
  · exact helements [text, group]
  · exact hentries [(text, group)]

end CqlWire.Literal
