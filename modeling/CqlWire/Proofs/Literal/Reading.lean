import CqlWire.Proofs.Literal.Split
import CqlWire.Proofs.Text.Trim

/-!
# What the readers of literals accept

The readers take nothing for a part of a literal but what the grammar has: a quoted string is the
literal of a text (`exists_of_quotedSpan`), a group holds what may stand in one
(`closes_of_groupSpan`), and a term is pieces (`exists_of_term?`). What trimming leaves of pieces is
nothing or a term (`Pieces.isTerm_trim`).

A text is therefore split into items exactly if it is a bracket pair around the written items, with
layout and white space in the places for it (`enclosed_eq_ok_iff`). The items that are read as terms
are the loose terms: pieces that do not begin with layout, and end with any white space
(`isRead_term_iff`, `isRead_entry_iff`).
-/

namespace CqlWire.Literal

open Text (quote doubleQuotes IsTight isLayout isBlank skipLayout trim trimStart trimEnd)

/-! ## Quoted strings and groups -/

/-- What is read up to a closing quote is the inside of a quoted string and that quote. -/
theorem exists_of_quotedSpan {s t r : List Char} (h : quotedSpan s = some (t, r)) :
    ∃ u, t = doubleQuotes u ++ ['\x27'] := by
  fun_induction quotedSpan s generalizing t r with
  | case1 => cases h
  | case2 u ih =>
    obtain ⟨v, hv, rfl⟩ := append_of_map_cons (u := ['\x27', '\x27']) h
    obtain ⟨w, rfl⟩ := ih hv
    exact ⟨'\x27' :: w, rfl⟩
  | case3 =>
    cases h
    exact ⟨[], rfl⟩
  | case4 c u _ hc ih =>
    obtain ⟨v, hv, rfl⟩ := append_of_map_cons (u := [c]) h
    obtain ⟨w, rfl⟩ := ih hv
    exact ⟨c :: w, by rw [Text.doubleQuotes_cons hc]; rfl⟩

/-- What may stand up to the end of the outermost of the open groups, whose closing brackets are
given innermost first. -/
inductive Closes : List Char → List Char → Prop where
  | nil : Closes [] []
  | cons {c : Char} {outer b r : List Char} (hb : Group b) (hr : Closes outer r) :
    Closes (c :: outer) (b ++ c :: r)

theorem Closes.append {c : Char} {outer b t : List Char} (hb : Group b)
    (h : Closes (c :: outer) t) : Closes (c :: outer) (b ++ t) := by
  cases h with
  | @cons _ _ b' r hb' hr =>
    rw [← List.append_assoc]
    exact .cons (hb.append hb') hr

theorem group_quote (s : List Char) : Group (quote s) := by
  rw [← List.append_nil (quote s)]
  exact .quoted s .nil

/-- What is read up to the end of the open groups may stand there. -/
theorem closes_of_groupSpan {closers s t r : List Char} (h : groupSpan closers s = some (t, r)) :
    Closes closers t := by
  fun_induction groupSpan closers s generalizing t r with
  | case1 =>
    cases h
    exact .nil
  | case2 => cases h
  | case3 outer c u ih =>
    obtain ⟨v, hv, rfl⟩ := append_of_map_cons (u := [c]) h
    exact .cons .nil (ih hv)
  | case4 => cases h
  | case5 close outer u a w hs hne ih =>
    obtain ⟨v, hv, rfl⟩ := append_of_map_cons (u := '\x27' :: a) h
    obtain ⟨q, rfl⟩ := exists_of_quotedSpan hs
    exact (ih hv).append (group_quote q)
  | case6 close outer c u hne hc inner ho ih =>
    obtain ⟨v, hv, rfl⟩ := append_of_map_cons (u := [c]) h
    cases ih hv with
    | @cons _ _ b r hb hr =>
      have hgroup : Group (c :: (b ++ [inner])) := .group ho hb .nil
      have hclosed := hr.append hgroup
      rwa [List.cons_append, List.append_assoc] at hclosed
  | case7 => cases h
  | case8 close outer c u hne hc ho hcloser ih =>
    obtain ⟨v, hv, rfl⟩ := append_of_map_cons (u := [c]) h
    have hinner : isInner c = true := by
      simp only [isInner, ho, Option.isSome_none, Bool.not_eq_true', Bool.or_false,
        Bool.or_eq_false_iff, beq_eq_false_iff_ne]
      exact ⟨hc, Bool.not_eq_true _ ▸ hcloser⟩
    exact (ih hv).append (.inner hinner .nil)

/-! ## Terms -/

theorem isBare_of_isLayout {c : Char} (h : isLayout c = true) : isBare c = true := by
  simp only [isLayout, Bool.or_eq_true, beq_iff_eq] at h
  rcases h with ((rfl | rfl) | rfl) | rfl <;> rfl

/-- What is read as a piece is one. -/
theorem isPieces_of_piece? {s t r : List Char} (h : piece? s = some (t, r)) : Pieces t := by
  cases s with
  | nil => cases h
  | cons c s =>
    simp only [piece?] at h
    split at h
    · rename_i hc
      obtain ⟨v, hv, rfl⟩ := append_of_map_cons (u := [c]) h
      obtain ⟨q, rfl⟩ := exists_of_quotedSpan hv
      rw [hc]
      exact (isTerm_quote q).pieces
    · split at h
      · rename_i close ho
        obtain ⟨v, hv, rfl⟩ := append_of_map_cons (u := [c]) h
        cases closes_of_groupSpan hv with
        | cons hb hnil =>
          cases hnil
          exact .group ho hb .nil
      · split at h
        · rename_i hbare
          cases h
          exact .bare hbare .nil
        · cases h

theorem isPieces_fst_pieces (s : List Char) : Pieces (pieces s).1 := by
  fun_induction pieces s with
  | case1 s h => exact .nil
  | case2 s t u h ih => exact (isPieces_of_piece? h).append ih

theorem piece?_snd_pieces (s : List Char) : piece? (pieces s).2 = none := by
  fun_induction pieces s with
  | case1 s h => exact h
  | case2 s t u h ih => exact ih

/-- A term that is read is pieces, and it ends where no other piece begins. -/
theorem exists_of_term? {s t r : List Char} (h : term? s = some (t, r)) :
    Pieces t ∧ t ≠ [] ∧ s = t ++ r ∧ ∀ c, r.head? = some c → isLayout c = false := by
  obtain ⟨happend, hne⟩ := append_of_term? h
  unfold term? at h
  split at h
  · cases h
  · have hpieces := isPieces_fst_pieces s
    have hrest := piece?_snd_pieces s
    rw [Option.some.inj h] at hpieces hrest
    refine ⟨hpieces, hne, happend.symm, fun c hc => ?_⟩
    obtain ⟨r', rfl⟩ := List.head?_eq_some_iff.1 hc
    cases hlayout : isLayout c with
    | false => rfl
    | true =>
      rw [piece?_bare (isBare_of_isLayout hlayout)] at hrest
      cases hrest

/-! ## Trimmed terms -/

theorem Pieces.trimStart {t : List Char} (h : Pieces t) : Pieces (trimStart t) := by
  induction h with
  | nil => exact .nil
  | @bare c r hc hr ih =>
    rw [Text.trimStart, List.dropWhile_cons]
    split
    · exact ih
    · exact .bare hc hr
  | @quoted s r hr ih =>
    rw [quote_append, Text.trimStart, List.dropWhile_cons_of_neg (by decide), ← quote_append]
    exact .quoted s hr
  | @group o c b r ho hb hr ih =>
    have hblank : ¬isBlank o = true := by
      rcases eq_of_closer? ho with ⟨rfl, -⟩ | ⟨rfl, -⟩ | ⟨rfl, -⟩ <;> decide
    rw [Text.trimStart, List.dropWhile_cons_of_neg hblank]
    exact .group ho hb hr

theorem Pieces.trimEnd {t : List Char} (h : Pieces t) : Pieces (trimEnd t) := by
  induction h with
  | nil => exact .nil
  | @bare c r hc hr ih =>
    rcases Text.trimEnd_cons c r with hnil | hcons
    · rw [hnil]
      exact .nil
    · rw [hcons]
      exact .bare hc ih
  | @quoted s r hr ih =>
    rw [Text.trimEnd_append (Text.isTight_quote s).2]
    exact .quoted s ih
  | @group o c b r ho hb hr ih =>
    have htight := (isTerm_group ho hb).tight
    have hend := Text.trimEnd_append htight.2 r
    rw [List.cons_append, List.cons_append, List.append_assoc, List.singleton_append] at hend
    rw [hend, List.cons_append, List.append_assoc, List.singleton_append]
    exact .group ho hb ih

/-- Pieces without the white space at their ends are a term, if anything is left. -/
theorem Pieces.isTerm_trim {t : List Char} (h : Pieces t) (hne : trim t ≠ []) : IsTerm (trim t) :=
  ⟨h.trimStart.trimEnd, hne, Text.isTight_trim t⟩

/-! ## Items -/

theorem exists_skipLayout (s : List Char) : ∃ gap, (∀ c ∈ gap, isLayout c = true) ∧
    s = gap ++ skipLayout s ∧ ∀ c, (skipLayout s).head? = some c → isLayout c = false := by
  refine ⟨s.takeWhile isLayout, fun c hc => List.mem_takeWhile_imp hc, ?_, fun c hc => ?_⟩
  · rw [skipLayout, List.takeWhile_append_dropWhile]
  · exact Text.head?_dropWhile_eq_false hc

/-- A separator that is read where no layout stands, and the layout behind it. -/
theorem exists_of_separator? {sep : Char} {s r : List Char}
    (hs : ∀ c, s.head? = some c → isLayout c = false) (h : separator? sep s = some r) :
    ∃ gap, (∀ c ∈ gap, isLayout c = true) ∧ s = sep :: (gap ++ r) ∧
      ∀ c, r.head? = some c → isLayout c = false := by
  rw [separator?, skipLayout_of_start hs] at h
  split at h
  · rename_i c u
    split at h
    · rename_i hc
      cases h
      obtain ⟨gap, hgap, hu, hstart⟩ := exists_skipLayout u
      exact ⟨gap, hgap, by rw [hc, ← hu], hstart⟩
    · cases h
  · cases h

variable {α : Type}

/-- Where no layout stands, the reader takes the text of an item and stops before what is no
layout. -/
def ReadsItems (item : Item α) : Prop :=
  ∀ s a r, (∀ c, s.head? = some c → isLayout c = false) → item s = some (a, r) →
    ∃ text, s = text ++ r ∧ Written.IsRead item ⟨[], text, a⟩ ∧
      ∀ c, r.head? = some c → isLayout c = false

theorem Written.IsRead.with_lead {item : Item α} {text lead : List Char} {a : α}
    (h : Written.IsRead item ⟨[], text, a⟩) (hlead : ∀ c ∈ lead, isLayout c = true) :
    Written.IsRead item ⟨lead, text, a⟩ :=
  ⟨hlead, h.nonempty, h.start, h.read⟩

/-- What is read as further items was written as such. -/
theorem exists_of_moreItems {item : Item α} (hitem : ReadsItems item) {s : List Char}
    (hs : ∀ c, s.head? = some c → isLayout c = false) : ∃ ws : List (Written α),
      (∀ w ∈ ws, w.IsRead item) ∧ ws.map Written.value = (moreItems item s).1 ∧
      s = joinMore ws ++ (moreItems item s).2 ∧
      ∀ c, (moreItems item s).2.head? = some c → isLayout c = false := by
  fun_induction moreItems item s with
  | case1 s hsep => exact ⟨[], List.forall_mem_nil _, rfl, rfl, hs⟩
  | case2 s u hsep hnone => exact ⟨[], List.forall_mem_nil _, rfl, rfl, hs⟩
  | case3 s u hsep a r hread hshort rest ih =>
    obtain ⟨gap, hgap, rfl, hu⟩ := exists_of_separator? hs hsep
    obtain ⟨text, rfl, hw, hr⟩ := hitem u a r hu hread
    obtain ⟨ws, hws, hvalues, hrest, hend⟩ := ih hr
    refine ⟨⟨gap, text, a⟩ :: ws, List.forall_mem_cons.2 ⟨hw.with_lead hgap, hws⟩, ?_, ?_, hend⟩
    · rw [List.map_cons, hvalues]
    · rw [joinMore_cons]
      exact congrArg (fun r => ',' :: (gap ++ (text ++ r))) hrest
  | case4 s u hsep a r hread hlong => exact ⟨[], List.forall_mem_nil _, rfl, rfl, hs⟩

/-- What is read as items was written as such. -/
theorem exists_of_items {item : Item α} (hitem : ReadsItems item) {s : List Char}
    (hs : ∀ c, s.head? = some c → isLayout c = false) : ∃ ws : List (Written α),
      (∀ w ∈ ws, w.IsRead item) ∧ ws.map Written.value = (items item s).1 ∧
      s = joinItems ws ++ (items item s).2 ∧
      ∀ c, (items item s).2.head? = some c → isLayout c = false := by
  rw [items]
  cases hread : item s with
  | none => exact ⟨[], List.forall_mem_nil _, rfl, rfl, hs⟩
  | some p =>
    obtain ⟨a, r⟩ := p
    obtain ⟨text, rfl, hw, hr⟩ := hitem s a r hs hread
    obtain ⟨ws, hws, hvalues, hrest, hend⟩ := exists_of_moreItems hitem hr
    refine ⟨⟨[], text, a⟩ :: ws, List.forall_mem_cons.2 ⟨hw, hws⟩, ?_, ?_, hend⟩
    · rw [List.map_cons, hvalues]
    · rw [joinItems, List.nil_append, List.append_assoc]
      exact congrArg (fun r => text ++ r) hrest

/-! ## Bracket pairs -/

/-- A bracket pair around the items, layout behind the opening bracket and white space around the
whole. -/
inductive Encloses (opening closing : Char) (ws : List (Written α)) : List Char → Prop where
  | intro {pre lead post : List Char} (hpre : ∀ c ∈ pre, isBlank c = true)
    (hlead : ∀ c ∈ lead, isLayout c = true) (hpost : ∀ c ∈ post, isBlank c = true) :
    Encloses opening closing ws (pre ++ (opening :: (lead ++ joinItems ws) ++ [closing] ++ post))

/-- What is left behind the items is the closing bracket. -/
theorem exists_items_of_enclosed {item : Item α} {opening closing : Char} {text : List Char}
    {values : List α} (h : enclosed item opening closing text = .ok values) :
    ∃ r rest, trim text = opening :: r ∧ items item (skipLayout r) = (values, rest) ∧
      skipLayout rest = [closing] := by
  rw [enclosed] at h
  split at h
  · cases h
  · rename_i c r htrim
    split at h
    · cases h
    · rename_i hopening
      cases hitems : items item (skipLayout r) with
      | mk found rest =>
        rw [hitems] at h
        dsimp only at h
        split at h
        · cases h
        · rename_i d behind hrest
          split at h
          · cases h
          · rename_i hclosing
            split at h
            · rename_i hnil
              cases h
              rw [not_not.1 hopening] at htrim
              rw [not_not.1 hclosing, hnil] at hrest
              exact ⟨r, rest, htrim, hitems, hrest⟩
            · cases h

/-- A text is split into the items that were written in it. -/
theorem enclosed_eq_ok_iff {item : Item α} (hitem : ReadsItems item)
    (hnone : ∀ r, Stops r → item r = none) {opening closing : Char}
    (hc : closer? opening = some closing) {text : List Char} {values : List α} :
    enclosed item opening closing text = .ok values ↔ ∃ ws : List (Written α),
      (∀ w ∈ ws, w.IsRead item) ∧ Encloses opening closing ws text ∧
        ws.map Written.value = values := by
  constructor
  · intro h
    obtain ⟨r, rest, htrim, hitems, hrest⟩ := exists_items_of_enclosed h
    obtain ⟨pre, post, hpre, hpost, htext⟩ := Text.exists_trim text
    obtain ⟨lead, hlead, hr, hstart⟩ := exists_skipLayout r
    obtain ⟨ws, hws, hvalues, hsplit, hend⟩ := exists_of_items hitem hstart
    rw [hitems] at hvalues hsplit hend
    rw [skipLayout_of_start hend] at hrest
    refine ⟨ws, hws, ?_, hvalues⟩
    have hwhole : text = pre ++ (opening :: (lead ++ joinItems ws) ++ [closing] ++ post) := by
      rw [htext, htrim, hr, hsplit, hrest]
      simp
    rw [hwhole]
    exact .intro hpre hlead hpost
  · rintro ⟨ws, hws, ⟨hpre, hlead, hpost⟩, rfl⟩
    exact enclosed_written hws hnone hc hpre hlead hpost

theorem enclosed_map_eq_ok_iff {β : Type} {item : Item α} (hitem : ReadsItems item)
    (hnone : ∀ r, Stops r → item r = none) {opening closing : Char}
    (hc : closer? opening = some closing) (f : α → β) {text : List Char} {parts : List β} :
    (enclosed item opening closing text).map (fun found => found.map f) = .ok parts ↔
      ∃ ws : List (Written α), (∀ w ∈ ws, w.IsRead item) ∧ Encloses opening closing ws text ∧
        ws.map (fun w => f w.value) = parts := by
  show (fun found => List.map f found) <$> enclosed item opening closing text = .ok parts ↔ _
  rw [map_eq_ok_iff]
  simp only [enclosed_eq_ok_iff hitem hnone hc]
  constructor
  · rintro ⟨found, ⟨ws, hws, htext, rfl⟩, rfl⟩
    exact ⟨ws, hws, htext, (List.map_map ..).symm⟩
  · rintro ⟨ws, hws, htext, rfl⟩
    exact ⟨_, ⟨ws, hws, htext, rfl⟩, List.map_map ..⟩

/-! ## Terms and entries -/

theorem isLoose_of_term? {s t r : List Char} (hs : ∀ c, s.head? = some c → isLayout c = false)
    (h : term? s = some (t, r)) :
    IsLoose t ∧ s = t ++ r ∧ ∀ c, r.head? = some c → isLayout c = false := by
  obtain ⟨hpieces, hne, rfl, hr⟩ := exists_of_term? h
  refine ⟨⟨hpieces, hne, fun c hc => hs c ?_⟩, rfl, hr⟩
  rwa [List.head?_append, Option.or_of_isSome (List.isSome_head?.2 hne)]

theorem readsItems_term : ReadsItems term? := by
  intro s t r hs h
  obtain ⟨hloose, happend, hr⟩ := isLoose_of_term? hs h
  exact ⟨t, happend, isRead_term hloose, hr⟩

/-- Two loose terms, a colon between them and layout behind the colon. -/
structure IsLooseEntry (text : List Char) (e : List Char × List Char) : Prop where
  key : IsLoose e.1
  value : IsLoose e.2
  text_eq : ∃ gap, (∀ c ∈ gap, isLayout c = true) ∧ text = e.1 ++ ':' :: (gap ++ e.2)

theorem isLooseEntry_of_read {s r : List Char} {e : List Char × List Char}
    (hs : ∀ c, s.head? = some c → isLayout c = false) (h : entry? s = some (e, r)) :
    ∃ text, IsLooseEntry text e ∧ s = text ++ r ∧
      ∀ c, r.head? = some c → isLayout c = false := by
  simp only [ entry?, Option.bind_eq_bind, Option.bind_eq_some_iff] at h
  obtain ⟨⟨k, r₁⟩, hk, r₂, hsep, ⟨v, r₃⟩, hv, hlast⟩ := h
  cases hlast
  obtain ⟨hkey, rfl, hr₁⟩ := isLoose_of_term? hs hk
  obtain ⟨gap, hgap, rfl, hr₂⟩ := exists_of_separator? hr₁ hsep
  obtain ⟨hvalue, rfl, hr₃⟩ := isLoose_of_term? hr₂ hv
  exact ⟨k ++ ':' :: (gap ++ v), ⟨hkey, hvalue, gap, hgap, rfl⟩, by simp, hr₃⟩

theorem IsLooseEntry.isRead {text : List Char} {e : List Char × List Char}
    (h : IsLooseEntry text e) : Written.IsRead entry? ⟨[], text, e⟩ := by
  obtain ⟨hkey, hvalue, gap, hgap, rfl⟩ := h
  exact isRead_entry hkey hgap hvalue

theorem readsItems_entry : ReadsItems entry? := by
  intro s e r hs h
  obtain ⟨text, hloose, happend, hr⟩ := isLooseEntry_of_read hs h
  exact ⟨text, happend, hloose.isRead, hr⟩

/-- The items that are read as terms are the loose terms. -/
theorem isRead_term_iff {w : Written (List Char)} : w.IsRead term? ↔
    (∀ c ∈ w.lead, isLayout c = true) ∧ IsLoose w.text ∧ w.value = w.text := by
  constructor
  · intro h
    have hread := h.read [] nofun
    rw [List.append_nil] at hread
    obtain ⟨hloose, happend, -⟩ := isLoose_of_term? h.start hread
    rw [List.append_nil] at happend
    rw [happend]
    exact ⟨h.lead, hloose, rfl⟩
  · rintro ⟨hlead, hloose, hvalue⟩
    exact ⟨hlead, hloose.nonempty, hloose.start, hvalue ▸ (isRead_term hloose).read⟩

/-- The items that are read as entries are the loose entries. -/
theorem isRead_entry_iff {w : Written (List Char × List Char)} : w.IsRead entry? ↔
    (∀ c ∈ w.lead, isLayout c = true) ∧ IsLooseEntry w.text w.value := by
  constructor
  · intro h
    have hread := h.read [] nofun
    rw [List.append_nil] at hread
    obtain ⟨text, hloose, happend, -⟩ := isLooseEntry_of_read h.start hread
    rw [List.append_nil] at happend
    rw [happend]
    exact ⟨h.lead, hloose⟩
  · rintro ⟨hlead, hloose⟩
    exact hloose.isRead.with_lead hlead

/-- The terms of a literal are its loose terms without the white space at their ends. -/
theorem splitElements_eq_ok_iff {opening closing : Char} (hc : closer? opening = some closing)
    {text : List Char} {parts : List (List Char)} :
    splitElements opening closing text = .ok parts ↔ ∃ ws : List (Written (List Char)),
      (∀ w ∈ ws, w.IsRead term?) ∧ Encloses opening closing ws text ∧
        ws.map (fun w => trim w.value) = parts :=
  enclosed_map_eq_ok_iff readsItems_term (fun _ => term?_of_stops) hc trim

/-- The entries of a literal are its loose entries without the white space at the ends of keys and
values. -/
theorem splitEntries_eq_ok_iff {opening closing : Char} (hc : closer? opening = some closing)
    {text : List Char} {parts : List (List Char × List Char)} :
    splitEntries opening closing text = .ok parts ↔ ∃ ws : List (Written (List Char × List Char)),
      (∀ w ∈ ws, w.IsRead entry?) ∧ Encloses opening closing ws text ∧
        ws.map (fun w => (trim w.value.1, trim w.value.2)) = parts :=
  enclosed_map_eq_ok_iff readsItems_entry (fun _ => entry?_of_stops) hc
    fun e => (trim e.1, trim e.2)

end CqlWire.Literal
