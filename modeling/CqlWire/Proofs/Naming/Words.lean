import CqlWire.Naming.Rule
import CqlWire.Proofs.Text.Quoted

/-!
# Names are joined from words

An identifier is cut into parts without a loss: put together, they are the identifier without its
separators (`Naming.flatten_parts`). The words of an ASCII identifier are its parts in small letters
(`Naming.words_of_ascii`), in which no boundary can be found but the separators between them. So words
that a rule joins with a separator are found again (`Naming.words_joinWith`).

A rule that joins words sees nothing of an identifier but its words (`Naming.Rule.apply_eq_of_words_eq`)
and keeps all of them (`Naming.letters_apply`). So it makes the same of an identifier and of its joined
forms.
-/

namespace CqlWire.Naming

open Text (isAscii isUppercase toAsciiLower toAsciiUpper toLowercase)

/-- A character of a word: one of ASCII, and neither a capital nor a separator. -/
structure IsSmall (c : Char) : Prop where
  ascii : isAscii c = true
  not_uppercase : isUppercase c = false
  not_separator : isSeparator c = false

/-- A word as the rules join it. -/
structure IsWord (w : List Char) : Prop where
  ne_nil : w ≠ []
  small : ∀ c ∈ w, IsSmall c

/-! ## Parts -/

theorem parts_separator {c : Char} (h : isSeparator c = true) (r : List Char) :
    parts (c :: r) = parts r := by
  cases r with
  | nil => exact if_pos h
  | cons d r => exact if_pos h

/-- Nothing is lost but the separators. -/
theorem flatten_parts (name : List Char) :
    (parts name).flatten = name.filter fun c => !isSeparator c := by
  fun_induction parts name with
  | case1 => rfl
  | case2 c h => simp [h]
  | case3 c h => simp [h]
  | case4 c d r h ih => rw [List.filter_cons_of_neg (by simp [h]), ih]
  | case5 c d r h hstart ih => rw [List.filter_cons_of_pos (by simp [h]), ← ih, List.flatten_cons,
      List.singleton_append]
  | case6 c d r h hstart w ws hparts ih =>
    rw [List.filter_cons_of_pos (by simp [h]), ← ih, hparts, List.flatten_cons, List.flatten_cons,
      List.cons_append]
  | case7 c d r h hstart hparts ih =>
    rw [List.filter_cons_of_pos (by simp [h]), ← ih, hparts]
    rfl

theorem ne_nil_of_mem_parts {name w : List Char} (h : w ∈ parts name) : w ≠ [] := by
  fun_induction parts name with
  | case1 => cases h
  | case2 c hc => cases h
  | case3 c hc => simp_all
  | case4 c d r hc ih => exact ih h
  | case5 c d r hc hstart ih =>
    rcases List.mem_cons.1 h with rfl | h
    · exact List.cons_ne_nil c []
    · exact ih h
  | case6 c d r hc hstart w' ws hparts ih =>
    rcases List.mem_cons.1 h with rfl | h
    · exact List.cons_ne_nil c w'
    · exact ih (hparts ▸ List.mem_cons_of_mem w' h)
  | case7 c d r hc hstart hparts ih => simp_all

theorem mem_of_mem_parts {name w : List Char} (h : w ∈ parts name) {c : Char} (hc : c ∈ w) :
    c ∈ name ∧ isSeparator c = false := by
  have hflat : c ∈ (parts name).flatten := List.mem_flatten.2 ⟨w, h, hc⟩
  rw [flatten_parts, List.mem_filter, Bool.not_eq_true'] at hflat
  exact hflat

/-- A word in front of a separator, or of nothing, is a part of its own. -/
theorem parts_append {w : List Char} (hw : IsWord w) {rest : List Char}
    (hrest : ∀ c ∈ rest.head?, isSeparator c = true) : parts (w ++ rest) = w :: parts rest := by
  obtain ⟨hne, hsmall⟩ := hw
  induction w with
  | nil => exact absurd rfl hne
  | cons c w ih =>
    have hc : ¬isSeparator c = true := by simp [(hsmall c List.mem_cons_self).not_separator]
    cases w with
    | nil =>
      cases rest with
      | nil => exact if_neg hc
      | cons d r =>
        have hd : isSeparator d = true := hrest d rfl
        rw [List.singleton_append, parts, if_neg hc, if_pos (by rw [hd, Bool.true_or])]
    | cons d w =>
      obtain ⟨-, hupper, hsep⟩ := hsmall d (by simp)
      have hword := ih (List.cons_ne_nil d w) fun c' hc' => hsmall c' (List.mem_cons_of_mem c hc')
      have hstart : ¬(isSeparator d || startsWord c d (w ++ rest).head?) = true := by
        simp [startsWord, hupper, hsep]
      rw [List.cons_append] at hword
      rw [List.cons_append, List.cons_append, parts, if_neg hc, if_neg hstart, hword]

/-- Words that are joined with a separator are the parts of what they are joined to. -/
theorem parts_joinWith {s : Char} (hs : isSeparator s = true) {ws : List (List Char)}
    (h : ∀ w ∈ ws, IsWord w) : parts (Rule.joinWith s ws) = ws := by
  unfold Rule.joinWith
  induction ws with
  | nil => rfl
  | cons w ws ih =>
    obtain ⟨hw, hws⟩ := List.forall_mem_cons.1 h
    cases ws with
    | nil =>
      have hnil : ∀ c ∈ ([] : List Char).head?, isSeparator c = true := nofun
      have hword := parts_append hw hnil
      rw [List.append_nil] at hword
      rw [List.intercalate_singleton, hword]
      rfl
    | cons w' ws =>
      have hhead : ∀ c ∈ (s :: [s].intercalate (w' :: ws)).head?, isSeparator c = true := by
        rintro c ⟨⟩
        exact hs
      rw [List.intercalate_cons_cons, List.append_assoc, List.singleton_append,
        parts_append hw hhead, parts_separator hs, ih hws]

/-! ## Small letters -/

theorem isSeparator_toAsciiLower (c : Char) : isSeparator (toAsciiLower c) = isSeparator c :=
  Text.toAsciiLower_induction (P := fun c d => isSeparator d = isSeparator c) (fun _ => rfl)
    (by decide) c

theorem isSmall_toAsciiLower {c : Char} (h : isAscii c = true) (hs : isSeparator c = false) :
    IsSmall (toAsciiLower c) := by
  have hall : ∀ n < 128, isAscii (toAsciiLower (Char.ofNat n)) = true ∧
      isUppercase (toAsciiLower (Char.ofNat n)) = false := by decide +kernel
  have hc := hall c.toNat (of_decide_eq_true h)
  rw [Char.ofNat_toNat] at hc
  exact ⟨hc.1, hc.2, by rw [isSeparator_toAsciiLower, hs]⟩

theorem toAsciiLower_of_isSmall {c : Char} (h : IsSmall c) : toAsciiLower c = c := by
  have hcapital : ¬('A' ≤ c ∧ c ≤ 'Z') := by
    have hupper := h.not_uppercase
    rw [isUppercase, if_pos (of_decide_eq_true h.ascii)] at hupper
    simpa using hupper
  rw [toAsciiLower, if_neg hcapital]

theorem toLowercase_of_isSmall {c : Char} (h : IsSmall c) : toLowercase c = [c] := by
  rw [Text.toLowercase_of_ascii (of_decide_eq_true h.ascii), toAsciiLower_of_isSmall h]

theorem toAsciiLower_toAsciiUpper (c : Char) : toAsciiLower (toAsciiUpper c) = toAsciiLower c := by
  unfold toAsciiUpper
  split
  · rename_i h
    have hall : ∀ n ∈ List.range' 97 26,
        toAsciiLower (Char.ofNat (n - 32)) = toAsciiLower (Char.ofNat n) := by decide
    have hlo : 97 ≤ c.toNat := UInt32.le_iff_toNat_le.1 h.1
    have hhi : c.toNat ≤ 122 := UInt32.le_iff_toNat_le.1 h.2
    have hc := hall c.toNat (List.mem_range'_1.2 ⟨hlo, by omega⟩)
    rwa [Char.ofNat_toNat] at hc
  · rfl

theorem flatMap_toLowercase {w : List Char} {f : Char → Char}
    (h : ∀ c ∈ w, toLowercase c = [f c]) : w.flatMap toLowercase = w.map f := by
  rw [List.map_eq_flatMap, List.flatMap_def, List.flatMap_def, List.map_congr_left h]

/-! ## Words -/

/-- The words of an ASCII identifier are its parts in small letters. -/
theorem words_of_ascii {name : List Char} (h : ∀ c ∈ name, isAscii c = true) :
    words name = (parts name).map fun w => w.map toAsciiLower := by
  refine List.map_congr_left fun w hw => flatMap_toLowercase fun c hc => ?_
  exact Text.toLowercase_of_ascii (of_decide_eq_true (h c (mem_of_mem_parts hw hc).1))

theorem isWord_of_mem_words {name w : List Char} (h : ∀ c ∈ name, isAscii c = true)
    (hw : w ∈ words name) : IsWord w := by
  rw [words_of_ascii h] at hw
  obtain ⟨p, hp, rfl⟩ := List.mem_map.1 hw
  refine ⟨fun hnil => ne_nil_of_mem_parts hp (List.map_eq_nil_iff.1 hnil), fun d hd => ?_⟩
  obtain ⟨c, hc, rfl⟩ := List.mem_map.1 hd
  obtain ⟨hname, hsep⟩ := mem_of_mem_parts hp hc
  exact isSmall_toAsciiLower (h c hname) hsep

/-- Words that are joined with a separator are found again. -/
theorem words_joinWith {s : Char} (hs : isSeparator s = true) {ws : List (List Char)}
    (h : ∀ w ∈ ws, IsWord w) : words (Rule.joinWith s ws) = ws := by
  rw [words, parts_joinWith hs h]
  refine (List.map_congr_left fun w hw => ?_).trans (List.map_id ws)
  have hsmall : ∀ c ∈ w, toLowercase c = [id c] := fun c hc =>
    toLowercase_of_isSmall ((h w hw).small c hc)
  rw [flatMap_toLowercase hsmall, List.map_id, id]

/-! ## Rules -/

namespace Rule

/-- The rules that join the words of an identifier anew. -/
def joining : List Rule :=
  [.snake, .screamingSnake, .kebab, .pascal, .camel]

/-- Such a rule sees nothing of an identifier but its words. -/
theorem apply_eq_of_words_eq {rule : Rule} (hrule : rule ∈ joining) {name name' : List Char}
    (h : words name = words name') : rule.apply name = rule.apply name' := by
  simp only [joining, List.mem_cons, List.not_mem_nil, or_false] at hrule
  rcases hrule with rfl | rfl | rfl | rfl | rfl <;> simp only [apply, h]

end Rule

/-! ## Letters -/

/-- A name in small letters without its separators. -/
def letters (name : List Char) : List Char :=
  (Rule.lower.apply name).filter fun c => !isSeparator c

/-- Put together, the words are the letters of the identifier. -/
theorem flatten_words {name : List Char} (h : ∀ c ∈ name, isAscii c = true) :
    (words name).flatten = letters name := by
  have hkept : (fun c => !isSeparator c) ∘ toAsciiLower = fun c => !isSeparator c :=
    funext fun c => congrArg Bool.not (isSeparator_toAsciiLower c)
  rw [words_of_ascii h, ← List.map_flatten, flatten_parts, letters, Rule.apply, List.filter_map,
    hkept]

theorem letters_append (s t : List Char) : letters (s ++ t) = letters s ++ letters t := by
  simp only [letters, Rule.apply, List.map_append, List.filter_append]

theorem letters_separator {s : Char} (hs : isSeparator s = true) : letters [s] = [] := by
  rw [letters, Rule.apply, List.map_singleton]
  exact List.filter_cons_of_neg (by rw [isSeparator_toAsciiLower, hs]; decide)

theorem letters_map_toAsciiUpper (s : List Char) : letters (s.map toAsciiUpper) = letters s := by
  simp only [letters, Rule.apply, List.map_map, Function.comp_def, toAsciiLower_toAsciiUpper]

theorem letters_of_isWord {w : List Char} (h : IsWord w) : letters w = w := by
  rw [letters, Rule.apply, List.map_congr_left fun c hc => toAsciiLower_of_isSmall (h.small c hc),
    List.map_id']
  exact List.filter_eq_self.2 fun c hc => by rw [(h.small c hc).not_separator]; rfl

/-- A word has the same letters with its first one in upper case. -/
theorem letters_capitalize {w : List Char} (h : IsWord w) : letters (Rule.capitalize w) = w := by
  cases w with
  | nil => rfl
  | cons c r =>
    have hc : c.toNat < 128 := of_decide_eq_true (h.small c List.mem_cons_self).ascii
    have hword := letters_of_isWord h
    rw [← List.singleton_append, letters_append] at hword
    rw [Rule.capitalize, Text.toUppercase_of_ascii hc]
    show letters ([c].map toAsciiUpper ++ r) = [c] ++ r
    rw [letters_append, letters_map_toAsciiUpper, hword]

theorem letters_flatMap {f : List Char → List Char} {ws : List (List Char)}
    (h : ∀ w ∈ ws, letters (f w) = w) : letters (ws.flatMap f) = ws.flatten := by
  induction ws with
  | nil => rfl
  | cons w ws ih =>
    obtain ⟨hw, hws⟩ := List.forall_mem_cons.1 h
    rw [List.flatMap_cons, letters_append, hw, ih hws, List.flatten_cons]

theorem letters_joinWith {s : Char} (hs : isSeparator s = true) {ws : List (List Char)}
    (h : ∀ w ∈ ws, IsWord w) : letters (Rule.joinWith s ws) = ws.flatten := by
  unfold Rule.joinWith
  induction ws with
  | nil => rfl
  | cons w ws ih =>
    obtain ⟨hw, hws⟩ := List.forall_mem_cons.1 h
    cases ws with
    | nil => rw [List.intercalate_singleton, letters_of_isWord hw, List.flatten_singleton]
    | cons w' ws =>
      rw [List.intercalate_cons_cons, letters_append, letters_append, letters_separator hs,
        letters_of_isWord hw, ih hws, List.append_nil]
      rfl

/-- A rule that joins words loses none of their letters and adds none. -/
theorem letters_apply {rule : Rule} (hrule : rule ∈ Rule.joining) {name : List Char}
    (h : ∀ w ∈ words name, IsWord w) : letters (rule.apply name) = (words name).flatten := by
  simp only [Rule.joining, List.mem_cons, List.not_mem_nil, or_false] at hrule
  rcases hrule with rfl | rfl | rfl | rfl | rfl
  · exact letters_joinWith (by decide) h
  · rw [Rule.apply, letters_map_toAsciiUpper]
    exact letters_joinWith (by decide) h
  · exact letters_joinWith (by decide) h
  · exact letters_flatMap fun w hw => letters_capitalize (h w hw)
  · rw [Rule.apply]
    cases hwords : words name with
    | nil => rfl
    | cons w ws =>
      rw [hwords] at h
      obtain ⟨hw, hws⟩ := List.forall_mem_cons.1 h
      rw [List.flatten_cons, letters_append, letters_of_isWord hw,
        letters_flatMap fun w' hw' => letters_capitalize (hws w' hw')]

/-- The words of an ASCII identifier are not empty, have no capitals and no separators, and are
together the identifier in small letters without its separators. They are the words of its
`snake_case` and its `kebab-case` form too. A rule that joins words makes the same of all identifiers
with these words, and what it makes has their letters and no others. So it makes the same of each of
the three forms, and the two rules with separators change no name that they have made. -/
theorem rules_factor_through_words {name : List Char} (h : ∀ c ∈ name, isAscii c = true) :
    (∀ w ∈ words name, IsWord w) ∧
    (words name).flatten = letters name ∧
    words (Rule.snake.apply name) = words name ∧ words (Rule.kebab.apply name) = words name ∧
    (∀ rule ∈ Rule.joining,
      (∀ name', words name' = words name → rule.apply name' = rule.apply name) ∧
      letters (rule.apply name) = letters name) ∧
    (∀ rule ∈ Rule.joining, rule.apply (Rule.snake.apply name) = rule.apply name ∧
      rule.apply (Rule.kebab.apply name) = rule.apply name) ∧
    Rule.snake.apply (Rule.snake.apply name) = Rule.snake.apply name ∧
    Rule.kebab.apply (Rule.kebab.apply name) = Rule.kebab.apply name := by
  have hwords : ∀ w ∈ words name, IsWord w := fun w hw => isWord_of_mem_words h hw
  have hsnake : words (Rule.snake.apply name) = words name := words_joinWith (by decide) hwords
  have hkebab : words (Rule.kebab.apply name) = words name := words_joinWith (by decide) hwords
  have hrules : ∀ rule ∈ Rule.joining, rule.apply (Rule.snake.apply name) = rule.apply name ∧
      rule.apply (Rule.kebab.apply name) = rule.apply name := fun rule hrule =>
    ⟨Rule.apply_eq_of_words_eq hrule hsnake, Rule.apply_eq_of_words_eq hrule hkebab⟩
  refine ⟨hwords, flatten_words h, hsnake, hkebab, fun rule hrule => ⟨fun name' hsame => ?_, ?_⟩,
    hrules, (hrules .snake (by decide)).1, (hrules .kebab (by decide)).2⟩
  · exact Rule.apply_eq_of_words_eq hrule hsame
  · rw [letters_apply hrule hwords, flatten_words h]

/-- A run of capitals, a digit and separators of both kinds, and another identifier of the same
words: what each rule makes of them. -/
theorem rules_factor_through_words_mixed :
    let name := "HTTPServer_2nd-Try".toList
    let name' := "-http-server__2ndTry".toList
    (∀ c ∈ name, isAscii c = true) ∧
      words name = ["http".toList, "server".toList, "2nd".toList, "try".toList] ∧
      letters name = "httpserver2ndtry".toList ∧ words name' = words name ∧
      Rule.snake.apply name' = "http_server_2nd_try".toList ∧
      Rule.screamingSnake.apply name' = "HTTP_SERVER_2ND_TRY".toList ∧
      Rule.kebab.apply name' = "http-server-2nd-try".toList ∧
      Rule.pascal.apply name' = "HttpServer2ndTry".toList ∧
      Rule.camel.apply name' = "httpServer2ndTry".toList ∧
      Rule.camel.apply (Rule.snake.apply name) = "httpServer2ndTry".toList := by
  intro name name'
  have hascii : ∀ c ∈ name, isAscii c = true := List.all_eq_true.1 (by decide)
  have hsame : words name' = words name := by decide
  obtain ⟨-, hflat, -, -, hfactor, hrules, -⟩ := rules_factor_through_words hascii
  have hmade (rule : Rule) (hrule : rule ∈ Rule.joining) : rule.apply name' = rule.apply name :=
    (hfactor rule hrule).1 name' hsame
  refine ⟨hascii, by decide, hflat.symm.trans (by decide), hsame, ?_, ?_, ?_, ?_, ?_, ?_⟩
  · exact (hmade .snake (by decide)).trans (by decide)
  · exact (hmade .screamingSnake (by decide)).trans (by decide)
  · exact (hmade .kebab (by decide)).trans (by decide)
  · exact (hmade .pascal (by decide)).trans (by decide)
  · exact (hmade .camel (by decide)).trans (by decide)
  · exact (hrules .camel (by decide)).1.trans (by decide)

end CqlWire.Naming
