import CqlWire.Text.Quoted

/-!
# Quoted text is read as it was written

Trimming takes away what is blank at the ends and nothing else (`trim_append`,
`trim_of_isTight`). The literal of a text has no other spelling but blanks around it
(`unquote?_eq_some_iff`).
-/

namespace CqlWire.Text

/-! ## Blank ends -/

/-- The text does not begin or end with white space. -/
def IsTight (s : List Char) : Prop :=
  (∀ c, s.head? = some c → isBlank c = false) ∧ ∀ c, s.getLast? = some c → isBlank c = false

theorem isTight_cons_concat {a b : Char} (ha : isBlank a = false) (hb : isBlank b = false)
    (s : List Char) : IsTight (a :: s ++ [b]) := by
  constructor
  · intro c hc
    obtain rfl : a = c := Option.some.inj hc
    exact ha
  · intro c hc
    rw [List.getLast?_concat] at hc
    obtain rfl : b = c := Option.some.inj hc
    exact hb

/-- Texts without any white space are tight. -/
theorem isTight_of_forall {s : List Char} (h : ∀ c ∈ s, isBlank c = false) : IsTight s :=
  ⟨fun c hc => h c (List.mem_of_head? hc), fun c hc => h c (List.mem_of_getLast? hc)⟩

theorem dropWhile_append {p : Char → Bool} {pre s : List Char} (hp : ∀ c ∈ pre, p c = true)
    (hs : ∀ c, s.head? = some c → p c = false) : (pre ++ s).dropWhile p = s := by
  rw [List.dropWhile_append_of_pos hp]
  cases s with
  | nil => rfl
  | cons c s => rw [List.dropWhile_cons_of_neg (by simp [hs c rfl])]

/-- White space around a tight text is taken away. -/
theorem trim_append {pre s post : List Char} (hpre : ∀ c ∈ pre, isBlank c = true)
    (hpost : ∀ c ∈ post, isBlank c = true) (hs : IsTight s) (hne : s ≠ []) :
    trim (pre ++ (s ++ post)) = s := by
  have hstart : trimStart (pre ++ (s ++ post)) = s ++ post := by
    refine dropWhile_append hpre fun c hc => hs.1 c ?_
    rwa [List.head?_append, Option.or_of_isSome (List.isSome_head?.2 hne)] at hc
  have hrev : (post.reverse ++ s.reverse).dropWhile isBlank = s.reverse := by
    refine dropWhile_append (fun c hc => hpost c (List.mem_reverse.1 hc)) fun c hc => hs.2 c ?_
    rwa [List.head?_reverse] at hc
  rw [trim, hstart, trimEnd, List.reverse_append, hrev, List.reverse_reverse]

theorem trim_of_isTight {s : List Char} (hs : IsTight s) : trim s = s := by
  by_cases hne : s = []
  · subst hne
    rfl
  · have hnone : ∀ c ∈ ([] : List Char), isBlank c = true := nofun
    have := trim_append hnone hnone hs hne
    rwa [List.nil_append, List.append_nil] at this

/-! ## Words -/

/-- A character of the literals that stand without quotes: a letter or a digit of US-ASCII, a sign
or a point. -/
def isWordChar (c : Char) : Bool :=
  isAsciiDigit c || isAsciiLetter c || c == '-' || c == '+' || c == '.'

theorem isWordChar_of_isAsciiDigit {c : Char} (h : isAsciiDigit c = true) :
    isWordChar c = true := by
  rw [isWordChar, h]
  rfl

theorem toNat_of_isWordChar {c : Char} (h : isWordChar c = true) :
    43 ≤ c.toNat ∧ c.toNat ≤ 122 := by
  simp only [isWordChar, isAsciiDigit, isAsciiLetter, Bool.or_eq_true, Bool.and_eq_true,
    decide_eq_true_eq, beq_iff_eq, Char.le_def, UInt32.le_iff_toNat_le] at h
  show 43 ≤ c.val.toNat ∧ c.val.toNat ≤ 122
  have h0 : '0'.val.toNat = 48 ∧ '9'.val.toNat = 57 := ⟨rfl, rfl⟩
  have ha : 'a'.val.toNat = 97 ∧ 'z'.val.toNat = 122 := ⟨rfl, rfl⟩
  have hA : 'A'.val.toNat = 65 ∧ 'Z'.val.toNat = 90 := ⟨rfl, rfl⟩
  rcases h with (((h | h | h) | rfl) | rfl) | rfl
  · omega
  · omega
  · omega
  · decide
  · decide
  · decide

theorem isBlank_of_isWordChar {c : Char} (h : isWordChar c = true) : isBlank c = false := by
  obtain ⟨hlo, hhi⟩ := toNat_of_isWordChar h
  rw [isBlank, List.any_eq_false]
  intro r hr
  have hout : r.2 ≤ 32 ∨ 133 ≤ r.1 := by
    revert r
    decide
  rw [Bool.and_eq_true, decide_eq_true_iff, decide_eq_true_iff]
  omega

theorem isTight_of_word {s : List Char} (h : ∀ c ∈ s, isWordChar c = true) : IsTight s :=
  isTight_of_forall fun c hc => isBlank_of_isWordChar (h c hc)

/-- A character stays as it is, or it is one of the capitals, which can be checked one by one. -/
theorem toAsciiLower_induction {P : Char → Char → Prop} (kept : ∀ c, P c c)
    (small : ∀ n ∈ List.range' 65 26, P (Char.ofNat n) (Char.ofNat (n + 32))) (c : Char) :
    P c (toAsciiLower c) := by
  unfold toAsciiLower
  split
  · rename_i h
    have hlo : 65 ≤ c.toNat := UInt32.le_iff_toNat_le.1 h.1
    have hhi : c.toNat ≤ 90 := UInt32.le_iff_toNat_le.1 h.2
    have hc := small c.toNat (List.mem_range'_1.2 ⟨hlo, by omega⟩)
    rwa [Char.ofNat_toNat] at hc
  · exact kept c

/-- A letter is one in either case. -/
theorem isAsciiLetter_toAsciiLower (c : Char) :
    isAsciiLetter (toAsciiLower c) = isAsciiLetter c :=
  toAsciiLower_induction (P := fun c d => isAsciiLetter d = isAsciiLetter c) (fun _ => rfl)
    (by decide) c

/-! ## Quotes -/

theorem doubleQuotes_cons {c : Char} (h : c ≠ '\x27') (s : List Char) :
    doubleQuotes (c :: s) = c :: doubleQuotes s := by
  rw [doubleQuotes]
  exact fun hc => h hc

theorem closeQuote_cons {c : Char} (h : c ≠ '\x27') (r : List Char) :
    closeQuote (c :: r) = (closeQuote r).map (c :: ·) := by
  rw [closeQuote]
  · rw [if_neg h]
  · exact fun hc _ => h hc
  · exact fun _ hc _ => h hc

theorem closeQuote_doubleQuotes (s : List Char) :
    closeQuote (doubleQuotes s ++ ['\x27']) = some s := by
  induction s with
  | nil => rfl
  | cons c s ih =>
    by_cases hc : c = '\x27'
    · subst hc
      show (closeQuote (doubleQuotes s ++ ['\x27'])).map ('\x27' :: ·) = _
      rw [ih, Option.map_some]
    · rw [doubleQuotes_cons hc, List.cons_append, closeQuote_cons hc, ih, Option.map_some]

theorem eq_of_closeQuote {t s : List Char} (h : closeQuote t = some s) :
    t = doubleQuotes s ++ ['\x27'] := by
  fun_induction closeQuote t generalizing s with
  | case1 => cases h
  | case2 =>
    cases h
    rfl
  | case3 r ih =>
    obtain ⟨u, hu, rfl⟩ := Option.map_eq_some_iff.1 h
    rw [ih hu]
    rfl
  | case4 => cases h
  | case5 c r h1 h2 hc ih =>
    obtain ⟨u, hu, rfl⟩ := Option.map_eq_some_iff.1 h
    rw [ih hu, doubleQuotes_cons hc]
    rfl

theorem isTight_quote (s : List Char) : IsTight (quote s) :=
  isTight_cons_concat (by decide) (by decide) (doubleQuotes s)

/-- A text is read from its literal, with any white space around it, and from nothing else. -/
theorem unquote?_eq_some_iff {t s : List Char} : unquote? t = some s ↔ trim t = quote s := by
  unfold unquote?
  constructor
  · intro h
    split at h
    · rename_i r hr
      rw [hr, eq_of_closeQuote h]
      rfl
    · cases h
  · intro h
    rw [h, quote, List.cons_append]
    exact closeQuote_doubleQuotes s

theorem unquote?_quote (s : List Char) : unquote? (quote s) = some s :=
  unquote?_eq_some_iff.2 (trim_of_isTight (isTight_quote s))

/-! ## NULL -/

/-- A literal is not NULL if a character that stands before or behind all letters of US-ASCII is
left when blanks at its ends are taken away. -/
theorem isNullLiteral_of_mem_trim {c : Char} {s : List Char} (h : c ∈ trim s)
    (hc : c.toNat < 65 ∨ 122 < c.toNat) : isNullLiteral s = false := by
  have hlower : toAsciiLower c = c := by
    refine if_neg fun hcap => ?_
    have hlo : 65 ≤ c.toNat := UInt32.le_iff_toNat_le.1 hcap.1
    have hhi : c.toNat ≤ 90 := UInt32.le_iff_toNat_le.1 hcap.2
    omega
  have hword : ∀ d ∈ nullWord.map toAsciiLower, (decide (65 ≤ d.toNat ∧ d.toNat ≤ 122)) = true :=
    List.all_eq_true.1 rfl
  rw [isNullLiteral, eqIgnoreCase, beq_eq_false_iff_ne]
  intro heq
  have hmem : c ∈ nullWord.map toAsciiLower := heq ▸ List.mem_map.2 ⟨c, h, hlower⟩
  have := of_decide_eq_true (hword c hmem)
  omega

theorem isNullLiteral_of_mem {c : Char} {s : List Char} (hs : IsTight s) (h : c ∈ s)
    (hc : c.toNat < 65 ∨ 122 < c.toNat) : isNullLiteral s = false :=
  isNullLiteral_of_mem_trim ((trim_of_isTight hs).symm ▸ h) hc

end CqlWire.Text
