import CqlWire.Schema.Json
import CqlWire.Proofs.Hexadecimal
import Mathlib.Data.List.Forall2
import Mathlib.Data.List.TakeWhile

/-!
# Written JSON values are read back

A JSON value made of strings, arrays and objects has its words, and a text spells the words of a
value one after another with any layout around them (`JsonValue.LaidOut`, which is decidable). The
readers take the words of a value from the front of a text and leave what spells the words behind it
(`JsonValue.IsRead`). That is so for strings, whatever characters they have
(`JsonValue.isRead_quoted`); for arrays and objects it goes part by part, with the comma or the
closing bracket behind each part (`JsonValue.Begins`, `JsonValue.exists_of_listed`). Each word takes
one character at least, so that the fuel is never used up. `JsonValue.read?_of_laidOut` is the
result for whole texts.
-/

namespace CqlWire

open Text (skipLayout isLayout)

namespace JsonValue

/-! ## Strings -/

/-- A character as a string writes it: a quote or a backslash behind a backslash, and a control
character by the number of its UTF-16 unit. -/
def escape (c : Char) : List Char :=
  if c = '"' ∨ c = '\\' then ['\\', c]
  else if c < ' ' then ['\\', 'u', '0', '0', hexDigit (c.toNat / 16), hexDigit (c.toNat % 16)]
  else [c]

/-- A text as a string. -/
def quoted (s : List Char) : List Char :=
  '"' :: (s.flatMap escape ++ ['"'])

/-- The piece that an escaped character is read as. -/
def piece (c : Char) : StringPiece :=
  if c < ' ' then .unit c.toNat else .char c

theorem toNat_of_isControl {c : Char} (h : c < ' ') : c.toNat < 32 :=
  UInt32.lt_iff_toNat_lt.1 h

theorem unit?_of_isControl {c : Char} (h : c < ' ') :
    unit? '0' '0' (hexDigit (c.toNat / 16)) (hexDigit (c.toNat % 16)) = some c.toNat := by
  have := toNat_of_isControl h
  rw [unit?, hexValue?_hexDigit (by omega), hexValue?_hexDigit (by omega)]
  refine congrArg some ?_
  show 0 * 4096 + 0 * 256 + c.toNat / 16 * 16 + c.toNat % 16 = c.toNat
  omega

/-- A character is read back, whatever stands behind it. -/
theorem pieces?_escape (c : Char) (r : List Char) :
    pieces? (escape c ++ r) = (pieces? r).map fun p => (piece c :: p.1, p.2) := by
  unfold escape
  split
  · rename_i h
    obtain ⟨hescaped, hunit, hcontrol⟩ : escaped? c = some c ∧ c ≠ 'u' ∧ ¬c < ' ' := by
      rcases h with rfl | rfl <;> decide
    rw [List.cons_append, List.singleton_append, pieces?, hescaped, piece, if_neg hcontrol]
    · cases pieces? r <;> rfl
    · exact fun _ _ _ _ _ hc => absurd hc hunit
  · rename_i hplain
    rw [not_or] at hplain
    split
    · rename_i hcontrol
      rw [List.cons_append, List.cons_append, List.cons_append, List.cons_append,
        List.cons_append, List.singleton_append, pieces?, unit?_of_isControl hcontrol, piece,
        if_pos hcontrol]
      cases pieces? r <;> rfl
    · rename_i hcontrol
      rw [List.singleton_append, pieces?, if_neg (by simp [hplain.2, hcontrol]), piece,
        if_neg hcontrol]
      · cases pieces? r <;> rfl
      · exact hplain.1
      · exact fun _ _ _ _ _ hc => absurd hc hplain.2
      · exact fun _ _ hc => absurd hc hplain.2

theorem pieces?_flatMap_escape (s r : List Char) :
    pieces? (s.flatMap escape ++ '"' :: r) = some (s.map piece, r) := by
  induction s with
  | nil => rfl
  | cons c s ih =>
    rw [List.flatMap_cons, List.append_assoc, pieces?_escape, ih]
    rfl

/-- A unit that is no surrogate writes its character, whatever stands behind it. -/
theorem text?_unit {n : Nat} (hn : n < 0xD800) (ps : List StringPiece) :
    text? (.unit n :: ps) = (text? ps).map (Char.ofNat n :: ·) := by
  cases ps with
  | nil => exact if_neg (by omega)
  | cons p ps =>
    cases p with
    | char d => exact if_neg (by omega)
    | unit m => rw [text?, if_neg (by omega), if_neg (by omega)]

theorem text?_piece_cons (c : Char) (ps : List StringPiece) :
    text? (piece c :: ps) = (text? ps).map (c :: ·) := by
  unfold piece
  split
  · rename_i hcontrol
    have := toNat_of_isControl hcontrol
    rw [text?_unit (by omega), Char.ofNat_toNat]
  · rfl

theorem text?_map_piece (s : List Char) : text? (s.map piece) = some s := by
  induction s with
  | nil => rfl
  | cons c s ih =>
    rw [List.map_cons, text?_piece_cons, ih]
    rfl

/-! ## Words of a text -/

/-- A text is these words one after another, none of which begins with layout, and layout around
them. -/
inductive LaidOut : List (List Char) → List Char → Prop where
  | nil {gap : List Char} (hgap : ∀ c ∈ gap, isLayout c = true) : LaidOut [] gap
  | cons {words : List (List Char)} {gap : List Char} {c : Char} {word rest : List Char}
    (hgap : ∀ c ∈ gap, isLayout c = true) (hc : isLayout c = false) (h : LaidOut words rest) :
    LaidOut ((c :: word) :: words) (gap ++ (c :: word ++ rest))

namespace LaidOut

variable {words : List (List Char)} {word s : List Char}

theorem skipLayout_nil (h : LaidOut [] s) : skipLayout s = [] := by
  cases h with
  | nil hgap => exact List.dropWhile_eq_nil_iff.2 hgap

/-- Behind the layout in front stands the first word, and then the others. -/
theorem exists_skipLayout (h : LaidOut (word :: words) s) :
    ∃ rest, skipLayout s = word ++ rest ∧ LaidOut words rest := by
  cases h with
  | @cons _ gap c word rest hgap hc h =>
    refine ⟨rest, Text.dropWhile_append hgap fun d hd => ?_, h⟩
    obtain rfl : c = d := Option.some.inj hd
    exact hc

theorem exists_sign {c : Char} (h : LaidOut ([c] :: words) s) :
    ∃ rest, skipLayout s = c :: rest ∧ LaidOut words rest :=
  h.exists_skipLayout

/-- The layout in front does not matter. -/
theorem skipped (h : LaidOut (word :: words) s) : LaidOut (word :: words) (skipLayout s) := by
  obtain ⟨rest, hskip, hrest⟩ := h.exists_skipLayout
  cases h with
  | @cons _ gap c word _ hgap hc _ =>
    rw [hskip]
    exact .cons (List.forall_mem_nil _) hc hrest

theorem length_le (h : LaidOut words s) : words.length ≤ s.length := by
  induction h with
  | nil hgap => exact Nat.zero_le _
  | cons hgap hc h ih =>
    simp only [List.length_append, List.length_cons]
    omega

end LaidOut

theorem laidOut_cons_iff {c : Char} {word : List Char} {words : List (List Char)} {s : List Char} :
    LaidOut ((c :: word) :: words) s ↔
      isLayout c = false ∧ c :: word <+: skipLayout s ∧
        LaidOut words ((skipLayout s).drop (word.length + 1)) := by
  constructor
  · intro h
    obtain ⟨rest, hskip, hrest⟩ := h.exists_skipLayout
    rw [hskip]
    refine ⟨?_, List.prefix_append _ _, ?_⟩
    · cases h with
      | cons _ hc _ => exact hc
    · have hdrop : (c :: word ++ rest).drop (word.length + 1) = rest := List.drop_left
      rwa [hdrop]
  · rintro ⟨hc, ⟨rest, hrest⟩, h⟩
    have hdrop : (c :: word ++ rest).drop (word.length + 1) = rest := List.drop_left
    rw [← hrest, hdrop] at h
    have hs : s.takeWhile isLayout ++ (c :: word ++ rest) = s := by
      rw [hrest]
      exact List.takeWhile_append_dropWhile
    rw [← hs]
    exact .cons (fun _ => List.mem_takeWhile_imp) hc h

instance decidableLaidOut : (words : List (List Char)) → (s : List Char) →
    Decidable (LaidOut words s)
  | [], s => decidable_of_iff (skipLayout s = [])
    ⟨fun h => .nil (List.dropWhile_eq_nil_iff.1 h), LaidOut.skipLayout_nil⟩
  | [] :: words, s => isFalse fun h => by cases h
  | (c :: word) :: words, s =>
    have := decidableLaidOut words ((skipLayout s).drop (word.length + 1))
    decidable_of_iff _ laidOut_cons_iff.symm

/-! ## Values -/

/-- Where these words stand in front of others, they are read as this value, with fuel for two steps
at each word: one into a list and one into its part. The first of them does not close an array. -/
structure IsRead (v : JsonValue) (words : List (List Char)) : Prop where
  start : ∃ c word more, words = (c :: word) :: more ∧ c ≠ ']'
  read : ∀ {more : List (List Char)} {s : List Char} {fuel : Nat}, LaidOut (words ++ more) s →
    2 * words.length ≤ fuel → ∃ r, value? fuel s = some (v, r) ∧ LaidOut more r

theorem isRead_quoted (text : List Char) : IsRead (.string (some text)) [quoted text] where
  start := ⟨'"', _, _, rfl, by decide⟩
  read := by
    intro more s fuel hs hfuel
    rw [List.length_singleton] at hfuel
    obtain ⟨fuel, rfl⟩ := Nat.exists_eq_add_one_of_ne_zero (n := fuel) (by omega)
    obtain ⟨r, hskip, hr⟩ := hs.exists_skipLayout
    have hstring : value? (fuel + 1) s =
        (pieces? (text.flatMap escape ++ ['"'] ++ r)).map fun p =>
          (.string (text? p.1), p.2) := by
      rw [value?, hskip]
      rfl
    refine ⟨r, ?_, hr⟩
    rw [hstring, List.append_assoc, List.singleton_append, pieces?_flatMap_escape, Option.map_some,
      text?_map_piece]

/-! ## Parts with commas between them -/

section

variable {β : Type} {list? : Nat → List Char → Option (List β × List Char)} {closing : Char}

/-- The words of parts with a comma between them, and of what closes them. -/
def listed (closing : Char) : List (List (List Char)) → List (List Char)
  | [] => [[closing]]
  | [part] => part ++ [[closing]]
  | part :: parts => part ++ [','] :: listed closing parts

theorem listed_cons_cons (part part' : List (List Char)) (parts : List (List (List Char))) :
    listed closing (part :: part' :: parts) = part ++ [','] :: listed closing (part' :: parts) :=
  rfl

/-- A list that begins with this part is read as one that begins with this value: it is the only one
where the list is closed behind it, and a comma leaves the others to be read. -/
def Begins (list? : Nat → List Char → Option (List β × List Char)) (closing : Char) (b : β)
    (part : List (List Char)) : Prop :=
  ∀ {sign : Char} {more : List (List Char)} {s : List Char} {fuel : Nat},
    LaidOut (part ++ [sign] :: more) s → 2 * part.length ≤ fuel →
      ∃ r, LaidOut more r ∧ (sign = closing → list? (fuel + 1) s = some ([b], r)) ∧
        (sign = ',' → list? (fuel + 1) s = (list? fuel r).map fun p => (b :: p.1, p.2))

/-- A list is read part by part. -/
theorem exists_of_listed {b : β} {bs : List β} {part : List (List Char)}
    {parts : List (List (List Char))} (h : Begins list? closing b part)
    (hs : List.Forall₂ (Begins list? closing) bs parts) {more : List (List Char)} {s : List Char}
    {fuel : Nat} (hlaid : LaidOut (listed closing (part :: parts) ++ more) s)
    (hfuel : 2 * (listed closing (part :: parts)).length ≤ fuel) :
    ∃ r, list? fuel s = some (b :: bs, r) ∧ LaidOut more r := by
  -- On the parts behind the first one, each of which becomes the first one of what is left.
  induction hs generalizing b part s fuel with
  | nil =>
    rw [listed, List.length_append, List.length_singleton] at hfuel
    obtain ⟨fuel, rfl⟩ := Nat.exists_eq_add_one_of_ne_zero (n := fuel) (by omega)
    rw [listed, List.append_assoc] at hlaid
    have hpart : 2 * part.length ≤ fuel := by omega
    obtain ⟨r, hr, hlast, -⟩ := h hlaid hpart
    exact ⟨r, hlast rfl, hr⟩
  | @cons b' part' bs parts h' _ ih =>
    rw [listed_cons_cons, List.length_append, List.length_cons] at hfuel
    obtain ⟨fuel, rfl⟩ := Nat.exists_eq_add_one_of_ne_zero (n := fuel) (by omega)
    rw [listed_cons_cons, List.append_assoc, List.cons_append] at hlaid
    have hpart : 2 * part.length ≤ fuel := by omega
    obtain ⟨r, hr, -, hcomma⟩ := h hlaid hpart
    have hparts : 2 * (listed closing (part' :: parts)).length ≤ fuel := by omega
    obtain ⟨r', hrest, hr'⟩ := ih h' hr hparts
    refine ⟨r', ?_, hr'⟩
    rw [hcomma rfl, hrest]
    rfl

end

/-! ## Arrays -/

section

variable {fuel : Nat} {s r r' : List Char}

theorem items?_last {v : JsonValue} (hvalue : value? fuel s = some (v, r))
    (hskip : skipLayout r = ']' :: r') : items? (fuel + 1) s = some ([v], r') := by
  rw [items?, hvalue]
  simp only [Option.bind_eq_bind, Option.bind_some, hskip]
  rfl

theorem items?_comma {v : JsonValue} (hvalue : value? fuel s = some (v, r))
    (hskip : skipLayout r = ',' :: r') :
    items? (fuel + 1) s = (items? fuel r').map fun p => (v :: p.1, p.2) := by
  rw [items?, hvalue]
  simp only [Option.bind_eq_bind, Option.bind_some, hskip]
  cases items? fuel r' <;> rfl

theorem value?_array_nil (hskip : skipLayout s = '[' :: r) (hskip' : skipLayout r = ']' :: r') :
    value? (fuel + 1) s = some (.array [], r') := by
  rw [value?]
  simp only [hskip, hskip']

theorem value?_array (hskip : skipLayout s = '[' :: r) (hskip' : skipLayout r = r')
    (hopen : r'.head? ≠ some ']') :
    value? (fuel + 1) s = (items? fuel r').map fun p => (.array p.1, p.2) := by
  rw [value?, hskip]
  simp only [hskip']
  split
  · exact absurd rfl hopen
  · rfl

end

theorem IsRead.begins {v : JsonValue} {part : List (List Char)} (h : IsRead v part) :
    Begins items? ']' v part := by
  intro sign more s fuel hs hfuel
  obtain ⟨r, hvalue, hr⟩ := h.read hs hfuel
  obtain ⟨r', hskip, hr'⟩ := hr.exists_sign
  refine ⟨r', hr', ?_, ?_⟩
  · rintro rfl
    exact items?_last hvalue hskip
  · rintro rfl
    exact items?_comma hvalue hskip

/-- The words of an array, from those of its items. -/
def arrayWords (items : List (List (List Char))) : List (List Char) :=
  ['['] :: listed ']' items

/-- The first word of a list is the one of its first part. -/
theorem exists_listed (closing : Char) (word : List Char) (words : List (List Char))
    (parts : List (List (List Char))) :
    ∃ more, listed closing ((word :: words) :: parts) = word :: more := by
  cases parts with
  | nil => exact ⟨_, rfl⟩
  | cons part' parts => exact ⟨_, listed_cons_cons _ _ _⟩

theorem isRead_arrayWords {vs : List JsonValue} {items : List (List (List Char))}
    (h : List.Forall₂ IsRead vs items) : IsRead (.array vs) (arrayWords items) where
  start := ⟨'[', _, _, rfl, by decide⟩
  read := by
    intro more s fuel hs hfuel
    rw [arrayWords, List.length_cons] at hfuel
    obtain ⟨fuel, rfl⟩ := Nat.exists_eq_add_one_of_ne_zero (n := fuel) (by omega)
    rw [arrayWords, List.cons_append] at hs
    obtain ⟨r, hskip, hr⟩ := hs.exists_sign
    cases h with
    | nil =>
      obtain ⟨r', hskip', hr'⟩ := hr.exists_sign
      exact ⟨r', value?_array_nil hskip hskip', hr'⟩
    | @cons v part vs parts hv hvs =>
      obtain ⟨c, word, words, rfl, hne⟩ := hv.start
      obtain ⟨words', hwords'⟩ := exists_listed ']' (c :: word) words parts
      have hfirst : LaidOut ((c :: word) :: (words' ++ more)) r := by
        rwa [hwords'] at hr
      obtain ⟨rest, hskip', -⟩ := hfirst.exists_skipLayout
      have hlaid : LaidOut (listed ']' (((c :: word) :: words) :: parts) ++ more)
          (c :: word ++ rest) := by
        rw [hwords', ← hskip']
        exact hfirst.skipped
      have hroom : 2 * (listed ']' (((c :: word) :: words) :: parts)).length ≤ fuel := by omega
      obtain ⟨r', hitems, hr'⟩ :=
        exists_of_listed hv.begins (hvs.imp fun _ _ h => h.begins) hlaid hroom
      refine ⟨r', ?_, hr'⟩
      rw [value?_array hskip hskip' fun heq => hne (Option.some.inj heq), hitems]
      rfl

/-! ## Objects -/

section

variable {fuel : Nat} {s r r' : List Char}

theorem value?_object_nil (hskip : skipLayout s = '\x7b' :: r)
    (hskip' : skipLayout r = '\x7d' :: r') : value? (fuel + 1) s = some (.object [], r') := by
  rw [value?]
  simp only [hskip, hskip']

variable {key : List Char} {v : JsonValue} {r₁ r₂ r₃ : List Char}

theorem value?_object (hskip : skipLayout s = '\x7b' :: r)
    (hskip' : skipLayout r = quoted key ++ r') :
    value? (fuel + 1) s =
      (entries? fuel (quoted key ++ r')).map fun p => (.object p.1, p.2) := by
  rw [value?]
  simp only [hskip, hskip']
  rfl

theorem entries?_last (hkey : skipLayout s = quoted key ++ r₁) (hcolon : skipLayout r₁ = ':' :: r₂)
    (hvalue : value? fuel r₂ = some (v, r₃)) (hskip : skipLayout r₃ = '\x7d' :: r') :
    entries? (fuel + 1) s = some ([(some key, v)], r') := by
  rw [entries?, hkey, quoted, List.cons_append, List.append_assoc, List.singleton_append]
  simp only [pieces?_flatMap_escape, text?_map_piece, Option.bind_eq_bind, Option.bind_some, hcolon,
    hvalue, hskip]
  rfl

theorem entries?_comma (hkey : skipLayout s = quoted key ++ r₁)
    (hcolon : skipLayout r₁ = ':' :: r₂) (hvalue : value? fuel r₂ = some (v, r₃))
    (hskip : skipLayout r₃ = ',' :: r') :
    entries? (fuel + 1) s = (entries? fuel r').map fun p => ((some key, v) :: p.1, p.2) := by
  rw [entries?, hkey, quoted, List.cons_append, List.append_assoc, List.singleton_append]
  simp only [pieces?_flatMap_escape, text?_map_piece, Option.bind_eq_bind, Option.bind_some, hcolon,
    hvalue, hskip]
  cases entries? fuel r' <;> rfl

end

/-- The words of an entry of an object, from those of its value. -/
def entryWords (m : List Char × List (List Char)) : List (List Char) :=
  quoted m.1 :: [':'] :: m.2

/-- The entry has this key, and these words are read as its value. -/
def IsEntry (e : Option (List Char) × JsonValue) (m : List Char × List (List Char)) : Prop :=
  e.1 = some m.1 ∧ IsRead e.2 m.2

theorem IsEntry.begins {e : Option (List Char) × JsonValue} {m : List Char × List (List Char)}
    (h : IsEntry e m) : Begins entries? '\x7d' e (entryWords m) := by
  obtain ⟨key, v⟩ := e
  obtain ⟨rfl, hv⟩ := h
  intro sign more s fuel hs hfuel
  rw [entryWords, List.length_cons, List.length_cons] at hfuel
  obtain ⟨r₁, hkey, hr₁⟩ := hs.exists_skipLayout
  obtain ⟨r₂, hcolon, hr₂⟩ := hr₁.exists_sign
  have hroom : 2 * m.2.length ≤ fuel := by omega
  obtain ⟨r₃, hvalue, hr₃⟩ := hv.read hr₂ hroom
  obtain ⟨r', hskip, hr'⟩ := hr₃.exists_sign
  refine ⟨r', hr', ?_, ?_⟩
  · rintro rfl
    exact entries?_last hkey hcolon hvalue hskip
  · rintro rfl
    exact entries?_comma hkey hcolon hvalue hskip

/-- The words of an object, from its keys and the words of its values. -/
def objectWords (members : List (List Char × List (List Char))) : List (List Char) :=
  ['\x7b'] :: listed '\x7d' (members.map entryWords)

theorem isRead_objectWords {es : List (Option (List Char) × JsonValue)}
    {members : List (List Char × List (List Char))} (h : List.Forall₂ IsEntry es members) :
    IsRead (.object es) (objectWords members) where
  start := ⟨'\x7b', _, _, rfl, by decide⟩
  read := by
    intro more s fuel hs hfuel
    rw [objectWords, List.length_cons] at hfuel
    obtain ⟨fuel, rfl⟩ := Nat.exists_eq_add_one_of_ne_zero (n := fuel) (by omega)
    rw [objectWords, List.cons_append] at hs
    obtain ⟨r, hskip, hr⟩ := hs.exists_sign
    cases h with
    | nil =>
      obtain ⟨r', hskip', hr'⟩ := hr.exists_sign
      exact ⟨r', value?_object_nil hskip hskip', hr'⟩
    | @cons e m es ms he hes =>
      obtain ⟨words, hwords⟩ := exists_listed '\x7d' (quoted m.1) ([':'] :: m.2)
        (ms.map entryWords)
      have hfirst : LaidOut (quoted m.1 :: (words ++ more)) r := by
        rwa [List.map_cons, entryWords, hwords] at hr
      obtain ⟨rest, hskip', -⟩ := hfirst.exists_skipLayout
      have hlaid : LaidOut (listed '\x7d' (entryWords m :: ms.map entryWords) ++ more)
          (quoted m.1 ++ rest) := by
        rw [entryWords, hwords, ← hskip']
        exact hfirst.skipped
      have hparts : List.Forall₂ (Begins entries? '\x7d') es (ms.map entryWords) :=
        List.forall₂_map_right_iff.2 (hes.imp fun _ _ h => h.begins)
      have hroom : 2 * (listed '\x7d' (entryWords m :: ms.map entryWords)).length ≤ fuel := by
        rw [List.map_cons] at hfuel
        omega
      obtain ⟨r', hentries, hr'⟩ := exists_of_listed he.begins hparts hlaid hroom
      refine ⟨r', ?_, hr'⟩
      rw [value?_object hskip hskip', hentries]
      rfl

/-! ## Documents -/

theorem read?_of_laidOut {v : JsonValue} {words : List (List Char)} {s : List Char}
    (h : IsRead v words) (hs : LaidOut words s) : read? s = some v := by
  have hlength := hs.length_le
  rw [← List.append_nil words] at hs
  have hroom : 2 * words.length ≤ 2 * s.length + 2 := by omega
  obtain ⟨r, hvalue, hr⟩ := h.read hs hroom
  rw [read?, hvalue]
  simp only [hr.skipLayout_nil, List.isEmpty_nil, if_true]

end JsonValue
end CqlWire
