import CqlWire.ColumnType.Reader
import CqlWire.Proofs.Text.Trim

/-!
# The tokens of written types

A written type is a sequence of tokens: built-in names, names of user-defined types and signs. The
texts that such a sequence can be laid out as differ in the layout between the tokens and in the
case of the letters of built-in names (`LaidOut`). What `ColumnType.toText` writes is one of them
(`laidOut_toText`), and no blank at its ends belongs to a token (`LaidOut.trim`).
-/

namespace CqlWire

open Text (isLayout isBlank isAsciiLetter isAsciiDigit toAsciiLower)

/-! ## Names -/

namespace TypeExpr

/-- The names that stand for scalar types and for ways to build types, in small letters. -/
def builtinNames : List String :=
  ["ascii", "bigint", "blob", "boolean", "counter", "date", "decimal", "double", "float", "inet",
   "int", "smallint", "text", "varchar", "time", "timestamp", "timeuuid", "tinyint", "uuid",
   "varint", "list", "set", "map", "frozen"]

/-- What may follow in an identifier behind its first letter. -/
def isNameChar (c : Char) : Bool :=
  isAsciiLetter c || isAsciiDigit c || c == '_'

/-- An ASCII letter, then letters, digits and underscores. -/
def isIdentifier : List Char → Bool
  | [] => false
  | c :: r => isAsciiLetter c && r.all isNameChar

/-- An identifier, or two of them joined by a dot. -/
inductive IsQualifiedName : List Char → Prop where
  | single {s : List Char} (h : isIdentifier s = true) : IsQualifiedName s
  | dotted {s t : List Char} (hs : isIdentifier s = true) (ht : isIdentifier t = true) :
    IsQualifiedName (s ++ '.' :: t)

theorem isNameChar_of_isAsciiLetter {c : Char} (h : isAsciiLetter c = true) :
    isNameChar c = true := by
  rw [isNameChar, h]
  rfl

theorem isIdentifier_eq_true_iff {s : List Char} :
    isIdentifier s = true ↔ ∃ c r, s = c :: r ∧ isAsciiLetter c = true ∧
      ∀ d ∈ r, isNameChar d = true := by
  cases s with
  | nil => simp [isIdentifier]
  | cons c r =>
    rw [isIdentifier, Bool.and_eq_true, List.all_eq_true]
    constructor
    · intro h
      exact ⟨c, r, rfl, h⟩
    · rintro ⟨_, _, heq, h⟩
      cases heq
      exact h

theorem isBlank_of_isNameChar {c : Char} (h : isNameChar c = true) : isBlank c = false := by
  simp only [isNameChar, Bool.or_eq_true, beq_iff_eq] at h
  rcases h with (h | h) | rfl
  · exact Text.isBlank_of_isWordChar (by simp only [Text.isWordChar, h, Bool.or_true, Bool.true_or])
  · exact Text.isBlank_of_isWordChar (Text.isWordChar_of_isAsciiDigit h)
  · rfl

theorem isBlank_of_mem_identifier {s : List Char} (h : isIdentifier s = true) {c : Char}
    (hc : c ∈ s) : isBlank c = false := by
  obtain ⟨d, r, rfl, hd, hr⟩ := isIdentifier_eq_true_iff.1 h
  rcases List.mem_cons.1 hc with rfl | hc
  · exact isBlank_of_isNameChar (isNameChar_of_isAsciiLetter hd)
  · exact isBlank_of_isNameChar (hr c hc)

theorem IsQualifiedName.isBlank_of_mem {s : List Char} (h : IsQualifiedName s) {c : Char}
    (hc : c ∈ s) : isBlank c = false := by
  cases h with
  | single h => exact isBlank_of_mem_identifier h hc
  | dotted hs ht =>
    rcases List.mem_append.1 hc with hc | hc
    · exact isBlank_of_mem_identifier hs hc
    · rcases List.mem_cons.1 hc with rfl | hc
      · rfl
      · exact isBlank_of_mem_identifier ht hc

theorem IsQualifiedName.ne_nil {s : List Char} (h : IsQualifiedName s) : s ≠ [] := by
  cases h with
  | single h =>
    obtain ⟨c, r, rfl, -⟩ := isIdentifier_eq_true_iff.1 h
    exact List.cons_ne_nil c r
  | dotted hs ht => exact List.append_ne_nil_of_right_ne_nil _ (List.cons_ne_nil _ _)

end TypeExpr

/-! ## Tokens -/

/-- The tokens of written types. -/
inductive TypeToken where
  | builtin (name : String)
  | given (name : String)
  | opening
  | comma
  | closing
deriving DecidableEq, Repr

namespace TypeToken

/-- The spellings of a token: built-in names in any case, everything else as it is. -/
def IsSpelled : TypeToken → List Char → Prop
  | .builtin name, word => word.map toAsciiLower = name.toList
  | .given name, word => word = name.toList
  | .opening, word => word = ['<']
  | .comma, word => word = [',']
  | .closing, word => word = ['>']

instance : (token : TypeToken) → (word : List Char) → Decidable (token.IsSpelled word)
  | .builtin name, word => decEq (word.map toAsciiLower) name.toList
  | .given name, word => decEq word name.toList
  | .opening, word => decEq word ['<']
  | .comma, word => decEq word [',']
  | .closing, word => decEq word ['>']

/-- The names of the token are those that can be read as such. -/
def IsReadable : TypeToken → Prop
  | .builtin name => name ∈ TypeExpr.builtinNames
  | .given name => TypeExpr.IsQualifiedName name.toList
  | _ => True

theorem isAsciiLetter_of_mem_builtinNames : ∀ name ∈ TypeExpr.builtinNames,
    name.toList ≠ [] ∧ ∀ c ∈ name.toList, isAsciiLetter c = true := by
  simp only [← List.all_eq_true]
  decide

/-- A built-in name is an identifier in every spelling. -/
theorem isIdentifier_of_builtin {name : String} (hname : name ∈ TypeExpr.builtinNames)
    {word : List Char} (h : (builtin name).IsSpelled word) : TypeExpr.isIdentifier word = true := by
  obtain ⟨hne, hletters⟩ := isAsciiLetter_of_mem_builtinNames name hname
  have hword : ∀ c ∈ word, isAsciiLetter c = true := by
    intro c hc
    rw [← Text.isAsciiLetter_toAsciiLower]
    refine hletters _ ?_
    rw [← show word.map toAsciiLower = name.toList from h]
    exact List.mem_map_of_mem hc
  cases word with
  | nil => exact absurd h.symm hne
  | cons c r =>
    refine TypeExpr.isIdentifier_eq_true_iff.2 ⟨c, r, rfl, hword c List.mem_cons_self, fun d hd => ?_⟩
    exact TypeExpr.isNameChar_of_isAsciiLetter (hword d (List.mem_cons_of_mem c hd))

theorem lowerName_of_builtin {name : String} {word : List Char}
    (h : (builtin name).IsSpelled word) : TypeExpr.lowerName (String.ofList word) = name := by
  rw [TypeExpr.lowerName, String.toList_ofList, show word.map toAsciiLower = name.toList from h,
    String.ofList_toList]

/-- A token is spelled with at least one character, and without blanks. -/
theorem IsReadable.tight {token : TypeToken} (ht : token.IsReadable) {word : List Char}
    (h : token.IsSpelled word) : word ≠ [] ∧ ∀ c ∈ word, isBlank c = false := by
  cases token with
  | builtin name =>
    have hword := isIdentifier_of_builtin ht h
    exact ⟨(TypeExpr.IsQualifiedName.single hword).ne_nil,
      fun _ hc => TypeExpr.isBlank_of_mem_identifier hword hc⟩
  | given name =>
    obtain rfl : word = name.toList := h
    exact ⟨TypeExpr.IsQualifiedName.ne_nil ht,
      fun _ hc => TypeExpr.IsQualifiedName.isBlank_of_mem ht hc⟩
  | opening | comma | closing =>
    cases h
    exact ⟨List.cons_ne_nil _ _, List.forall_mem_singleton.2 rfl⟩

end TypeToken

/-! ## Layout -/

/-- A text spells the tokens in order, with layout around and between them. -/
inductive LaidOut : List TypeToken → List Char → Prop where
  | nil {gap : List Char} (hgap : ∀ c ∈ gap, isLayout c = true) : LaidOut [] gap
  | cons {token : TypeToken} {tokens : List TypeToken} {gap word rest : List Char}
    (hgap : ∀ c ∈ gap, isLayout c = true) (hword : token.IsSpelled word)
    (hrest : LaidOut tokens rest) : LaidOut (token :: tokens) (gap ++ (word ++ rest))

namespace LaidOut

variable {token : TypeToken} {tokens others : List TypeToken} {s r : List Char}

/-- More layout in front makes no difference. -/
theorem lead (h : LaidOut tokens s) {gap : List Char} (hgap : ∀ c ∈ gap, isLayout c = true) :
    LaidOut tokens (gap ++ s) := by
  cases h with
  | nil hgap' => exact .nil (List.forall_mem_append.2 ⟨hgap, hgap'⟩)
  | cons hgap' hword hrest =>
    rw [← List.append_assoc]
    exact .cons (List.forall_mem_append.2 ⟨hgap, hgap'⟩) hword hrest

theorem append (hs : LaidOut tokens s) (hr : LaidOut others r) :
    LaidOut (tokens ++ others) (s ++ r) := by
  induction hs with
  | nil hgap => exact hr.lead hgap
  | cons hgap hword _ ih =>
    rw [List.append_assoc, List.append_assoc]
    exact .cons hgap hword ih

theorem single {word : List Char} (h : token.IsSpelled word) : LaidOut [token] word := by
  have hlaid := LaidOut.cons (List.forall_mem_nil _) h (.nil (List.forall_mem_nil _))
  rwa [List.nil_append, List.append_nil] at hlaid

theorem trimStart (h : LaidOut tokens s) (hread : ∀ t ∈ tokens, t.IsReadable) :
    LaidOut tokens (Text.trimStart s) := by
  cases h with
  | nil hgap =>
    have hstart : Text.trimStart s = [] :=
      List.dropWhile_eq_nil_iff.2 fun c hc => Text.isBlank_of_isLayout (hgap c hc)
    rw [hstart]
    exact .nil (List.forall_mem_nil _)
  | @cons token tokens gap word rest hgap hword hrest =>
    obtain ⟨hne, htight⟩ := (hread token List.mem_cons_self).tight hword
    have hstart : Text.trimStart (gap ++ (word ++ rest)) = word ++ rest := by
      refine Text.dropWhile_append (fun c hc => Text.isBlank_of_isLayout (hgap c hc)) fun c hc => ?_
      rw [List.head?_append, Option.or_of_isSome (List.isSome_head?.2 hne)] at hc
      exact htight c (List.mem_of_head? hc)
    rw [hstart]
    exact .cons (List.forall_mem_nil _) hword hrest

theorem trimEnd (h : LaidOut tokens s) (hread : ∀ t ∈ tokens, t.IsReadable) :
    LaidOut tokens (Text.trimEnd s) := by
  induction h with
  | @nil gap hgap =>
    obtain ⟨post, -, hs⟩ := Text.exists_trimEnd gap
    refine .nil fun c hc => hgap c ?_
    rw [hs]
    exact List.mem_append_left post hc
  | @cons token tokens gap word rest hgap hword _ ih =>
    obtain ⟨hne, htight⟩ := (hread token List.mem_cons_self).tight hword
    have hlast : ∀ c, (gap ++ word).getLast? = some c → isBlank c = false := by
      intro c hc
      rw [List.getLast?_append, Option.or_of_isSome (List.getLast?_isSome.2 hne)] at hc
      exact htight c (List.mem_of_getLast? hc)
    rw [← List.append_assoc, Text.trimEnd_append hlast, List.append_assoc]
    exact .cons hgap hword (ih fun t ht => hread t (List.mem_cons_of_mem _ ht))

/-- Blanks at the ends of the text are not part of the tokens. -/
theorem trim (h : LaidOut tokens s) (hread : ∀ t ∈ tokens, t.IsReadable) :
    LaidOut tokens (Text.trim s) :=
  (h.trimStart hread).trimEnd hread

end LaidOut

/-! ## Names of user-defined types -/

/-- The qualified name is read as that of a user-defined type: it has the form of one and, if there
is no keyspace in it, is no built-in name in any case. -/
structure UserTypeOver.HasReadableName {τ : Type} (u : UserTypeOver τ) : Prop where
  form : TypeExpr.IsQualifiedName u.qualifiedName.toList
  distinct : u.keyspace = none → TypeExpr.lowerName u.qualifiedName ∉ TypeExpr.builtinNames

/-- There is no dot in a built-in name, so that no name with a keyspace is one. -/
theorem UserTypeOver.HasReadableName.not_mem_builtinNames {τ : Type} {u : UserTypeOver τ}
    (h : u.HasReadableName) : TypeExpr.lowerName u.qualifiedName ∉ TypeExpr.builtinNames := by
  cases hk : u.keyspace with
  | none => exact h.distinct hk
  | some keyspace =>
    intro hmem
    have hdot : '.' ∈ (TypeExpr.lowerName u.qualifiedName).toList := by
      have hname : u.qualifiedName.toList = keyspace.toList ++ '.' :: u.name.toList := by
        rw [UserTypeOver.qualifiedName, hk]
        simp only [String.toList_append, List.append_assoc]
        rfl
      rw [TypeExpr.lowerName, String.toList_ofList, hname, List.map_append, List.map_cons]
      exact List.mem_append_right _ List.mem_cons_self
    have hletter := (TypeToken.isAsciiLetter_of_mem_builtinNames _ hmem).2 '.' hdot
    exact absurd hletter (by decide)

/-! ## The tokens of a type -/

namespace ColumnType

/-- A built-in name with parameters in angle brackets, one at least. -/
def applied (name : String) (first : List TypeToken) (others : List (List TypeToken)) :
    List TypeToken :=
  .builtin name :: .opening :: (first ++ (others.flatMap (.comma :: ·) ++ [.closing]))

/-- The tokens, marked as frozen where they are. -/
def markedFrozen (frozen : Bool) (tokens : List TypeToken) : List TypeToken :=
  if frozen then applied "frozen" tokens [] else tokens

/-- The tokens of a written type. -/
def tokens : ColumnType → List TypeToken
  | .scalar s => [.builtin s.toText]
  | .list frozen e => markedFrozen frozen (applied "list" e.tokens [])
  | .set frozen e => markedFrozen frozen (applied "set" e.tokens [])
  | .map frozen k v => markedFrozen frozen (applied "map" k.tokens [v.tokens])
  | .user u => markedFrozen u.frozen [.given u.qualifiedName]

/-- The user-defined types that a written type names: not those inside of their fields. -/
def written : ColumnType → List UserType
  | .scalar _ => []
  | .list _ e | .set _ e => e.written
  | .map _ k v => k.written ++ v.written
  | .user u => [u]

theorem isSpelled_builtin {name : String} (h : name ∈ TypeExpr.builtinNames) :
    (TypeToken.builtin name).IsSpelled name.toList := by
  have hlower : ∀ name ∈ TypeExpr.builtinNames,
      name.toList.map toAsciiLower = name.toList := by decide
  exact hlower name h

theorem toText_mem_builtinNames (s : ScalarType) : s.toText ∈ TypeExpr.builtinNames := by
  cases s <;> decide

theorem isReadable_applied {name : String} (hname : name ∈ TypeExpr.builtinNames)
    {first : List TypeToken} (hfirst : ∀ token ∈ first, token.IsReadable)
    {others : List (List TypeToken)}
    (hothers : ∀ tokens ∈ others, ∀ token ∈ tokens, token.IsReadable) :
    ∀ token ∈ applied name first others, token.IsReadable := by
  have hmore : ∀ token ∈ others.flatMap (TypeToken.comma :: ·), token.IsReadable := by
    intro token htoken
    obtain ⟨tokens, htokens, htoken⟩ := List.mem_flatMap.1 htoken
    rcases List.mem_cons.1 htoken with rfl | htoken
    · trivial
    · exact hothers tokens htokens token htoken
  refine List.forall_mem_cons.2 ⟨hname, List.forall_mem_cons.2 ⟨trivial, ?_⟩⟩
  refine List.forall_mem_append.2 ⟨hfirst, List.forall_mem_append.2 ⟨hmore, ?_⟩⟩
  exact List.forall_mem_singleton.2 trivial

theorem isReadable_markedFrozen {tokens : List TypeToken}
    (h : ∀ token ∈ tokens, token.IsReadable) (frozen : Bool) :
    ∀ token ∈ markedFrozen frozen tokens, token.IsReadable := by
  cases frozen with
  | false => exact h
  | true => exact isReadable_applied (by decide) h (List.forall_mem_nil _)

/-- The names in the tokens are readable where those of the user-defined types are. -/
theorem isReadable_tokens {t : ColumnType} (h : ∀ u ∈ t.written, u.HasReadableName) :
    ∀ token ∈ t.tokens, token.IsReadable := by
  induction t using tokens.induct with
  | case1 s => exact List.forall_mem_singleton.2 (toText_mem_builtinNames s)
  | case2 frozen e ih | case3 frozen e ih =>
    exact isReadable_markedFrozen
      (isReadable_applied (by decide) (ih h) (List.forall_mem_nil _)) frozen
  | case4 frozen k v ihk ihv =>
    obtain ⟨hk, hv⟩ := List.forall_mem_append.1 h
    exact isReadable_markedFrozen
      (isReadable_applied (by decide) (ihk hk) (List.forall_mem_singleton.2 (ihv hv))) frozen
  | case5 u =>
    have hname : (TypeToken.given u.qualifiedName).IsReadable := (h u List.mem_cons_self).form
    exact isReadable_markedFrozen (List.forall_mem_singleton.2 hname) u.frozen

theorem laidOut_applied {name : String} (hname : name ∈ TypeExpr.builtinNames)
    {first : List TypeToken} {s : List Char} (hs : LaidOut first s)
    {others : List (List TypeToken)} {r : List Char}
    (hr : LaidOut (others.flatMap (.comma :: ·)) r) :
    LaidOut (applied name first others) (name.toList ++ ('<' :: (s ++ (r ++ ['>'])))) := by
  have hclosing : LaidOut [.closing] ['>'] := .single rfl
  have hopening : LaidOut [.opening] ['<'] := .single rfl
  have hbody := hopening.append (hs.append (hr.append hclosing))
  exact (LaidOut.single (isSpelled_builtin hname)).append hbody

theorem laidOut_applied_single {name opened text : String} {first : List TypeToken}
    (hname : name ∈ TypeExpr.builtinNames) (hopened : opened.toList = name.toList ++ ['<'])
    (h : LaidOut first text.toList) :
    LaidOut (applied name first []) (opened ++ text ++ ">").toList := by
  have hothers : LaidOut (([] : List (List TypeToken)).flatMap (TypeToken.comma :: ·)) [] :=
    .nil (List.forall_mem_nil _)
  have hlaid := laidOut_applied hname h hothers
  simp only [String.toList_append, hopened, List.append_assoc]
  exact hlaid

theorem laidOut_markFrozen {tokens : List TypeToken} {text : String}
    (h : LaidOut tokens text.toList) (frozen : Bool) :
    LaidOut (markedFrozen frozen tokens) (markFrozen frozen text).toList := by
  cases frozen with
  | false => exact h
  | true => exact laidOut_applied_single (by decide) (by decide) h

/-- What is written spells the tokens of the type. -/
theorem laidOut_toText (t : ColumnType) : LaidOut t.tokens t.toText.toList := by
  induction t using tokens.induct with
  | case1 s => exact .single (isSpelled_builtin (toText_mem_builtinNames s))
  | case2 frozen e ih | case3 frozen e ih =>
    exact laidOut_markFrozen (laidOut_applied_single (by decide) (by decide) ih) frozen
  | case4 frozen k v ihk ihv =>
    have hcomma : LaidOut [.comma] [','] := .single rfl
    have hspace : ∀ c ∈ [' '], isLayout c = true := List.forall_mem_singleton.2 rfl
    have hvalue := hcomma.append (ihv.lead hspace)
    have hothers : [v.tokens].flatMap (TypeToken.comma :: ·) = [.comma] ++ v.tokens := by
      rw [List.flatMap_singleton, List.singleton_append]
    have hname : "map" ∈ TypeExpr.builtinNames := by decide
    have hmap := laidOut_applied hname ihk (hothers ▸ hvalue)
    have hopened : "map<".toList = "map".toList ++ ['<'] := by decide
    refine laidOut_markFrozen ?_ frozen
    simp only [String.toList_append, hopened, List.append_assoc]
    exact hmap
  | case5 u =>
    have hname : (TypeToken.given u.qualifiedName).IsSpelled u.qualifiedName.toList := rfl
    exact laidOut_markFrozen (.single hname) u.frozen

end ColumnType

end CqlWire
