import CqlWire.Fallible
import CqlWire.Proofs.ColumnType.Tokens
import Mathlib.Data.List.Forall2

/-!
# Written types are read back

A text that spells the tokens of a type, laid out in any way, is read as the type. The readers take
the tokens of a type from the front of a text and leave what spells the tokens behind it (`IsRead`);
each step takes one character at least, so that the fuel is never used up. Names come first
(`isRead_name`), then names with parameters (`isRead_applied`), and the tokens of any type are put
together from these (`isRead_tokens`). `ColumnType.read_respelled` is the result for whole texts.
-/

namespace CqlWire

open Text (isLayout isBlank isAsciiLetter isAsciiDigit toAsciiLower trim skipLayout)

namespace TypeExpr

/-! ## Names at the front of a text -/

/-- No character of a name follows, and no dot. -/
def EndsName (r : List Char) : Prop :=
  ∀ c, r.head? = some c → isNameChar c = false ∧ c ≠ '.'

theorem identifier?_append {name r : List Char} (h : isIdentifier name = true)
    (hr : ∀ c, r.head? = some c → isNameChar c = false) :
    identifier? (name ++ r) = some (name, r) := by
  obtain ⟨c, rest, rfl, hc, hrest⟩ := isIdentifier_eq_true_iff.1 h
  have hdrop : (rest ++ r).dropWhile isNameChar = r := Text.dropWhile_append hrest hr
  have htake : (rest ++ r).takeWhile isNameChar = rest := by
    have happend := List.takeWhile_append_dropWhile (p := isNameChar) (l := rest ++ r)
    rw [hdrop] at happend
    exact List.append_cancel_right happend
  rw [List.cons_append, identifier?, if_pos hc]
  show some (c :: (rest ++ r).takeWhile isNameChar, (rest ++ r).dropWhile isNameChar) = _
  rw [htake, hdrop]

/-- A qualified name is read up to its end. -/
theorem qualified?_append {name r : List Char} (h : IsQualifiedName name) (hr : EndsName r) :
    qualified? (name ++ r) = some (name, r) := by
  have hend : ∀ c, r.head? = some c → isNameChar c = false := fun c hc => (hr c hc).1
  cases h with
  | single h =>
    rw [qualified?, identifier?_append h hend]
    cases r with
    | nil => rfl
    | cons c r =>
      split
      · rename_i heq
        cases heq
      · rename_i heq
        cases heq
        exact absurd rfl (hr '.' rfl).2
      · rfl
  | @dotted first second hfirst hsecond =>
    have hdot : ∀ c, ('.' :: (second ++ r)).head? = some c → isNameChar c = false := by
      intro c hc
      obtain rfl : '.' = c := Option.some.inj hc
      rfl
    rw [List.append_assoc, List.cons_append, qualified?, identifier?_append hfirst hdot]
    simp only [identifier?_append hsecond hend]

end TypeExpr

/-! ## Tokens at the front of a text -/

namespace LaidOut

variable {token : TypeToken} {tokens : List TypeToken} {s : List Char}

/-- Layout in front of a token is skipped; its spelling follows, and then the rest. -/
theorem skipLayout_cons (h : LaidOut (token :: tokens) s) (ht : token.IsReadable) :
    ∃ word rest, token.IsSpelled word ∧ LaidOut tokens rest ∧ skipLayout s = word ++ rest ∧
      rest.length < s.length := by
  cases h with
  | @cons _ _ gap word rest hgap hword hrest =>
    obtain ⟨hne, htight⟩ := ht.tight hword
    refine ⟨word, rest, hword, hrest, Text.dropWhile_append hgap fun c hc => ?_, ?_⟩
    · rw [List.head?_append, Option.or_of_isSome (List.isSome_head?.2 hne)] at hc
      have hblank := htight c (List.mem_of_head? hc)
      cases hlayout : isLayout c with
      | false => rfl
      | true => exact absurd (Text.isBlank_of_isLayout hlayout) (by rw [hblank]; decide)
    · have := List.length_pos_iff.2 hne
      simp only [List.length_append]
      omega

theorem skipLayout_nil (h : LaidOut [] s) : skipLayout s = [] := by
  cases h with
  | nil hgap => exact List.dropWhile_eq_nil_iff.2 hgap

/-- Before a sign, and before the end of the tokens, a name ends. -/
theorem endsName (h : LaidOut tokens s)
    (hsign : ∀ token ∈ tokens.head?, token = .opening ∨ token = .comma ∨ token = .closing) :
    TypeExpr.EndsName s := by
  have hlayout : ∀ gap : List Char, (∀ c ∈ gap, isLayout c = true) → TypeExpr.EndsName gap := by
    intro gap hgap c hc
    have hc := hgap c (List.mem_of_head? hc)
    simp only [isLayout, Bool.or_eq_true, beq_iff_eq] at hc
    rcases hc with ((rfl | rfl) | rfl) | rfl <;> decide
  cases h with
  | nil hgap => exact hlayout s hgap
  | @cons token _ gap word rest hgap hword _ =>
    cases gap with
    | cons c gap => exact fun d hd => hlayout _ hgap d hd
    | nil =>
      intro c hc
      rcases hsign token rfl with rfl | rfl | rfl <;> cases hword <;> cases hc <;> decide

end LaidOut

/-! ## Reading a type -/

namespace ColumnType

/-- Behind the tokens of a type stands a comma, a closing bracket or nothing. -/
def EndsType (rest : List TypeToken) : Prop :=
  ∀ token ∈ rest.head?, token = .comma ∨ token = .closing

theorem EndsType.isReadable {token : TypeToken} {rest : List TypeToken}
    (h : EndsType (token :: rest)) : token.IsReadable := by
  rcases h token rfl with rfl | rfl <;> trivial

section

variable {lookup : String → Option UserType} {input : List Char}

/-- An expression that means a type. -/
def Means (lookup : String → Option UserType) (input : List Char) (e : TypeExpr)
    (t : ColumnType) : Prop :=
  e.resolve lookup input = .ok t

/-- The tokens are read as an expression that means the type, in any layout and whatever follows. -/
def IsRead (lookup : String → Option UserType) (input : List Char) (tokens : List TypeToken)
    (t : ColumnType) : Prop :=
  ∀ (rest : List TypeToken) (s : List Char) (fuel : Nat), EndsType rest →
    LaidOut (tokens ++ rest) s → s.length < fuel → ∃ e r, TypeExpr.expr? fuel s = some (e, r) ∧
      LaidOut rest r ∧ r.length < s.length ∧ Means lookup input e t

theorem params?_eq_none {rest : List TypeToken} {s : List Char} (h : LaidOut rest s)
    (hrest : EndsType rest) (fuel : Nat) : TypeExpr.params? fuel s = none := by
  cases fuel with
  | zero => rfl
  | succ fuel =>
    rw [TypeExpr.params?]
    cases rest with
    | nil => rw [h.skipLayout_nil]
    | cons token rest =>
      obtain ⟨word, r, hword, -, hskip, -⟩ := h.skipLayout_cons hrest.isReadable
      rw [hskip]
      rcases hrest token rfl with rfl | rfl <;> cases hword <;> rfl

/-- The name at the front of the tokens. -/
theorem exists_name {token : TypeToken} {rest : List TypeToken} {s : List Char}
    (h : LaidOut (token :: rest) s) (hname : ∀ word, token.IsSpelled word →
      TypeExpr.IsQualifiedName word) (ht : token.IsReadable)
    (hsign : ∀ token ∈ rest.head?, token = .opening ∨ token = .comma ∨ token = .closing) :
    ∃ word r, token.IsSpelled word ∧ TypeExpr.qualified? (skipLayout s) = some (word, r) ∧
      LaidOut rest r ∧ r.length < s.length := by
  obtain ⟨word, r, hword, hr, hskip, hlength⟩ := h.skipLayout_cons ht
  refine ⟨word, r, hword, ?_, hr, hlength⟩
  rw [hskip, TypeExpr.qualified?_append (hname word hword) (hr.endsName hsign)]

/-- A name without parameters. -/
theorem isRead_name {token : TypeToken} {t : ColumnType} (ht : token.IsReadable)
    (hname : ∀ word, token.IsSpelled word → TypeExpr.IsQualifiedName word ∧
      Means lookup input (.node (String.ofList word) []) t) : IsRead lookup input [token] t := by
  intro rest s fuel hrest h hfuel
  obtain ⟨word, r, hword, hread, hr, hlength⟩ :=
    exists_name h (fun word hword => (hname word hword).1) ht
      fun token htoken => .inr (hrest token htoken)
  cases fuel with
  | zero => exact absurd hfuel (Nat.not_lt_zero _)
  | succ fuel =>
    refine ⟨_, r, ?_, hr, hlength, (hname word hword).2⟩
    simp only [TypeExpr.expr?, hread, params?_eq_none hr hrest fuel]

/-! ## Parameters -/

theorem endsType_more (others : List (List TypeToken)) (rest : List TypeToken) :
    EndsType (others.flatMap (.comma :: ·) ++ .closing :: rest) := by
  cases others with
  | nil => exact fun token htoken => .inr (Option.some.inj htoken).symm
  | cons tokens others => exact fun token htoken => .inl (Option.some.inj htoken).symm

/-- Further parameters are read up to the closing bracket. -/
theorem exists_moreParams {others : List (List TypeToken)} {ts : List ColumnType}
    (h : List.Forall₂ (IsRead lookup input) others ts) {rest : List TypeToken} {s : List Char}
    {fuel : Nat} (hs : LaidOut (others.flatMap (.comma :: ·) ++ .closing :: rest) s)
    (hfuel : s.length < fuel) : ∃ es r, TypeExpr.moreParams fuel s = (es, r) ∧
      LaidOut (.closing :: rest) r ∧ r.length ≤ s.length ∧
      List.Forall₂ (Means lookup input) es ts := by
  induction h generalizing s fuel with
  | nil =>
    refine ⟨[], s, ?_, hs, Nat.le_refl _, .nil⟩
    obtain ⟨word, r, hword, -, hskip, -⟩ := hs.skipLayout_cons trivial
    cases hword
    cases fuel with
    | zero => rfl
    | succ fuel =>
      rw [TypeExpr.moreParams, hskip]
      rfl
  | @cons tokens t others ts hfirst hothers ih =>
    rw [List.flatMap_cons, List.cons_append, List.cons_append, List.append_assoc] at hs
    obtain ⟨word, r, hword, hr, hskip, hlength⟩ := hs.skipLayout_cons trivial
    cases hword
    cases fuel with
    | zero => exact absurd hfuel (Nat.not_lt_zero _)
    | succ fuel =>
      have hfuel₀ : r.length < fuel := by omega
      obtain ⟨e, r₁, he, hr₁, hlength₁, hmeans⟩ :=
        hfirst _ r fuel (endsType_more others rest) hr hfuel₀
      have hfuel₁ : r₁.length < fuel := by omega
      obtain ⟨es, r₂, hes, hr₂, hlength₂, hmeans'⟩ := ih hr₁ hfuel₁
      refine ⟨e :: es, r₂, ?_, hr₂, by omega, .cons hmeans hmeans'⟩
      rw [TypeExpr.moreParams, hskip]
      simp only [List.singleton_append, he, hes]

/-- A parameter list is read with its brackets. -/
theorem exists_params {first : List TypeToken} {t : ColumnType} (hfirst : IsRead lookup input first t)
    {others : List (List TypeToken)} {ts : List ColumnType}
    (hothers : List.Forall₂ (IsRead lookup input) others ts) {rest : List TypeToken}
    {s : List Char} {fuel : Nat}
    (hs : LaidOut (.opening :: (first ++ (others.flatMap (.comma :: ·) ++ .closing :: rest))) s)
    (hfuel : s.length < fuel) : ∃ e es r, TypeExpr.params? fuel s = some (e :: es, r) ∧
      LaidOut rest r ∧ r.length < s.length ∧ Means lookup input e t ∧
      List.Forall₂ (Means lookup input) es ts := by
  obtain ⟨word, r, hword, hr, hskip, hlength⟩ := hs.skipLayout_cons trivial
  cases hword
  cases fuel with
  | zero => exact absurd hfuel (Nat.not_lt_zero _)
  | succ fuel =>
    have hfuel₀ : r.length < fuel := by omega
    obtain ⟨e, r₁, he, hr₁, hlength₁, hmeans⟩ :=
      hfirst _ r fuel (endsType_more others rest) hr hfuel₀
    have hfuel₁ : r₁.length < fuel := by omega
    obtain ⟨es, r₂, hes, hr₂, hlength₂, hmeans'⟩ := exists_moreParams hothers hr₁ hfuel₁
    obtain ⟨word, r₃, hword, hr₃, hskip₃, hlength₃⟩ := hr₂.skipLayout_cons trivial
    cases hword
    refine ⟨e, es, r₃, ?_, hr₃, by omega, hmeans, hmeans'⟩
    rw [TypeExpr.params?, hskip]
    simp only [List.singleton_append, he, hes, hskip₃]

/-- A built-in name with parameters. -/
theorem isRead_applied {name : String} (hname : name ∈ TypeExpr.builtinNames)
    {first : List TypeToken} {t u : ColumnType} (hfirst : IsRead lookup input first t)
    {others : List (List TypeToken)} {ts : List ColumnType}
    (hothers : List.Forall₂ (IsRead lookup input) others ts)
    (hmeans : ∀ {word e es}, TypeExpr.lowerName word = name → Means lookup input e t →
      List.Forall₂ (Means lookup input) es ts → Means lookup input (.node word (e :: es)) u) :
    IsRead lookup input (applied name first others) u := by
  intro rest s fuel hrest hs hfuel
  rw [applied, List.cons_append, List.cons_append, List.append_assoc, List.append_assoc,
    List.singleton_append] at hs
  have hidentifier : ∀ word, (TypeToken.builtin name).IsSpelled word →
      TypeExpr.IsQualifiedName word :=
    fun word hword => .single (TypeToken.isIdentifier_of_builtin hname hword)
  obtain ⟨word, r, hword, hread, hr, hlength⟩ := exists_name hs hidentifier hname
    fun token htoken => .inl (Option.some.inj htoken).symm
  cases fuel with
  | zero => exact absurd hfuel (Nat.not_lt_zero _)
  | succ fuel =>
    have hfuel₀ : r.length < fuel := by omega
    obtain ⟨e, es, r₁, hparams, hr₁, hlength₁, he, hes⟩ :=
      exists_params hfirst hothers hr hfuel₀
    refine ⟨.node (String.ofList word) (e :: es), r₁, ?_, hr₁, by omega, ?_⟩
    · simp only [TypeExpr.expr?, hread, hparams]
    · exact hmeans (TypeToken.lowerName_of_builtin hword) he hes

/-! ## What the names mean -/

/-- The names that make a type of one parameter, with the types that they make. -/
inductive Builds : String → (ColumnType → ColumnType) → Prop where
  | list : Builds "list" (.list false)
  | set : Builds "set" (.set false)
  | frozen : Builds "frozen" (withFrozen true)

theorem Builds.mem_builtinNames {name : String} {make : ColumnType → ColumnType}
    (h : Builds name make) : name ∈ TypeExpr.builtinNames := by
  cases h <;> decide

theorem Builds.means {name word : String} {make : ColumnType → ColumnType} (h : Builds name make)
    {e : TypeExpr} {t : ColumnType} (hword : TypeExpr.lowerName word = name)
    (he : Means lookup input e t) : Means lookup input (.node word [e]) (make t) := by
  unfold Means at *
  unfold TypeExpr.resolve
  rw [hword]
  cases h <;> simp only [he] <;> rfl

theorem means_map {word : String} {e f : TypeExpr} {k v : ColumnType}
    (hword : TypeExpr.lowerName word = "map") (he : Means lookup input e k)
    (hf : Means lookup input f v) : Means lookup input (.node word [e, f]) (.map false k v) := by
  unfold Means at *
  unfold TypeExpr.resolve
  rw [hword]
  simp only [he, hf]
  rfl

theorem means_scalar {word : String} {s : ScalarType}
    (hword : TypeExpr.lowerName word = s.toText) : Means lookup input (.node word []) (.scalar s) := by
  unfold Means TypeExpr.resolve
  rw [hword]
  cases s <;> rfl

theorem scalar?_eq_none {name : String} (h : name ∉ TypeExpr.builtinNames) :
    TypeExpr.scalar? name = none := by
  unfold TypeExpr.scalar?
  split
  all_goals first | exact absurd (by decide) h | rfl

/-- A name that is not built in means what is found for it. -/
theorem means_given {word : String} {u : UserType}
    (hword : TypeExpr.lowerName word ∉ TypeExpr.builtinNames) (hu : lookup word = some u) :
    Means lookup input (.node word []) (.user u) := by
  have hscalar := scalar?_eq_none hword
  have hne : ∀ name ∈ TypeExpr.builtinNames, TypeExpr.lowerName word ≠ name :=
    fun name hname heq => hword (heq ▸ hname)
  unfold Means TypeExpr.resolve
  split
  case h_10 => simp only [hscalar, hu]
  case h_9 heq _ _ _ _ _ _ _ _ => cases heq
  all_goals exact absurd ‹TypeExpr.lowerName word = _› (hne _ (by decide))

/-! ## Types -/

theorem isRead_of_builds {name : String} {make : ColumnType → ColumnType} (h : Builds name make)
    {tokens : List TypeToken} {t : ColumnType} (ht : IsRead lookup input tokens t) :
    IsRead lookup input (applied name tokens []) (make t) := by
  refine isRead_applied h.mem_builtinNames ht .nil fun hword he hes => ?_
  cases hes
  exact h.means hword he

theorem isRead_markedFrozen {tokens : List TypeToken} {t : ColumnType}
    (h : IsRead lookup input tokens t) (frozen : Bool) :
    IsRead lookup input (markedFrozen frozen tokens)
      (if frozen then t.withFrozen true else t) := by
  cases frozen with
  | false => exact h
  | true => exact isRead_of_builds .frozen h

/-- The tokens of a type are read as the type, if its user-defined types are found by their names. -/
theorem isRead_tokens {t : ColumnType} (hnames : ∀ u ∈ t.written, u.HasReadableName)
    (hfound : ∀ u ∈ t.written, lookup u.qualifiedName = some { u with frozen := false }) :
    IsRead lookup input t.tokens t := by
  induction t using tokens.induct with
  | case1 s =>
    have hname : (TypeToken.builtin s.toText).IsReadable := toText_mem_builtinNames s
    exact isRead_name hname fun word hword =>
      ⟨.single (TypeToken.isIdentifier_of_builtin hname hword),
        means_scalar (TypeToken.lowerName_of_builtin hword)⟩
  | case2 frozen e ih =>
    have hmarked := isRead_markedFrozen (isRead_of_builds .list (ih hnames hfound)) frozen
    cases frozen <;> exact hmarked
  | case3 frozen e ih =>
    have hmarked := isRead_markedFrozen (isRead_of_builds .set (ih hnames hfound)) frozen
    cases frozen <;> exact hmarked
  | case4 frozen k v ihk ihv =>
    obtain ⟨hk, hv⟩ := List.forall_mem_append.1 hnames
    obtain ⟨hk', hv'⟩ := List.forall_mem_append.1 hfound
    have hmap : IsRead lookup input (applied "map" k.tokens [v.tokens])
        (.map false k v) := by
      refine isRead_applied (by decide) (ihk hk hk') (.cons (ihv hv hv') .nil)
        fun hword he hes => ?_
      obtain _ | ⟨hf, hes⟩ := hes
      cases hes
      exact means_map hword he hf
    have hmarked := isRead_markedFrozen hmap frozen
    cases frozen <;> exact hmarked
  | case5 u =>
    have hname := hnames u List.mem_cons_self
    have huser : IsRead lookup input [.given u.qualifiedName] (.user { u with frozen := false }) := by
      have hform : (TypeToken.given u.qualifiedName).IsReadable := hname.form
      refine isRead_name hform fun word hword => ?_
      cases hword
      rw [String.ofList_toList]
      exact ⟨hname.form, means_given hname.not_mem_builtinNames (hfound u List.mem_cons_self)⟩
    have hmarked := isRead_markedFrozen huser u.frozen
    obtain ⟨keyspace, name, fields, frozen⟩ := u
    cases frozen <;> exact hmarked

end

/-! ## Whole texts -/

/-- What is written of a type is read as the type again, in any case of the built-in names and with
any layout around the tokens, if the user-defined types that it names are found by their names and
these can be told from built-in ones. -/
theorem read_respelled {lookup : String → Option UserType} {t : ColumnType}
    (hnames : ∀ u ∈ t.written, u.HasReadableName)
    (hfound : ∀ u ∈ t.written, lookup u.qualifiedName = some { u with frozen := false }) :
    ColumnType.read lookup t.toText.toList = .ok t ∧
      ∀ text, LaidOut t.tokens text → ColumnType.read lookup text = .ok t := by
  have hread : ∀ text, LaidOut t.tokens text → ColumnType.read lookup text = .ok t := by
    intro text htext
    have hlaid : LaidOut (t.tokens ++ []) (trim text) := by
      rw [List.append_nil]
      exact htext.trim (isReadable_tokens hnames)
    obtain ⟨e, r, he, hr, -, hmeans⟩ :=
      isRead_tokens hnames hfound [] _ _ nofun hlaid (Nat.lt_succ_self _)
    have hexpr : TypeExpr.read text = .ok e := by
      simp only [TypeExpr.read, he, hr.skipLayout_nil]
    rw [ColumnType.read, hexpr]
    exact hmeans
  exact ⟨hread _ (laidOut_toText t), hread⟩

/-- A type in a keyspace inside of two frozen types, written over two lines. -/
theorem read_respelled_nested :
    let address : UserType := ⟨some "shop", "address", [⟨"zip", .scalar .int⟩], true⟩
    let t : ColumnType := .map true (.scalar .text) (.user address)
    let lookup : String → Option UserType := fun name =>
      if name = "shop.address" then some { address with frozen := false } else none
    let text : List Char :=
      [] ++ (['F', 'r', 'o', 'z', 'e', 'n'] ++ ([] ++ (['<'] ++ ([] ++ (['M', 'A', 'P'] ++ ([' '] ++
      (['<'] ++ (['\r', '\n', '\t'] ++ (['T', 'e', 'x', 't'] ++ ([] ++ ([','] ++ ([] ++
      (['f', 'r', 'o', 'z', 'e', 'n'] ++ ([] ++ (['<'] ++ ([' '] ++
      (['s', 'h', 'o', 'p', '.', 'a', 'd', 'd', 'r', 'e', 's', 's'] ++ ([' '] ++ (['>'] ++ ([] ++
      (['>'] ++ (['\n'] ++ (['>'] ++ [' '])))))))))))))))))))))))
    ColumnType.read lookup t.toText.toList = .ok t ∧ ColumnType.read lookup text = .ok t := by
  intro address t lookup text
  have hlaid : LaidOut t.tokens text := by
    repeat refine .cons (List.all_eq_true.1 (by decide)) (by decide) ?_
    exact .nil (List.all_eq_true.1 (by decide))
  have hname : address.qualifiedName.toList = "shop".toList ++ '.' :: "address".toList := by decide
  have hform : TypeExpr.IsQualifiedName address.qualifiedName.toList :=
    hname ▸ .dotted (by decide) (by decide)
  have hnames : ∀ u ∈ t.written, u.HasReadableName :=
    List.forall_mem_singleton.2 ⟨hform, nofun⟩
  have hfound : ∀ u ∈ t.written, lookup u.qualifiedName = some { u with frozen := false } :=
    List.forall_mem_singleton.2 rfl
  obtain ⟨hwritten, hrespelled⟩ := read_respelled hnames hfound
  exact ⟨hwritten, hrespelled text hlaid⟩

end ColumnType

end CqlWire
