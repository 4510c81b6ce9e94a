import CqlWire.Text.Blank

/-!
# Terms of a literal

A term is what one element of a collection literal may be: quoted strings, balanced bracket groups
and bare characters, in any mixture. Commas, colons and brackets divide a literal only outside of
quotes and groups, so these are read as units.

* `quotedSpan`: the rest of a quoted string, to its closing quote;
* `groupSpan`: the rest of a bracket group, to the bracket that closes it;
* `piece?`: a quoted string, a group or a bare character;
* `term?`: as many pieces as there are, at least one.

Each of them gives the characters it has read and the ones that are left, so that together they
are the text it was given (`append_of_piece?` and its like).
-/

namespace CqlWire.Literal

/-- The bracket that closes an opening bracket. -/
def closer? : Char → Option Char
  | '\x7b' => some '\x7d'
  | '[' => some ']'
  | '(' => some ')'
  | _ => none

/-- A closing bracket. -/
def isCloser (c : Char) : Bool :=
  c == '\x7d' || c == ']' || c == ')'

/-- A character that may stand in a term outside of quotes and groups. -/
def isBare (c : Char) : Bool :=
  !(c == ',' || c == ':' || c == '\x27' || (closer? c).isSome || isCloser c)

/-- Reads a quoted string whose opening quote has been read: up to the first quote that is not one
of a pair. -/
def quotedSpan : List Char → Option (List Char × List Char)
  | [] => none
  | '\x27' :: '\x27' :: r => (quotedSpan r).map fun p => ('\x27' :: '\x27' :: p.1, p.2)
  | c :: r =>
    if c = '\x27' then some ([c], r) else (quotedSpan r).map fun p => (c :: p.1, p.2)

/-- Putting characters in front of what was read, and what is left, puts them in front of both. -/
theorem append_of_map_cons {o : Option (List Char × List Char)} {u t r : List Char}
    (h : o.map (fun p => (u ++ p.1, p.2)) = some (t, r)) :
    ∃ v, o = some (v, r) ∧ t = u ++ v := by
  obtain ⟨⟨v, w⟩, hp, hq⟩ := Option.map_eq_some_iff.1 h
  simp only [Prod.mk.injEq] at hq
  exact ⟨v, by rw [hp, hq.2], hq.1.symm⟩

/-- A quoted string and what follows it are the whole text. -/
theorem append_of_quotedSpan {s t r : List Char} (h : quotedSpan s = some (t, r)) :
    t ++ r = s ∧ t ≠ [] := by
  fun_induction quotedSpan s generalizing t r with
  | case1 => simp at h
  | case2 u ih =>
    obtain ⟨v, hv, rfl⟩ := append_of_map_cons (u := ['\x27', '\x27']) h
    simp [(ih hv).1]
  | case3 =>
    simp only [Option.some.injEq, Prod.mk.injEq] at h
    simp [← h.1, h.2]
  | case4 c u _ _ ih =>
    obtain ⟨v, hv, rfl⟩ := append_of_map_cons (u := [c]) h
    simp [(ih hv).1]

/-- What is left is shorter when something was read. -/
theorem length_lt_of_append {s t r : List Char} (h : t ++ r = s ∧ t ≠ []) :
    r.length < s.length := by
  have := List.length_pos_iff.2 h.2
  simp only [← h.1, List.length_append]
  omega

/-- Reads up to the end of the outermost of the open groups, whose closing brackets are given
innermost first. -/
def groupSpan (closers : List Char) (s : List Char) : Option (List Char × List Char) :=
  match closers, s with
  | [], s => some ([], s)
  | _ :: _, [] => none
  | close :: outer, c :: r =>
    if c = close then (groupSpan outer r).map fun p => (c :: p.1, p.2)
    else if c = '\x27' then
      match _h : quotedSpan r with
      | none => none
      | some (t, u) => (groupSpan (close :: outer) u).map fun p => (c :: t ++ p.1, p.2)
    else
      match closer? c with
      | some inner => (groupSpan (inner :: close :: outer) r).map fun p => (c :: p.1, p.2)
      | none =>
        if isCloser c then none
        else (groupSpan (close :: outer) r).map fun p => (c :: p.1, p.2)
termination_by s.length
decreasing_by
  all_goals simp_wf
  have := length_lt_of_append (append_of_quotedSpan _h)
  omega

/-- The groups and what follows them are the whole text. -/
theorem append_of_groupSpan {closers s t r : List Char} (h : groupSpan closers s = some (t, r)) :
    t ++ r = s := by
  fun_induction groupSpan closers s generalizing t r with
  | case1 => simp_all
  | case2 => simp at h
  | case3 _ _ c ih =>
    obtain ⟨v, hv, rfl⟩ := append_of_map_cons (u := [_]) h
    simp [ih hv]
  | case4 => simp at h
  | case5 _ _ _ a _ hs _ ih =>
    obtain ⟨v, hv, rfl⟩ := append_of_map_cons (u := '\x27' :: a) h
    simp [ih hv, (append_of_quotedSpan hs).1]
  | case6 _ _ c _ _ _ _ _ ih =>
    obtain ⟨v, hv, rfl⟩ := append_of_map_cons (u := [c]) h
    simp [ih hv]
  | case7 => simp at h
  | case8 _ _ c _ _ _ _ _ ih =>
    obtain ⟨v, hv, rfl⟩ := append_of_map_cons (u := [c]) h
    simp [ih hv]

/-- The first piece of a term: a quoted string, a bracket group or a bare character. -/
def piece? : List Char → Option (List Char × List Char)
  | [] => none
  | c :: r =>
    if c = '\x27' then (quotedSpan r).map fun p => (c :: p.1, p.2)
    else
      match closer? c with
      | some close => (groupSpan [close] r).map fun p => (c :: p.1, p.2)
      | none => if isBare c then some ([c], r) else none

/-- A piece and what follows it are the whole text, and the piece is not empty. -/
theorem append_of_piece? {s t r : List Char} (h : piece? s = some (t, r)) :
    t ++ r = s ∧ t ≠ [] := by
  cases s with
  | nil => simp [piece?] at h
  | cons c u =>
    simp only [piece?] at h
    split at h
    · obtain ⟨v, hv, rfl⟩ := append_of_map_cons (u := [c]) h
      simp [(append_of_quotedSpan hv).1]
    · split at h
      · obtain ⟨v, hv, rfl⟩ := append_of_map_cons (u := [c]) h
        simp [append_of_groupSpan hv]
      · split at h
        · simp only [Option.some.injEq, Prod.mk.injEq] at h
          simp [← h.1, h.2]
        · simp at h

/-- As many pieces as stand at the front, and the rest. -/
def pieces (s : List Char) : List Char × List Char :=
  match _h : piece? s with
  | none => ([], s)
  | some (t, r) => (t ++ (pieces r).1, (pieces r).2)
termination_by s.length
decreasing_by all_goals exact length_lt_of_append (append_of_piece? _h)

theorem append_pieces (s : List Char) : (pieces s).1 ++ (pieces s).2 = s := by
  fun_induction pieces s with
  | case1 s h => simp
  | case2 s t r h ih => simp [ih, (append_of_piece? h).1]

/-- A term: at least one piece. -/
def term? (s : List Char) : Option (List Char × List Char) :=
  if (pieces s).1 = [] then none else some (pieces s)

/-- A term and what follows it are the whole text, and the term is not empty. -/
theorem append_of_term? {s t r : List Char} (h : term? s = some (t, r)) : t ++ r = s ∧ t ≠ [] := by
  have hs := append_pieces s
  unfold term? at h
  split at h
  · simp at h
  · rename_i hne
    rw [Option.some.inj h] at hs hne
    exact ⟨hs, hne⟩

end CqlWire.Literal
