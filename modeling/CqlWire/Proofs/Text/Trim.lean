import CqlWire.Proofs.Text.Quoted
import Mathlib.Data.List.TakeWhile

/-!
# What trimming leaves

A text is what trimming leaves of it, with white space around (`exists_trim`). That neither begins
nor ends with white space (`isTight_trim`), and it is empty for white space alone
(`trim_eq_nil_iff`).
-/

namespace CqlWire.Text

/-- White space is taken away behind the last character that is none. -/
theorem trimEnd_append {s : List Char} (hs : ∀ c, s.getLast? = some c → isBlank c = false)
    (t : List Char) : trimEnd (s ++ t) = s ++ trimEnd t := by
  have hhead : ∀ c, s.reverse.head? = some c → isBlank c = false := fun c hc =>
    hs c (List.head?_reverse ▸ hc)
  have hstop : s.reverse.dropWhile isBlank = s.reverse :=
    dropWhile_append (List.forall_mem_nil _) hhead
  rw [trimEnd, List.reverse_append, List.dropWhile_append, hstop]
  split
  · rename_i hempty
    rw [List.reverse_reverse, trimEnd, List.isEmpty_iff.1 hempty, List.reverse_nil, List.append_nil]
  · rw [List.reverse_append, List.reverse_reverse, trimEnd]

theorem trimEnd_cons (c : Char) (s : List Char) :
    trimEnd (c :: s) = [] ∨ trimEnd (c :: s) = c :: trimEnd s := by
  rw [trimEnd, trimEnd, List.reverse_cons, List.dropWhile_append]
  split
  · rename_i hempty
    rw [List.isEmpty_iff.1 hempty, List.dropWhile_cons]
    split
    · exact .inl rfl
    · exact .inr rfl
  · exact .inr (by rw [List.reverse_append]; rfl)

theorem exists_trimEnd (s : List Char) :
    ∃ post, (∀ c ∈ post, isBlank c = true) ∧ s = trimEnd s ++ post := by
  refine ⟨(s.reverse.takeWhile isBlank).reverse,
    fun c hc => List.mem_takeWhile_imp (List.mem_reverse.1 hc), ?_⟩
  rw [trimEnd, ← List.reverse_append, List.takeWhile_append_dropWhile, List.reverse_reverse]

theorem exists_trim (s : List Char) : ∃ pre post, (∀ c ∈ pre, isBlank c = true) ∧
    (∀ c ∈ post, isBlank c = true) ∧ s = pre ++ (trim s ++ post) := by
  obtain ⟨post, hpost, hs⟩ := exists_trimEnd (trimStart s)
  refine ⟨s.takeWhile isBlank, post, fun c hc => List.mem_takeWhile_imp hc, hpost, ?_⟩
  rw [trim, ← hs, trimStart, List.takeWhile_append_dropWhile]

/-- Characters that are not blank are not taken away. -/
theorem mem_trim {c : Char} {s : List Char} (h : c ∈ s) (hc : isBlank c = false) : c ∈ trim s := by
  obtain ⟨pre, post, hpre, hpost, hs⟩ := exists_trim s
  rw [hs] at h
  have hnot : ∀ t : List Char, (∀ d ∈ t, isBlank d = true) → c ∉ t := by
    intro t ht hmem
    rw [ht c hmem] at hc
    cases hc
  have hbehind := (List.mem_append.1 h).resolve_left (hnot pre hpre)
  exact (List.mem_append.1 hbehind).resolve_right (hnot post hpost)

theorem length_trim_le (s : List Char) : (trim s).length ≤ s.length := by
  obtain ⟨pre, post, -, -, hs⟩ := exists_trim s
  have hlength := congrArg List.length hs
  simp only [List.length_append] at hlength
  omega

/-- What is left by `dropWhile` begins with a character that would not be dropped. -/
theorem head?_dropWhile_eq_false {p : Char → Bool} {s : List Char} {c : Char}
    (h : (s.dropWhile p).head? = some c) : p c = false := by
  have hnot := List.head?_dropWhile_not p s
  rwa [h] at hnot

theorem isTight_trim (s : List Char) : IsTight (trim s) := by
  constructor
  · intro c hc
    obtain ⟨post, -, hs⟩ := exists_trimEnd (trimStart s)
    have hstart : (trimStart s).head? = some c := by
      rw [hs, List.head?_append]
      exact Option.or_eq_some_iff.2 (.inl hc)
    exact head?_dropWhile_eq_false hstart
  · intro c hc
    rw [trim, trimEnd, List.getLast?_reverse] at hc
    exact head?_dropWhile_eq_false hc

theorem trim_eq_nil_iff {s : List Char} : trim s = [] ↔ ∀ c ∈ s, isBlank c = true := by
  constructor
  · intro h
    obtain ⟨pre, post, hpre, hpost, hs⟩ := exists_trim s
    rw [hs, h]
    exact List.forall_mem_append.2 ⟨hpre, hpost⟩
  · intro h
    have hstart : trimStart s = [] := List.dropWhile_eq_nil_iff.2 h
    rw [trim, hstart]
    rfl

end CqlWire.Text
