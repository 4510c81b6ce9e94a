import CqlWire.Fallible
import CqlWire.Frame

/-!
# Frames are read as they were written

A frame is read from its own bytes and from no others, whatever follows it (`read_eq_ok_iff`), and
so is a count (`readCount_eq_ok_iff`). Both rest on `split?_eq_some_iff` and on the four bytes of a
length, which are those of its two's complement (`ofNat_four`).
-/

namespace CqlWire.Frame

theorem split?_eq_some_iff {n : Nat} {bs head rest : Bytes} :
    split? n bs = some (head, rest) ↔ head ++ rest = bs ∧ head.length = n := by
  constructor
  · exact append_of_split?
  · rintro ⟨rfl, rfl⟩
    simp [split?]

theorem split?_append {n : Nat} {head : Bytes} (h : head.length = n) (rest : Bytes) :
    split? n (head ++ rest) = some (head, rest) :=
  split?_eq_some_iff.2 ⟨rfl, h⟩

/-! ## Four bytes -/

theorem capacity_four : Bytes.capacity 4 = 4294967296 := rfl

theorem toInt_bounds {bs : Bytes} (h : bs.length = 4) :
    -2147483648 ≤ Bytes.toInt bs ∧ Bytes.toInt bs ≤ 2147483647 := by
  have hc := capacity_four
  have hpos : 0 < Bytes.capacity bs.length := Bytes.capacity_pos _
  have hlo := Int.le_bmod (x := (bs.toNat : Int)) hpos
  have hhi := Int.bmod_lt (x := (bs.toNat : Int)) hpos
  rw [h, hc] at hlo hhi
  simp only [Bytes.toInt, h, hc]
  omega

/-- The bytes of a length are those of its two's complement. -/
theorem ofNat_four {n : Nat} (h : n ≤ maxLength) : Bytes.ofNat 4 n = Bytes.ofInt 4 n := by
  have hm : maxLength = 2147483647 := rfl
  rw [Bytes.ofInt, capacity_four]
  congr 1
  omega

theorem toInt_ofNat_four {n : Nat} (h : n ≤ maxLength) : Bytes.toInt (Bytes.ofNat 4 n) = n := by
  have hm : maxLength = 2147483647 := rfl
  rw [ofNat_four h]
  apply Bytes.toInt_ofInt <;> rw [capacity_four] <;> omega

/-- Four bytes that stand for a length are the bytes of that length. -/
theorem eq_ofNat_four {head : Bytes} (hl : head.length = 4) (h : 0 ≤ Bytes.toInt head) :
    (Bytes.toInt head).toNat ≤ maxLength ∧ Bytes.ofNat 4 (Bytes.toInt head).toNat = head := by
  have hb := toInt_bounds hl
  have hm : maxLength = 2147483647 := rfl
  have hle : (Bytes.toInt head).toNat ≤ maxLength := by omega
  refine ⟨hle, ?_⟩
  rw [ofNat_four hle, Int.toNat_of_nonneg h]
  have := Bytes.ofInt_toInt head
  rwa [hl] at this

/-! ## Counts -/

theorem writeCount_eq_ok_iff {n : Nat} {bs : Bytes} :
    writeCount n = .ok bs ↔ n ≤ maxLength ∧ Bytes.ofNat 4 n = bs := by
  unfold writeCount
  split
  · rename_i h
    simp [h]
  · rename_i h
    simp [h]

theorem length_of_writeCount {n : Nat} {bs : Bytes} (h : writeCount n = .ok bs) :
    bs.length = 4 := by
  rw [← (writeCount_eq_ok_iff.1 h).2, Bytes.length_ofNat]

/-- A count is read from its own four bytes and from no others. -/
theorem readCount_eq_ok_iff {type : ColumnType} {bs rest : Bytes} {n : Nat} :
    readCount type bs = .ok (n, rest) ↔ ∃ head, writeCount n = .ok head ∧ head ++ rest = bs := by
  constructor
  · intro h
    unfold readCount at h
    split at h
    · cases h
    rename_i head r hs
    obtain ⟨hbs, hl⟩ := split?_eq_some_iff.1 hs
    dsimp only at h
    split at h
    · cases h
    rename_i hn
    cases h
    obtain ⟨hle, he⟩ := eq_ofNat_four hl (by omega)
    exact ⟨head, writeCount_eq_ok_iff.2 ⟨hle, he⟩, hbs⟩
  · rintro ⟨head, hw, rfl⟩
    obtain ⟨hle, rfl⟩ := writeCount_eq_ok_iff.1 hw
    have hn := toInt_ofNat_four hle
    simp only [readCount, split?_append (Bytes.length_ofNat 4 n), hn]
    rw [if_neg (by omega), Int.toNat_natCast]

theorem le_maxLength_of_readCount {type : ColumnType} {bs : Bytes} {p : Nat × Bytes}
    (h : readCount type bs = .ok p) : p.1 ≤ maxLength := by
  obtain ⟨_, hw, -⟩ := readCount_eq_ok_iff.1 h
  exact (writeCount_eq_ok_iff.1 hw).1

/-! ## Values -/

theorem write_none_eq_ok_iff {bs : Bytes} : write none = .ok bs ↔ Bytes.ofInt 4 (-1) = bs := by
  simp [write]

theorem write_some_eq_ok_iff {v bs : Bytes} :
    write (some v) = .ok bs ↔ v.length ≤ maxLength ∧ Bytes.ofNat 4 v.length ++ v = bs := by
  simp only [write, bind_eq_ok_iff, writeCount_eq_ok_iff, pure_eq_ok_iff]
  constructor
  · rintro ⟨_, ⟨hle, rfl⟩, rfl⟩
    exact ⟨hle, rfl⟩
  · rintro ⟨hle, rfl⟩
    exact ⟨_, ⟨hle, rfl⟩, rfl⟩

theorem four_le_length_of_write {v : Option Bytes} {bs : Bytes} (h : write v = .ok bs) :
    4 ≤ bs.length := by
  cases v with
  | none =>
    have hlen := Bytes.length_ofInt 4 (-1)
    rw [write_none_eq_ok_iff.1 h] at hlen
    omega
  | some v =>
    rw [← (write_some_eq_ok_iff.1 h).2, List.length_append, Bytes.length_ofNat]
    omega

/-- Bytes that start with a number are not at their end. -/
theorem not_isEmpty_append {head : Bytes} (h : 4 ≤ head.length) (rest : Bytes) :
    ¬(head ++ rest).isEmpty = true := by
  cases head with
  | nil => cases h
  | cons b head => exact nofun

/-- A frame is read from its own bytes and from no others. -/
theorem read_eq_ok_iff {type : ColumnType} {v : Option Bytes} {bs rest : Bytes} :
    read type bs = .ok (v, rest) ↔ ∃ head, write v = .ok head ∧ head ++ rest = bs := by
  constructor
  · intro h
    unfold read at h
    split at h
    · cases h
    rename_i head r hs
    obtain ⟨hbs, hl⟩ := split?_eq_some_iff.1 hs
    dsimp only at h
    split at h
    · rename_i hn
      cases h
      refine ⟨head, write_none_eq_ok_iff.2 ?_, hbs⟩
      have := Bytes.ofInt_toInt head
      rwa [hl, hn] at this
    split at h
    · cases h
    rename_i hn
    split at h
    · cases h
    rename_i value r' hv
    cases h
    obtain ⟨hr, hlen⟩ := split?_eq_some_iff.1 hv
    obtain ⟨hle, he⟩ := eq_ofNat_four hl (by omega)
    rw [← hlen] at hle he
    exact ⟨head ++ value, write_some_eq_ok_iff.2 ⟨hle, by rw [he]⟩, by
      rw [List.append_assoc, hr, hbs]⟩
  · rintro ⟨head, hw, rfl⟩
    cases v with
    | none =>
      obtain rfl := write_none_eq_ok_iff.1 hw
      have hn : Bytes.toInt (Bytes.ofInt 4 (-1)) = -1 :=
        Bytes.toInt_ofInt (by rw [capacity_four]; decide) (by rw [capacity_four]; decide)
      simp only [read, split?_append (Bytes.length_ofInt 4 (-1)), hn, if_true]
    | some v =>
      obtain ⟨hle, rfl⟩ := write_some_eq_ok_iff.1 hw
      have hn := toInt_ofNat_four hle
      simp only [read, List.append_assoc, split?_append (Bytes.length_ofNat 4 v.length), hn]
      rw [if_neg (by omega), if_neg (by omega), Int.toNat_natCast, split?_append rfl]

theorem read_write {type : ColumnType} {v : Option Bytes} {bs : Bytes} (h : write v = .ok bs)
    (rest : Bytes) : read type (bs ++ rest) = .ok (v, rest) :=
  read_eq_ok_iff.2 ⟨bs, h, rfl⟩

/-! ## Checks -/

theorem require_eq_ok_iff {type : ColumnType} {v : Option Bytes} {bs : Bytes} :
    require type v = .ok bs ↔ v = some bs := by
  cases v <;> simp [require]

theorem expectEnd_eq_ok_iff {type : ColumnType} {bs : Bytes} {u : Unit} :
    expectEnd type bs = .ok u ↔ bs = [] := by
  cases bs <;> simp [expectEnd]

theorem fixed_eq_ok_iff {type : ColumnType} {n : Nat} {bs : Bytes} {o : Octets n} :
    fixed type n bs = .ok o ↔ o.1 = bs := by
  unfold fixed
  split
  · rw [Except.ok.injEq, Subtype.ext_iff]
    exact eq_comm
  · rename_i h
    constructor
    · intro h'
      cases h'
    · intro h'
      rw [← h', o.2] at h
      exact absurd rfl h

theorem fixed_val {type : ColumnType} {n : Nat} (o : Octets n) : fixed type n o.1 = .ok o :=
  fixed_eq_ok_iff.2 rfl

end CqlWire.Frame
