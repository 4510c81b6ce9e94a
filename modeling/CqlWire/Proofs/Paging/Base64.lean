import CqlWire.Paging.Base64
import CqlWire.Proofs.Text.Quoted
import CqlWire.Proofs.Text.Utf8
import Mathlib.Data.List.TakeWhile

/-!
# Base64 is read as it was written

The symbols of a byte string are those of its numbers below 64 (`encode_eq_map_symbol`), and each
symbol is a byte that has its number as value (`value?_symbolByte`). Numbers of whole groups give
back their bytes (`wholeGroups_sextets`), and so does the last group, which alone may be shorter
(`lastGroup_sextets`). So a byte string is read from its symbols (`decode_encode`), which no white
space surrounds (`trim_encode`).

Nothing else is read. Each group that is read has the numbers of its bytes (`sextets_wholeGroups`,
`sextets_of_lastGroup`), since unused bits have to be zero, and so a text that is read is the one that
its bytes have (`decode_eq_ok_iff`).
-/

namespace CqlWire.Base64

open Text (isAscii isBlank)

/-! ## Symbols -/

/-- A symbol as a byte. -/
def symbolByte (n : Nat) : UInt8 := UInt8.ofNat (symbol n).toNat

theorem isAscii_symbol {n : Nat} (h : n < 64) : isAscii (symbol n) = true := by
  revert n
  decide

theorem isBlank_symbol {n : Nat} (h : n < 64) : isBlank (symbol n) = false := by
  revert n
  decide

theorem value?_symbolByte {n : Nat} (h : n < 64) : value? (symbolByte n) = some n := by
  revert n
  decide

theorem symbolByte_ne_fill {n : Nat} (h : n < 64) : symbolByte n ≠ fill := by
  revert n
  decide

/-- Symbols have their numbers as values, wherever they stand. -/
theorem values_map_symbolByte {ns : List Nat} (h : ∀ n ∈ ns, n < 64) (index : Nat) :
    values index (ns.map symbolByte) = .ok ns := by
  induction ns generalizing index with
  | nil => rfl
  | cons n ns ih =>
    obtain ⟨hn, hns⟩ := List.forall_mem_cons.1 h
    rw [List.map_cons, values, value?_symbolByte hn, ih hns]
    rfl

/-! ## Numbers of symbols -/

/-- The numbers below 64 that the symbols of a byte string stand for. -/
def sextets : Bytes → List Nat
  | a :: b :: c :: r =>
    let n := a.toNat * 65536 + b.toNat * 256 + c.toNat
    n / 262144 :: n / 4096 % 64 :: n / 64 % 64 :: n % 64 :: sextets r
  | [a, b] =>
    let n := (a.toNat * 256 + b.toNat) * 4
    [n / 4096, n / 64 % 64, n % 64]
  | [a] =>
    let n := a.toNat * 16
    [n / 64, n % 64]
  | [] => []

theorem encode_eq_map_symbol (bs : Bytes) : encode bs = (sextets bs).map symbol := by
  fun_induction encode bs with
  | case1 a b c r n ih =>
    rw [sextets, ih]
    rfl
  | case2 a b => rfl
  | case3 a => rfl
  | case4 => rfl

theorem lt_of_mem_sextets (bs : Bytes) : ∀ n ∈ sextets bs, n < 64 := by
  fun_induction sextets bs with
  | case1 a b c r n ih =>
    have ha := a.toNat_lt
    have hb := b.toNat_lt
    have hc := c.toNat_lt
    simp only [List.forall_mem_cons]
    exact ⟨by omega, by omega, by omega, by omega, ih⟩
  | case2 a b n =>
    have ha := a.toNat_lt
    have hb := b.toNat_lt
    simp only [List.forall_mem_cons]
    exact ⟨by omega, by omega, by omega, nofun⟩
  | case3 a n =>
    have ha := a.toNat_lt
    simp only [List.forall_mem_cons]
    exact ⟨by omega, by omega, nofun⟩
  | case4 => nofun

/-- Whole groups of three bytes have four numbers each, whatever follows them. -/
theorem sextets_append {front : Bytes} (h : front.length % 3 = 0) (back : Bytes) :
    sextets (front ++ back) = sextets front ++ sextets back := by
  fun_induction sextets front with
  | case1 a b c r n ih =>
    simp only [List.length_cons] at h
    simp only [List.cons_append, sextets, ih (by omega)]
    rfl
  | case2 a b => simp at h
  | case3 a => simp at h
  | case4 => rfl

theorem length_sextets {front : Bytes} (h : front.length % 3 = 0) :
    (sextets front).length = front.length / 3 * 4 := by
  fun_induction sextets front with
  | case1 a b c r n ih =>
    simp only [List.length_cons] at h ⊢
    rw [ih (by omega)]
    omega
  | case2 a b => simp at h
  | case3 a => simp at h
  | case4 => rfl

theorem ofNat_eq_of_mod {n : Nat} {b : UInt8} (h : n % 256 = b.toNat) : UInt8.ofNat n = b := by
  rw [← UInt8.toNat_inj, UInt8.toNat_ofNat', h]

/-- Four numbers give back the three bytes that they were made of. -/
theorem wholeGroups_sextets {front : Bytes} (h : front.length % 3 = 0) :
    wholeGroups (sextets front) = front := by
  fun_induction sextets front with
  | case1 a b c r n ih =>
    have ha := a.toNat_lt
    have hb := b.toNat_lt
    have hc := c.toNat_lt
    have hn : n / 262144 * 262144 + n / 4096 % 64 * 4096 + n / 64 % 64 * 64 + n % 64 = n := by
      omega
    have hfirst : UInt8.ofNat (n / 65536) = a := ofNat_eq_of_mod (by omega)
    have hsecond : UInt8.ofNat (n / 256) = b := ofNat_eq_of_mod (by omega)
    have hthird : UInt8.ofNat n = c := ofNat_eq_of_mod (by omega)
    simp only [List.length_cons] at h
    rw [wholeGroups, hn, hfirst, hsecond, hthird, ih (by omega)]
  | case2 a b => simp at h
  | case3 a => simp at h
  | case4 => rfl

/-! ## The last group -/

/-- No fill byte stands among symbols. -/
theorem cutFill_map_symbolByte {ns : List Nat} (h : ∀ n ∈ ns, n < 64) (index : Nat) :
    cutFill index (ns.map symbolByte) = .ok (ns.map symbolByte, 0) := by
  have htake : (ns.map symbolByte).takeWhile (· != fill) = ns.map symbolByte := by
    refine List.takeWhile_eq_self_iff.2 (List.forall_mem_map.2 fun n hn => ?_)
    exact bne_iff_ne.2 (symbolByte_ne_fill (h n hn))
  simp only [cutFill, htake, values_map_symbolByte h, List.drop_length, if_true]

/-- The last group gives back its one to three bytes. -/
theorem lastGroup_sextets {back : Bytes} (hpos : 0 < back.length) (hle : back.length ≤ 3)
    (index : Nat) : lastGroup index ((sextets back).map symbolByte) = .ok back := by
  have hlt := lt_of_mem_sextets back
  simp only [lastGroup, cutFill_map_symbolByte hlt, bind_eq_ok_iff]
  refine ⟨_, rfl, sextets back, values_map_symbolByte hlt index, ?_⟩
  simp only [refuseIf_eq_ok_iff]
  match back with
  | [a] =>
    have ha := a.toNat_lt
    refine ⟨(), by simp [sextets], (), nofun, ?_⟩
    simp only [sextets, bind_eq_ok_iff, refuseIf_eq_ok_iff, pure_eq_ok_iff]
    refine ⟨(), by omega, ?_⟩
    rw [ofNat_eq_of_mod (b := a) (by omega)]
  | [a, b] =>
    have ha := a.toNat_lt
    have hb := b.toNat_lt
    refine ⟨(), by simp [sextets], (), nofun, ?_⟩
    simp only [sextets, bind_eq_ok_iff, refuseIf_eq_ok_iff, pure_eq_ok_iff]
    refine ⟨(), by omega, ?_⟩
    rw [ofNat_eq_of_mod (b := a) (by omega), ofNat_eq_of_mod (b := b) (by omega)]
  | [a, b, c] =>
    refine ⟨(), by simp [sextets], (), nofun, ?_⟩
    have hwhole : [a, b, c].length % 3 = 0 := by simp
    exact congrArg Except.ok (wholeGroups_sextets hwhole)

/-! ## Whole texts -/

/-- The bytes before the last group of one to three bytes. -/
theorem exists_lastGroup {bs : Bytes} (h : bs ≠ []) : ∃ front back, front ++ back = bs ∧
    front.length % 3 = 0 ∧ 0 < back.length ∧ back.length ≤ 3 := by
  have hpos := List.length_pos_iff.2 h
  refine ⟨bs.take ((bs.length - 1) / 3 * 3), _, List.take_append_drop _ bs, ?_⟩
  rw [List.length_take, List.length_drop]
  omega

theorem length_sextets_back {back : Bytes} (hpos : 0 < back.length) (hle : back.length ≤ 3) :
    (sextets back).length = back.length + 1 := by
  match back with
  | [_] | [_, _] | [_, _, _] => rfl

/-- The last symbol has a value, so it is not refused before the others are looked at. -/
theorem exists_value?_last {ns : List Nat} (hne : ns ≠ []) (h : ∀ n ∈ ns, n < 64) :
    ∃ n, value? ((ns.map symbolByte).getLastD 0) = some n := by
  have hne' : ns.map symbolByte ≠ [] := mt List.map_eq_nil_iff.1 hne
  rw [List.getLastD_eq_getLast?, List.getLast?_eq_some_getLast hne', Option.getD_some]
  obtain ⟨n, hn, heq⟩ := List.mem_map.1 (List.getLast_mem hne')
  exact ⟨n, heq ▸ value?_symbolByte (h n hn)⟩

/-- Bytes are read from the bytes of their symbols. -/
theorem decodeBytes_sextets (bs : Bytes) :
    decodeBytes ((sextets bs).map symbolByte) = .ok bs := by
  by_cases h : bs = []
  · subst h
    rfl
  obtain ⟨front, back, rfl, hfront, hpos, hle⟩ := exists_lastGroup h
  have hlt := lt_of_mem_sextets (front ++ back)
  rw [sextets_append hfront] at hlt ⊢
  have hlen := length_sextets hfront
  have hlen' := length_sextets_back hpos hle
  have hne : sextets front ++ sextets back ≠ [] := by
    rw [← List.length_pos_iff, List.length_append]
    omega
  obtain ⟨last, hlast⟩ := exists_value?_last hne hlt
  have hne' : (sextets front ++ sextets back).map symbolByte ≠ [] := mt List.map_eq_nil_iff.1 hne
  rw [List.map_append] at hlast hne' ⊢
  have hwhole : (((sextets front).map symbolByte ++ (sextets back).map symbolByte).length - 1) / 4
      * 4 = (sextets front).length := by
    simp only [List.length_map, List.length_append]
    omega
  simp only [decodeBytes, if_neg hne', bind_eq_ok_iff, refuseIf_eq_ok_iff, hlast, hwhole,
    List.take_left' (List.length_map _), List.drop_left' (List.length_map _), pure_eq_ok_iff,
    values_map_symbolByte (fun n hn => hlt n (List.mem_append_left _ hn)),
    lastGroup_sextets hpos hle]
  exact ⟨(), by simp, _, rfl, _, rfl, by rw [wholeGroups_sextets hfront]⟩

/-- The symbols of a byte string as bytes. -/
theorem utf8_encode (bs : Bytes) : Utf8.encode (encode bs) = (sextets bs).map symbolByte := by
  have hascii : (encode bs).all isAscii = true := by
    rw [encode_eq_map_symbol, List.all_eq_true]
    exact List.forall_mem_map.2 fun n hn => isAscii_symbol (lt_of_mem_sextets bs n hn)
  rw [Utf8.encode_of_isAscii hascii, encode_eq_map_symbol, List.map_map]
  rfl

/-- A byte string is read from its symbols. -/
theorem decode_encode (bs : Bytes) : decode (encode bs) = .ok bs := by
  rw [decode, utf8_encode]
  exact decodeBytes_sextets bs

/-- There is no white space around symbols. -/
theorem trim_encode (bs : Bytes) : Text.trim (encode bs) = encode bs := by
  refine Text.trim_of_isTight (Text.isTight_of_forall ?_)
  rw [encode_eq_map_symbol]
  exact List.forall_mem_map.2 fun n hn => isBlank_symbol (lt_of_mem_sextets bs n hn)

/-! ## No other texts -/

/-- The bytes that have a value are those of symbols. -/
theorem symbolByte_of_value? {b : UInt8} {n : Nat} (h : value? b = some n) :
    n < 64 ∧ symbolByte n = b := by
  have hall : ∀ m < 256, (value? (UInt8.ofNat m)).all fun n =>
      decide (n < 64) && symbolByte n == UInt8.ofNat m := by
    decide +kernel
  have hb := hall b.toNat b.toNat_lt
  rw [UInt8.ofNat_toNat, h, Option.all_some, Bool.and_eq_true] at hb
  exact ⟨of_decide_eq_true hb.1, eq_of_beq hb.2⟩

/-- Bytes that have values are the symbols of these. -/
theorem map_symbolByte_of_values {index : Nat} {bs : Bytes} {ns : List Nat}
    (h : values index bs = .ok ns) : (∀ n ∈ ns, n < 64) ∧ ns.map symbolByte = bs := by
  induction bs generalizing index ns with
  | nil =>
    cases h
    exact ⟨nofun, rfl⟩
  | cons b bs ih =>
    rw [values] at h
    split at h
    · cases h
    · rename_i n hn
      obtain ⟨ms, hms, rfl⟩ := map_eq_ok_iff.1 h
      obtain ⟨hlt, rfl⟩ := symbolByte_of_value? hn
      obtain ⟨hrest, rfl⟩ := ih hms
      exact ⟨List.forall_mem_cons.2 ⟨hlt, hrest⟩, rfl⟩

/-- The numbers of whole groups are those of the bytes that they make. -/
theorem sextets_wholeGroups {ns : List Nat} (hlt : ∀ n ∈ ns, n < 64) (h : ns.length % 4 = 0) :
    sextets (wholeGroups ns) = ns ∧ (wholeGroups ns).length % 3 = 0 := by
  fun_induction wholeGroups ns with
  | case1 a b c d r n ih =>
    simp only [List.forall_mem_cons] at hlt
    obtain ⟨ha, hb, hc, hd, hr⟩ := hlt
    simp only [List.length_cons] at h
    obtain ⟨hrest, hlen⟩ := ih hr (by omega)
    have hn : n / 65536 % 256 * 65536 + n / 256 % 256 * 256 + n % 256 = n := by omega
    constructor
    · simp only [sextets, UInt8.toNat_ofNat', hn, hrest]
      rw [show n / 262144 = a by omega, show n / 4096 % 64 = b by omega,
        show n / 64 % 64 = c by omega, show n % 64 = d by omega]
    · simp only [List.length_cons]
      omega
  | case2 ns hshort =>
    match ns with
    | [] => exact ⟨rfl, rfl⟩
    | [_] | [_, _] | [_, _, _] => simp at h
    | a :: b :: c :: d :: r => exact absurd rfl (hshort a b c d r)

/-- Where no fill byte was cut off, the symbols are the whole group. -/
theorem eq_of_cutFill {index : Nat} {group symbols : Bytes}
    (h : cutFill index group = .ok (symbols, 0)) : symbols = group := by
  have happend := List.take_append_drop (group.takeWhile (· != fill)).length group
  rw [← List.prefix_iff_eq_take.1 (List.takeWhile_prefix _)] at happend
  unfold cutFill at h
  dsimp only at h
  split at h
  · cases h
  split at h
  · rename_i hrest
    obtain ⟨rfl, -⟩ := Prod.mk.inj (Except.ok.inj h)
    rw [hrest, List.append_nil] at happend
    exact happend
  · rename_i hrest
    split at h
    · cases h
    · exact absurd (List.length_eq_zero_iff.1 (Prod.mk.inj (Except.ok.inj h)).2) hrest

/-- A last group is made of the symbols of its bytes. -/
theorem sextets_of_lastGroup {index : Nat} {group bs : Bytes} (hlen : group.length ≤ 4)
    (h : lastGroup index group = .ok bs) : (sextets bs).map symbolByte = group := by
  simp only [lastGroup, bind_eq_ok_iff, refuseIf_eq_ok_iff, Decidable.not_not] at h
  obtain ⟨⟨symbols, filled⟩, hcut, ns, hvalues, -, htwo, -, hfilled, h⟩ := h
  dsimp only at hvalues hfilled h
  subst hfilled
  obtain rfl := eq_of_cutFill hcut
  obtain ⟨hlt, rfl⟩ := map_symbolByte_of_values hvalues
  rw [List.length_map] at hlen
  congr 1
  match ns with
  | [] | [_] => simp at htwo
  | [a, b] =>
    obtain ⟨ha, hb, -⟩ := List.forall_mem_cons.1 hlt |>.imp_right List.forall_mem_cons.1
    obtain ⟨_, hunused, h⟩ := bind_eq_ok_iff.1 h
    obtain rfl := Except.ok.inj h
    rw [refuseIf_eq_ok_iff] at hunused
    have hbyte : (a * 64 + b) / 16 % 256 * 16 = a * 64 + b := by omega
    simp only [sextets, UInt8.toNat_ofNat', hbyte]
    rw [show (a * 64 + b) / 64 = a by omega, show (a * 64 + b) % 64 = b by omega]
  | [a, b, c] =>
    obtain ⟨ha, hb, hc, -⟩ := List.forall_mem_cons.1 hlt |>.imp_right fun h =>
      (List.forall_mem_cons.1 h).imp_right List.forall_mem_cons.1
    obtain ⟨_, hunused, h⟩ := bind_eq_ok_iff.1 h
    obtain rfl := Except.ok.inj h
    rw [refuseIf_eq_ok_iff] at hunused
    have hbytes : ((a * 4096 + b * 64 + c) / 4 / 256 % 256 * 256 +
        (a * 4096 + b * 64 + c) / 4 % 256) * 4 = a * 4096 + b * 64 + c := by omega
    simp only [sextets, UInt8.toNat_ofNat', hbytes]
    rw [show (a * 4096 + b * 64 + c) / 4096 = a by omega,
      show (a * 4096 + b * 64 + c) / 64 % 64 = b by omega,
      show (a * 4096 + b * 64 + c) % 64 = c by omega]
  | [a, b, c, d] =>
    obtain rfl := Except.ok.inj h
    exact (sextets_wholeGroups hlt (by simp)).1

/-- The bytes of a text that is read are the symbols of what it writes. -/
theorem sextets_of_decodeBytes {text bs : Bytes} (h : decodeBytes text = .ok bs) :
    (sextets bs).map symbolByte = text := by
  unfold decodeBytes at h
  split at h
  · rename_i hempty
    obtain rfl := Except.ok.inj h
    exact hempty.symm
  · rename_i hne
    simp only [bind_eq_ok_iff, pure_eq_ok_iff] at h
    obtain ⟨-, -, ns, hns, tail, htail, rfl⟩ := h
    have hpos := List.length_pos_iff.2 hne
    obtain ⟨hlt, hfront⟩ := map_symbolByte_of_values hns
    have hcount := congrArg List.length hfront
    rw [List.length_map, List.length_take] at hcount
    obtain ⟨hwhole, hthree⟩ := sextets_wholeGroups hlt (by omega)
    have hback := sextets_of_lastGroup (by rw [List.length_drop]; omega) htail
    rw [sextets_append hthree, hwhole, List.map_append, hfront, hback, List.take_append_drop]

/-- A byte string is read from its own symbols and from no other text. -/
theorem decode_eq_ok_iff {text : List Char} {bs : Bytes} :
    decode text = .ok bs ↔ encode bs = text := by
  constructor
  · intro h
    have hbytes : Utf8.encode (encode bs) = Utf8.encode text := by
      rw [utf8_encode]
      exact sextets_of_decodeBytes h
    have hsame := Utf8.decode_eq_ok_iff.2 hbytes
    rw [Utf8.decode_encode] at hsame
    exact (Except.ok.inj hsame).symm
  · rintro rfl
    exact decode_encode bs

end CqlWire.Base64
