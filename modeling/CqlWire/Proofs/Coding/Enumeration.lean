import CqlWire.Naming.Declaration
import CqlWire.Proofs.Coding.Failure
import CqlWire.Proofs.Coding.Reading
import CqlWire.Proofs.Text.Quoted

/-!
# Enumerations are read as their variants alone

A declaration that is accepted gives each member its own name or the one that the rule makes, and no
two of these are the same (`Declaration.names_of_enumeration`). So a name leads to its variant
(`Enumeration.ofName?_eq_some_iff`) and a position to its own
(`Enumeration.ofOrdinal?_eq_some_iff`), and both codings read a variant from what they store and
write for it and from nothing else. Where the stored type reads a text or a number that stands for no
variant, the error says so (`Enumeration.Closes`).
-/

namespace CqlWire

open Coding (nominal ordinal integer)
open Text (trim quote)

/-! ## Declarations -/

/-- The names are those of the members, under the rule of the declaration, and all different. -/
theorem Declaration.names_of_enumeration {d : Declaration} {e : Enumeration}
    (h : d.enumeration = .ok e) :
    e.names.Nodup ∧ ∃ settings, DeclarationSettings.ofAttributes true d.attributes = .ok settings ∧
      List.Forall₂ (fun m name => m.storedName settings.rule = .ok name) d.members e.names := by
  refine ⟨(wellFormed_of_enumeration h).nodup, ?_⟩
  simp only [enumeration, bind_eq_ok_iff, refuseIf_eq_ok_iff, pure_eq_ok_iff] at h
  obtain ⟨_, -, _, -, _, -, settings, hsettings, names, hnames, names', hdistinct, rfl⟩ := h
  obtain ⟨rfl, -⟩ := distinctNames_nodup hdistinct
  refine ⟨settings, hsettings, (mapM_eq_ok_iff.1 hnames).imp fun m name hm => ?_⟩
  split at hm
  · cases hm
  · exact hm

/-! ## Stored values -/

namespace Coding

theorem decode_text_iff {bs : Bytes} {s : List Char} :
    text.decode (some bs) = .ok s ↔ bs = Utf8.encode s := by
  simp only [text, bind_eq_ok_iff, Frame.require_eq_ok_iff, Option.some.injEq, exists_eq_left']
  rw [eq_comm (a := bs), ← Utf8.decode_eq_ok_iff]
  cases Utf8.decode bs with
  | ok s' => rw [Except.ok.injEq, Except.ok.injEq]
  | error e => exact ⟨nofun, nofun⟩

theorem parse_text_iff {t s : List Char} : text.parse t = .ok s ↔ trim t = quote s := by
  rw [← Text.unquote?_eq_some_iff]
  show quotedText _ t = _ ↔ _
  unfold quotedText
  cases Text.unquote? t with
  | some s' => rw [Except.ok.injEq, Option.some.injEq]
  | none => exact ⟨nofun, nofun⟩

theorem decode_int_iff {bs : Bytes} {n : Int} :
    (integer .int 4).decode (some bs) = .ok n ↔ bs.length = 4 ∧ Bytes.toInt bs = n := by
  simp only [integer, bind_eq_ok_iff, pure_eq_ok_iff, Frame.require_eq_ok_iff,
    Frame.fixed_eq_ok_iff, Option.some.injEq, exists_eq_left']
  constructor
  · rintro ⟨o, rfl, hn⟩
    exact ⟨o.2, hn⟩
  · rintro ⟨hlen, hn⟩
    exact ⟨⟨bs, hlen⟩, rfl, hn⟩

theorem parse_int_iff {t : List Char} {n : Int} :
    (integer .int 4).parse t = .ok n ↔ readSigned 32 (trim t) = .ok n :=
  orRefuse_eq_ok_iff

end Coding

/-! ## Variants -/

namespace Enumeration

variable {e : Enumeration} {α : Type} {v : Nat}

/-- A name leads to its variant. -/
theorem ofName?_eq_some_iff (h : e.names.Nodup) {name : String} :
    e.ofName? name = some v ↔ v < e.size ∧ e.nameOf v = name := by
  constructor
  · exact nameOf_of_ofName?
  · rintro ⟨hv, rfl⟩
    exact Coding.idxOf?_nameOf h hv

theorem exists_named_iff (h : e.names.Nodup) {P : List Char → Prop} :
    (∃ s, P s ∧ e.ofName? (String.ofList s) = some v) ↔ v < e.size ∧ P (e.nameOf v).toList := by
  constructor
  · rintro ⟨s, hs, hname⟩
    obtain ⟨hv, hname⟩ := (ofName?_eq_some_iff h).1 hname
    rw [hname, String.toList_ofList]
    exact ⟨hv, hs⟩
  · rintro ⟨hv, hs⟩
    refine ⟨_, hs, (ofName?_eq_some_iff h).2 ⟨hv, ?_⟩⟩
    rw [String.ofList_toList]

theorem exists_placed_iff {P : Int → Prop} :
    (∃ n, P n ∧ e.ofOrdinal? n = some v) ↔ v < e.size ∧ P v := by
  constructor
  · rintro ⟨n, hn, hplace⟩
    obtain ⟨hv, rfl⟩ := ofOrdinal?_eq_some_iff.1 hplace
    exact ⟨hv, hn⟩
  · rintro ⟨hv, hn⟩
    exact ⟨v, hn, ofOrdinal?_eq_some_iff.2 ⟨hv, rfl⟩⟩

/-- The variant that is found for a stored value, or the refusal of the value, which is shown. -/
def pick (e : Enumeration) (find? : α → Option Nat) (shown : α → String) (a : α) :
    Except Error Nat :=
  match find? a with
  | some index => .ok index
  | none => .error (.noSuchVariant e.typeName (shown a))

/-- Whatever is read as a stored value is a variant, or it is refused as none. -/
def Closes (e : Enumeration) (shown : α → String) (x : Except Error α) (y : Except Error Nat) :
    Prop :=
  ∀ a, x = .ok a → (∀ v, y ≠ .ok v) → y = .error (.noSuchVariant e.typeName (shown a))

variable {find? : α → Option Nat} {shown : α → String} {x : Except Error α}

theorem pick_eq_ok_iff {a : α} : e.pick find? shown a = .ok v ↔ find? a = some v := by
  unfold pick
  cases find? a with
  | some index => rw [Except.ok.injEq, Option.some.injEq]
  | none => exact ⟨nofun, nofun⟩

theorem bind_pick_eq_ok_iff :
    x >>= e.pick find? shown = .ok v ↔ ∃ a, x = .ok a ∧ find? a = some v :=
  bind_eq_ok_iff.trans (exists_congr fun _ => and_congr_right fun _ => pick_eq_ok_iff)

theorem closes_bind_pick : e.Closes shown x (x >>= e.pick find? shown) := by
  rintro a rfl hnone
  cases hfind : find? a with
  | some v => exact absurd (bind_pick_eq_ok_iff.2 ⟨a, rfl, hfind⟩) (hnone v)
  | none =>
    show e.pick find? shown a = _
    rw [pick, hfind]

end Enumeration

namespace Coding

/-- How the error shows a name that no variant has. -/
def shownName (s : List Char) : String := s!"'{String.ofList s}'"

/-- How the error shows a position that no variant has. -/
def shownOrdinal (e : Enumeration) (n : Int) : String := s!"ordinal {n} of {e.size}"

theorem nominal_eq (e : Enumeration) :
    nominal e = text.mapped (e.pick (fun s => e.ofName? (String.ofList s)) shownName)
      fun index => (e.nameOf index).toList := rfl

theorem ordinal_eq (e : Enumeration) :
    ordinal e = (integer .int 4).mapped (e.pick e.ofOrdinal? (shownOrdinal e))
      fun index => (index : Int) := rfl

variable {e : Enumeration} {v : Nat}

theorem decode_nominal_iff (h : e.names.Nodup) {bs : Bytes} :
    (nominal e).decode (some bs) = .ok v ↔ v < e.size ∧ bs = Utf8.encode (e.nameOf v).toList := by
  rw [nominal_eq]
  refine Enumeration.bind_pick_eq_ok_iff.trans ?_
  rw [Enumeration.exists_named_iff h, decode_text_iff]

theorem parse_nominal_iff (h : e.names.Nodup) {t : List Char} :
    (nominal e).parse t = .ok v ↔ v < e.size ∧ trim t = quote (e.nameOf v).toList := by
  rw [nominal_eq]
  refine Enumeration.bind_pick_eq_ok_iff.trans ?_
  rw [Enumeration.exists_named_iff h, parse_text_iff]

theorem decode_ordinal_iff {bs : Bytes} :
    (ordinal e).decode (some bs) = .ok v ↔ v < e.size ∧ bs.length = 4 ∧ Bytes.toInt bs = v := by
  rw [ordinal_eq]
  refine Enumeration.bind_pick_eq_ok_iff.trans ?_
  rw [Enumeration.exists_placed_iff, decode_int_iff]

theorem parse_ordinal_iff {t : List Char} :
    (ordinal e).parse t = .ok v ↔ v < e.size ∧ readSigned 32 (trim t) = .ok (v : Int) := by
  rw [ordinal_eq]
  refine Enumeration.bind_pick_eq_ok_iff.trans ?_
  rw [Enumeration.exists_placed_iff, parse_int_iff]

end Coding

open Coding (shownName shownOrdinal)

/-- The members of a declared enumeration are stored under different names. A variant is read by name
from the UTF-8 of its name and from its name in quotes, and by position from the four bytes of the
position and from a literal of this number. Whatever else is a text or a number is refused as no
variant. -/
theorem Declaration.variants_are_closed {d : Declaration} {e : Enumeration}
    (h : d.enumeration = .ok e) (bs : Bytes) (t : List Char) (v : Nat) :
    (e.names.Nodup ∧
      ∃ settings, DeclarationSettings.ofAttributes true d.attributes = .ok settings ∧
        List.Forall₂ (fun m name => m.storedName settings.rule = .ok name) d.members e.names) ∧
    ((nominal e).decode (some bs) = .ok v ↔
      v < e.size ∧ bs = Utf8.encode (e.nameOf v).toList) ∧
    ((nominal e).parse t = .ok v ↔ v < e.size ∧ trim t = quote (e.nameOf v).toList) ∧
    ((ordinal e).decode (some bs) = .ok v ↔
      v < e.size ∧ bs.length = 4 ∧ Bytes.toInt bs = v) ∧
    ((ordinal e).parse t = .ok v ↔ v < e.size ∧ readSigned 32 (trim t) = .ok (v : Int)) ∧
    e.Closes shownName (Coding.text.decode (some bs)) ((nominal e).decode (some bs)) ∧
    e.Closes shownName (Coding.text.parse t) ((nominal e).parse t) ∧
    e.Closes (shownOrdinal e) ((integer .int 4).decode (some bs)) ((ordinal e).decode (some bs)) ∧
    e.Closes (shownOrdinal e) ((integer .int 4).parse t) ((ordinal e).parse t) := by
  have hnames := names_of_enumeration h
  exact ⟨hnames, Coding.decode_nominal_iff hnames.1, Coding.parse_nominal_iff hnames.1,
    Coding.decode_ordinal_iff, Coding.parse_ordinal_iff, Enumeration.closes_bind_pick,
    Enumeration.closes_bind_pick, Enumeration.closes_bind_pick, Enumeration.closes_bind_pick⟩

/-- One variant has the name that the rule makes, another one of its own, and a name and a position
that no variant has are refused. -/
theorem Declaration.variants_are_closed_renamed :
    let d : Declaration := ⟨.enumeration, "Status", false, [⟨"rename_all", some "snake_case"⟩],
      [⟨"Active", [], false⟩, ⟨"OnHold", [], false⟩, ⟨"Deleted", [⟨"rename", some "gone"⟩], false⟩]⟩
    let e : Enumeration := ⟨"Status", "Status", ["Active", "OnHold", "Deleted"],
      ["active", "on_hold", "gone"], false⟩
    d.enumeration = .ok e ∧
      (nominal e).decode (some (Utf8.encode "on_hold".toList)) = .ok 1 ∧
      (nominal e).parse " 'gone'".toList = .ok 2 ∧
      (nominal e).parse "'OnHold'".toList = .error (.noSuchVariant "Status" "'OnHold'") ∧
      (ordinal e).decode (some [0, 0, 0, 2]) = .ok 2 ∧
      (ordinal e).parse "+01".toList = .ok 1 ∧
      (ordinal e).decode (some [255, 255, 255, 255]) =
        .error (.noSuchVariant "Status" "ordinal -1 of 3") := by
  intro d e
  have h : d.enumeration = .ok e := by decide +kernel
  obtain ⟨-, hdecode, -, -, hparse, -⟩ := variants_are_closed h (Utf8.encode "on_hold".toList)
    "+01".toList 1
  obtain ⟨-, -, hquoted, hplace, -⟩ := variants_are_closed h [0, 0, 0, 2] " 'gone'".toList 2
  obtain ⟨-, -, -, -, -, -, hname, hnumber, -⟩ :=
    variants_are_closed h [255, 255, 255, 255] "'OnHold'".toList 0
  refine ⟨h, hdecode.2 (by decide +kernel), hquoted.2 (by decide +kernel), ?_,
    hplace.2 (by decide +kernel), hparse.2 (by decide +kernel), ?_⟩
  · have hnone : ((nominal e).parse "'OnHold'".toList).isOk = false := by decide +kernel
    refine hname "OnHold".toList (by decide +kernel) fun v hv => ?_
    rw [hv] at hnone
    cases hnone
  · have hnone : ((ordinal e).decode (some [255, 255, 255, 255])).isOk = false := by decide +kernel
    have hshown : shownOrdinal e (-1) = "ordinal -1 of 3" := by decide +kernel
    rw [← hshown]
    refine hnumber (-1) (by decide +kernel) fun v hv => ?_
    rw [hv] at hnone
    cases hnone

end CqlWire
