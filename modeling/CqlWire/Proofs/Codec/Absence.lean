import CqlWire.Proofs.Codec.Containers
import CqlWire.Proofs.Codec.Null
import CqlWire.Proofs.Coding.Absence

/-!
# None in collections

A value is None if it is absent under however many options (`Value.isNone`). Absent bytes are stored
for None and for nothing else, and None is read from absent bytes and from NULL only. Every codec
has this (`Codec.tellsNone`, by cases on the codec): an option hands it on, and no other codec has
None at all.

So a set, which has neither absent frames nor NULL among its elements, never has None, and nor have
the keys of a map; the first one ends the attempt to store them. Lists and the values of maps have
frames for None (`Codec.none_only_in_lists_and_values`).
-/

namespace CqlWire

open Text (isNullLiteral)

/-- No value, under however many options. -/
def Value.isNone : Value → Bool
  | .absent => true
  | .present v => v.isNone
  | _ => false

namespace Coding

variable {α : Type}

/-- None is what absent bytes and NULL stand for. -/
structure TellsNone (c : Coding Value) : Prop where
  encode {v : Value} {raw : Option Bytes} (h : c.encode v = .ok raw) : v.isNone = raw.isNone
  decode {bs : Bytes} {v : Value} (h : c.decode (some bs) = .ok v) : v.isNone = false
  parse {text : List Char} {v : Value} (htext : isNullLiteral text = false)
    (h : c.parse text = .ok v) : v.isNone = false

/-- What always has bytes is never None. -/
theorem tellsNone_onValues {c : Coding α} {toValue : α → Value} {ofValue? : Value → Option α}
    (hc : (c.onValues toValue ofValue?).NeverAbsent) (hto : ∀ a, (toValue a).isNone = false)
    (habsent : ofValue? .absent = none) (hpresent : ∀ v, ofValue? (.present v) = none) :
    (c.onValues toValue ofValue?).TellsNone where
  encode {v raw} h := by
    cases raw with
    | none => exact absurd h (hc v)
    | some bs =>
      cases v with
      | absent => simp [onValues, habsent] at h
      | present u => simp [onValues, hpresent] at h
      | _ => rfl
  decode h := by
    obtain ⟨a, -, rfl⟩ := map_eq_ok_iff.1 h
    exact hto a
  parse _ h := by
    obtain ⟨a, -, rfl⟩ := map_eq_ok_iff.1 h
    exact hto a

theorem tellsNone_option {c : Coding Value} (hc : c.TellsNone) :
    (c.option.onValues Value.ofOption Value.option?).TellsNone where
  encode {v raw} h := by
    cases v with
    | absent =>
      cases h
      rfl
    | present u =>
      show u.isNone = raw.isNone
      exact hc.encode h
    | _ => cases h
  decode h := by
    obtain ⟨o, ho, rfl⟩ := map_eq_ok_iff.1 h
    obtain ⟨u, hu, rfl⟩ := map_eq_ok_iff.1 ho
    show u.isNone = false
    exact hc.decode hu
  parse {text v} htext h := by
    obtain ⟨o, ho, rfl⟩ := map_eq_ok_iff.1 h
    simp only [option, htext, Bool.false_eq_true, if_false] at ho
    obtain ⟨u, hu, rfl⟩ := map_eq_ok_iff.1 ho
    show u.isNone = false
    exact hc.parse htext hu

end Coding

/-! ## Codecs -/

namespace Codec

theorem tellsNone (c : Codec) : c.coding.TellsNone := by
  cases c with
  | scalar s =>
    have hs := neverAbsent_scalar s
    cases s with
    | _ => exact Coding.tellsNone_onValues hs (fun _ => rfl) rfl fun _ => rfl
  | decimal =>
    have hc : Codec.decimal.coding.NeverAbsent := neverAbsent_of_not_isOption id
    exact Coding.tellsNone_onValues hc (fun _ => rfl) rfl fun _ => rfl
  | enumeration e ordinal =>
    have hc : (Codec.enumeration e ordinal).coding.NeverAbsent := neverAbsent_of_not_isOption id
    exact Coding.tellsNone_onValues hc (fun _ => rfl) rfl fun _ => rfl
  | shared c => exact tellsNone c
  | option c => exact Coding.tellsNone_option (tellsNone c)
  | elements kind into frozen c =>
    have hc : (Codec.elements kind into frozen c).coding.NeverAbsent :=
      neverAbsent_of_not_isOption id
    exact Coding.tellsNone_onValues hc (fun _ => rfl) rfl fun _ => rfl
  | entries into frozen k v =>
    have hc : (Codec.entries into frozen k v).coding.NeverAbsent := neverAbsent_of_not_isOption id
    exact Coding.tellsNone_onValues hc (fun _ => rfl) rfl fun _ => rfl
  | record header schema slots cs =>
    have hc : (Codec.record header schema slots cs).coding.NeverAbsent :=
      neverAbsent_of_not_isOption id
    exact Coding.tellsNone_onValues hc (fun _ => rfl) rfl fun _ => rfl

/-! ## Options -/

theorem encode_absent_of_isOption {c : Codec} (h : c.IsOption) : c.encode .absent = .ok none := by
  match c with
  | .shared c => exact encode_absent_of_isOption (c := c) h
  | .option c => rfl

/-- What an option stores is an option. -/
theorem exists_ofOption_of_encode {c : Codec} (h : c.IsOption) {v : Value} {raw : Option Bytes}
    (hv : c.encode v = .ok raw) : ∃ o, Value.ofOption o = v := by
  match c with
  | .shared c => exact exists_ofOption_of_encode (c := c) h hv
  | .option c =>
    cases v with
    | absent => exact ⟨none, rfl⟩
    | present u => exact ⟨some u, rfl⟩
    | _ => cases hv

/-- What an option reads is an option. -/
theorem exists_ofOption_of_decode {c : Codec} (h : c.IsOption) {v : Value} {raw : Option Bytes}
    (hv : c.decode raw = .ok v) : ∃ o, Value.ofOption o = v := by
  match c with
  | .shared c => exact exists_ofOption_of_decode (c := c) h hv
  | .option c =>
    obtain ⟨o, -, ho⟩ := map_eq_ok_iff.1 hv
    exact ⟨o, ho⟩

theorem carries_absent_iff {c : Codec} (h : c.IsOption) {u : Value} :
    c.coding.Carries .absent u ↔ u = .absent := by
  constructor
  · rintro ⟨raw, hraw, hu⟩
    cases (encode_absent_of_isOption h).symm.trans hraw
    cases (decode_none_of_isOption h).symm.trans hu
    rfl
  · rintro rfl
    exact ⟨none, encode_absent_of_isOption h, decode_none_of_isOption h⟩

theorem fitsFrame_of_isOption {c : Codec} (h : c.IsOption) {v : Value}
    (hv : v = .absent ∨ c.coding.FitsFrame v) : c.coding.FitsFrame v := by
  rcases hv with rfl | hv
  · exact ⟨none, encode_absent_of_isOption h, nofun⟩
  · exact hv

end Codec

/-! ## Containers -/

/-- Among options, None stays the first element. -/
theorem foldl_insertDistinct_absent {us : List Value} (h : ∀ u ∈ us, ∃ o, Value.ofOption o = u)
    (s : List Value) :
    ∃ s', us.foldl (fun s v => insertDistinct v s) (.absent :: s) = .absent :: s' := by
  induction us generalizing s with
  | nil => exact ⟨s, rfl⟩
  | cons u us ih =>
    obtain ⟨⟨o, rfl⟩, hus⟩ := List.forall_mem_cons.1 h
    cases o with
    | none => exact ih hus s
    | some u => exact ih hus (insertDistinct (.present u) s)

/-- A container of options has None where it had it, since None is the least of them. -/
theorem Container.getElem?_ofList_absent {into : Container} {vs us : List Value}
    (hk : into.Keeps vs) (hvs : ∀ v ∈ vs, ∃ o, Value.ofOption o = v)
    (hus : ∀ u ∈ us, ∃ o, Value.ofOption o = u) {i : Nat} (hv : vs[i]? = some .absent)
    (hu : us[i]? = some .absent) : (into.ofList us)[i]? = some .absent := by
  have ordered (hk : vs.Pairwise fun a b => a.compare b = .lt) :
      (us.foldl (fun s v => insertDistinct v s) [])[i]? = some .absent := by
    have hi : i = 0 := by
      cases i with
      | zero => rfl
      | succ i =>
        cases vs with
        | nil => cases hv
        | cons v vs =>
          obtain ⟨hlt, -⟩ := List.pairwise_cons.1 hk
          have hless : v.compare .absent = .lt := hlt .absent (List.mem_of_getElem? hv)
          obtain ⟨o, rfl⟩ := hvs v List.mem_cons_self
          cases o <;> cases hless
    subst hi
    cases us with
    | nil => cases hu
    | cons u us =>
      cases Option.some.inj hu
      obtain ⟨s, hs⟩ := foldl_insertDistinct_absent (List.forall_mem_cons.1 hus).2 []
      have hfold : (Value.absent :: us).foldl (fun s v => insertDistinct v s) [] = .absent :: s := hs
      rw [hfold]
      rfl
  cases into with
  | vector | deque => exact hu
  | ordered | hashed => exact ordered hk

namespace Codec

/-! ## Collections -/

theorem decode_elements_iff {kind : CollectionKind} {into : Container} {frozen : Bool} {c : Codec}
    {bytes : Option Bytes} {v : Value} : (elements kind into frozen c).decode bytes = .ok v ↔
      ∃ us, (Coding.elements kind frozen c.coding).decode bytes = .ok us ∧
        v = .sequence (into.ofList us) := by
  refine map_eq_ok_iff.trans (exists_congr fun us => and_congr_right fun _ => ?_)
  exact eq_comm

theorem decode_entries_iff {into : MapContainer} {frozen : Bool} {k c : Codec}
    {bytes : Option Bytes} {v : Value} : (entries into frozen k c).decode bytes = .ok v ↔
      ∃ fs, (Coding.entries frozen k.coding c.coding).decode bytes = .ok fs ∧
        v = .mapping (into.ofList fs) := by
  refine map_eq_ok_iff.trans (exists_congr fun fs => and_congr_right fun _ => ?_)
  exact eq_comm

/-- No element is read as None into a set. -/
theorem isNone_of_decode_set {frozen : Bool} {c : Codec} {bytes : Option Bytes} {us : List Value}
    (h : (Coding.elements .set frozen c.coding).decode bytes = .ok us) :
    ∀ u ∈ us, u.isNone = false := by
  intro u hu
  obtain ⟨raw, hnull, hraw⟩ := (Coding.of_decode_elements h).2 u hu
  cases raw with
  | none => cases hnull rfl
  | some bs => exact c.tellsNone.decode hraw

theorem isNone_of_parse_set {frozen : Bool} {c : Codec} {text : List Char} {us : List Value}
    (h : (Coding.elements .set frozen c.coding).parse text = .ok us) :
    ∀ u ∈ us, u.isNone = false := by
  intro u hu
  obtain ⟨part, hnull, hpart⟩ := Coding.of_parse_elements h u hu
  exact c.tellsNone.parse (Bool.eq_false_iff.2 fun hn => nomatch hnull hn) hpart

/-- No key is read as None. -/
theorem isNone_of_decode_map {frozen : Bool} {k c : Codec} {bytes : Option Bytes}
    {fs : List (Value × Value)}
    (h : (Coding.entries frozen k.coding c.coding).decode bytes = .ok fs) :
    ∀ f ∈ fs, f.1.isNone = false ∧ True := by
  intro f hf
  obtain ⟨⟨bs, hbs⟩, -⟩ := (Coding.of_decode_entries h).2 f hf
  exact ⟨k.tellsNone.decode hbs, trivial⟩

theorem isNone_of_parse_map {frozen : Bool} {k c : Codec} {text : List Char}
    {fs : List (Value × Value)}
    (h : (Coding.entries frozen k.coding c.coding).parse text = .ok fs) :
    ∀ f ∈ fs, f.1.isNone = false ∧ True := by
  intro f hf
  obtain ⟨part, hnull, hpart⟩ := Coding.of_parse_entries h f hf
  exact ⟨k.tellsNone.parse hnull hpart, trivial⟩

/-- A codec of collections, made of parts by `make`, has no None at one place of each part: nothing
is stored, and nothing is read from bytes or from a literal, with None there. -/
structure ExcludesNone {α : Type} (c part : Codec) (make : List α → Value) (place : α → Value) :
    Prop where
  encode : ∀ as b, c.encode (make as) = .ok b →
    ∀ a ∈ as, part.encode (place a) ≠ .ok none ∧ (place a).isNone = false
  decode : ∀ bytes v, c.decode bytes = .ok v →
    ∃ as, v = make as ∧ ∀ a ∈ as, (place a).isNone = false
  parse : ∀ text v, c.parse text = .ok v →
    ∃ as, v = make as ∧ ∀ a ∈ as, (place a).isNone = false

theorem isNone_of_fitsFrame {c : Codec} {v : Value} (hv : c.encode v ≠ .ok none)
    (hfit : c.coding.FitsFrame v) : v.isNone = false := by
  obtain ⟨raw, hraw, -⟩ := hfit
  cases raw with
  | none => exact absurd hraw hv
  | some bs => exact c.tellsNone.encode hraw

theorem excludesNone_set (into : Container) (frozen : Bool) (c : Codec) :
    ExcludesNone (elements .set into frozen c) c .sequence id where
  encode vs b hb v hv := by
    obtain ⟨hfit, hnull⟩ := (Coding.encode_elements_eq_ok hb).2 v hv
    have hne : c.encode v ≠ .ok none := fun hnone => nomatch hnull hnone
    exact ⟨hne, isNone_of_fitsFrame hne hfit⟩
  decode bytes v hv := by
    obtain ⟨us, hus, rfl⟩ := decode_elements_iff.1 hv
    exact ⟨_, rfl, into.forall_mem_ofList (isNone_of_decode_set hus)⟩
  parse text v hv := by
    obtain ⟨us, hus, rfl⟩ := map_eq_ok_iff.1 hv
    exact ⟨_, rfl, into.forall_mem_ofList (isNone_of_parse_set hus)⟩

theorem excludesNone_keys (into : MapContainer) (frozen : Bool) (k c : Codec) :
    ExcludesNone (entries into frozen k c) k .mapping Prod.fst where
  encode es b hb e he := by
    obtain ⟨⟨hne, hfit⟩, -⟩ := (Coding.encode_entries_eq_ok hb).2 e he
    exact ⟨hne, isNone_of_fitsFrame hne hfit⟩
  decode bytes v hv := by
    obtain ⟨fs, hfs, rfl⟩ := decode_entries_iff.1 hv
    have hkeys := into.forall_mem_ofList (P := fun k => k.isNone = false) (Q := fun _ => True)
      (isNone_of_decode_map hfs)
    exact ⟨_, rfl, fun f hf => (hkeys f hf).1⟩
  parse text v hv := by
    obtain ⟨fs, hfs, rfl⟩ := map_eq_ok_iff.1 hv
    have hkeys := into.forall_mem_ofList (P := fun k => k.isNone = false) (Q := fun _ => True)
      (isNone_of_parse_map hfs)
    exact ⟨_, rfl, fun f hf => (hkeys f hf).1⟩

/-- What a list of options stores for None is read as None, at the place where it was. -/
theorem none_kept_in_list {into : Container} {frozen : Bool} {c : Codec} (hc : c.IsOption)
    {vs : List Value} {b : Option Bytes}
    (hb : (elements .list into frozen c).encode (.sequence vs) = .ok b) {us : List Value}
    (hus : List.Forall₂ c.coding.Carries vs us) {i : Nat} (hi : vs[i]? = some .absent) :
    us[i]? = some .absent ∧ (into.Keeps vs → (into.ofList us)[i]? = some .absent) := by
  obtain ⟨u, hu, hcarries⟩ := getElem?_of_forall₂ hus hi
  obtain rfl : u = .absent := (carries_absent_iff hc).1 hcarries
  refine ⟨hu, fun hk => Container.getElem?_ofList_absent hk (fun v hv => ?_) (fun u hu => ?_) hi hu⟩
  · obtain ⟨-, hframes⟩ := Coding.encode_elements_eq_ok hb
    obtain ⟨⟨raw, hraw, -⟩, -⟩ := hframes v hv
    exact exists_ofOption_of_encode hc hraw
  · obtain ⟨v, -, raw, -, hraw⟩ := exists_of_forall₂ hus hu
    exact exists_ofOption_of_decode hc hraw

/-- What a map stores for a value that is None is read as None, with its key. -/
theorem none_kept_in_values {k c : Codec} (hc : c.IsOption) {es fs : List (Value × Value)}
    (hfs : List.Forall₂ (fun e f => k.coding.Carries e.1 f.1 ∧ c.coding.Carries e.2 f.2) es fs)
    {i : Nat} {key : Value} (hi : es[i]? = some (key, .absent)) :
    ∃ key', fs[i]? = some (key', .absent) ∧ k.coding.Carries key key' := by
  obtain ⟨⟨key', u⟩, hf, hkey, hcarries⟩ := getElem?_of_forall₂ hfs hi
  obtain rfl : u = .absent := (carries_absent_iff hc).1 hcarries
  exact ⟨key', hf, hkey⟩

/-- **None is in lists and in the values of maps only.** No set and no key of a map is stored with
or read as None, from whatever bytes or literal and into whatever container, be it one of those here
or any other that is filled in turn; the first element or key that would be stored as absent is
refused with its literal. A list of options and a map with optional values are stored with None
wherever they have it, and as far as the other parts are read, None is read at its place: in a list
however it is kept, and in the values of a map as long as its keys come back in their order. -/
theorem none_only_in_lists_and_values :
    (∀ (into : Container) (frozen : Bool) (c : Codec),
      let set := elements .set into frozen c
      ExcludesNone set c Value.sequence id ∧
        ∀ before v behind, (before ++ v :: behind).length ≤ Frame.maxLength →
          (∀ u ∈ before, c.encode u ≠ .ok none ∧ c.coding.FitsFrame u) → c.encode v = .ok none →
            set.encode (.sequence (before ++ v :: behind)) =
              .error (.illegalValue set.type.toText (String.ofList (c.format v))
                Coding.nullElement)) ∧
    (∀ (into : MapContainer) (frozen : Bool) (k c : Codec),
      let map := entries into frozen k c
      ExcludesNone map k Value.mapping Prod.fst ∧
        ∀ before e behind, (before ++ e :: behind).length ≤ Frame.maxLength →
          (∀ b ∈ before, (k.encode b.1 ≠ .ok none ∧ k.coding.FitsFrame b.1) ∧
            c.coding.FitsFrame b.2) → k.encode e.1 = .ok none →
            map.encode (.mapping (before ++ e :: behind)) =
              .error (.illegalValue map.type.toText (String.ofList (k.format e.1))
                Coding.nullKey)) ∧
    (∀ (σ : Type) (start : σ) (frozen : Bool) (k c : Codec) (push : σ → Value → σ)
      (put : σ → Value × Value → σ) (s : σ),
      (∀ bytes, Coding.decodeElementsInto .set frozen c.coding push start bytes = .ok s →
        ∃ us : List Value, us.foldl push start = s ∧ ∀ u ∈ us, u.isNone = false) ∧
      (∀ text, Coding.parseElementsInto .set frozen c.coding push start text = .ok s →
        ∃ us : List Value, us.foldl push start = s ∧ ∀ u ∈ us, u.isNone = false) ∧
      (∀ bytes, Coding.decodeEntriesInto frozen k.coding c.coding put start bytes = .ok s →
        ∃ fs : List (Value × Value), fs.foldl put start = s ∧ ∀ f ∈ fs, f.1.isNone = false) ∧
      ∀ text, Coding.parseEntriesInto frozen k.coding c.coding put start text = .ok s →
        ∃ fs : List (Value × Value), fs.foldl put start = s ∧ ∀ f ∈ fs, f.1.isNone = false) ∧
    ∀ (frozen : Bool) (c : Codec), c.IsOption →
      (∀ (into : Container) (vs : List Value),
        let list := elements .list into frozen c
        ((∃ b, list.encode (.sequence vs) = .ok b) ↔
          vs.length ≤ Frame.maxLength ∧ ∀ v ∈ vs, v = .absent ∨ c.coding.FitsFrame v) ∧
        ∀ b, list.encode (.sequence vs) = .ok b →
          (∀ v, list.decode b = .ok v ↔
            ∃ us, List.Forall₂ c.coding.Carries vs us ∧ v = .sequence (into.ofList us)) ∧
          ∀ us, List.Forall₂ c.coding.Carries vs us → ∀ i : Nat, vs[i]? = some .absent →
            us[i]? = some .absent ∧ (into.Keeps vs → (into.ofList us)[i]? = some .absent)) ∧
      ∀ (into : MapContainer) (k : Codec) (es : List (Value × Value)),
        let map := entries into frozen k c
        ((∃ b, map.encode (.mapping es) = .ok b) ↔ es.length ≤ Frame.maxLength ∧
          ∀ e ∈ es, (k.encode e.1 ≠ .ok none ∧ k.coding.FitsFrame e.1) ∧
            (e.2 = .absent ∨ c.coding.FitsFrame e.2)) ∧
        ∀ b, map.encode (.mapping es) = .ok b →
          (∀ v, map.decode b = .ok v ↔ ∃ fs,
            List.Forall₂ (fun e f => k.coding.Carries e.1 f.1 ∧ c.coding.Carries e.2 f.2) es fs ∧
              v = .mapping (into.ofList fs)) ∧
          ∀ fs, List.Forall₂ (fun e f => k.coding.Carries e.1 f.1 ∧ c.coding.Carries e.2 f.2) es fs →
            (∀ (i : Nat) (key : Value), es[i]? = some (key, .absent) →
              ∃ key', fs[i]? = some (key', .absent) ∧ k.coding.Carries key key') ∧
            (into.Keeps fs → into.ofList fs = fs) := by
  refine ⟨fun into frozen c => ⟨excludesNone_set into frozen c, fun before v behind => ?_⟩,
    fun into frozen k c => ⟨excludesNone_keys into frozen k c, fun before e behind => ?_⟩,
    fun σ start frozen k c push put s => ⟨fun bytes h => ?_, fun text h => ?_, fun bytes h => ?_,
      fun text h => ?_⟩,
    fun frozen c hc => ⟨fun into vs => ⟨?_, fun b hb => ⟨fun v => ?_, fun us hus i hi => ?_⟩⟩,
      fun into k es => ⟨?_, fun b hb => ⟨fun v => ?_, fun fs hfs => ⟨fun i key hi => ?_, ?_⟩⟩⟩⟩⟩
  -- the first absent part
  · exact Coding.encode_set_eq_error
  · exact Coding.encode_entries_eq_error
  -- other containers
  · rw [Coding.decodeElementsInto_eq] at h
    obtain ⟨us, hus, hs⟩ := map_eq_ok_iff.1 h
    exact ⟨us, hs, isNone_of_decode_set hus⟩
  · rw [Coding.parseElementsInto_eq] at h
    obtain ⟨us, hus, hs⟩ := map_eq_ok_iff.1 h
    exact ⟨us, hs, isNone_of_parse_set hus⟩
  · rw [Coding.decodeEntriesInto_eq] at h
    obtain ⟨fs, hfs, hs⟩ := map_eq_ok_iff.1 h
    exact ⟨fs, hs, fun f hf => (isNone_of_decode_map hfs f hf).1⟩
  · rw [Coding.parseEntriesInto_eq] at h
    obtain ⟨fs, hfs, hs⟩ := map_eq_ok_iff.1 h
    exact ⟨fs, hs, fun f hf => (isNone_of_parse_map hfs f hf).1⟩
  -- lists
  · refine Coding.exists_encode_list_iff.trans (and_congr_right fun _ => ?_)
    exact ⟨fun h v hv => .inr (h v hv), fun h v hv => fitsFrame_of_isOption hc (h v hv)⟩
  · rw [decode_elements_iff]
    exact exists_congr fun us => and_congr_left fun _ => Coding.decode_encode_elements hb
  · exact none_kept_in_list hc hb hus hi
  -- values of maps
  · refine Coding.exists_encode_entries_iff.trans (and_congr_right fun _ => ?_)
    refine ⟨fun h e he => ?_, fun h e he => ?_⟩
    · exact ⟨(h e he).1, .inr (h e he).2⟩
    · exact ⟨(h e he).1, fitsFrame_of_isOption hc (h e he).2⟩
  · rw [decode_entries_iff]
    exact exists_congr fun fs => and_congr_left fun _ => Coding.decode_encode_entries hb
  · exact none_kept_in_values hc hfs hi
  · intro hk
    exact MapContainer.ofList_of_reorders hk (reorders_refl _ fs)

/-- A hashed set of flags under two options, of which the second element seen is None inside; and a
list of optional flags that ends with None. -/
theorem none_only_in_lists_and_values_flags :
    let flag : Codec := .option (.scalar .boolean)
    let set : Codec := .elements .set .hashed false (.option flag)
    let list : Codec := .elements .list .deque false flag
    let yes : Value := .present (.bool true)
    set.encode (.sequence ([.present yes] ++ .present .absent :: [])) =
        .error (.illegalValue "set<boolean>" "NULL" "sets cannot contain null elements") ∧
      ∃ b, list.encode (.sequence [yes, .absent]) = .ok b ∧
        list.decode b = .ok (.sequence [yes, .absent]) := by
  intro flag set list yes
  obtain ⟨hsets, -, -, hoptions⟩ := none_only_in_lists_and_values
  obtain ⟨-, hrefused⟩ := hsets .hashed false (.option flag)
  have hshort : ∀ bs : Bytes, some [1] = some bs → bs.length ≤ Frame.maxLength := by
    rintro _ ⟨⟩
    decide
  constructor
  · refine hrefused [.present yes] (.present .absent) [] (by decide) ?_ rfl
    exact List.forall_mem_singleton.2 ⟨nofun, some [1], rfl, hshort⟩
  · obtain ⟨hlists, -⟩ := hoptions false flag trivial
    obtain ⟨haccepted, hstored⟩ := hlists .deque [yes, .absent]
    have hfit : ∀ v ∈ [yes, .absent], v = .absent ∨ flag.coding.FitsFrame v :=
      List.forall_mem_cons.2 ⟨.inr ⟨some [1], rfl, hshort⟩, List.forall_mem_singleton.2 (.inl rfl)⟩
    obtain ⟨b, hb⟩ := haccepted.2 ⟨by decide, hfit⟩
    have hyes : flag.coding.Carries yes yes := ⟨some [1], rfl, rfl⟩
    have hnone : flag.coding.Carries .absent .absent := ⟨none, rfl, rfl⟩
    obtain ⟨hread, -⟩ := hstored b hb
    exact ⟨b, hb, (hread _).2 ⟨_, .cons hyes (.cons hnone .nil), rfl⟩⟩

end Codec

end CqlWire
