import CqlWire.Frame.Buffer
import CqlWire.Proofs.Coding.Cut
import CqlWire.Proofs.Paging.TokenText

/-!
# Frames one after the other

What a step of writing does to a buffer does not depend on what the buffer holds: it appends the same
bytes to each (`Frame.Writer.Appends`) or is refused and changes none (`Frame.Writer.Refuses`). A frame
is read from the bytes that its value appends and from no others, and so are as many frames as a count
says (`Frame.readCounted_eq_ok_iff`).

Frames are read by two readers, one for collections and one for envelopes. Each succeeds where the
other does and with the same, and they fail in their own ways (`Frame.ReadAlike`).
-/

namespace CqlWire

namespace Frame

/-! ## Writing -/

namespace Writer

/-- Whatever the buffer holds, the bytes come to stand behind it. -/
def Appends (w : Writer) (bs : Bytes) : Prop :=
  ∀ buffer, w.run buffer = .ok () (buffer ++ bs)

/-- Whatever the buffer holds, it is left as it is. -/
def Refuses (w : Writer) (e : Error) : Prop :=
  ∀ buffer, w.run buffer = .error e buffer

/-- The step appends the bytes of the computation, or is refused where that fails. -/
def Follows (w : Writer) : Except Error Bytes → Prop
  | .ok bs => w.Appends bs
  | .error e => w.Refuses e

variable {w w' : Writer} {x : Except Error Bytes}

theorem appends_iff (h : w.Follows x) {bs : Bytes} : w.Appends bs ↔ x = .ok bs := by
  constructor
  · intro hw
    have hrun : w.run [] = .ok () bs := hw []
    cases x with
    | error e => exact nomatch (h []).symm.trans hrun
    | ok bs' =>
      rw [show w.run [] = .ok () bs' from h []] at hrun
      cases hrun
      rfl
  · rintro rfl
    exact h

theorem run_bind_eq_ok_iff (h : w.Follows x) {buffer after : Bytes} :
    EStateM.run (do w; w') buffer = .ok () after ↔
      ∃ bs, x = .ok bs ∧ w'.run (buffer ++ bs) = .ok () after := by
  rw [EStateM.run_bind]
  cases x with
  | error e =>
    rw [show w.run buffer = .error e buffer from h buffer]
    exact ⟨nofun, nofun⟩
  | ok bs =>
    rw [show w.run buffer = .ok () (buffer ++ bs) from h buffer]
    exact ⟨fun hrun => ⟨bs, rfl, hrun⟩, fun ⟨_, hbs, hrun⟩ => Except.ok.inj hbs ▸ hrun⟩

theorem follows_bind_put (h : w.Follows x) (bs : Bytes) :
    Follows (do w; put bs) (do return (← x) ++ bs) := by
  cases x with
  | error e =>
    intro buffer
    rw [EStateM.run_bind, show w.run buffer = .error e buffer from h buffer]
  | ok head =>
    intro buffer
    rw [EStateM.run_bind, show w.run buffer = .ok () (buffer ++ head) from h buffer,
      ← List.append_assoc]
    rfl

end Writer

open Writer (Appends Refuses Follows)

theorem follows_putCount (n : Nat) : (putCount n).Follows (writeCount n) := by
  unfold putCount
  cases writeCount n with
  | ok bs => exact fun _ => rfl
  | error e => exact fun _ => rfl

theorem follows_putValue (v : Option Bytes) : (putValue v).Follows (write v) := by
  cases v with
  | none => exact fun _ => rfl
  | some bs => exact Writer.follows_bind_put (follows_putCount bs.length) bs

/-- Values are written if each of them is, in their order. -/
theorem run_putAll_eq_ok_iff {vs : List (Option Bytes)} {buffer after : Bytes} :
    (putAll vs).run buffer = .ok () after ↔
      ∃ bs, Envelope.writeAll vs = .ok bs ∧ buffer ++ bs = after := by
  induction vs generalizing buffer with
  | nil =>
    constructor
    · intro h
      cases h
      exact ⟨[], rfl, List.append_nil _⟩
    · rintro ⟨bs, hbs, rfl⟩
      cases hbs
      rw [List.append_nil]
      rfl
  | cons v vs ih =>
    rw [putAll, Writer.run_bind_eq_ok_iff (follows_putValue v)]
    simp only [ih, Envelope.writeAll, bind_eq_ok_iff, pure_eq_ok_iff]
    constructor
    · rintro ⟨head, hhead, tail, htail, rfl⟩
      exact ⟨_, ⟨head, hhead, tail, htail, rfl⟩, (List.append_assoc ..).symm⟩
    · rintro ⟨_, ⟨head, hhead, tail, htail, rfl⟩, rfl⟩
      exact ⟨head, hhead, tail, htail, List.append_assoc ..⟩

theorem appends_putCounted_iff {vs : List (Option Bytes)} {bs : Bytes} :
    (putCounted vs).Appends bs ↔ ∃ count values, writeCount vs.length = .ok count ∧
      Envelope.writeAll vs = .ok values ∧ count ++ values = bs := by
  unfold Appends putCounted
  simp only [Writer.run_bind_eq_ok_iff (follows_putCount vs.length), run_putAll_eq_ok_iff]
  constructor
  · intro h
    obtain ⟨count, hcount, values, hvalues, heq⟩ := h []
    exact ⟨count, values, hcount, hvalues, heq⟩
  · rintro ⟨count, values, hcount, hvalues, rfl⟩ buffer
    exact ⟨count, hcount, values, hvalues, List.append_assoc ..⟩

/-! ## Reading -/

/-- Both readers read the same and leave the same, or both refuse, the one because the bytes are none
of the type and the other because the token is corrupted. -/
inductive ReadAlike (type : ColumnType) {α : Type} : Except Error α → Except Error α → Prop where
  | done (a : α) : ReadAlike type (.ok a) (.ok a)
  | refused (reason reason' : String) :
    ReadAlike type (.error (.decode type.toText reason)) (.error (.corruptedState reason'))

section

variable {type : ColumnType} {α β : Type} {x y : Except Error α}

theorem readAlike_bind {f g : α → Except Error β} (h : ReadAlike type x y)
    (hfg : ∀ a, ReadAlike type (f a) (g a)) : ReadAlike type (x >>= f) (y >>= g) := by
  cases h with
  | done a => exact hfg a
  | refused reason reason' => exact .refused reason reason'

theorem ReadAlike.ok_iff (h : ReadAlike type x y) {a : α} : x = .ok a ↔ y = .ok a := by
  cases h with
  | done b => exact Iff.rfl
  | refused reason reason' => exact ⟨nofun, nofun⟩

theorem readAlike_read (bs : Bytes) : ReadAlike type (read type bs) (Envelope.readField bs) := by
  have hiff {p : Option Bytes × Bytes} : Envelope.readField bs = .ok p ↔ read type bs = .ok p :=
    Envelope.readField_eq_ok_iff_read type
  cases hread : read type bs with
  | ok p =>
    rw [hiff.2 hread]
    exact .done p
  | error e =>
    obtain ⟨reason, rfl⟩ := exists_of_read_eq_error hread
    cases hfield : Envelope.readField bs with
    | ok p => exact nomatch hread.symm.trans (hiff.1 hfield)
    | error e' =>
      obtain ⟨reason', rfl⟩ := Envelope.readField_eq_error hfield
      exact .refused reason reason'

end

theorem readAlike_readCount (bs : Bytes) :
    ReadAlike type (readCount type bs) (Envelope.readCount bs) := by
  unfold readCount Envelope.readCount Envelope.readNumber
  cases split? 4 bs with
  | none => exact .refused _ _
  | some p =>
    show ReadAlike type (if Bytes.toInt p.1 < 0 then _ else _) (refuseIf _ _ >>= _)
    by_cases hn : Bytes.toInt p.1 < 0
    · rw [if_pos hn, refuseIf, if_pos hn]
      exact .refused _ _
    · rw [if_neg hn, refuseIf, if_neg hn]
      exact .done _

/-- As many frames are read alike as each of them. -/
theorem readAlike_readAll (count : Nat) (bs : Bytes) :
    ReadAlike type (readAll type count bs) (Envelope.readFields count bs) := by
  induction count generalizing bs with
  | zero => exact .done _
  | succ count ih =>
    refine readAlike_bind (readAlike_read bs) fun p => ?_
    exact readAlike_bind (ih p.2) fun q => .done _

theorem readAlike_readCounted (bs : Bytes) :
    ReadAlike type (readCounted type bs) (Envelope.readCounted bs) :=
  readAlike_bind (readAlike_readCount bs) fun p => readAlike_readAll p.1 p.2

theorem readAll_eq_ok_iff {count : Nat} {bs rest : Bytes} {vs : List (Option Bytes)} :
    readAll type count bs = .ok (vs, rest) ↔
      vs.length = count ∧ ∃ head, Envelope.writeAll vs = .ok head ∧ head ++ rest = bs :=
  (readAlike_readAll count bs).ok_iff.trans Envelope.readFields_eq_ok_iff

/-- A count and its frames are read from the bytes that they append and from no others. -/
theorem readCounted_eq_ok_iff {bs rest : Bytes} {vs : List (Option Bytes)} :
    readCounted type bs = .ok (vs, rest) ↔
      ∃ head, (putCounted vs).Appends head ∧ head ++ rest = bs := by
  simp only [readCounted, bind_eq_ok_iff, readAll_eq_ok_iff, appends_putCounted_iff, Prod.exists,
    readCount_eq_ok_iff]
  constructor
  · rintro ⟨_, _, ⟨count, hcount, rfl⟩, rfl, values, hvalues, rfl⟩
    exact ⟨_, ⟨count, values, hcount, hvalues, rfl⟩, List.append_assoc ..⟩
  · rintro ⟨_, ⟨count, values, hcount, hvalues, rfl⟩, rfl⟩
    exact ⟨vs.length, values ++ rest, ⟨count, hcount, (List.append_assoc ..).symm⟩, rfl, values,
      hvalues, rfl⟩

/-- The elements of a list of byte strings that may be absent are so many frames. -/
theorem decodeElements_optional_blobs (count index : Nat) (bs : Bytes) :
    Coding.decodeElements type true (Coding.option Coding.blob) count index bs =
      readAll type count bs := by
  induction count generalizing index bs with
  | zero => rfl
  | succ count ih =>
    simp only [Coding.decodeElements, readAll, ih]
    refine congrArg (read type bs >>= ·) (funext fun p => ?_)
    cases p.1 with
    | none => rfl
    | some v => rfl

/-! ## Both together -/

/-- What is too long for its length to be written. -/
def tooLong (n : Nat) : Error :=
  .illegalValue "frame" s!"{n} bytes" "exceeds i32::MAX"

theorem refuses_putCount {n : Nat} (h : maxLength < n) : (putCount n).Refuses (tooLong n) := by
  have hfollows := follows_putCount n
  rwa [writeCount, if_neg (Nat.not_le.2 h)] at hfollows

theorem refuses_putValue {w : Bytes} (h : maxLength < w.length) :
    (putValue (some w)).Refuses (tooLong w.length) := by
  have hfollows := follows_putValue (some w)
  rwa [write, writeCount, if_neg (Nat.not_le.2 h)] at hfollows

theorem exists_appends_putValue {v : Option Bytes} (h : ∀ w ∈ v, w.length ≤ maxLength) :
    ∃ head, (putValue v).Appends head := by
  cases v with
  | none => exact ⟨_, follows_putValue none⟩
  | some w =>
    have hwrite := write_some_eq_ok_iff.2 ⟨h w rfl, rfl⟩
    exact ⟨_, (Writer.appends_iff (follows_putValue (some w))).2 hwrite⟩

theorem exists_appends_putCounted {vs : List (Option Bytes)} (hlen : vs.length ≤ maxLength)
    (h : ∀ w, some w ∈ vs → w.length ≤ maxLength) : ∃ head, (putCounted vs).Appends head := by
  obtain ⟨values, hvalues⟩ := Envelope.exists_writeAll h
  exact ⟨_, appends_putCounted_iff.2
    ⟨_, values, writeCount_eq_ok_iff.2 ⟨hlen, rfl⟩, hvalues, rfl⟩⟩

/-- A value, absent or with as many bytes as a frame can hold, is appended to any buffer, and is read
from the bytes that it appends and from no others, whatever follows them. Both readers of frames read
the same values and leave the same bytes, and both refuse the rest, each with its own kind of error.
All of this holds as well of any number of values behind a count, which is how the elements of a list
are read. A longer value and a greater count are refused, and the buffer is left as it is. -/
theorem framing_is_exact (type : ColumnType) (bs rest : Bytes) (v : Option Bytes)
    (vs : List (Option Bytes)) :
    ((∀ w ∈ v, w.length ≤ maxLength) → ∃ head, (putValue v).Appends head) ∧
    (read type bs = .ok (v, rest) ↔ ∃ head, (putValue v).Appends head ∧ head ++ rest = bs) ∧
    ReadAlike type (read type bs) (Envelope.readField bs) ∧
    (vs.length ≤ maxLength → (∀ w, some w ∈ vs → w.length ≤ maxLength) →
      ∃ head, (putCounted vs).Appends head) ∧
    (readCounted type bs = .ok (vs, rest) ↔
      ∃ head, (putCounted vs).Appends head ∧ head ++ rest = bs) ∧
    ReadAlike type (readCounted type bs) (Envelope.readCounted bs) ∧
    (∀ count index, Coding.decodeElements type true (Coding.option Coding.blob) count index bs =
      readAll type count bs) ∧
    (∀ w, maxLength < w.length → (putValue (some w)).Refuses (tooLong w.length)) ∧
    ∀ n, maxLength < n → (putCount n).Refuses (tooLong n) := by
  refine ⟨exists_appends_putValue, ?_, readAlike_read bs, exists_appends_putCounted,
    readCounted_eq_ok_iff, readAlike_readCounted bs,
    fun count index => decodeElements_optional_blobs count index bs, fun w => refuses_putValue,
    fun n => refuses_putCount⟩
  simp only [read_eq_ok_iff, Writer.appends_iff (follows_putValue v)]

/-- An empty value and an absent one behind their count are read by both readers from what they
append, up to a byte that follows. A value of 2³¹ bytes is refused. -/
theorem framing_is_exact_empty_and_absent :
    let type : ColumnType := .list false (.scalar .blob)
    let vs : List (Option Bytes) := [some [], none]
    let bs : Bytes := [0, 0, 0, 2, 0, 0, 0, 0, 255, 255, 255, 255, 7]
    (vs.length ≤ maxLength ∧ ∀ w, some w ∈ vs → w.length ≤ maxLength) ∧
      (∃ head, (putCounted vs).Appends head ∧ head ++ [7] = bs ∧
        readCounted type bs = .ok (vs, [7])) ∧
      Envelope.readCounted bs = .ok (vs, [7]) ∧
      maxLength < (List.replicate 2147483648 (0 : UInt8)).length ∧
      (putValue (some (List.replicate 2147483648 0))).Refuses
        (.illegalValue "frame" "2147483648 bytes" "exceeds i32::MAX") := by
  intro type vs bs
  have hvalues : ∀ w, some w ∈ vs → w.length ≤ maxLength := by
    intro w hw
    simp only [vs, List.mem_cons, Option.some.injEq, reduceCtorEq, List.not_mem_nil, or_false] at hw
    rw [hw]
    decide
  obtain ⟨-, -, -, happends, hiff, halike, -, hrefused, -⟩ := framing_is_exact type bs [7] none vs
  obtain ⟨head, hhead⟩ := happends (by decide) hvalues
  have hbytes : (putCounted vs).Appends [0, 0, 0, 2, 0, 0, 0, 0, 255, 255, 255, 255] :=
    appends_putCounted_iff.2 ⟨[0, 0, 0, 2], _, by decide, by decide, rfl⟩
  have heq : head ++ [7] = bs := by
    cases (hbytes []).symm.trans (hhead [])
    rfl
  have hread : readCounted type bs = .ok (vs, [7]) := hiff.2 ⟨head, hhead, heq⟩
  have hlong : maxLength < (List.replicate 2147483648 (0 : UInt8)).length := by
    rw [List.length_replicate]
    decide
  refine ⟨⟨by decide, hvalues⟩, ⟨head, hhead, heq, hread⟩, halike.ok_iff.1 hread, hlong, ?_⟩
  have hrefuses := hrefused _ hlong
  rwa [List.length_replicate] at hrefuses

end Frame

end CqlWire
