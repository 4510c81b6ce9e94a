import CqlWire.Proofs.Codec.Storage
import CqlWire.Proofs.Paging.TokenText

/-!
# Tokens are bound to typed parameters

A fingerprint holds the stored forms of its parameters (`Fingerprint.bindAll_eq_ok_iff`). Values of
one codec are equal exactly if their stored forms are (`Codec.encode_eq_iff`), so that two lists of
parameters agree in the places in which the fingerprints do (`Codec.getElem?_stored_eq_iff`). A
token for the one list is refused for the other one, with the first place where they differ
(`TokenKind.token_binds_parameters`).
-/

namespace CqlWire

namespace Codec

/-! ## Values and their stored forms -/

/-- What is stored for a value is stored for no other one. -/
theorem encode_eq_iff {c : Codec} (hc : c.IsPlain) (ho : c.NoNestedOption) {v v' : Value}
    (hv : c.valueType.Holds v) (hv' : c.valueType.Holds v') {b b' : Option Bytes}
    (hb : c.encode v = .ok b) (hb' : c.encode v' = .ok b') : b = b' ↔ v = v' := by
  have hread : ∀ {v b}, c.valueType.Holds v → c.encode v = .ok b → c.coding.decode b = .ok v := by
    intro v b hv hb
    have hkept := restores_kept (regular_of_isPlain hc ho) hv (ValueType.listing_refl hv) b hb
    rwa [kept_of_isRecordFree (isRecordFree_of_isPlain hc)] at hkept
  constructor
  · rintro rfl
    exact Except.ok.inj ((hread hv hb).symm.trans (hread hv' hb'))
  · rintro rfl
    exact Except.ok.inj (hb.symm.trans hb')

/-- The stored forms of two lists of values agree in the places in which the values do. -/
theorem getElem?_stored_eq_iff {cs : List Codec} (hc : ∀ c ∈ cs, c.IsPlain)
    (ho : ∀ c ∈ cs, c.NoNestedOption) {vs vs' : List Value}
    (hv : ValueType.HoldAll (valueTypes cs) vs) (hv' : ValueType.HoldAll (valueTypes cs) vs')
    {bs bs' : List (Option Bytes)} (hb : (cs.zip vs).mapM (fun p => p.1.encode p.2) = .ok bs)
    (hb' : (cs.zip vs').mapM (fun p => p.1.encode p.2) = .ok bs') (i : Nat) :
    bs[i]? = bs'[i]? ↔ vs[i]? = vs'[i]? := by
  induction cs generalizing vs vs' bs bs' i with
  | nil =>
    match vs, vs' with
    | [], [] =>
      cases mapM_nil_eq_ok_iff.1 hb
      cases mapM_nil_eq_ok_iff.1 hb'
      exact ⟨fun _ => rfl, fun _ => rfl⟩
  | cons c cs ih =>
    match vs, vs' with
    | v :: vs, v' :: vs' =>
      obtain ⟨b, bs, hstored, hrest, rfl⟩ := mapM_cons_eq_ok_iff.1 hb
      obtain ⟨b', bs', hstored', hrest', rfl⟩ := mapM_cons_eq_ok_iff.1 hb'
      obtain ⟨hc, hcs⟩ := List.forall_mem_cons.1 hc
      obtain ⟨ho, hos⟩ := List.forall_mem_cons.1 ho
      cases i with
      | zero =>
        have hhead := encode_eq_iff hc ho hv.1 hv'.1 hstored hstored'
        exact Option.some_inj.trans (hhead.trans Option.some_inj.symm)
      | succ i => exact ih hcs hos hv.2 hv'.2 hrest hrest' i

/-- Two lists of values are stored alike exactly if their stored forms are the same. -/
theorem zipWith_encode_eq_iff {cs : List Codec} {vs vs' : List Value} {bs bs' : List (Option Bytes)}
    (hb : (cs.zip vs).mapM (fun p => p.1.encode p.2) = .ok bs)
    (hb' : (cs.zip vs').mapM (fun p => p.1.encode p.2) = .ok bs') :
    List.zipWith encode cs vs = List.zipWith encode cs vs' ↔ bs = bs' := by
  have hstored : ∀ {vs bs}, (cs.zip vs).mapM (fun p => p.1.encode p.2) = .ok bs →
      List.zipWith encode cs vs = bs.map Except.ok := by
    intro vs bs hb
    rw [← mapM_eq_ok_iff_map_eq.1 hb, List.map_zip_eq_zipWith]
    rfl
  rw [hstored hb, hstored hb']
  exact List.map_inj_right fun _ _ => Except.ok.inj

end Codec

namespace Fingerprint

/-! ## Bound parameters -/

/-- Binds one value after the other, each through its codec. -/
def bindAll (f : Fingerprint) (params : List (Codec × Value)) : Except Error Fingerprint :=
  params.foldlM (fun f p => f.bind p.1 p.2) f

theorem bindAll_eq_ok_iff {f f' : Fingerprint} {params : List (Codec × Value)} :
    f.bindAll params = .ok f' ↔ ∃ bs, params.mapM (fun p => p.1.encode p.2) = .ok bs ∧
      ⟨f.query, f.values ++ bs⟩ = f' := by
  induction params generalizing f with
  | nil =>
    simp only [bindAll, List.foldlM_nil, pure_eq_ok_iff, mapM_nil_eq_ok_iff, exists_eq_left,
      List.append_nil]
  | cons p params ih =>
    simp only [bindAll, bind, List.foldlM_cons, bind_eq_ok_iff, pure_eq_ok_iff, mapM_cons_eq_ok_iff]
    constructor
    · rintro ⟨g, ⟨b, hb, rfl⟩, hrest⟩
      obtain ⟨bs, hbs, rfl⟩ := ih.1 hrest
      refine ⟨b :: bs, ⟨b, bs, hb, hbs, rfl⟩, ?_⟩
      simp only [bindStored, List.append_assoc, List.singleton_append]
    · rintro ⟨_, ⟨b, bs, hb, hbs, rfl⟩, rfl⟩
      refine ⟨f.bindStored b, ⟨b, hb, rfl⟩, ih.2 ⟨bs, hbs, ?_⟩⟩
      simp only [bindStored, List.append_assoc, List.singleton_append]

/-- The same query with as many other values differs first in one of them. -/
theorem exists_mismatch?_parameter (query : String) {as bs : List (Option Bytes)}
    (hlen : as.length = bs.length) (hne : as ≠ bs) :
    ∃ i, mismatch? ⟨query, as⟩ ⟨query, bs⟩ = some (.parameter i) ∧ as[i]? ≠ bs[i]? ∧
      ∀ j < i, as[j]? = bs[j]? := by
  have hsome : mismatch? ⟨query, as⟩ ⟨query, bs⟩ ≠ none := fun hnone =>
    hne (congrArg values (mismatch?_eq_none_iff.1 hnone))
  obtain ⟨m, hm⟩ := Option.ne_none_iff_exists'.1 hsome
  have hfirst := mismatch?_eq_some_iff.1 hm
  cases m with
  | queryText => exact absurd rfl hfirst.1
  | parameterCount => exact absurd hlen hfirst.2.1
  | parameter i =>
    obtain ⟨-, -, -, hi, hbefore⟩ := hfirst
    exact ⟨i, hm, hi, hbefore⟩

end Fingerprint

namespace TokenKind

/-- A safe token of a statement is read for exactly the statements with its query whose parameters
are stored alike. For the same query with other parameters, it tells the first that differs. -/
theorem token_binds_parameters (mac : Mac) (key : Bytes) {cs : List Codec}
    (hc : ∀ c ∈ cs, c.IsPlain) (ho : ∀ c ∈ cs, c.NoNestedOption)
    (hs : ValueType.AllHashFree (Codec.valueTypes cs)) {vs vs' ws ws' : List Value}
    (hv : ValueType.HoldAll (Codec.valueTypes cs) vs)
    (hv' : ValueType.HoldAll (Codec.valueTypes cs) vs')
    (hw : ValueType.ListingAll (Codec.valueTypes cs) vs ws)
    (hw' : ValueType.ListingAll (Codec.valueTypes cs) vs' ws') {query query' : String}
    {f f' : Fingerprint} (hf : (Fingerprint.ofQuery query).bindAll (cs.zip ws) = .ok f)
    (hf' : (Fingerprint.ofQuery query').bindAll (cs.zip ws') = .ok f') {state : PagingState}
    {token : List Char} (ht : (TokenKind.safe key).toToken mac state f = .ok token) :
    let answer := (TokenKind.safe key).ofToken mac token f'
    (∀ s, answer = .ok s ↔ s = state ∧ query = query' ∧
      List.zipWith Codec.encode cs ws = List.zipWith Codec.encode cs ws') ∧
    (query = query' → vs ≠ vs' → ∃ i, vs[i]? ≠ vs'[i]? ∧ (∀ j < i, vs[j]? = vs'[j]?) ∧
      answer = .error (.statementMismatch (.parameter i))) := by
  intro answer
  -- Without hashed containers the program sees the values as they are held.
  obtain rfl := ValueType.eq_of_listingAll hs hv hw
  obtain rfl := ValueType.eq_of_listingAll hs hv' hw'
  obtain ⟨bs, hb, rfl⟩ := Fingerprint.bindAll_eq_ok_iff.1 hf
  obtain ⟨bs', hb', rfl⟩ := Fingerprint.bindAll_eq_ok_iff.1 hf'
  have hanswer : answer = _ := ofToken_safe_of_toToken ht
  have hagree := Codec.getElem?_stored_eq_iff hc ho hv hv' hb hb'
  have hlen : bs.length = bs'.length := by
    rw [length_of_mapM_eq_ok hb, length_of_mapM_eq_ok hb', List.length_zip, List.length_zip,
      Codec.length_of_holdAll hv, Codec.length_of_holdAll hv']
  rw [Codec.zipWith_encode_eq_iff hb hb', hanswer]
  simp only [Fingerprint.ofQuery, List.nil_append]
  constructor
  · intro s
    have hnone : Fingerprint.mismatch? ⟨query, bs⟩ ⟨query', bs'⟩ = none ↔
        query = query' ∧ bs = bs' := by
      rw [Fingerprint.mismatch?_eq_none_iff, Fingerprint.mk.injEq]
    rw [← hnone]
    cases Fingerprint.mismatch? ⟨query, bs⟩ ⟨query', bs'⟩ with
    | none => simp [eq_comm]
    | some m => exact ⟨nofun, nofun⟩
  · rintro rfl hne
    have hbs : bs ≠ bs' := fun heq =>
      hne (List.ext_getElem? fun i => (hagree i).1 (congrArg (·[i]?) heq))
    obtain ⟨i, hm, hi, hbefore⟩ := Fingerprint.exists_mismatch?_parameter query hlen hbs
    rw [hm]
    exact ⟨i, mt (hagree i).2 hi, fun j hj => (hagree j).1 (hbefore j hj), rfl⟩

/-- Two lists of three parameters, of which the second and the third differ: the second is null in
the one and an empty text in the other. -/
theorem token_binds_parameters_null :
    let cs : List Codec := [.scalar .int, .option (.scalar .text),
      .elements .list .vector false (.option (.scalar .boolean))]
    let vs : List Value := [.int 7, .absent, .sequence [.absent]]
    let vs' : List Value := [.int 7, .present (.text []), .sequence []]
    let kind := TokenKind.safe builtinKey
    (∀ c ∈ cs, c.IsPlain) ∧ (∀ c ∈ cs, c.NoNestedOption) ∧
      ValueType.AllHashFree (Codec.valueTypes cs) ∧ ValueType.HoldAll (Codec.valueTypes cs) vs ∧
      ValueType.HoldAll (Codec.valueTypes cs) vs' ∧
      ∃ f f' token, (Fingerprint.ofQuery "SELECT a").bindAll (cs.zip vs) = .ok f ∧
        (Fingerprint.ofQuery "SELECT a").bindAll (cs.zip vs') = .ok f' ∧
        kind.toToken Mac.hmacSha256 ⟨[1]⟩ f = .ok token ∧
        kind.ofToken Mac.hmacSha256 token f = .ok ⟨[1]⟩ ∧
        kind.ofToken Mac.hmacSha256 token f' = .error (.statementMismatch (.parameter 1)) := by
  intro cs vs vs' kind
  have hc : ∀ c ∈ cs, c.IsPlain := by simp [cs, Codec.IsPlain]
  have ho : ∀ c ∈ cs, c.NoNestedOption := by
    simp [cs, Codec.NoNestedOption, Codec.IsOption]
  have hs : ValueType.AllHashFree (Codec.valueTypes cs) :=
    ⟨trivial, trivial, ⟨rfl, trivial⟩, trivial⟩
  have hv : ValueType.HoldAll (Codec.valueTypes cs) vs :=
    ⟨rfl, trivial, ⟨trivial, List.forall_mem_singleton.2 trivial⟩, trivial⟩
  have hv' : ValueType.HoldAll (Codec.valueTypes cs) vs' :=
    ⟨rfl, trivial, ⟨trivial, List.forall_mem_nil _⟩, trivial⟩
  have hw := ValueType.listingAll_refl hv
  have hw' := ValueType.listingAll_refl hv'
  have hf : (Fingerprint.ofQuery "SELECT a").bindAll (cs.zip vs) = .ok ⟨"SELECT a",
    [some [0, 0, 0, 7], none, some [0, 0, 0, 1, 255, 255, 255, 255]]⟩ := rfl
  have hf' : (Fingerprint.ofQuery "SELECT a").bindAll (cs.zip vs') = .ok ⟨"SELECT a",
    [some [0, 0, 0, 7], some [], some [0, 0, 0, 0]]⟩ := rfl
  obtain ⟨token, ht⟩ : ∃ token, kind.toToken Mac.hmacSha256 ⟨[1]⟩ ⟨"SELECT a",
      [some [0, 0, 0, 7], none, some [0, 0, 0, 1, 255, 255, 255, 255]]⟩ = .ok token :=
    exists_toToken_safe _ _ (by simp [PagingState.IsFrameable, Frame.maxLength])
      ⟨by decide, by decide, by simp [Frame.maxLength]⟩
  obtain ⟨hsame, -⟩ := token_binds_parameters _ _ hc ho hs hv hv hw hw hf hf ht
  obtain ⟨-, hother⟩ := token_binds_parameters _ _ hc ho hs hv hv' hw hw' hf hf' ht
  obtain ⟨i, hi, hbefore, hanswer⟩ := hother rfl (by simp [vs, vs'])
  obtain rfl : i = 1 := by
    rcases Nat.lt_trichotomy i 1 with hlt | heq | hgt
    · obtain rfl : i = 0 := by omega
      exact absurd rfl hi
    · exact heq
    · have hsecond := hbefore 1 hgt
      simp [vs, vs'] at hsecond
  exact ⟨hc, ho, hs, hv, hv', _, _, token, hf, hf', ht, (hsame _).2 ⟨rfl, rfl, rfl⟩, hanswer⟩

end TokenKind

end CqlWire
