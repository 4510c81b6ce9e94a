import CqlWire.Codec.Cache
import CqlWire.Proofs.Coding.Respelled
import Mathlib.Data.List.Dedup

/-!
# A cache of codecs shows nothing but its size

The codec that a cache has for a schema was built for a schema of the same version, which may have
another `frozen` annotation. That changes nothing but the spelling of the type in errors
(`Record.reconcile_withFrozen`, `Codec.equalUpToFrozen_withFrozen`). What a cache holds after a
history of calls is said by `CodecCache.Reflects`, which every call keeps up (`reflects_next`): the
versions of the schemas that could be reconciled, each once, each with a codec built for it. Places
stay as they are (`entries_after`), so `CodecCache.codecFor_is_transparent` compares calls however
far they are apart.
-/

namespace CqlWire

/-! ## The outermost annotation of a codec -/

namespace Codec

/-- The codec for the same type with its outermost annotation set, if it is one of a record. -/
def withFrozen (frozen : Bool) : Codec → Codec
  | .record header schema slots fields => .record header { schema with frozen } slots fields
  | c => c

/-- Codecs that serve the same type, but for its outermost annotation, and do the same in all four
directions, but for the spelling of that type in errors. -/
structure EqualUpToFrozen (c d : Codec) : Prop where
  type : c.type.withFrozen false = d.type.withFrozen false
  encode : ∀ v, AlikeUpToSpelling c.type.toText d.type.toText (c.encode v) (d.encode v)
  decode : ∀ bytes,
    AlikeUpToSpelling c.type.toText d.type.toText (c.decode bytes) (d.decode bytes)
  format : ∀ v, c.format v = d.format v
  parse : ∀ text, AlikeUpToSpelling c.type.toText d.type.toText (c.parse text) (d.parse text)

theorem equalUpToFrozen_refl (c : Codec) : c.EqualUpToFrozen c :=
  ⟨rfl, fun _ => alikeUpToSpelling_self _, fun _ => alikeUpToSpelling_self _, fun _ => rfl,
    fun _ => alikeUpToSpelling_self _⟩

/-- The outermost annotation shows in errors only. -/
theorem equalUpToFrozen_withFrozen (c : Codec) (frozen : Bool) :
    c.EqualUpToFrozen (c.withFrozen frozen) := by
  match c with
  | .record header schema slots fields =>
    refine ⟨rfl, fun v => ?_, fun bytes => ?_, fun v => rfl, fun text => ?_⟩
    · show AlikeUpToSpelling _ _ (Coding.encode (Coding.onValues _ _ _) v)
        (Coding.encode (Coding.onValues _ _ _) v)
      unfold Coding.onValues
      dsimp only
      split
      · exact alikeUpToSpelling_self _
      · exact .failed (.illegalValue _ _)
    · refine alikeUpToSpelling_map ?_ _
      refine alikeUpToSpelling_bind (Frame.alike_require _ _ bytes) fun bs => ?_
      refine alikeUpToSpelling_bind (Coding.alike_readSlots _ _ slots bs _) fun p => ?_
      refine alikeUpToSpelling_bind ?_ fun _ => alikeUpToSpelling_self _
      unfold refuseIf
      split
      · exact .failed (.decode _)
      · exact .done _
    · refine alikeUpToSpelling_map ?_ _
      refine alikeUpToSpelling_bind ?_ fun parts => ?_
      · cases Literal.splitEntries '\x7b' '\x7d' text with
        | ok parts => exact .done parts
        | error refusal => exact .failed (.illegalArgument _ _)
      · exact alikeUpToSpelling_bind (Coding.alike_placeLiterals schema frozen slots text parts _)
          fun _ => alikeUpToSpelling_self _
  | .scalar _ | .decimal | .enumeration .. | .shared _ | .option _ | .elements .. | .entries .. =>
    exact equalUpToFrozen_refl _

end Codec

namespace Record

variable {header : RecordHeader} {shapes : List FieldShape} {schema : UserType}

/-- The outermost annotation of a schema goes into the codec and nowhere else. -/
theorem reconcile_withFrozen (header : RecordHeader) (shapes : List FieldShape) (schema : UserType)
    (frozen : Bool) : reconcile header shapes { schema with frozen } =
      Codec.withFrozen frozen <$> reconcile header shapes schema := by
  have hdeclared : isDeclaredOrder header { schema with frozen } = isDeclaredOrder header schema :=
    rfl
  have hslots : slots header { schema with frozen } = slots header schema := rfl
  have hcodecs : ∀ slots, fieldCodecs header { schema with frozen } shapes slots =
      fieldCodecs header schema shapes slots := fun _ => rfl
  unfold reconcile
  rw [hdeclared]
  split
  · simp only [identical, hdeclared, hcodecs, map_bind, map_pure]
    rfl
  · simp only [reordered, hslots, hcodecs, map_bind]
    refine bind_congr fun slots => bind_congr fun codecs => ?_
    cases missing? header shapes slots <;> rfl

/-- Schemas of one version are reconciled or refused alike. -/
theorem reconcile_of_version {s s' : UserType} (h : s.version = s'.version) :
    reconcile header shapes s' = Codec.withFrozen s'.frozen <$> reconcile header shapes s := by
  rw [← reconcile_withFrozen]
  congr 1
  obtain ⟨hkeyspace, hname, hfields⟩ := SchemaVersion.mk.inj h
  obtain ⟨keyspace, name, fields, frozen⟩ := s
  obtain ⟨keyspace', name', fields', frozen'⟩ := s'
  dsimp only at hkeyspace hname hfields
  subst hkeyspace hname hfields
  rfl

end Record

/-! ## Histories of a cache -/

namespace CodecCache

/-- The cache after a call, whether it succeeds or fails. -/
def next (cache : CodecCache) (schema : UserType) : CodecCache :=
  (answered ((codecFor schema).run cache)).2

/-- The cache after a history of calls. -/
def after (cache : CodecCache) (calls : List UserType) : CodecCache :=
  calls.foldl next cache

theorem after_cons (cache : CodecCache) (s : UserType) (calls : List UserType) :
    cache.after (s :: calls) = (cache.next s).after calls := rfl

theorem after_append (cache : CodecCache) (calls calls' : List UserType) :
    cache.after (calls ++ calls') = (cache.after calls).after calls' :=
  List.foldl_append

theorem after_singleton (cache : CodecCache) (s : UserType) : cache.after [s] = cache.next s := rfl

/-- The versions that there are codecs for, in the order of their places. -/
def versions (cache : CodecCache) : List SchemaVersion := cache.entries.map Prod.fst

variable {cache : CodecCache} {s : UserType}

/-- What a call does: it finds the version of the schema at a place, or it builds a codec, which gets
the next place, or it fails as building does and leaves the cache as it is. -/
theorem codecFor_cases (cache : CodecCache) (s : UserType) :
    (∃ place c, cache.entries[place]? = some (s.version, c) ∧
      (codecFor s).run cache = .ok place cache) ∨
    (∃ c, s.version ∉ cache.versions ∧
      Record.reconcile cache.header (ValueType.fieldShapes cache.types) s = .ok c ∧
      (codecFor s).run cache =
        .ok cache.size { cache with entries := cache.entries ++ [(s.version, c)] }) ∨
    ∃ e, s.version ∉ cache.versions ∧
      Record.reconcile cache.header (ValueType.fieldShapes cache.types) s = .error e ∧
      (codecFor s).run cache = .error e cache := by
  rw [codecFor, EStateM.run_bind, EStateM.run_get]
  dsimp only
  cases hfound : cache.entries.findIdx? fun e => e.1 = s.version with
  | some place =>
    obtain ⟨hlt, hversion, -⟩ := List.findIdx?_eq_some_iff_getElem.1 hfound
    refine .inl ⟨place, cache.entries[place].2, ?_, rfl⟩
    rw [List.getElem?_eq_getElem hlt, ← of_decide_eq_true hversion]
  | none =>
    have hnew : s.version ∉ cache.versions := by
      intro hmem
      obtain ⟨e, he, heq⟩ := List.mem_map.1 hmem
      have hnot := List.findIdx?_eq_none_iff.1 hfound e he
      exact of_decide_eq_false hnot heq
    cases Record.reconcile cache.header (ValueType.fieldShapes cache.types) s with
    | ok c => exact .inr (.inl ⟨c, hnew, rfl, rfl⟩)
    | error e => exact .inr (.inr ⟨e, hnew, rfl, rfl⟩)

theorem next_of_ok {place : Nat} {grown : CodecCache}
    (h : (codecFor s).run cache = .ok place grown) : cache.next s = grown := by
  rw [next, h]
  rfl

theorem next_of_error {e : Error} {kept : CodecCache}
    (h : (codecFor s).run cache = .error e kept) : cache.next s = kept := by
  rw [next, h]
  rfl

/-- After a call that succeeds, the version of its schema is at the place. -/
theorem exists_of_codecFor_eq_ok {place : Nat} {grown : CodecCache}
    (h : (codecFor s).run cache = .ok place grown) :
    ∃ c, grown.entries[place]? = some (s.version, c) := by
  rcases codecFor_cases cache s with ⟨i, c, hi, heq⟩ | ⟨c, -, -, heq⟩ | ⟨e, -, -, heq⟩
  · cases h.symm.trans heq
    exact ⟨c, hi⟩
  · cases h.symm.trans heq
    exact ⟨c, List.getElem?_concat_length⟩
  · cases h.symm.trans heq

/-- A call leaves every codec at its place. -/
theorem entries_next (cache : CodecCache) (s : UserType) :
    cache.entries <+: (cache.next s).entries := by
  rcases codecFor_cases cache s with ⟨i, c, -, heq⟩ | ⟨c, -, -, heq⟩ | ⟨e, -, -, heq⟩
  · simp only [next_of_ok heq, List.prefix_refl]
  · simp only [next_of_ok heq, List.prefix_append]
  · simp only [next_of_error heq, List.prefix_refl]

/-- A history leaves every codec at its place. -/
theorem entries_after (cache : CodecCache) (calls : List UserType) :
    cache.entries <+: (cache.after calls).entries := by
  induction calls generalizing cache with
  | nil => exact List.prefix_refl _
  | cons s calls ih => exact (entries_next cache s).trans (ih (cache.next s))

theorem getElem?_after {place : Nat} {e : SchemaVersion × Codec}
    (h : cache.entries[place]? = some e) (calls : List UserType) :
    (cache.after calls).entries[place]? = some e := by
  obtain ⟨later, hlater⟩ := entries_after cache calls
  obtain ⟨hlt, -⟩ := List.getElem?_eq_some_iff.1 h
  rw [← hlater, List.getElem?_append_left hlt, h]

/-- The cache has a codec for each version that could be reconciled in a history, and no other. -/
structure Reflects (header : RecordHeader) (types : List ValueType) (past : List UserType)
    (cache : CodecCache) : Prop where
  header_eq : cache.header = header
  types_eq : cache.types = types
  distinct : cache.versions.Nodup
  built : ∀ v c, (v, c) ∈ cache.entries → ∃ s ∈ past, s.version = v ∧
    Record.reconcile header (ValueType.fieldShapes types) s = .ok c
  found : ∀ s ∈ past, ∀ c, Record.reconcile header (ValueType.fieldShapes types) s = .ok c →
    s.version ∈ cache.versions

section

variable {header : RecordHeader} {types : List ValueType} {past : List UserType}

theorem reflects_empty (header : RecordHeader) (types : List ValueType) :
    Reflects header types [] (empty header types) :=
  ⟨rfl, rfl, List.nodup_nil, nofun, nofun⟩

/-- A codec that is found was built for a schema of the same version. -/
theorem Reflects.reconcile_of_mem (h : Reflects header types past cache) {c : Codec}
    (hmem : (s.version, c) ∈ cache.entries) :
    Record.reconcile header (ValueType.fieldShapes types) s = .ok (c.withFrozen s.frozen) := by
  obtain ⟨s', -, hversion, hmade⟩ := h.built _ _ hmem
  rw [Record.reconcile_of_version hversion, hmade]
  rfl

/-- A call that brings no new version keeps up with the history. -/
theorem Reflects.keep (h : Reflects header types past cache)
    (hs : ∀ c, Record.reconcile header (ValueType.fieldShapes types) s = .ok c →
      s.version ∈ cache.versions) : Reflects header types (past ++ [s]) cache := by
  refine ⟨h.header_eq, h.types_eq, h.distinct, fun v c hmem => ?_, fun s' hs' c hc => ?_⟩
  · obtain ⟨s', hs', hmade⟩ := h.built v c hmem
    exact ⟨s', List.mem_append_left _ hs', hmade⟩
  · rcases List.mem_append.1 hs' with hs' | hs'
    · exact h.found s' hs' c hc
    · obtain rfl := List.mem_singleton.1 hs'
      exact hs c hc

/-- A call that brings a new version keeps up with the history. -/
theorem Reflects.add (h : Reflects header types past cache) {c : Codec}
    (hnew : s.version ∉ cache.versions)
    (hmade : Record.reconcile header (ValueType.fieldShapes types) s = .ok c) :
    Reflects header types (past ++ [s])
      { cache with entries := cache.entries ++ [(s.version, c)] } := by
  have hversions : versions { cache with entries := cache.entries ++ [(s.version, c)] } =
      cache.versions ++ [s.version] := List.map_append
  refine ⟨h.header_eq, h.types_eq, ?_, fun v d hmem => ?_, fun s' hs' d hd => ?_⟩
  · rw [hversions]
    exact List.Nodup.append h.distinct (List.nodup_singleton _) (List.disjoint_singleton.2 hnew)
  · rcases List.mem_append.1 hmem with hmem | hmem
    · obtain ⟨s', hs', hbuilt⟩ := h.built v d hmem
      exact ⟨s', List.mem_append_left _ hs', hbuilt⟩
    · obtain ⟨rfl, rfl⟩ := Prod.mk.inj (List.mem_singleton.1 hmem)
      exact ⟨s, List.mem_append_right _ List.mem_cons_self, rfl, hmade⟩
  · rw [hversions]
    rcases List.mem_append.1 hs' with hs' | hs'
    · exact List.mem_append_left _ (h.found s' hs' d hd)
    · obtain rfl := List.mem_singleton.1 hs'
      exact List.mem_append_right _ List.mem_cons_self

/-- Every call keeps up with the history. -/
theorem reflects_next (h : Reflects header types past cache) (s : UserType) :
    Reflects header types (past ++ [s]) (cache.next s) := by
  obtain ⟨rfl, rfl, -⟩ := id h
  rcases codecFor_cases cache s with ⟨i, c, hi, heq⟩ | ⟨c, hnew, hmade, heq⟩ | ⟨e, -, hmade, heq⟩
  · rw [next_of_ok heq]
    exact h.keep fun _ _ => List.mem_map_of_mem (List.mem_of_getElem? hi)
  · rw [next_of_ok heq]
    exact h.add hnew hmade
  · rw [next_of_error heq]
    refine h.keep fun c hc => ?_
    rw [hmade] at hc
    cases hc

theorem reflects_after (h : Reflects header types past cache) (calls : List UserType) :
    Reflects header types (past ++ calls) (cache.after calls) := by
  induction calls generalizing cache past with
  | nil =>
    rw [List.append_nil]
    exact h
  | cons s calls ih =>
    have hrest := ih (reflects_next h s)
    rw [List.append_assoc] at hrest
    exact hrest

/-- The versions that there are codecs for are those that could be reconciled. -/
theorem Reflects.mem_versions_iff (h : Reflects header types past cache) {v : SchemaVersion} :
    v ∈ cache.versions ↔ ∃ s ∈ past,
      (Record.reconcile header (ValueType.fieldShapes types) s).isOk = true ∧ s.version = v := by
  constructor
  · intro hv
    obtain ⟨⟨v', c⟩, hmem, rfl⟩ := List.mem_map.1 hv
    obtain ⟨s, hs, hversion, hmade⟩ := h.built v' c hmem
    exact ⟨s, hs, by rw [hmade]; rfl, hversion⟩
  · rintro ⟨s, hs, hok, rfl⟩
    cases hmade : Record.reconcile header (ValueType.fieldShapes types) s with
    | ok c => exact h.found s hs c hmade
    | error e =>
      rw [hmade] at hok
      cases hok

/-- There are as many codecs as versions that could be reconciled. -/
theorem Reflects.size_eq (h : Reflects header types past cache) :
    cache.size = ((past.filter fun s =>
      (Record.reconcile header (ValueType.fieldShapes types) s).isOk).map
        UserTypeOver.version).dedup.length := by
  have hperm : cache.versions.Perm ((past.filter fun s =>
      (Record.reconcile header (ValueType.fieldShapes types) s).isOk).map
        UserTypeOver.version).dedup := by
    refine (List.perm_ext_iff_of_nodup h.distinct (List.nodup_dedup _)).2 fun v => ?_
    rw [h.mem_versions_iff, List.mem_dedup, List.mem_map]
    simp only [List.mem_filter, and_assoc]
  rw [← hperm.length_eq, versions, List.length_map, size]

/-- A call fails as building the codec does, and leaves the cache as it is. -/
theorem Reflects.run_eq_error_iff (h : Reflects header types past cache) {e : Error}
    {kept : CodecCache} : (codecFor s).run cache = .error e kept ↔
      Record.reconcile header (ValueType.fieldShapes types) s = .error e ∧ kept = cache := by
  obtain ⟨rfl, rfl, -⟩ := id h
  rcases codecFor_cases cache s with ⟨i, c, hi, heq⟩ | ⟨c, -, hmade, heq⟩ | ⟨e', -, hmade, heq⟩
  · rw [heq, h.reconcile_of_mem (List.mem_of_getElem? hi)]
    exact ⟨nofun, nofun⟩
  · rw [heq, hmade]
    exact ⟨nofun, nofun⟩
  · rw [heq, hmade, EStateM.Result.error.injEq, Except.error.injEq, eq_comm (a := cache)]

/-- Two calls get one place exactly for one version, however far apart they are. -/
theorem Reflects.place_eq_iff (h : Reflects header types past cache) {place place' : Nat}
    {s s' : UserType} {c c' : Codec} (hs : cache.entries[place]? = some (s.version, c))
    (hs' : cache.entries[place']? = some (s'.version, c')) :
    place' = place ↔ s'.version = s.version := by
  have hget : cache.versions[place]? = some s.version := by
    rw [versions, List.getElem?_map, hs]
    rfl
  have hget' : cache.versions[place']? = some s'.version := by
    rw [versions, List.getElem?_map, hs']
    rfl
  constructor
  · rintro rfl
    exact Option.some.inj (hget'.symm.trans hget)
  · intro hversion
    obtain ⟨hlt, -⟩ := List.getElem?_eq_some_iff.1 hget'
    exact (List.getElem?_inj hlt h.distinct).1 (hget'.trans (hversion ▸ hget.symm))

end

theorem version_eq_iff {s s' : UserType} : s'.version = s.version ↔
    s'.keyspace = s.keyspace ∧ s'.name = s.name ∧ s'.fields = s.fields :=
  SchemaVersion.mk.injEq .. ▸ Iff.rfl

theorem codec?_of_getElem? {place : Nat} {v : SchemaVersion} {c : Codec}
    (h : cache.entries[place]? = some (v, c)) : cache.codec? place = some c := by
  rw [codec?, h]
  rfl

/-- After any history, a call fails exactly where reconciling the schema fails, with the same error,
and leaves the cache as it is then, without a trace. Otherwise the codec at the place that the call
gives does in all directions what reconciling the schema would, but for the spelling of its `frozen`
annotation in errors; it stays at that place for good, and a later call gives that place exactly for
a schema of the same keyspace, name and fields. There are as many codecs as versions that could be
reconciled so far. -/
theorem codecFor_is_transparent (header : RecordHeader) (types : List ValueType)
    (past : List UserType) :
    let reconcile := Record.reconcile header (ValueType.fieldShapes types)
    let cache := (empty header types).after past
    (∀ s e kept, (codecFor s).run cache = .error e kept ↔ reconcile s = .error e ∧ kept = cache) ∧
    (∀ s e later, reconcile s = .error e → cache.after (s :: later) = cache.after later) ∧
    (∀ s place grown, (codecFor s).run cache = .ok place grown → cache.after [s] = grown ∧
      ∃ c c', grown.codec? place = some c ∧ reconcile s = .ok c' ∧ c.EqualUpToFrozen c' ∧
        ∀ later s' place' grown', (codecFor s').run (grown.after later) = .ok place' grown' →
          grown'.codec? place = some c ∧
          (place' = place ↔
            s'.keyspace = s.keyspace ∧ s'.name = s.name ∧ s'.fields = s.fields)) ∧
    cache.size = ((past.filter fun s => (reconcile s).isOk).map
      UserTypeOver.version).dedup.length := by
  intro reconcile cache
  have hreflects : Reflects header types past cache :=
    reflects_after (reflects_empty header types) past
  refine ⟨fun s e kept => hreflects.run_eq_error_iff, fun s e later h => ?_,
    fun s place grown h => ⟨next_of_ok h, ?_⟩, hreflects.size_eq⟩
  · rw [after_cons, next_of_error (hreflects.run_eq_error_iff.2 ⟨h, rfl⟩)]
  · obtain ⟨c, hc⟩ := exists_of_codecFor_eq_ok h
    have hgrown : Reflects header types (past ++ [s]) grown :=
      next_of_ok h ▸ reflects_next hreflects s
    refine ⟨c, c.withFrozen s.frozen, codec?_of_getElem? hc,
      hgrown.reconcile_of_mem (List.mem_of_getElem? hc), c.equalUpToFrozen_withFrozen _,
      fun later s' place' grown' h' => ?_⟩
    obtain ⟨c', hc'⟩ := exists_of_codecFor_eq_ok h'
    have hgrown' : Reflects header types (past ++ [s] ++ later ++ [s']) grown' :=
      next_of_ok h' ▸ reflects_next (reflects_after hgrown later) s'
    -- The call on `s'` is the last of a history that begins where `s` got its place.
    have hstays : grown'.entries[place]? = some (s.version, c) := by
      have hlater := getElem?_after hc (later ++ [s'])
      rw [after_append] at hlater
      exact next_of_ok h' ▸ hlater
    exact ⟨codec?_of_getElem? hstays, (hgrown'.place_eq_iff hstays hc').trans version_eq_iff⟩

/-- A history with a layout, and one that lacks a column. Then come two frozen schemas: one of the
first layout, and one with a frozen list in it, which is another layout. -/
theorem codecFor_is_transparent_frozen :
    let address : RecordHeader := ⟨"Address", "address", ["street", "tags"], ["street", "tags"]⟩
    let types : List ValueType := [.base .string, .sequence .vector (.base .int32)]
    let layout (frozen inner : Bool) : UserType :=
      ⟨none, "address", [⟨"tags", .list inner (.scalar .int)⟩, ⟨"street", .scalar .text⟩], frozen⟩
    let codec (frozen : Bool) : Codec := .record address (layout frozen false) [1, 0]
      [.scalar .text, .elements .list .vector false (.scalar .int)]
    let lacking : UserType := ⟨none, "address", [⟨"street", .scalar .text⟩], false⟩
    let reconcile := Record.reconcile address (ValueType.fieldShapes types)
    let cache := (empty address types).after [layout false false, lacking]
    let grown := cache.after [layout true true]
    (∃ e, reconcile lacking = .error e ∧ (codecFor lacking).run cache = .error e cache) ∧
      cache.after [lacking, layout true true] = grown ∧
      (codecFor (layout true false)).run cache = .ok 0 cache ∧
      cache.codec? 0 = some (codec false) ∧ reconcile (layout true false) = .ok (codec true) ∧
      (codec false).EqualUpToFrozen (codec true) ∧
      (codecFor (layout true true)).run cache = .ok 1 grown ∧ grown.codec? 0 = some (codec false) ∧
      (layout true true).fields ≠ (layout true false).fields ∧ cache.size = 1 := by
  intro address types layout codec lacking reconcile cache grown
  obtain ⟨herror, htrace, hcall, -⟩ :=
    codecFor_is_transparent address types [layout false false, lacking]
  have hlacking : ∃ e, reconcile lacking = .error e := ⟨_, rfl⟩
  obtain ⟨e, he⟩ := hlacking
  have hfirst : (codecFor (layout true false)).run cache = .ok 0 cache := by rfl
  have hcache : (⟨address, types, [((layout false false).version, codec false)]⟩ : CodecCache) =
      cache := by rfl
  have hgrows : ∃ g, (codecFor (layout true true)).run
      ⟨address, types, [((layout false false).version, codec false)]⟩ = .ok 1 g := ⟨_, rfl⟩
  obtain ⟨g, hg⟩ := hgrows
  rw [hcache] at hg
  have hsecond : (codecFor (layout true true)).run cache = .ok 1 grown := by
    rw [hg, ← next_of_ok hg]
    exact congrArg (EStateM.Result.ok 1) (after_singleton cache _).symm
  have hcodec : cache.codec? 0 = some (codec false) := by rfl
  have hmade : reconcile (layout true false) = .ok (codec true) := by rfl
  obtain ⟨-, c, c', hc, hc', hequal, hlater⟩ := hcall _ _ _ hfirst
  obtain rfl := Option.some.inj (hc.symm.trans hcodec)
  obtain rfl := Except.ok.inj (hc'.symm.trans hmade)
  obtain ⟨hstays, hplace⟩ := hlater [] _ _ _ hsecond
  have hfields : (layout true true).fields ≠ (layout true false).fields := fun h =>
    absurd (hplace.2 ⟨rfl, rfl, h⟩) (by decide)
  exact ⟨⟨e, he, (herror lacking e cache).2 ⟨he, rfl⟩⟩, htrace lacking e [layout true true] he,
    hfirst, hcodec, hmade, hequal, hsecond, hstays, hfields, by rfl⟩

end CodecCache

end CqlWire
