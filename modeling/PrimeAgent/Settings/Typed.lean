import PrimeAgent.Settings.Load

/-! # What a settings document reads as

A written value reads as itself, and the lenient reader reads each field as if it stood alone.
-/
namespace PrimeAgent.Settings

mutual

def Shape.sound : Shape → Bool
  | .choice names aliases => aliases.all fun other => decide (other.2 ∈ names)
  | .record inner => inner.sound
  | _ => true

def Fields.sound : Fields → Bool
  | .none => true
  | .field name shape rest => decide (name ∉ rest.names) && shape.sound && rest.sound

end

theorem fields_sound : fields.sound = true := by
  decide +kernel

def Shape.readSlot (shape : Shape) : Option Json → Option Json
  | none | some .null => some .null
  | some json => shape.read json

variable {shape : Shape} {value : Json} {members : JsonMap} {key : String} {member : String × Json}

theorem Shape.readSlot_of_ne {json : Json} (hNull : json ≠ .null) :
    shape.readSlot (some json) = shape.read json := by
  cases json with
  | null => exact absurd rfl hNull
  | bool _ | number _ | string _ | array _ | object _ => rfl

theorem Shape.read_ne_null {json value : Json} (hNull : json ≠ .null) (hRead : shape.read json = some value) :
    value ≠ .null := by
  rintro rfl
  cases shape with
  | value => exact hNull (Option.some.inj hRead)
  | bool => cases json <;> simp [Shape.read, ofBool] at hRead
  | string => cases json <;> simp [Shape.read, ofString] at hRead
  | u64 =>
    cases json with
    | number n => cases n <;> simp [Shape.read, ofU64] at hRead
    | _ => simp [Shape.read, ofU64] at hRead
  | strings => cases json <;> simp [Shape.read, ofStrings] at hRead
  | values => cases json <;> simp [Shape.read, ofValues] at hRead
  | map => cases json <;> simp [Shape.read, ofMap] at hRead
  | choice names aliases =>
    unfold Shape.read ofChoice at hRead
    split at hRead
    all_goals first | (split at hRead <;> simp at hRead) | cases hRead
  | limit => cases json <;> simp [Shape.read, ofLimit] at hRead
  | record inner => cases json <;> simp [Shape.read] at hRead

namespace Fields

theorem read_field (name : String) (shape : Shape) (rest : Fields) (members : JsonMap) :
    (Fields.field name shape rest).read members =
      (shape.readSlot (members.lookup name)).bind fun value => (rest.read members).map ((name, value) :: ·) := by
  rw [Fields.read]
  cases members.lookup name with
  | none => rfl
  | some json => cases json <;> rfl

theorem readItems_field (name : String) (shape : Shape) (rest : Fields) (json : Json) (items : List Json) :
    (Fields.field name shape rest).readItems (json :: items) =
      (shape.readSlot (some json)).bind fun value => (rest.readItems items).map ((name, value) :: ·) := by
  cases json <;> rfl

theorem lookup_eq_none {key : String} : (inner : Fields) → key ∉ inner.names → inner.lookup key = Option.none
  | .none, _ => rfl
  | .field name _ rest, hName => by
    rw [names, List.mem_cons, not_or] at hName
    rw [lookup, if_neg (Ne.symm hName.1)]
    exact lookup_eq_none rest hName.2

theorem mem_names {key : String} {shape : Shape} : (inner : Fields) → inner.lookup key = some shape → key ∈ inner.names
  | .none, hField => nomatch hField
  | .field name _ rest, hField => by
    rw [lookup] at hField
    split at hField
    next hName => exact hName ▸ List.mem_cons_self
    next => exact List.mem_cons_of_mem _ (mem_names rest hField)

theorem exists_lookup {key : String} : (inner : Fields) → key ∈ inner.names → ∃ shape, inner.lookup key = some shape
  | .none, hName => nomatch hName
  | .field name shape rest, hName => by
    rw [lookup]
    split
    next => exact ⟨shape, rfl⟩
    next hNe => exact exists_lookup rest ((List.mem_cons.mp hName).resolve_left (Ne.symm hNe))

theorem sound_of_lookup {key : String} {shape : Shape} : (inner : Fields) → inner.sound = true →
    inner.lookup key = some shape → shape.sound = true
  | .none, _, hField => nomatch hField
  | .field name slot rest, hSound, hField => by
    simp only [sound, Bool.and_eq_true, decide_eq_true_eq] at hSound
    rw [lookup] at hField
    split at hField
    next => exact Option.some.inj hField ▸ hSound.1.2
    next => exact sound_of_lookup rest hSound.2 hField

theorem read_congr {members others : JsonMap} : (inner : Fields) →
    (∀ key ∈ inner.names, members.lookup key = others.lookup key) → inner.read members = inner.read others
  | .none, _ => rfl
  | .field name _ rest, hSame => by
    rw [read_field, read_field, hSame name List.mem_cons_self,
      read_congr rest fun key hKey => hSame key (List.mem_cons_of_mem name hKey)]

theorem read_lookup {members written : JsonMap} {key : String} {shape : Shape} : (inner : Fields) →
    inner.read members = some written → inner.lookup key = some shape →
      written.lookup key = shape.readSlot (members.lookup key)
  | .none, _, hField => nomatch hField
  | .field name slot rest, hRead, hField => by
    rw [read_field] at hRead
    obtain ⟨value, hValue, hRead⟩ := Option.bind_eq_some_iff.mp hRead
    obtain ⟨others, hOthers, rfl⟩ := Option.map_eq_some_iff.mp hRead
    rw [lookup] at hField
    split at hField
    next hName =>
      obtain rfl := Option.some.inj hField
      rw [← hName, hValue, List.lookup_cons, beq_self_eq_true]
    next hName =>
      have hTest : (key == name) = false := by simpa using Ne.symm hName
      rw [List.lookup_cons, hTest]
      exact read_lookup rest hOthers hField

theorem read_names {members written : JsonMap} : (inner : Fields) → inner.read members = some written →
    written.map Prod.fst = inner.names
  | .none, hRead => by
    obtain rfl := Option.some.inj hRead
    rfl
  | .field name slot rest, hRead => by
    rw [read_field] at hRead
    obtain ⟨value, -, hRead⟩ := Option.bind_eq_some_iff.mp hRead
    obtain ⟨others, hOthers, rfl⟩ := Option.map_eq_some_iff.mp hRead
    rw [List.map_cons, read_names rest hOthers, names]

theorem read_isSome_iff {members : JsonMap} : (inner : Fields) → inner.sound = true →
    ((inner.read members).isSome ↔
      ∀ key shape, inner.lookup key = some shape → (shape.readSlot (members.lookup key)).isSome)
  | .none, _ => by simp [Fields.read, lookup]
  | .field name slot rest, hSound => by
    simp only [sound, Bool.and_eq_true, decide_eq_true_eq] at hSound
    obtain ⟨⟨hFresh, -⟩, hRest⟩ := hSound
    have hTail := @read_isSome_iff members rest hRest
    rw [read_field]
    constructor
    · intro hSome key shape hField
      obtain ⟨written, hRead⟩ := Option.isSome_iff_exists.mp hSome
      rw [← read_field] at hRead
      rw [← read_lookup _ hRead hField]
      have hKey : key ∈ written.map Prod.fst := read_names _ hRead ▸ mem_names _ hField
      obtain ⟨member, hMember, rfl⟩ := List.mem_map.mp hKey
      rw [Option.isSome_iff_ne_none, ne_eq, List.lookup_eq_none_iff]
      intro hNone
      simpa using hNone member hMember
    · intro hEach
      obtain ⟨value, hValue⟩ := Option.isSome_iff_exists.mp (hEach name slot (by rw [lookup, if_pos rfl]))
      have hOthers : (rest.read members).isSome := by
        refine hTail.mpr fun key shape hField => hEach key shape ?_
        have hNe : name ≠ key := fun hName => hFresh (hName ▸ mem_names rest hField)
        rw [lookup, if_neg hNe]
        exact hField
      obtain ⟨others, hOthers⟩ := Option.isSome_iff_exists.mp hOthers
      rw [hValue, hOthers]
      rfl

end Fields

/-! ## Reading what was written -/

theorem readSlot_written {found : Option Json}
    (hShape : ∀ json, shape.read json = some value → shape.read value = some value)
    (hSlot : shape.readSlot found = some value) : shape.readSlot (some value) = some value := by
  cases value with
  | null => rfl
  | _ =>
    cases found with
    | none => cases hSlot
    | some json =>
      cases json with
      | null => cases hSlot
      | _ => exact hShape _ hSlot

theorem ofChoice_written {names : List String} {aliases : List (String × String)} {json value : Json}
    (hSound : aliases.all (fun other => decide (other.2 ∈ names)) = true)
      (hRead : ofChoice names aliases json = some value) :
    ofChoice names aliases value = some value := by
  have hName : ∃ name ∈ names, value = .string name := by
    unfold ofChoice at hRead
    split at hRead
    case h_3 => cases hRead
    all_goals
      split at hRead
      next hMem => exact ⟨_, hMem, (Option.some.inj hRead).symm⟩
      next =>
        obtain ⟨target, hAlias, rfl⟩ := Option.map_eq_some_iff.mp hRead
        obtain ⟨before, after, hSplit, -⟩ := List.lookup_eq_some_iff.mp hAlias
        have hIn := hSplit ▸ List.mem_append_right before List.mem_cons_self
        have hMem := List.all_eq_true.mp hSound _ hIn
        exact ⟨target, of_decide_eq_true hMem, rfl⟩
  obtain ⟨name, hMem, rfl⟩ := hName
  exact if_pos hMem

theorem read_cons_fresh {name : String} {rest : Fields} (hFresh : name ∉ rest.names) :
    rest.read ((name, value) :: members) = rest.read members := by
  refine Fields.read_congr rest fun key hKey => ?_
  have hNe : key ≠ name := fun hName => hFresh (hName ▸ hKey)
  rw [List.lookup_cons, beq_false_of_ne hNe]

mutual

theorem Shape.read_written {json value : Json} : (shape : Shape) → shape.sound = true → shape.read json = some value →
    shape.read value = some value
  | .bool, _, hRead => by cases json <;> cases hRead; rfl
  | .string, _, hRead => by cases json <;> cases hRead; rfl
  | .u64, _, hRead => by
    cases json with
    | number n => cases n <;> cases hRead; rfl
    | _ => cases hRead
  | .value, _, _ => rfl
  | .strings, _, hRead => by
    cases json with
    | array items =>
      obtain ⟨hAll, hItems⟩ := Option.ite_none_right_eq_some.mp hRead
      obtain rfl := Option.some.inj hItems
      exact if_pos hAll
    | _ => cases hRead
  | .values, _, hRead => by cases json <;> cases hRead; rfl
  | .map, _, hRead => by cases json <;> cases hRead; rfl
  | .choice names aliases, hSound, hRead => ofChoice_written (by simpa [Shape.sound] using hSound) hRead
  | .limit, _, hRead => by
    cases json with
    | number n =>
      obtain ⟨x, -, rfl⟩ := Option.map_eq_some_iff.mp hRead
      rfl
    | string _ => cases hRead; rfl
    | _ => cases hRead
  | .record inner, hSound, hRead => by
    have hInner : inner.sound = true := by simpa [Shape.sound] using hSound
    cases json with
    | object members =>
      obtain ⟨written, hWritten, rfl⟩ := Option.map_eq_some_iff.mp hRead
      rw [Shape.read, Fields.read_written inner hInner hWritten]
      rfl
    | array items =>
      obtain ⟨written, hWritten, rfl⟩ := Option.map_eq_some_iff.mp hRead
      rw [Shape.read, Fields.readItems_written inner hInner hWritten]
      rfl
    | _ => cases hRead

theorem Fields.read_written {members written : JsonMap} : (inner : Fields) → inner.sound = true →
    inner.read members = some written → inner.read written = some written
  | .none, _, hRead => by
    obtain rfl := Option.some.inj hRead
    rfl
  | .field name shape rest, hSound, hRead => by
    simp only [Fields.sound, Bool.and_eq_true, decide_eq_true_eq] at hSound
    rw [Fields.read_field] at hRead
    obtain ⟨value, hValue, hRead⟩ := Option.bind_eq_some_iff.mp hRead
    obtain ⟨others, hOthers, rfl⟩ := Option.map_eq_some_iff.mp hRead
    have hSlot := readSlot_written (fun _ => Shape.read_written shape hSound.1.2) hValue
    rw [Fields.read_field, List.lookup_cons, beq_self_eq_true, hSlot, read_cons_fresh hSound.1.1,
      Fields.read_written rest hSound.2 hOthers]
    rfl

theorem Fields.readItems_written {items : List Json} {written : JsonMap} : (inner : Fields) → inner.sound = true →
    inner.readItems items = some written → inner.read written = some written
  | .none, _, hRead => by
    cases items with
    | nil =>
      obtain rfl := Option.some.inj hRead
      rfl
    | cons _ _ => cases hRead
  | .field name shape rest, hSound, hRead => by
    cases items with
    | nil => cases hRead
    | cons json items =>
      simp only [Fields.sound, Bool.and_eq_true, decide_eq_true_eq] at hSound
      rw [Fields.readItems_field] at hRead
      obtain ⟨value, hValue, hRead⟩ := Option.bind_eq_some_iff.mp hRead
      obtain ⟨others, hOthers, rfl⟩ := Option.map_eq_some_iff.mp hRead
      have hSlot := readSlot_written (fun _ => Shape.read_written shape hSound.1.2) hValue
      rw [Fields.read_field, List.lookup_cons, beq_self_eq_true, hSlot, read_cons_fresh hSound.1.1,
        Fields.readItems_written rest hSound.2 hOthers]
      rfl

end

/-! ## Distinct keys -/

def Distinct (members : JsonMap) : Prop :=
  (members.map Prod.fst).Nodup

instance (members : JsonMap) : Decidable (Distinct members) :=
  inferInstanceAs (Decidable (List.Nodup _))

theorem mem_keys_set {key name : String} (members : JsonMap) :
    name ∈ (members.set key value).map Prod.fst → name = key ∨ name ∈ members.map Prod.fst := by
  induction members with
  | nil => simp [JsonMap.set]
  | cons member members ih =>
    rw [JsonMap.set]
    split
    next => exact .inr
    next =>
      intro hName
      obtain hHead | hTail := List.mem_cons.mp hName
      · exact .inr (hHead ▸ List.mem_cons_self)
      · exact (ih hTail).imp_right (List.mem_cons_of_mem _)

theorem Distinct.set (hDistinct : Distinct members) (key : String) (value : Json) :
    Distinct (members.set key value) := by
  unfold Distinct at hDistinct ⊢
  induction members with
  | nil => simp [JsonMap.set]
  | cons member members ih =>
    obtain ⟨hFresh, hRest⟩ := List.nodup_cons.mp hDistinct
    rw [JsonMap.set]
    split
    next => exact List.nodup_cons.mpr ⟨hFresh, hRest⟩
    next hKey =>
      refine List.nodup_cons.mpr ⟨fun hName => ?_, ih hRest⟩
      obtain hSame | hOld := mem_keys_set members hName
      · exact hKey hSame
      · exact hFresh hOld

theorem Distinct.remove {members : JsonMap} (hDistinct : Distinct members) (key : String) :
    Distinct (members.remove key) := by
  have hSub : List.Sublist ((members.remove key).map Prod.fst) (members.map Prod.fst) :=
    List.filter_sublist.map Prod.fst
  exact hSub.nodup hDistinct

/-! ## The lenient reader -/

theorem lookup_set (key other : String) (value : Json) (members : JsonMap) :
    (members.set key value).lookup other = if other = key then some value else members.lookup other := by
  split
  next hSame => exact hSame ▸ JsonMap.lookup_set_self key value members
  next hNe => exact JsonMap.lookup_set_of_ne hNe value members

theorem lookup_eq_none_of_keys (hKey : key ∉ members.map Prod.fst) :
    members.lookup key = none := by
  rw [List.lookup_eq_none_iff]
  intro member hMember
  have hNe : key ≠ member.1 := fun hSame => hKey (hSame ▸ List.mem_map_of_mem hMember)
  simpa using hNe

theorem lookup_overlay : (members map : JsonMap) → (members.map Prod.fst).Nodup →
    (members.foldl (fun map member => if member.2 = .null then map else map.set member.1 member.2) map).lookup key =
      ((members.lookup key).filter (· ≠ .null)).or (map.lookup key)
  | [], _, _ => rfl
  | (name, value) :: rest, map, hNodup => by
    rw [List.map_cons, List.nodup_cons] at hNodup
    rw [List.foldl_cons, lookup_overlay rest _ hNodup.2, List.lookup_cons]
    by_cases hKey : key = name
    · subst hKey
      rw [lookup_eq_none_of_keys hNodup.1, beq_self_eq_true]
      by_cases hNull : value = .null
      · simp [hNull, Option.filter]
      · simp [hNull, Option.filter, JsonMap.lookup_set_self]
    · rw [beq_false_of_ne hKey]
      by_cases hNull : value = .null
      · simp [hNull]
      · simp [hNull, JsonMap.lookup_set_of_ne hKey]

theorem names_nodup : (inner : Fields) → inner.sound = true → inner.names.Nodup
  | .none, _ => List.nodup_nil
  | .field _ _ rest, hSound => by
    simp only [Fields.sound, Bool.and_eq_true, decide_eq_true_eq] at hSound
    exact List.nodup_cons.mpr ⟨hSound.1.1, names_nodup rest hSound.2⟩

theorem KNOWN_FIELDS_known : ∀ key ∈ KNOWN_FIELDS, key ∈ fields.names := by
  decide +kernel

def contribution (key : String) (value : Json) : Option Json :=
  if value = .null then none
  else match fields.lookup key with
    | some shape => shape.read value
    | none => some value

theorem contribution_field (hField : fields.lookup key = some shape) (found : Option Json) :
    shape.readSlot (found.bind (contribution key)) = some ((found.bind (contribution key)).getD .null) := by
  cases found with
  | none => rfl
  | some json =>
    by_cases hNull : json = .null
    · simp [contribution, hNull, Shape.readSlot]
    · simp only [Option.bind_some, contribution, hNull, if_false, hField]
      cases hRead : shape.read json with
      | none => rfl
      | some value =>
        rw [Shape.readSlot_of_ne (Shape.read_ne_null hNull hRead)]
        exact Shape.read_written shape (Fields.sound_of_lookup fields fields_sound hField) hRead

theorem readSlot_getD (hField : fields.lookup key = some shape) (found : Option Json) :
    (shape.readSlot found).getD .null = (found.bind (contribution key)).getD .null := by
  cases found with
  | none => rfl
  | some json =>
    by_cases hNull : json = .null
    · simp [contribution, hNull, Shape.readSlot]
    · rw [Shape.readSlot_of_ne hNull]
      simp [contribution, hNull, hField]

theorem lookup_part {part : Settings} (hPart : Settings.from_value (.object [member]) = some part) (key : String) :
    ((part.to_value.members.lookup key).filter (· ≠ .null)) =
      if key = member.1 then contribution key member.2 else none := by
  obtain ⟨name, value⟩ := member
  obtain ⟨written, hWritten, rfl⟩ := Option.map_eq_some_iff.mp hPart
  show ((written ++ unknown [(name, value)]).lookup key).filter _ = _
  rw [List.lookup_append]
  by_cases hKnown : key ∈ fields.names
  · obtain ⟨shape, hField⟩ := Fields.exists_lookup fields hKnown
    rw [lookup_unknown hKnown, Option.or_none, Fields.read_lookup fields hWritten hField, List.lookup_cons]
    by_cases hKey : key = name
    · subst hKey
      rw [beq_self_eq_true, if_pos rfl]
      by_cases hNull : value = .null
      · simp [contribution, hNull, Shape.readSlot, Option.filter]
      · simp only [Shape.readSlot_of_ne hNull, contribution, hNull, if_false, hField]
        cases hRead : shape.read value with
        | none => rfl
        | some json => simp [Option.filter, Shape.read_ne_null hNull hRead]
    · simp [beq_false_of_ne hKey, hKey, Shape.readSlot, Option.filter]
  · have hAbsent : written.lookup key = none :=
      lookup_eq_none_of_keys (by rwa [Fields.read_names fields hWritten])
    rw [hAbsent, Option.none_or]
    have hField := Fields.lookup_eq_none fields hKnown
    by_cases hKey : key = name
    · subst hKey
      by_cases hNull : value = .null
      · simp [unknown, hKnown, contribution, hNull, Option.filter]
      · simp [unknown, hKnown, contribution, hNull, hField, Option.filter]
    · by_cases hName : name ∈ fields.names
      · simp [unknown, hName, hKey, Option.filter]
      · simp [unknown, hName, hKey, List.lookup_cons, beq_false_of_ne hKey, Option.filter]

theorem contribution_unread (hPart : Settings.from_value (.object [member]) = none) :
    contribution member.1 member.2 = none := by
  obtain ⟨name, value⟩ := member
  have hNone : (fields.read [(name, value)]).isSome = false := by
    rw [Option.isSome_eq_false_iff, Option.isNone_iff_eq_none]
    exact Option.map_eq_none_iff.mp hPart
  by_contra hSome
  rw [← Bool.not_eq_true, Fields.read_isSome_iff fields fields_sound] at hNone
  refine hNone fun key shape hField => ?_
  rw [List.lookup_cons]
  by_cases hKey : key = name
  · subst hKey
    rw [beq_self_eq_true]
    by_cases hNull : value = .null
    · simp [hNull, Shape.readSlot]
    · rw [Shape.readSlot_of_ne hNull]
      simpa [contribution, hNull, hField, Option.isSome_iff_ne_none] using hSome
  · simp [beq_false_of_ne hKey, Shape.readSlot]

theorem lookup_lenientField (map : JsonMap) (member : String × Json) (key : String) :
    (lenientField map member).lookup key =
      (if key = member.1 then contribution key member.2 else none).or (map.lookup key) := by
  unfold lenientField
  split
  next hPart =>
    split
    next hKey => rw [hKey, contribution_unread hPart, Option.none_or]
    next => rw [Option.none_or]
  next part hPart =>
    have hKept : ¬ (member.1 ∈ KNOWN_FIELDS ∧ (part.extra.lookup member.1).isSome) := by
      rintro ⟨hKnown, hExtra⟩
      rw [part.extra_unknown member.1 (KNOWN_FIELDS_known member.1 hKnown)] at hExtra
      cases hExtra
    rw [if_neg hKept, lookup_overlay, lookup_part hPart]
    obtain ⟨written, hWritten, rfl⟩ := Option.map_eq_some_iff.mp hPart
    show ((written ++ unknown [member]).map Prod.fst).Nodup
    rw [List.map_append, Fields.read_names fields hWritten, List.nodup_append]
    refine ⟨names_nodup fields fields_sound, ?_, ?_⟩
    · have hSub : List.Sublist ((unknown [member]).map Prod.fst) [member.1] := List.filter_sublist.map Prod.fst
      exact hSub.nodup (by simp)
    · rintro name hName other hOther rfl
      obtain ⟨found, hFound, rfl⟩ := List.mem_map.mp hOther
      simpa [hName] using (List.mem_filter.mp hFound).2

theorem lookup_lenient : (members map : JsonMap) → (members.map Prod.fst).Nodup →
    (members.foldl lenientField map).lookup key = ((members.lookup key).bind (contribution key)).or (map.lookup key)
  | [], _, _ => rfl
  | (name, value) :: rest, map, hNodup => by
    rw [List.map_cons, List.nodup_cons] at hNodup
    rw [List.foldl_cons, lookup_lenient rest _ hNodup.2, List.lookup_cons, lookup_lenientField]
    by_cases hKey : key = name
    · subst hKey
      rw [lookup_eq_none_of_keys hNodup.1, beq_self_eq_true, if_pos rfl]
      rfl
    · rw [beq_false_of_ne hKey, if_neg hKey, Option.none_or]

theorem from_value_known {members written : JsonMap} (hRead : fields.read members = some written) :
    ∃ settings, Settings.from_value (.object members) = some settings ∧ settings.known = written :=
  ⟨_, Option.map_eq_some_iff.mpr ⟨written, hRead, rfl⟩, rfl⟩

theorem from_value_lenient_known {document : JsonMap} (hNodup : (document.map Prod.fst).Nodup)
    (hField : fields.lookup key = some shape) :
    (from_value_lenient (.object document)).known.lookup key = some
      ((shape.readSlot (document.lookup key)).getD .null) := by
  unfold from_value_lenient
  split
  next settings hStrict =>
    obtain ⟨written, hWritten, rfl⟩ := Option.map_eq_some_iff.mp hStrict
    have hSlot := (Fields.read_isSome_iff fields fields_sound).mp (by rw [hWritten]; rfl) key shape hField
    obtain ⟨value, hValue⟩ := Option.isSome_iff_exists.mp hSlot
    rw [hValue]
    exact (Fields.read_lookup fields hWritten hField).trans hValue
  next =>
    have hLookup : ∀ key, (document.foldl lenientField []).lookup key = (document.lookup key).bind (contribution key) :=
      fun key => (lookup_lenient document [] hNodup).trans Option.or_none
    have hReads : (fields.read (document.foldl lenientField [])).isSome := by
      refine (Fields.read_isSome_iff fields fields_sound).mpr fun other slot hOther => ?_
      rw [hLookup, contribution_field hOther]
      rfl
    obtain ⟨written, hWritten⟩ := Option.isSome_iff_exists.mp hReads
    obtain ⟨settings, hSettings, hKnown⟩ := from_value_known hWritten
    show (((Settings.from_value (.object (document.foldl lenientField []))).getD .default).known).lookup key = _
    rw [hSettings, Option.getD_some, hKnown, Fields.read_lookup fields hWritten hField, hLookup,
      contribution_field hField, readSlot_getD hField]

end PrimeAgent.Settings
