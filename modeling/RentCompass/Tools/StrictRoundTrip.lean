import RentCompass.Fallible
import RentCompass.Tools.StrictEncoder

/-!
# Strict arguments round-trip

The executor makes of every argument that the strict schema accepts one that the authored schema
accepts, and every argument the authored schema accepts comes from one the strict schema accepts.
-/

namespace RentCompass.Tools

variable {φ : Type} [FloatFormat φ]

/-! ### The executor's walk over each form -/

omit [FloatFormat φ] in
lemma propSchema_single {node : Dict (JsonValue φ)} (h : node.get? "anyOf" = none) :
    propSchema (.obj node) = node := by
  simp [propSchema, unionOf, h]

omit [FloatFormat φ] in
lemma NullableNode.propSchema_eq {node inner : Dict (JsonValue φ)} (h : NullableNode node inner)
    (hinner : typeIs inner "null" = false) : propSchema (.obj node) = inner := by
  have hnull : nonNullBranch (nullBranch : JsonValue φ) = none := rfl
  have hbranch : nonNullBranch (.obj inner) = some inner := by simp [nonNullBranch, hinner]
  rcases h.union with hu | hu <;> simp [Tools.propSchema, unionOf, hu, hnull, hbranch]

lemma walk_congr {schema schema' : JsonValue φ} (h : propSchema schema = propSchema schema')
    (v : JsonValue φ) : walk schema v = walk schema' v := by
  cases v <;> simp only [walk, h]

lemma walkItems_eq (schema : JsonValue φ) (items : List (JsonValue φ)) :
    walkItems schema items = items.map (walk schema) := by
  induction items with
  | nil => rfl
  | cons v items ih => simp [walkItems, ih]

lemma walkFields_eq (props fields : Dict (JsonValue φ)) : walkFields props fields =
    fields.map fun p => (p.1, walk ((props.get? p.1).getD (.obj [])) p.2) := by
  induction fields with
  | nil => rfl
  | cons p fields ih => simp [walkFields, ih]

/-- A scalar is left as it is. -/
lemma walk_same {node : Dict (JsonValue φ)} (hany : node.get? "anyOf" = none)
    (hobject : isObjectNode node = false) (harray : typeIs node "array" = false)
    (v : JsonValue φ) : walk (.obj node) v = v := by
  have hprops : ∀ props, node.get? "properties" ≠ some (.obj props) := by
    intro props hp
    simp [isObjectNode, hp] at hobject
  cases v with
  | obj fields =>
    cases hp : node.get? "properties" with
    | none => simp [walk, propSchema_single hany, hp]
    | some props =>
      cases props with
      | obj props => exact absurd hp (hprops props)
      | _ => simp [walk, propSchema_single hany, hp]
  | _ => simp [walk, propSchema_single hany, hobject, harray]

lemma walk_array {node items : Dict (JsonValue φ)} (h : ArrayNode node items)
    (vs : List (JsonValue φ)) :
    walk (.obj node) (.arr vs) = .arr (vs.map (walk (.obj items))) := by
  simp [walk, propSchema_single (h.keys.get?_none "anyOf" (by decide)), h.isObjectNode, typeIs,
    h.typed, itemsOf, h.items, walkItems_eq]

lemma walk_object {node props : Dict (JsonValue φ)} {required : List Text}
    (h : ObjectNode node props required) (fields : Dict (JsonValue φ)) :
    walk (.obj node) (.obj fields) =
      .obj (fields.map fun p => (p.1, walk ((props.get? p.1).getD (.obj [])) p.2)) := by
  simp [walk, propSchema_single (h.keys.get?_none "anyOf" (by decide)), h.properties,
    walkFields_eq]

lemma walk_freeForm {node : Dict (JsonValue φ)} (h : FreeFormNode node) (t : Text) :
    walk (.obj node) (.str t) = decodeText t := by
  simp [walk, propSchema_single (h.keys.get?_none "anyOf" (by decide)), isObjectNode, typeIs,
    h.typed]

/-! ### Dropping nulls -/

/-- What dropping nulls keeps of a field. -/
def keepNonNull (v : JsonValue φ) : Option (JsonValue φ) :=
  match v with
  | .null => none
  | v => some (stripNullArgs v)

omit [FloatFormat φ] in
lemma stripNullFields_eq (fields : Dict (JsonValue φ)) : stripNullFields fields =
    fields.filterMap fun p => (keepNonNull p.2).map (p.1, ·) := by
  induction fields with
  | nil => rfl
  | cons p fields ih =>
    obtain ⟨k, v⟩ := p
    cases v <;> simp [stripNullFields, keepNonNull, ih]

omit [FloatFormat φ] in
lemma keepNonNull_of_ne {v : JsonValue φ} (h : v ≠ .null) :
    keepNonNull v = some (stripNullArgs v) := by
  cases v with
  | null => exact absurd rfl h
  | _ => rfl

omit [FloatFormat φ] in
lemma keepNonNull_some {v w : JsonValue φ} (h : keepNonNull v = some w) :
    v ≠ .null ∧ w = stripNullArgs v := by
  cases v with
  | null => cases h
  | _ => exact ⟨by simp, (Option.some.inj h).symm⟩

omit [FloatFormat φ] in
lemma get?_stripNullFields {fields : Dict (JsonValue φ)} (h : fields.keys.Nodup) (key : Text) :
    Dict.get? (stripNullFields fields) key = (fields.get? key).bind keepNonNull := by
  rw [stripNullFields_eq]
  exact Dict.get?_filterMap h (fun _ v => keepNonNull v) key

omit [FloatFormat φ] in
lemma keys_stripNullFields (fields : Dict (JsonValue φ)) :
    (Dict.keys (stripNullFields fields)).Sublist fields.keys := by
  rw [stripNullFields_eq]
  exact Dict.keys_filterMap_sublist fields fun _ v => keepNonNull v

omit [FloatFormat φ] in
lemma stripNullArgs_ne_null {v : JsonValue φ} (h : v ≠ .null) : stripNullArgs v ≠ .null := by
  cases v with
  | null => exact absurd rfl h
  | _ => simp [stripNullArgs]

lemma walk_ne_null (schema : JsonValue φ) {v : JsonValue φ} (h : v ≠ .null) :
    walk schema v ≠ .null := by
  cases v with
  | null => exact absurd rfl h
  | str t =>
    simp only [walk, decodeText]
    split_ifs
    · split <;> simp
    · simp
  | arr items =>
    simp only [walk]
    split_ifs <;> simp
  | obj fields =>
    simp only [walk]
    split <;> simp
  | _ => simp [walk]

/-- What the executor makes of one argument. -/
def executorValue (schema v : JsonValue φ) : JsonValue φ :=
  stripNullArgs (walk schema (stripNullArgs v))

lemma get?_executorFields {props fields : Dict (JsonValue φ)} (h : fields.keys.Nodup) (key : Text) :
    Dict.get? (stripNullFields ((stripNullFields fields).map fun p =>
      (p.1, walk ((props.get? p.1).getD (.obj [])) p.2))) key =
      ((fields.get? key).bind keepNonNull).bind fun v =>
        keepNonNull (walk ((props.get? key).getD (.obj [])) v) := by
  have hstrip : (Dict.keys (stripNullFields fields)).Nodup := h.sublist (keys_stripNullFields fields)
  have hkeys : (Dict.keys ((stripNullFields fields).map fun p =>
      (p.1, walk ((props.get? p.1).getD (.obj [])) p.2))).Nodup := by
    simpa [Dict.keys, Function.comp_def] using hstrip
  rw [get?_stripNullFields hkeys,
    Dict.get?_map (stripNullFields fields) (fun k v => walk ((props.get? k).getD (.obj [])) v),
    get?_stripNullFields h]
  cases (fields.get? key).bind keepNonNull <;> rfl

/-! ### Arguments that are texts of objects -/

mutual

/-- Every text that stands for an object is the JSON of one. -/
def Decodable (schema : JsonValue φ) : JsonValue φ → Prop
  | .str text => isObjectNode (propSchema schema) →
      ∃ fields, (JsonValue.loads text : Option (JsonValue φ)) = some (.obj fields)
  | .arr items => DecodableItems (itemsOf (propSchema schema)) items
  | .obj fields =>
    match (propSchema schema).get? "properties" with
    | some (.obj props) => DecodableFields props fields
    | _ => True
  | _ => True

def DecodableItems (schema : JsonValue φ) : List (JsonValue φ) → Prop
  | [] => True
  | v :: items => Decodable schema v ∧ DecodableItems schema items

def DecodableFields (props : Dict (JsonValue φ)) : List (Text × JsonValue φ) → Prop
  | [] => True
  | (key, v) :: fields =>
    Decodable ((props.get? key).getD (.obj [])) v ∧ DecodableFields props fields

end

lemma decodable_congr {schema schema' : JsonValue φ} (h : propSchema schema = propSchema schema')
    (v : JsonValue φ) : Decodable schema v ↔ Decodable schema' v := by
  cases v <;> simp only [Decodable, h]

lemma decodableItems_iff {schema : JsonValue φ} {items : List (JsonValue φ)} :
    DecodableItems schema items ↔ ∀ v ∈ items, Decodable schema v := by
  induction items with
  | nil => simp [DecodableItems]
  | cons v items ih => simp [DecodableItems, ih]

lemma decodableFields_iff {props fields : Dict (JsonValue φ)} : DecodableFields props fields ↔
    ∀ p ∈ fields, Decodable ((props.get? p.1).getD (.obj [])) p.2 := by
  induction fields with
  | nil => simp [DecodableFields]
  | cons p fields ih => simp [DecodableFields, ih]

/-! ### Nothing breaks -/

omit [FloatFormat φ] in
/-- A schema that is no union with null is its own value schema. -/
lemma Authored.anyOf_none {inArray : Bool} {node : Dict (JsonValue φ)}
    (h : Authored inArray (.obj node)) (hnull : isNullable (.obj node) = false) :
    node.get? "anyOf" = none := (h.single hnull).2.2.1

/-- The strict schema of one that is no union with null rejects null. -/
lemma Authored.strict_rejects_null {inArray : Bool} {j : JsonValue φ} (h : Authored inArray j)
    (hnull : isNullable j = false) (kw : Keywords φ) : accepts kw (strictNode j) .null = false := by
  have hrejects := h.rejects_null hnull kw
  rw [← Bool.not_eq_true]
  intro hacc
  cases h with
  | scalar _ hnode =>
    rw [strict_scalar hnode, hrejects] at hacc
    cases hacc
  | enum _ hnode =>
    rw [strict_enum hnode, hrejects] at hacc
    cases hacc
  | array _ hnode =>
    obtain ⟨ws, hws, -⟩ := (strict_array hnode kw _).1 hacc
    cases hws
  | object _ hnode hne =>
    obtain ⟨d, hd, -⟩ := (strict_object hnode (.inr hne) kw _).1 hacc
    cases hd
  | freeForm _ hnode =>
    obtain ⟨t, ht⟩ := (strict_freeForm hnode kw _).1 hacc
    cases ht
  | nullable _ hnode =>
    rw [hnode.nullable] at hnull
    cases hnull

lemma ScalarNode.walk_same {node : Dict (JsonValue φ)} {type : Text} (h : ScalarNode node type)
    (v : JsonValue φ) : walk (.obj node) v = v := by
  have harray : typeIs node "array" = false := by
    have hscalar := h.scalar
    simp only [List.map_cons, List.map_nil, List.mem_cons, List.not_mem_nil, or_false] at hscalar
    rcases hscalar with rfl | rfl | rfl | rfl <;> simp [typeIs, h.typed]
  exact Tools.walk_same (h.keys.get?_none _ (by decide)) h.isObjectNode harray v

lemma EnumNode.walk_same {node : Dict (JsonValue φ)} {values : List (JsonValue φ)}
    (h : EnumNode node values) (v : JsonValue φ) : walk (.obj node) v = v :=
  Tools.walk_same (h.keys.get?_none _ (by decide)) h.isObjectNode
    (by simp [typeIs, h.keys.get?_none "type" (by decide)]) v

omit [FloatFormat φ] in
lemma NullableNode.propSchema_inner {node inner : Dict (JsonValue φ)} (h : NullableNode node inner)
    {inArray : Bool} (hinner : Authored inArray (.obj inner))
    (hnull : isNullable (.obj inner) = false) :
    propSchema (.obj node) = propSchema (.obj inner) := by
  obtain ⟨-, -, hany, htype⟩ := hinner.single hnull
  rw [h.propSchema_eq htype, propSchema_single hany]

lemma Authored.accepts_null {inArray : Bool} {j : JsonValue φ} (h : Authored inArray j)
    (hnull : isNullable j) (kw : Keywords φ) : accepts kw j .null := by
  obtain ⟨node, rfl⟩ := h.eq_obj
  obtain ⟨inner, hnode, -, -⟩ := h.of_nullable hnull
  exact (accepts_nullable hnode kw _).2 (.inl rfl)

lemma FreeFormNode.decodeText_eq {node : Dict (JsonValue φ)} (h : FreeFormNode node) {t : Text}
    (hdec : Decodable (.obj node) (.str t)) :
    ∃ fields, decodeText t = (.obj fields : JsonValue φ) := by
  have hobject : isObjectNode node = true := by simp [isObjectNode, typeIs, h.typed]
  simp only [Decodable, propSchema_single (h.keys.get?_none "anyOf" (by decide)), hobject,
    forall_const] at hdec
  obtain ⟨fields, hfields⟩ := hdec
  exact ⟨fields, by simp [decodeText, hfields]⟩

/-- Inside a list, what the strict schema accepts is decoded to what the schema accepts. -/
lemma Authored.sound_inArray {inArray : Bool} {j : JsonValue φ} (h : Authored inArray j)
    (harray : inArray = true) (kw : Keywords φ) (w : JsonValue φ)
    (hw : accepts kw (strictNode j) w) (hdec : Decodable j w) : accepts kw j (walk j w) := by
  induction h generalizing w with
  | scalar _ hnode => rwa [hnode.walk_same, ← strict_scalar hnode]
  | enum _ hnode => rwa [hnode.walk_same, ← strict_enum hnode]
  | array _ hnode hstrings hitems ih =>
    obtain ⟨ws, rfl, hws⟩ := (strict_array hnode kw w).1 hw
    rw [walk_array hnode]
    refine (accepts_array hnode.plain hnode.items kw _).2 ⟨_, rfl, fun x hx => ?_⟩
    obtain ⟨y, hy, rfl⟩ := List.mem_map.1 hx
    refine ih rfl y ((strict_items hitems hstrings kw y).1 (hws y hy)) ?_
    simp only [Decodable, propSchema_single (hnode.keys.get?_none "anyOf" (by decide)), itemsOf,
      hnode.items, Option.getD_some, decodableItems_iff] at hdec
    exact hdec y hy
  | @object _ node props required hnode hne hprops hflags ih =>
    subst harray
    obtain ⟨d, rfl, hd⟩ := (strict_object hnode (.inr hne) kw w).1 hw
    rw [walk_object hnode]
    have hkeys : Dict.keys (d.map fun p => (p.1, walk ((Dict.get? props p.1).getD (.obj [])) p.2)) =
        Dict.keys d := by
      simp [Dict.keys, Function.comp_def]
    refine (accepts_object hnode kw _).2 ⟨_, rfl, ?_, ?_, ?_⟩
    · intro name hname
      rw [hkeys]
      exact hd.required name (hnode.declared hname)
    · intro p hp x hx
      have hprop := (Dict.mem_iff_get? hnode.propsNodup).1 hp
      rw [Dict.get?_map d (fun k v => walk ((Dict.get? props k).getD (.obj [])) v), hprop] at hx
      obtain ⟨y, hy, rfl⟩ := Option.map_eq_some_iff.1 hx
      have hdecy : Decodable p.2 y := by
        simp only [Decodable, propSchema_single (hnode.keys.get?_none "anyOf" (by decide)),
          hnode.properties, decodableFields_iff] at hdec
        simpa [hprop] using hdec _ (Dict.mem_of_get? hy)
      have hacc := hd.properties _ (List.mem_map_of_mem hp) y hy
      obtain ⟨n, hn⟩ := (hprops p hp).eq_obj
      rw [hn, strict_property (hn ▸ hprops p hp), ← hn] at hacc
      rcases hacc with ⟨rfl, hopt⟩ | hacc
      · exact (hprops p hp).accepts_null ((hflags p hp).resolve_left hopt) kw
      · exact ih p hp rfl y hacc hdecy
    · intro _ key hkey
      rw [hkeys] at hkey
      simpa using hd.closed trivial key hkey
  | freeForm _ hnode =>
    obtain ⟨t, rfl⟩ := (strict_freeForm hnode kw w).1 hw
    obtain ⟨fields, hfields⟩ := hnode.decodeText_eq hdec
    rw [walk_freeForm hnode, hfields]
    exact (accepts_freeForm hnode kw _).2 ⟨fields, rfl⟩
  | nullable _ hnode hninner hinner ih =>
    have hprop := hnode.propSchema_inner hinner hninner
    rw [accepts_nullable hnode, walk_congr hprop]
    rcases (strict_nullable hnode hninner hinner kw w).1 hw with rfl | hw
    · exact .inl rfl
    · exact .inr (ih harray w hw ((decodable_congr hprop w).1 hdec))

/-- What the executor makes of an object's fields, one by one. -/
lemma FieldsMeet.executor {props fields : Dict (JsonValue φ)} {required : List Text} {closed : Prop}
    {kw : Keywords φ} (hd : FieldsMeet kw (strictProps props required) props.keys True fields)
    (hprops : props.keys.Nodup) (hdeclared : required ⊆ props.keys) (hfields : fields.keys.Nodup)
    (hauth : ∀ p ∈ props, Authored false p.2)
    (hnotBoth : ∀ p ∈ props, ¬ (p.1 ∈ required ∧ isNullable p.2))
    (hvalue : ∀ p ∈ props, ∀ x, (p.1, x) ∈ fields → x ≠ .null → accepts kw (strictNode p.2) x →
      accepts kw p.2 (executorValue p.2 x)) :
    FieldsMeet kw props required closed (stripNullFields ((stripNullFields fields).map fun p =>
      (p.1, walk ((props.get? p.1).getD (.obj [])) p.2))) := by
  have hkeys : ∀ key ∈ Dict.keys (stripNullFields ((stripNullFields fields).map fun p =>
      (p.1, walk ((props.get? p.1).getD (.obj [])) p.2))), key ∈ fields.keys := by
    intro key hkey
    have hmap := (keys_stripNullFields _).subset hkey
    simp only [Dict.keys, List.map_map, Function.comp_def] at hmap
    exact (keys_stripNullFields fields).subset hmap
  have hreach {key : Text} {x : JsonValue φ} (hx : fields.get? key = some x) (hnull : x ≠ .null) :
      Dict.get? (stripNullFields ((stripNullFields fields).map fun p =>
        (p.1, walk ((props.get? p.1).getD (.obj [])) p.2))) key =
      some (executorValue ((props.get? key).getD (.obj [])) x) := by
    rw [get?_executorFields hfields, hx, Option.bind_some, keepNonNull_of_ne hnull,
      Option.bind_some, keepNonNull_of_ne (walk_ne_null _ (stripNullArgs_ne_null hnull))]
    rfl
  have hstrict {p : Text × JsonValue φ} (hp : p ∈ props) {x : JsonValue φ}
      (hx : fields.get? p.1 = some x) :
      (x = .null ∧ p.1 ∉ required) ∨ accepts kw (strictNode p.2) x := by
    have hacc := hd.properties _ (List.mem_map_of_mem hp) x hx
    obtain ⟨n, hn⟩ := (hauth p hp).eq_obj
    rwa [hn, strict_property (hn ▸ hauth p hp), ← hn] at hacc
  constructor
  · intro name hname
    obtain ⟨j, hj⟩ := Dict.exists_get? (hdeclared hname)
    have hp := Dict.mem_of_get? hj
    obtain ⟨x, hx⟩ := Dict.exists_get? (hd.required name (hdeclared hname))
    have hne : x ≠ .null := by
      rintro rfl
      rcases hstrict hp hx with ⟨-, hopt⟩ | hacc
      · exact hopt hname
      · rw [(hauth _ hp).strict_rejects_null (by simpa [hname] using hnotBoth _ hp)] at hacc
        cases hacc
    exact Dict.mem_keys_of_get? (hreach hx hne)
  · intro p hp x hx
    rw [get?_executorFields hfields] at hx
    obtain ⟨y', hy', hx⟩ := Option.bind_eq_some_iff.1 hx
    obtain ⟨y, hy, hkeep⟩ := Option.bind_eq_some_iff.1 hy'
    obtain ⟨hne, rfl⟩ := keepNonNull_some hkeep
    obtain ⟨-, rfl⟩ := keepNonNull_some hx
    rw [(Dict.mem_iff_get? hprops).1 hp, Option.getD_some]
    rcases hstrict hp hy with ⟨hnull, -⟩ | hacc
    · exact absurd hnull hne
    · exact hvalue p hp y (Dict.mem_of_get? hy) hne hacc
  · intro _ key hkey
    simpa using hd.closed trivial key (hkeys key hkey)

/-- What the strict schema accepts is decoded to what the schema accepts. -/
lemma Authored.sound {inArray : Bool} {j : JsonValue φ} (h : Authored inArray j)
    (hspine : inArray = false) (kw : Keywords φ) (w : JsonValue φ) (hne : w ≠ .null)
    (hdict : w.distinctKeys) (hw : accepts kw (strictNode j) w)
    (hdec : Decodable j (stripNullArgs w)) : accepts kw j (executorValue j w) := by
  induction h generalizing w with
  | @scalar _ node type hnode =>
    have hmatch := hnode.matches ((strict_scalar hnode kw w).symm.trans hw)
    have hstrip : stripNullArgs w = w := by
      cases w with
      | obj d =>
        have hscalar := hnode.scalar
        simp only [List.map_cons, List.map_nil, List.mem_cons, List.not_mem_nil, or_false]
          at hscalar
        rcases hscalar with rfl | rfl | rfl | rfl <;> simp [schemaTypeMatches] at hmatch
      | _ => rfl
    rwa [executorValue, hnode.walk_same, hstrip, hstrip, ← strict_scalar hnode]
  | enum _ hnode =>
    rw [strict_enum hnode] at hw
    have hstrip : stripNullArgs w = w := by
      rcases hnode.members w (hnode.mem hw) with ⟨s, rfl⟩ | ⟨b, rfl⟩ <;> rfl
    rwa [executorValue, hnode.walk_same, hstrip, hstrip]
  | array _ hnode hstrings hitems =>
    have hacc := (Authored.array true hnode hstrings hitems).sound_inArray rfl kw w hw
    obtain ⟨ws, rfl, -⟩ := (strict_array hnode kw w).1 hw
    have hstrip : stripNullArgs (.arr ws : JsonValue φ) = .arr ws := rfl
    rw [hstrip] at hdec
    have hwalk := hacc hdec
    rw [walk_array hnode] at hwalk
    rw [executorValue, hstrip, walk_array hnode]
    exact hwalk
  | @object _ node props required hnode hprops hauth hflags ih =>
    subst hspine
    obtain ⟨d, rfl, hd⟩ := (strict_object hnode (.inr hprops) kw w).1 hw
    obtain ⟨hnodup, hdistinct⟩ := JsonValue.distinctKeys_obj.1 hdict
    have hdecFields : DecodableFields props (stripNullFields d) := by
      simpa only [stripNullArgs, Decodable,
        propSchema_single (hnode.keys.get?_none "anyOf" (by decide)), hnode.properties] using hdec
    rw [executorValue, stripNullArgs, walk_object hnode]
    refine (accepts_object hnode kw _).2 ⟨_, rfl, ?_⟩
    refine hd.executor hnode.propsNodup hnode.declared hnodup hauth
      (fun p hp => by simpa using hflags p hp) fun p hp x hx hxne hacc => ?_
    refine ih p hp rfl x hxne (hdistinct _ hx) hacc ?_
    have hmem : (p.1, stripNullArgs x) ∈ stripNullFields d := by
      rw [stripNullFields_eq]
      exact List.mem_filterMap.2 ⟨_, hx, by rw [keepNonNull_of_ne hxne]; rfl⟩
    simpa [(Dict.mem_iff_get? hnode.propsNodup).1 hp] using decodableFields_iff.1 hdecFields _ hmem
  | freeForm _ hnode =>
    obtain ⟨t, rfl⟩ := (strict_freeForm hnode kw w).1 hw
    obtain ⟨fields, hfields⟩ := hnode.decodeText_eq hdec
    have hstrip : stripNullArgs (.str t : JsonValue φ) = .str t := rfl
    rw [executorValue, hstrip, walk_freeForm hnode, hfields]
    exact (accepts_freeForm hnode kw _).2 ⟨_, rfl⟩
  | nullable _ hnode hninner hinner ih =>
    have hprop := hnode.propSchema_inner hinner hninner
    have hacc := ((strict_nullable hnode hninner hinner kw w).1 hw).resolve_left hne
    rw [accepts_nullable hnode, executorValue, walk_congr hprop]
    exact .inr (ih hspine w hne hdict hacc ((decodable_congr hprop _).1 hdec))

/-! ### Nothing is lost -/

mutual

/-- Every object has declared properties only, and inside a list all of them. -/
def Declared (inArray : Bool) (schema : JsonValue φ) : JsonValue φ → Prop
  | .arr items => DeclaredItems (itemsOf (propSchema schema)) items
  | .obj fields =>
    match (propSchema schema).get? "properties" with
    | some (.obj (p :: props)) => DeclaredFields inArray (p :: props) fields ∧
        (inArray = true → ∀ key ∈ Dict.keys (p :: props), key ∈ Dict.keys fields)
    | _ => True
  | _ => True

def DeclaredItems (schema : JsonValue φ) : List (JsonValue φ) → Prop
  | [] => True
  | v :: items => Declared true schema v ∧ DeclaredItems schema items

def DeclaredFields (inArray : Bool) (props : Dict (JsonValue φ)) :
    List (Text × JsonValue φ) → Prop
  | [] => True
  | (key, v) :: fields =>
    (match props.get? key with
      | some schema => Declared inArray schema v
      | none => False) ∧ DeclaredFields inArray props fields

end

omit [FloatFormat φ] in
lemma declared_congr {schema schema' : JsonValue φ} (h : propSchema schema = propSchema schema')
    (inArray : Bool) (v : JsonValue φ) : Declared inArray schema v ↔ Declared inArray schema' v := by
  cases v <;> simp only [Declared, h]

omit [FloatFormat φ] in
lemma declaredItems_iff {schema : JsonValue φ} {items : List (JsonValue φ)} :
    DeclaredItems schema items ↔ ∀ v ∈ items, Declared true schema v := by
  induction items with
  | nil => simp [DeclaredItems]
  | cons v items ih => simp [DeclaredItems, ih]

omit [FloatFormat φ] in
lemma declaredFields_iff {inArray : Bool} {props fields : Dict (JsonValue φ)} :
    DeclaredFields inArray props fields ↔
      ∀ p ∈ fields, ∃ schema, props.get? p.1 = some schema ∧ Declared inArray schema p.2 := by
  induction fields with
  | nil => simp [DeclaredFields]
  | cons p fields ih =>
    obtain ⟨key, v⟩ := p
    cases hget : props.get? key with
    | none => simp [DeclaredFields, hget]
    | some schema => simp [DeclaredFields, hget, ih]

/-- A field of an object, and what it is encoded as. -/
structure Encodes (props : Dict (JsonValue φ)) (kw : Keywords φ)
    (decode : JsonValue φ → JsonValue φ → JsonValue φ) (p q : Text × JsonValue φ) : Prop where
  key : q.1 = p.1
  distinct : q.2.distinctKeys
  accepted : ∀ schema, props.get? p.1 = some schema → accepts kw (strictNode schema) q.2
  decoded : decode ((props.get? p.1).getD (.obj [])) q.2 = p.2

lemma Encodes.fieldsMeet {props fields encoded : Dict (JsonValue φ)} {kw : Keywords φ}
    {decode : JsonValue φ → JsonValue φ → JsonValue φ}
    (h : List.Forall₂ (Encodes props kw decode) fields encoded) (hprops : props.keys.Nodup)
    {inArray : Bool} (hauth : ∀ p ∈ props, Authored inArray p.2) (required missing : List Text)
    (hopt : ∀ key ∈ missing, key ∉ required)
    (hkeys : ∀ key, key ∈ props.keys ↔ key ∈ fields.keys ∨ key ∈ missing) :
    FieldsMeet kw (strictProps props required) props.keys True
      (encoded ++ missing.map fun key => (key, .null)) := by
  have hsame : encoded.keys = fields.keys := h.map_eq fun p q hpq => hpq.key
  have hall : Dict.keys (encoded ++ missing.map fun key => (key, .null)) =
      fields.keys ++ missing := by
    rw [← hsame]
    simp [Dict.keys, Function.comp_def]
  constructor
  · intro name hname
    rw [hall, List.mem_append]
    exact (hkeys name).1 hname
  · rintro ⟨name, t⟩ hp x hx
    obtain ⟨p, hin, hpt⟩ := List.mem_map.1 hp
    cases hpt
    obtain ⟨n, hn⟩ := (hauth p hin).eq_obj
    rw [hn, strict_property (hn ▸ hauth p hin), ← hn]
    rcases List.mem_append.1 (Dict.mem_of_get? hx) with hmem | hmem
    · obtain ⟨q, -, hq⟩ := h.exists_left hmem
      refine .inr (hq.accepted p.2 ?_)
      rw [← hq.key]
      exact (Dict.mem_iff_get? hprops).1 hin
    · obtain ⟨key, hkey, hkx⟩ := List.mem_map.1 hmem
      cases hkx
      exact .inl ⟨rfl, hopt _ hkey⟩
  · intro _ key hkey
    rw [hall, List.mem_append] at hkey
    simpa using (hkeys key).2 hkey

lemma Encodes.distinctKeys {props fields encoded : Dict (JsonValue φ)} {kw : Keywords φ}
    {decode : JsonValue φ → JsonValue φ → JsonValue φ}
    (h : List.Forall₂ (Encodes props kw decode) fields encoded) (missing : List Text)
    (hnodup : (fields.keys ++ missing).Nodup) :
    (JsonValue.obj (encoded ++ missing.map fun key => (key, .null))).distinctKeys := by
  have hsame : encoded.keys = fields.keys := h.map_eq fun p q hpq => hpq.key
  refine JsonValue.distinctKeys_obj.2 ⟨?_, ?_⟩
  · have hall : Dict.keys (encoded ++ missing.map fun key => (key, (.null : JsonValue φ))) =
        fields.keys ++ missing := by
      rw [← hsame]
      simp [Dict.keys, Function.comp_def]
    rwa [hall]
  · intro q hq
    rcases List.mem_append.1 hq with hq | hq
    · obtain ⟨p, -, hpq⟩ := h.exists_left hq
      exact hpq.distinct
    · obtain ⟨key, -, rfl⟩ := List.mem_map.1 hq
      rfl

variable [JsonValue.LawfulFloatFormat φ]

/-- A free-form object is said by its JSON text. -/
lemma decodeText_dumps {fields : Dict (JsonValue φ)} (hdict : (JsonValue.obj fields).distinctKeys)
    (hfin : (JsonValue.obj fields).finite) :
    decodeText ((JsonValue.obj fields).dumps .default) = .obj fields := by
  have hloads := JsonValue.loads_dumps .default (.obj fields) hdict hfin
  have hordered : (JsonValue.obj fields).ordered .default = .obj fields := rfl
  rw [decodeText, hloads, hordered]

/-- Inside a list, what the schema accepts is decoded from what the strict schema accepts. -/
lemma Authored.complete_inArray {inArray : Bool} {j : JsonValue φ} (h : Authored inArray j)
    (harray : inArray = true) (kw : Keywords φ) (v : JsonValue φ) (hdict : v.distinctKeys)
    (hfin : v.finite) (hv : accepts kw j v) (hdec : Declared true j v) :
    ∃ w : JsonValue φ, w.distinctKeys ∧ accepts kw (strictNode j) w ∧ walk j w = v := by
  induction h generalizing v with
  | scalar _ hnode => exact ⟨v, hdict, (strict_scalar hnode kw v).trans hv, hnode.walk_same v⟩
  | enum _ hnode => exact ⟨v, hdict, (strict_enum hnode kw v).trans hv, hnode.walk_same v⟩
  | @array _ node items hnode hstrings hitems ih =>
    obtain ⟨vs, rfl, hvs⟩ := (accepts_array hnode.plain hnode.items kw v).1 hv
    have hdecs : ∀ x ∈ vs, Declared true (.obj items) x := by
      simp only [Declared, propSchema_single (hnode.keys.get?_none "anyOf" (by decide)), itemsOf,
        hnode.items, Option.getD_some, declaredItems_iff] at hdec
      exact hdec
    obtain ⟨ws, hws⟩ := List.exists_forall₂ fun x hx => ih rfl x
      (JsonValue.distinctKeys_arr.1 hdict x hx) (JsonValue.finite_arr.1 hfin x hx) (hvs x hx)
      (hdecs x hx)
    refine ⟨.arr ws, JsonValue.distinctKeys_arr.2 fun w hw => ?_,
      (strict_array hnode kw _).2 ⟨ws, rfl, fun w hw => ?_⟩, ?_⟩
    · obtain ⟨x, -, hx⟩ := hws.exists_left hw
      exact hx.1
    · obtain ⟨x, -, hx⟩ := hws.exists_left hw
      exact (strict_items hitems hstrings kw w).2 hx.2.1
    · rw [walk_array hnode, hws.map_eq (g := id) fun x w hx => hx.2.2, List.map_id]
  | @object _ node props required hnode hne hauth hflags ih =>
    subst harray
    obtain ⟨d, rfl, hd⟩ := (accepts_object hnode kw v).1 hv
    obtain ⟨hnodup, hdistinct⟩ := JsonValue.distinctKeys_obj.1 hdict
    have hdecl : DeclaredFields true props d ∧ ∀ key ∈ props.keys, key ∈ Dict.keys d := by
      obtain ⟨p, ps, rfl⟩ := List.exists_cons_of_ne_nil hne
      simpa only [Declared, propSchema_single (hnode.keys.get?_none "anyOf" (by decide)),
        hnode.properties, forall_const] using hdec
    have hfields := declaredFields_iff.1 hdecl.1
    obtain ⟨e, he⟩ : ∃ e, List.Forall₂ (Encodes props kw walk) d e := by
      refine List.exists_forall₂ fun p hp => ?_
      obtain ⟨schema, hschema, hdecp⟩ := hfields p hp
      have hin := Dict.mem_of_get? hschema
      obtain ⟨w, hw, hacc, hwalk⟩ := ih _ hin rfl p.2 (hdistinct p hp)
        (JsonValue.finite_obj.1 hfin p hp)
        (hd.properties _ hin p.2 ((Dict.mem_iff_get? hnodup).1 hp)) hdecp
      refine ⟨(p.1, w), rfl, hw, fun schema' h' => ?_, ?_⟩
      · rw [hschema] at h'
        cases h'
        exact hacc
      · simpa [hschema] using hwalk
    have hkeys (key : Text) : key ∈ props.keys ↔ key ∈ Dict.keys d ∨ key ∈ ([] : List Text) := by
      simp only [List.not_mem_nil, or_false]
      refine ⟨hdecl.2 key, fun hkey => ?_⟩
      obtain ⟨p, hp, rfl⟩ := List.mem_map.1 hkey
      obtain ⟨schema, hschema, -⟩ := hfields p hp
      exact Dict.mem_keys_of_get? hschema
    have hmeet := Encodes.fieldsMeet he hnode.propsNodup hauth required [] (by simp) hkeys
    have hwell := Encodes.distinctKeys he [] (by simpa using hnodup)
    simp only [List.map_nil, List.append_nil] at hmeet hwell
    refine ⟨.obj e, hwell, (strict_object hnode (.inr hne) kw _).2 ⟨e, rfl, hmeet⟩, ?_⟩
    rw [walk_object hnode, he.map_eq (g := id) fun p q hpq => ?_, List.map_id]
    exact Prod.ext hpq.key (by rw [hpq.key]; exact hpq.decoded)
  | freeForm _ hnode =>
    obtain ⟨d, rfl⟩ := (accepts_freeForm hnode kw v).1 hv
    refine ⟨.str ((JsonValue.obj d).dumps .default), rfl, (strict_freeForm hnode kw _).2 ⟨_, rfl⟩,
      ?_⟩
    rw [walk_freeForm hnode, decodeText_dumps hdict hfin]
  | nullable _ hnode hninner hinner ih =>
    have hprop := hnode.propSchema_inner hinner hninner
    rcases (accepts_nullable hnode kw v).1 hv with rfl | hv
    · exact ⟨.null, rfl, (strict_nullable hnode hninner hinner kw _).2 (.inl rfl), rfl⟩
    · obtain ⟨w, hw, hacc, hwalk⟩ := ih harray v hdict hfin hv ((declared_congr hprop _ v).1 hdec)
      exact ⟨w, hw, (strict_nullable hnode hninner hinner kw w).2 (.inr hacc),
        (walk_congr hprop w).trans hwalk⟩

omit [FloatFormat φ] [JsonValue.LawfulFloatFormat φ] in
/-- Where dropping nulls changes nothing, no field is null or has one to drop. -/
lemma of_stripNullFields_eq {fields : Dict (JsonValue φ)} (h : stripNullFields fields = fields) :
    ∀ p ∈ fields, p.2 ≠ .null ∧ stripNullArgs p.2 = p.2 := by
  induction fields with
  | nil => simp
  | cons p fields ih =>
    obtain ⟨k, v⟩ := p
    have hshort (l : Dict (JsonValue φ)) : (stripNullFields l).length ≤ l.length := by
      rw [stripNullFields_eq]
      exact List.length_filterMap_le _ _
    have hne : v ≠ .null := by
      rintro rfl
      have hlength := congrArg List.length h
      have := hshort fields
      simp only [stripNullFields, List.length_cons] at hlength
      omega
    have hcons : stripNullFields ((k, v) :: fields) = (k, stripNullArgs v) :: stripNullFields fields := by
      cases v with
      | null => exact absurd rfl hne
      | _ => rfl
    rw [hcons] at h
    injection h with hhead htail
    intro q hq
    rcases List.mem_cons.1 hq with rfl | hq
    · exact ⟨hne, congrArg Prod.snd hhead⟩
    · exact ih htail q hq

omit [FloatFormat φ] [JsonValue.LawfulFloatFormat φ] in
lemma stripNullFields_nulls (missing : List Text) :
    stripNullFields (missing.map fun key => (key, (.null : JsonValue φ))) = [] := by
  rw [stripNullFields_eq, List.filterMap_eq_nil_iff]
  intro p hp
  obtain ⟨key, -, rfl⟩ := List.mem_map.1 hp
  rfl

omit [FloatFormat φ] [JsonValue.LawfulFloatFormat φ] in
lemma stripNullFields_append (l r : Dict (JsonValue φ)) :
    stripNullFields (l ++ r) = stripNullFields l ++ stripNullFields r := by
  simp [stripNullFields_eq]

omit [FloatFormat φ] [JsonValue.LawfulFloatFormat φ] in
lemma stripNullFields_of_ne {fields : Dict (JsonValue φ)} (h : ∀ p ∈ fields, p.2 ≠ .null) :
    stripNullFields fields = fields.map fun p => (p.1, stripNullArgs p.2) := by
  rw [stripNullFields_eq, ← List.filterMap_eq_map]
  refine List.filterMap_congr fun p hp => ?_
  rw [keepNonNull_of_ne (h p hp)]
  rfl

omit [JsonValue.LawfulFloatFormat φ] in
/-- The executor decodes the encoded fields, and drops the missing ones. -/
lemma Encodes.executorFields {props fields encoded : Dict (JsonValue φ)} {kw : Keywords φ}
    (h : List.Forall₂ (Encodes props kw executorValue) fields encoded)
    (hne : ∀ q ∈ encoded, q.2 ≠ .null) (missing : List Text) :
    stripNullFields ((stripNullFields (encoded ++ missing.map fun key => (key, .null))).map fun p =>
      (p.1, walk ((props.get? p.1).getD (.obj [])) p.2)) = fields := by
  rw [stripNullFields_append, stripNullFields_nulls, List.append_nil, stripNullFields_of_ne hne,
    stripNullFields_of_ne, List.map_map, List.map_map]
  · rw [h.map_eq (g := id) fun p q hpq => ?_, List.map_id]
    have hdecode := hpq.decoded
    rw [← hpq.key] at hdecode
    exact Prod.ext hpq.key hdecode
  · intro p hp
    obtain ⟨q, hq, rfl⟩ := List.mem_map.1 hp
    obtain ⟨r, hr, rfl⟩ := List.mem_map.1 hq
    exact walk_ne_null _ (stripNullArgs_ne_null (hne r hr))

omit [JsonValue.LawfulFloatFormat φ] in
/-- The fields of an object come from fields with a null for each property that is omitted. -/
lemma FieldsMeet.encode {props fields : Dict (JsonValue φ)} {required : List Text} {closed : Prop}
    {kw : Keywords φ} (hd : FieldsMeet kw props required closed fields) (hprops : props.keys.Nodup)
    (hauth : ∀ p ∈ props, Authored false p.2) (hfields : fields.keys.Nodup)
    (hdecl : DeclaredFields false props fields)
    (hvalue : ∀ p ∈ props, ∀ x, (p.1, x) ∈ fields → accepts kw p.2 x → Declared false p.2 x →
      ∃ w : JsonValue φ, w ≠ .null ∧ w.distinctKeys ∧ accepts kw (strictNode p.2) w ∧
        executorValue p.2 w = x) :
    ∃ encoded : Dict (JsonValue φ), (JsonValue.obj encoded).distinctKeys ∧
      FieldsMeet kw (strictProps props required) props.keys True encoded ∧
      stripNullFields ((stripNullFields encoded).map fun p =>
        (p.1, walk ((props.get? p.1).getD (.obj [])) p.2)) = fields := by
  have hdeclared := declaredFields_iff.1 hdecl
  obtain ⟨e, he⟩ : ∃ e, List.Forall₂ (fun p q : Text × JsonValue φ =>
      Encodes props kw executorValue p q ∧ q.2 ≠ .null) fields e := by
    refine List.exists_forall₂ fun p hp => ?_
    obtain ⟨schema, hschema, hdecp⟩ := hdeclared p hp
    have hin := Dict.mem_of_get? hschema
    obtain ⟨w, hne, hw, hacc, hdecode⟩ := hvalue _ hin p.2 hp
      (hd.properties _ hin p.2 ((Dict.mem_iff_get? hfields).1 hp)) hdecp
    refine ⟨(p.1, w), ⟨rfl, hw, fun schema' h' => ?_, ?_⟩, hne⟩
    · rw [hschema] at h'
      cases h'
      exact hacc
    · simpa [hschema] using hdecode
  have henc := he.imp fun _ _ h => h.1
  have hne : ∀ q ∈ e, q.2 ≠ .null := fun q hq => by
    obtain ⟨p, -, hpq⟩ := he.exists_left hq
    exact hpq.2
  have hmissing (key : Text) : key ∈ props.keys.filter (· ∉ fields.keys) ↔
      key ∈ props.keys ∧ key ∉ fields.keys := by
    simp [List.mem_filter]
  refine ⟨_, Encodes.distinctKeys henc (props.keys.filter (· ∉ fields.keys)) ?_,
    Encodes.fieldsMeet henc hprops hauth required _ ?_ fun key => ?_,
    Encodes.executorFields henc hne _⟩
  · refine List.Nodup.append hfields (hprops.filter _) fun key hkey hmiss => ?_
    exact ((hmissing key).1 hmiss).2 hkey
  · intro key hkey hreq
    exact ((hmissing key).1 hkey).2 (hd.required key hreq)
  · rw [hmissing]
    refine ⟨fun hkey => ?_, fun hkey => ?_⟩
    · by_cases hin : key ∈ fields.keys
      · exact .inl hin
      · exact .inr ⟨hkey, hin⟩
    · rcases hkey with hkey | hkey
      · obtain ⟨p, hp, rfl⟩ := List.mem_map.1 hkey
        obtain ⟨schema, hschema, -⟩ := hdeclared p hp
        exact Dict.mem_keys_of_get? hschema
      · exact hkey.1

/-- What the schema accepts is decoded from what the strict schema accepts. -/
lemma Authored.complete {inArray : Bool} {j : JsonValue φ} (h : Authored inArray j)
    (hspine : inArray = false) (kw : Keywords φ) (v : JsonValue φ) (hne : v ≠ .null)
    (hstrip : stripNullArgs v = v) (hdict : v.distinctKeys) (hfin : v.finite)
    (hv : accepts kw j v) (hdec : Declared false j v) :
    ∃ w : JsonValue φ, w ≠ .null ∧ w.distinctKeys ∧ accepts kw (strictNode j) w ∧
      executorValue j w = v := by
  induction h generalizing v with
  | scalar _ hnode =>
    exact ⟨v, hne, hdict, (strict_scalar hnode kw v).trans hv, by
      rw [executorValue, hnode.walk_same, hstrip, hstrip]⟩
  | enum _ hnode =>
    exact ⟨v, hne, hdict, (strict_enum hnode kw v).trans hv, by
      rw [executorValue, hnode.walk_same, hstrip, hstrip]⟩
  | @array _ node items hnode hstrings hitems =>
    obtain ⟨vs, rfl, -⟩ := (accepts_array hnode.plain hnode.items kw v).1 hv
    have hdecs : Declared true (.obj node) (.arr vs) := by simpa only [Declared] using hdec
    obtain ⟨w, hw, hacc, hwalk⟩ := (Authored.array true hnode hstrings hitems).complete_inArray rfl
      kw _ hdict hfin hv hdecs
    obtain ⟨ws, rfl, -⟩ := (strict_array hnode kw w).1 hacc
    have hsame : stripNullArgs (.arr ws : JsonValue φ) = .arr ws := rfl
    exact ⟨.arr ws, by simp, hw, hacc, by rw [executorValue, hsame, hwalk, hstrip]⟩
  | @object _ node props required hnode hprops hauth hflags ih =>
    subst hspine
    obtain ⟨d, rfl, hd⟩ := (accepts_object hnode kw v).1 hv
    obtain ⟨hnodup, hdistinct⟩ := JsonValue.distinctKeys_obj.1 hdict
    have hfix := of_stripNullFields_eq (JsonValue.obj.inj hstrip)
    have hdecl : DeclaredFields false props d := by
      obtain ⟨p, ps, rfl⟩ := List.exists_cons_of_ne_nil hprops
      simp only [Declared, propSchema_single (hnode.keys.get?_none "anyOf" (by decide)),
        hnode.properties] at hdec
      exact hdec.1
    obtain ⟨e, he, hmeet, hdecode⟩ := hd.encode hnode.propsNodup hauth hnodup hdecl
      fun p hp x hx hacc hdecx => ih p hp rfl x (hfix _ hx).1 (hfix _ hx).2 (hdistinct _ hx)
        (JsonValue.finite_obj.1 hfin _ hx) hacc hdecx
    refine ⟨.obj e, by simp, he, (strict_object hnode (.inr hprops) kw _).2 ⟨e, rfl, hmeet⟩, ?_⟩
    rw [executorValue, stripNullArgs, walk_object hnode, stripNullArgs, hdecode]
  | freeForm _ hnode =>
    obtain ⟨d, rfl⟩ := (accepts_freeForm hnode kw v).1 hv
    refine ⟨.str ((JsonValue.obj d).dumps .default), by simp, rfl,
      (strict_freeForm hnode kw _).2 ⟨_, rfl⟩, ?_⟩
    have hsame (t : Text) : stripNullArgs (.str t : JsonValue φ) = .str t := rfl
    rw [executorValue, hsame, walk_freeForm hnode, decodeText_dumps hdict hfin, hstrip]
  | nullable _ hnode hninner hinner ih =>
    have hprop := hnode.propSchema_inner hinner hninner
    have hv := ((accepts_nullable hnode kw v).1 hv).resolve_left hne
    obtain ⟨w, hwne, hw, hacc, hdecode⟩ := ih hspine v hne hstrip hdict hfin hv
      ((declared_congr hprop _ v).1 hdec)
    exact ⟨w, hwne, hw, (strict_nullable hnode hninner hinner kw w).2 (.inr hacc), by
      rw [executorValue, walk_congr hprop]; exact hdecode⟩

/-! ### The arguments of a tool -/

omit [JsonValue.LawfulFloatFormat φ] in
lemma executorArgs_obj {node props : Dict (JsonValue φ)} {required : List Text}
    (h : ObjectNode node props required) (fields : Dict (JsonValue φ)) :
    executorArgs (.obj fields) (.obj node) =
      .obj (stripNullFields ((stripNullFields fields).map fun p =>
        (p.1, walk ((props.get? p.1).getD (.obj [])) p.2))) := by
  have hprops : propertiesOf node = props := by simp [propertiesOf, h.properties]
  simp [executorArgs, stripNullArgs, decodeJsonStringArgs, hprops, walkFields_eq]

/-- A search for areas, each with a note that may be null, and filters of which nothing is said. -/
def areaFields : Dict (JsonValue NonFinite) :=
  [("type", .str "object"),
    ("properties", .obj [("name", .obj [("type", .str "string")]),
      ("note", .obj [("anyOf", .arr [.obj [("type", .str "string")], nullBranch])])]),
    ("required", .arr [.str "name", .str "note"])]

def searchProps : Dict (JsonValue NonFinite) :=
  [("areas", .obj [("type", .str "array"), ("items", .obj areaFields)]),
    ("filters", .obj [("type", .str "object")])]

def searchSchema : Dict (JsonValue NonFinite) :=
  [("type", .str "object"), ("properties", .obj searchProps), ("required", .arr [.str "areas"])]

lemma string_authored (inArray : Bool) :
    Authored inArray (.obj [("type", .str "string")] : JsonValue NonFinite) :=
  .scalar inArray ⟨⟨by decide, by decide⟩, rfl, by decide⟩

lemma areaFields_authored : Authored true (.obj areaFields) := by
  have hnote : NullableNode [(Text.ofString "anyOf", JsonValue.arr
      [.obj [(Text.ofString "type", .str "string")], (nullBranch : JsonValue NonFinite)])]
      [(Text.ofString "type", .str "string")] := ⟨⟨by decide, by decide⟩, .inl rfl⟩
  refine .object true ⟨⟨by decide, by decide⟩, rfl, rfl, by decide, rfl, by decide, .inl rfl⟩
    (by simp) ?_ ?_
  · intro p hp
    simp only [List.mem_cons, List.not_mem_nil, or_false] at hp
    rcases hp with rfl | rfl
    · exact string_authored true
    · exact .nullable true hnote rfl (string_authored true)
  · intro p hp
    simp only [List.mem_cons, List.not_mem_nil, or_false] at hp
    rcases hp with rfl | rfl <;> exact .inl (by decide)

lemma searchSchema_tool : ToolSchema searchSchema searchProps ["areas"] := by
  refine ⟨⟨⟨by decide, by decide⟩, rfl, rfl, by decide, rfl, by decide, .inl rfl⟩, ?_, ?_⟩
  · intro p hp
    simp only [searchProps, List.mem_cons, List.not_mem_nil, or_false] at hp
    rcases hp with rfl | rfl
    · refine .array false ⟨⟨by decide, by decide⟩, rfl, rfl⟩ ?_ areaFields_authored
      intro values htype
      cases htype
    · exact .freeForm false ⟨⟨by decide, by decide⟩, rfl, .inl rfl, .inl rfl⟩
  · intro p hp
    simp only [searchProps, List.mem_cons, List.not_mem_nil, or_false] at hp
    rcases hp with rfl | rfl <;> exact fun h => absurd h.2 (by decide)

/-- Comparisons that find no two numbers, lists or dicts alike. -/
def noKeywords : Keywords NonFinite := ⟨fun _ _ => false, fun _ _ _ => true⟩

/-- A search with filters. -/
def searchCall : Dict (JsonValue NonFinite) :=
  [("areas", .arr [.obj [("name", .str "Camden"), ("note", .null)]]),
    ("filters", .obj [("pets", .bool true)])]

/-- A search with no filters, as the strict schema has it. -/
def strictCall : JsonValue NonFinite :=
  .obj [("areas", .arr []), ("filters", .null)]

end RentCompass.Tools
