import RentCompass.Tools.StrictTidy

/-!
# Where encoding is idempotent

A strict schema is encoded again as it is, unless a union of it changes its place: a single branch
is merged into its property, a union under a single branch is flattened, a branch that has become
null is taken for the null of the property.
-/

namespace RentCompass.Tools

open JsonValue

variable {φ : Type}

/-! ### The parts of a property that is encoded -/

/-- The keys of the keywords that the encoder keeps. -/
def keptKeys (node : Dict (JsonValue φ)) : List Text :=
  Dict.keys (node.filter fun p => !isDropped p.1 p.2)

/-- A schema that is encoded as a union and nothing else. -/
def isBareUnion (schema : JsonValue φ) : Bool :=
  match schema with
  | .obj node => !isObjectNode node && keptKeys node = [Text.ofString "anyOf"]
  | _ => false

/-- What describes a property stands beside its union. -/
def isDescription (key : Text) : Bool := metaKeywords.contains key || key = "anyOf"

/-- A schema that is encoded as a union under descriptions. -/
def isDescribed (schema : JsonValue φ) : Bool :=
  match schema with
  | .obj node => !isObjectNode node && (keptKeys node).all isDescription
  | _ => false

/-- A schema that is encoded as the null branch itself. -/
def isPlainNull (schema : JsonValue φ) : Bool :=
  match schema with
  | .obj node =>
    !isObjectNode node && keptKeys node = [Text.ofString "type"] && typeIs node "null"
  | _ => false

/-- A branch that is a null schema once it is encoded. -/
def becomesNull (schema : JsonValue φ) : Bool := (normalizeAnyofBranch schema).any isNullSchema

/-- Types that are read back as they are: no null among them, and not one alone. -/
def plainTypes (types : JsonValue φ) : Bool :=
  match types with
  | .arr types => types.all (!isNullName ·) && decide (2 ≤ types.length)
  | _ => true

/-- An object without properties has the type of a text. -/
def asText (node : Dict (JsonValue φ)) : Dict (JsonValue φ) :=
  if isFreeForm node false then [("type", .str "string")] else node

/-- The core of a property has a union. -/
def coreHasUnion (parts : SplitProperty φ) : Bool :=
  match parts.nonNullBranches with
  | [] => false
  | [branch] =>
    !isFreeForm (fieldsOf branch) false && (Dict.get? (fieldsOf branch) "anyOf").isSome
  | _ => true

/-- The branches that stay in the union of the core. -/
def coreUnion (parts : SplitProperty φ) : List (JsonValue φ) :=
  match parts.nonNullBranches with
  | [] => []
  | [branch] => (unionOf (fieldsOf branch)).filter survives
  | branches => branches.filter survives

/-- The core is a union and nothing else. -/
def coreIsBare (parts : SplitProperty φ) : Bool :=
  parts.value.isEmpty &&
    match parts.nonNullBranches with
    | [] => false
    | [branch] => isBareUnion branch
    | _ => true

/-- The core is a union under descriptions. -/
def coreDescribed (parts : SplitProperty φ) : Bool :=
  parts.value.isEmpty &&
    match parts.nonNullBranches with
    | [branch] => isDescribed branch
    | _ => true

/-- The selectors of the core, a union apart. -/
def coreSelectors (parts : SplitProperty φ) : Dict (JsonValue φ) :=
  match parts.nonNullBranches with
  | [branch] => mergeDicts (asText (fieldsOf branch)) (asText parts.value)
  | _ => asText parts.value

/-- The core is the null schema. -/
def coreBecomesNull (parts : SplitProperty φ) : Bool :=
  match parts.nonNullBranches with
  | _ :: _ :: _ => isNullSchema (.obj (coreSelectors parts))
  | _ => becomesNull (.obj (coreSelectors parts))

/-! ### Properties that are encoded again as they are -/

/-- `required` beside the only branch of a property names the properties of the branch in their
order. -/
def RequiredExact (parts : SplitProperty φ) : Prop :=
  ∀ branch, parts.nonNullBranches = [branch] → isObjectNode parts.value = false →
    propertiesOf (fieldsOf branch) ≠ [] →
      ∀ names, parts.value.get? "required" = some (.arr names) →
        names = (propertiesOf (fieldsOf branch)).keys.map .str

/-- A property that is required keeps its union and its types. -/
structure ListedSettles (parts : SplitProperty φ) : Prop where
  several : coreHasUnion parts → 2 ≤ (coreUnion parts).length
  nonNull : coreHasUnion parts → ∀ b ∈ coreUnion parts, becomesNull b = false
  types : ∀ t, (coreSelectors parts).get? "type" = some t → plainTypes t

/-- A property that is required has the union of one that may be null. -/
structure ListedAsNullable (parts : SplitProperty φ) (branches : List (JsonValue φ))
    (last : JsonValue φ) : Prop where
  hasUnion : coreHasUnion parts
  union : coreUnion parts = branches ++ [last]
  described : coreDescribed parts
  plainNull : isPlainNull last
  nonNull : ∀ b ∈ branches, becomesNull b = false
  single : ∀ b, branches = [b] → isBareUnion b = false

/-- A property that may be null keeps the branches of its union. -/
structure NullableSettles (parts : SplitProperty φ) : Prop where
  nonNull : coreIsBare parts → ∀ b ∈ coreUnion parts, becomesNull b = false
  single : coreIsBare parts → ∀ b, coreUnion parts = [b] → isBareUnion b = false
  core : coreIsBare parts = false → coreBecomesNull parts = false

/-- One level of what is encoded again as it is. -/
def settledStep (settled : JsonValue φ → Place → Prop) (schema : JsonValue φ) (place : Place) :
    Prop :=
  match schema, place with
  | .obj node, .node root => NodeFits settled root node
  | .obj node, .property listed =>
    let parts := splitProperty node
    if listed && !parts.nullPresent then
      CoreFits settled parts ∧ RequiredExact parts ∧
        (ListedSettles parts ∨ ∃ branches last, ListedAsNullable parts branches last)
    else coreSurvives parts → CoreFits settled parts ∧ RequiredExact parts ∧ NullableSettles parts
  | _, _ => True

/-- Every property of the schema is encoded again as it is. -/
def Settled (schema : JsonValue φ) (place : Place) : Prop :=
  JsonValue.byDepth settledStep schema place

lemma settledStep_looksBelow : JsonValue.LooksBelow (settledStep (φ := φ)) := by
  intro schema f g h
  have hmono : FitsBelow f g schema.depth := fun w hw place hf => h w hw ▸ hf
  have hmono' : FitsBelow g f schema.depth := fun w hw place hg => h w hw ▸ hg
  cases schema with
  | obj node =>
    funext place
    cases place with
    | node root => exact propext ⟨NodeFits.mono hmono, NodeFits.mono hmono'⟩
    | property listed =>
      have hcore : CoreFits f (splitProperty node) = CoreFits g (splitProperty node) :=
        propext ⟨CoreFits.mono hmono, CoreFits.mono hmono'⟩
      simp only [settledStep, hcore]
  | _ => rfl

lemma settled_eq (schema : JsonValue φ) (place : Place) :
    Settled schema place ↔ settledStep Settled schema place :=
  iff_of_eq (congrFun (JsonValue.byDepth_eq settledStep_looksBelow schema) place)

/-! ### What the parts are once they are encoded -/

/-- The dicts have the same type, the same `enum`, and the same selectors. -/
structure SameSelectors (s t : Dict (JsonValue φ)) : Prop where
  selectors : ∀ key ∈ branchSelectorKeywords, (s.get? key).isSome = (t.get? key).isSome
  enum : s.get? "enum" = t.get? "enum"
  type : s.get? "type" = t.get? "type"
  properties : (s.get? "properties").isSome = (t.get? "properties").isSome

lemma isNullSchema_iff {node : Dict (JsonValue φ)} : isNullSchema (.obj node) ↔
    node.get? "type" = some (.str "null") ∧ node.get? "properties" = none := by
  have hkey : Text.ofString "properties" ∈ node.keys ↔ (node.get? "properties").isSome := by
    rw [Option.isSome_iff_exists]
    exact ⟨Dict.exists_get?, fun ⟨_, hget⟩ => Dict.mem_keys_of_get? hget⟩
  rw [isNullSchema, Bool.and_eq_true, typeIs]
  refine and_congr ?_ ?_
  · split
    · next t htype => simp [htype]
    · next hnone => simpa using fun htype => hnone _ htype
  · rw [Bool.not_eq_true', ← Bool.not_eq_true, List.contains_iff_mem, hkey,
      Option.not_isSome_iff_eq_none]

/-- Whether a schema becomes null depends on its selectors. -/
lemma becomesNull_congr {s t : Dict (JsonValue φ)} (h : SameSelectors s t) :
    becomesNull (.obj s) = becomesNull (.obj t) := by
  have hsame : hasBranchSelector s = hasBranchSelector t := by
    rw [Bool.eq_iff_iff, hasBranchSelector_iff, hasBranchSelector_iff]
    exact exists_congr fun key => and_congr_right fun hkey => by rw [h.selectors key hkey]
  have hprops : Dict.get? s "properties" = none ↔ Dict.get? t "properties" = none := by
    rw [← Option.not_isSome_iff_eq_none, ← Option.not_isSome_iff_eq_none, h.properties]
  rw [becomesNull, becomesNull, normalizeAnyofBranch_obj, normalizeAnyofBranch_obj, hsame, h.enum]
  split_ifs
  · rw [Option.any_some, Option.any_some, Bool.eq_iff_iff, isNullSchema_iff, isNullSchema_iff,
      h.type, hprops]
  · cases Dict.get? t "enum" with
    | none => rfl
    | some values =>
      rw [Option.bind_some, Option.bind_some]
      cases enumMemberType values with
      | none => rfl
      | some type =>
        rw [Option.map_some, Option.map_some, Option.any_some, Option.any_some, Bool.eq_iff_iff,
          isNullSchema_iff, isNullSchema_iff, Dict.get?_insert, Dict.get?_insert, Dict.get?_insert,
          Dict.get?_insert, if_pos rfl, if_pos rfl, if_neg (by decide), if_neg (by decide), hprops]

lemma SameSelectors.merge {s s' t t' : Dict (JsonValue φ)} (h : SameSelectors s t)
    (h' : SameSelectors s' t') (hs : s'.keys.Nodup) (ht : t'.keys.Nodup) :
    SameSelectors (mergeDicts s s') (mergeDicts t t') where
  selectors key hkey := by
    rw [get?_mergeDicts hs, get?_mergeDicts ht, Option.isSome_or, Option.isSome_or,
      h.selectors key hkey, h'.selectors key hkey]
  enum := by rw [get?_mergeDicts hs, get?_mergeDicts ht, h.enum, h'.enum]
  type := by rw [get?_mergeDicts hs, get?_mergeDicts ht, h.type, h'.type]
  properties := by
    rw [get?_mergeDicts hs, get?_mergeDicts ht, Option.isSome_or, Option.isSome_or, h.properties,
      h'.properties]

lemma asText_keys {node : Dict (JsonValue φ)} (h : node.keys.Nodup) : (asText node).keys.Nodup := by
  rw [asText]
  split_ifs
  · simp [Dict.keys]
  · exact h

/-- An encoded node has the selectors it had, or those of a text. -/
lemma encoded_asText {node : Dict (JsonValue φ)} (h : node.keys.Nodup) :
    SameSelectors (encoded node false) (asText node) := by
  by_cases hfree : isFreeForm node false
  · obtain ⟨description, heq⟩ := encoded_of_freeForm h hfree
    rw [heq, asText, if_pos hfree]
    refine ⟨fun key hkey => ?_, rfl, rfl, rfl⟩
    simp only [branchSelectorKeywords, List.mem_cons, List.not_mem_nil, or_false] at hkey
    rcases hkey with rfl | rfl | rfl <;> rfl
  · rw [asText, if_neg hfree]
    have hfree : isFreeForm node false = false := Bool.not_eq_true _ ▸ hfree
    refine ⟨fun key hkey => get?_encoded_isSome h hfree hkey, get?_encoded_enum h hfree, ?_, ?_⟩
    · rw [get?_encoded_of_ne h hfree (by decide) (by decide)]
      cases node.get? "type" with
      | none => rfl
      | some t => rw [Option.bind_some, transformKeyword_type]
    · rw [get?_encoded_of_ne h hfree (by decide) (by decide)]
      cases node.get? "properties" with
      | none => rfl
      | some v => cases v <;> simp [transformKeyword, isDropped, bannedKeywords]

/-- A schema becomes null just if its text does. -/
lemma becomesNull_asText (node : Dict (JsonValue φ)) :
    becomesNull (.obj (asText node)) = becomesNull (.obj node) := by
  rw [asText]
  split_ifs with hfree
  · -- neither a text nor an object is null
    have hobj := isObjectNode_iff.1 (isFreeForm_iff.1 hfree).1
    have hnode : becomesNull (.obj node) = false := by
      rw [becomesNull, normalizeAnyofBranch_obj, ← Bool.not_eq_true]
      split_ifs with hselector
      · rw [Option.any_some, isNullSchema_iff]
        rintro ⟨htype, hprops⟩
        simp [htype, hprops] at hobj
      · rw [Option.any_eq_true]
        rintro ⟨b, hb, hnull⟩
        simp only [Option.bind_eq_some_iff, Option.map_eq_some_iff] at hb
        obtain ⟨values, -, t, -, rfl⟩ := hb
        have hprops := (isNullSchema_iff.1 hnull).2
        rw [Dict.get?_insert, if_neg (by decide)] at hprops
        rcases hobj with htype | ⟨props, hget⟩
        · exact hselector (hasBranchSelector_iff.2 ⟨"type", by decide, by rw [htype]; rfl⟩)
        · rw [hprops] at hget
          cases hget
    rw [hnode]
    rfl
  · rfl

/-! ### The branches of an encoded union -/

/-- A branch as it stands in the union. -/
def encodedBranch (branch : JsonValue φ) : JsonValue φ :=
  (normalizeAnyofBranch (transformNode branch false)).getD .null

lemma normalize_encodedBranch {branch : JsonValue φ} (h : SchemaTree branch)
    (hsurvives : survives branch) :
    normalizeAnyofBranch (transformNode branch false) = some (encodedBranch branch) := by
  have hsome := (agrees_distinct h).branch.survives.trans hsurvives
  obtain ⟨b, hb⟩ := Option.isSome_iff_exists.1 hsome
  rw [encodedBranch, hb, Option.getD_some]

/-- A union keeps the branches that stay. -/
lemma cleanAnyof_map {branches : List (JsonValue φ)} (h : ∀ b ∈ branches, SchemaTree b) :
    cleanAnyof (branches.map (transformNode · false)) =
      (branches.filter survives).map encodedBranch := by
  induction branches with
  | nil => rfl
  | cons b branches ih =>
    rw [List.forall_mem_cons] at h
    have hrest := ih h.2
    rw [cleanAnyof] at hrest
    rw [cleanAnyof, List.map_cons]
    by_cases hsurvives : survives b
    · rw [List.filterMap_cons_some (normalize_encodedBranch h.1 hsurvives), hrest,
        List.filter_cons_of_pos hsurvives, List.map_cons]
    · have hnone : normalizeAnyofBranch (transformNode b false) = none := by
        rw [← Option.not_isSome_iff_eq_none, (agrees_distinct h.1).branch.survives]
        exact hsurvives
      rw [List.filterMap_cons_none hnone, hrest, List.filter_cons_of_neg hsurvives]

/-- Once it is encoded, a branch is the null schema just if it becomes it. -/
lemma isNullSchema_encodedBranch {branch : JsonValue φ} (h : SchemaTree branch)
    (hsurvives : survives branch) : isNullSchema (encodedBranch branch) = becomesNull branch := by
  have hnormal := normalize_encodedBranch h hsurvives
  obtain ⟨node, rfl⟩ := h.exists_obj
  rw [← becomesNull_asText, ← becomesNull_congr (encoded_asText h.shape.keys),
    ← transformNode_encoded, becomesNull, hnormal, Option.any_some]

/-- A keyword that is neither dropped nor rebuilt is kept. -/
lemma exists_transformKeyword {f : JsonValue φ → JsonValue φ} {isObject : Bool}
    {required : List Text} {key : Text} {value : JsonValue φ} (hkept : isDropped key value = false)
    (hrebuilt : isObject → key ≠ "required" ∧ key ≠ "additionalProperties") :
    ∃ w, transformKeyword f isObject required key value = some w := by
  have hnot : (isObject && (key = Text.ofString "required" ||
      key = Text.ofString "additionalProperties")) = false := by
    cases isObject with
    | false => rfl
    | true => simp [hrebuilt rfl]
  cases value with
  | obj sub =>
    simp only [transformKeyword, hkept, hnot, Bool.false_eq_true, if_false]
    split_ifs <;> exact ⟨_, rfl⟩
  | arr branches =>
    simp only [transformKeyword, hkept, hnot, Bool.false_eq_true, if_false]
    split_ifs <;> exact ⟨_, rfl⟩
  | _ =>
    simp only [transformKeyword, hkept, hnot, Bool.false_eq_true, if_false]
    exact ⟨_, rfl⟩

lemma keys_strictFields {node : Dict (JsonValue φ)} (h : isObjectNode node = false) :
    (strictFields node).keys = keptKeys node := by
  have hfields (l : Dict (JsonValue φ)) (required : List Text) :
      Dict.keys (l.filterMap fun p =>
        (transformKeyword (transformNode · false) false required p.1 p.2).map (p.1, ·)) =
        keptKeys l := by
    induction l with
    | nil => rfl
    | cons p l ih =>
      rw [keptKeys] at ih ⊢
      by_cases hdropped : isDropped p.1 p.2
      · have hnone : transformKeyword (transformNode · false) false required p.1 p.2 = none := by
          simp [transformKeyword, hdropped]
        rw [List.filterMap_cons_none (by simp [hnone]), ih, List.filter_cons_of_neg (by simp [hdropped])]
      · obtain ⟨w, hw⟩ : ∃ w, transformKeyword (transformNode · false) false required p.1 p.2 =
            some w := exists_transformKeyword (Bool.not_eq_true _ ▸ hdropped) (by simp)
        rw [List.filterMap_cons_some (by simp [hw]; rfl), List.filter_cons_of_pos (by simp [hdropped])]
        exact congrArg (p.1 :: ·) ih
  rw [strictFields, h]
  exact hfields node _

/-- A schema is encoded as a bare union just if it is one. -/
lemma encoded_bare {node : Dict (JsonValue φ)} (h : node.keys.Nodup) :
    (encoded node false).keys = [Text.ofString "anyOf"] ↔ isBareUnion (.obj node) := by
  by_cases hobj : isObjectNode node
  · have hbare : isBareUnion (.obj node) = false := by simp [isBareUnion, hobj]
    rw [hbare]
    refine iff_of_false (fun hkeys => ?_) (by simp)
    by_cases hfree : isFreeForm node false
    · obtain ⟨description, heq⟩ := encoded_of_freeForm h hfree
      rw [heq] at hkeys
      simp [Dict.keys] at hkeys
    · have hmem := Dict.mem_keys_of_get?
        (get?_encoded_required h (Bool.not_eq_true _ ▸ hfree) hobj)
      rw [hkeys] at hmem
      simp at hmem
  · have hobj : isObjectNode node = false := Bool.not_eq_true _ ▸ hobj
    rw [isBareUnion, hobj, encoded, transformNode_obj, if_neg (by simp [hobj]), fieldsOf,
      keys_strictFields hobj]
    simp

/-- The keywords of a schema that is no object are those it keeps. -/
lemma keys_encoded {node : Dict (JsonValue φ)} (h : isObjectNode node = false) :
    (encoded node false).keys = keptKeys node := by
  rw [encoded, transformNode_obj, if_neg (by simp [h]), fieldsOf, keys_strictFields h]

/-- An object has a keyword that describes nothing once it is encoded. -/
lemma exists_object_key {node : Dict (JsonValue φ)} (h : node.keys.Nodup) (hobj : isObjectNode node) :
    ∃ key v, (encoded node false).get? key = some v ∧ isDescription key = false ∧
      encoded node false ≠ [(Text.ofString "type", .str "null")] := by
  by_cases hfree : isFreeForm node false
  · obtain ⟨description, heq⟩ := encoded_of_freeForm h hfree
    refine ⟨"type", .str "string", by rw [heq]; rfl, by decide, ?_⟩
    rw [heq]
    simp
  · have hclosed := get?_encoded_closed h (Bool.not_eq_true _ ▸ hfree) hobj
    refine ⟨_, _, hclosed, by decide, fun heq => ?_⟩
    rw [heq] at hclosed
    cases hclosed

/-- A schema is encoded as a union under descriptions just if it is one. -/
lemma encoded_described {node : Dict (JsonValue φ)} (h : node.keys.Nodup) :
    (∀ key v, (encoded node false).get? key = some v → isDescription key) ↔
      isDescribed (.obj node) := by
  by_cases hobj : isObjectNode node
  · obtain ⟨key, v, hget, hkey, -⟩ := exists_object_key h hobj
    refine iff_of_false (fun hall => ?_) (by simp [isDescribed, hobj])
    rw [hall key v hget] at hkey
    cases hkey
  · have hobj : isObjectNode node = false := Bool.not_eq_true _ ▸ hobj
    rw [isDescribed, hobj, ← keys_encoded hobj]
    simp only [Bool.not_false, Bool.true_and, List.all_eq_true]
    refine ⟨fun hall key hmem => ?_, fun hall key v hget => hall key (Dict.mem_keys_of_get? hget)⟩
    obtain ⟨v, hget⟩ := Dict.exists_get? hmem
    exact hall key v hget

/-- A schema is encoded as the null branch just if it is plainly null. -/
lemma encoded_plainNull {node : Dict (JsonValue φ)} (h : node.keys.Nodup) :
    encoded node false = [(Text.ofString "type", .str "null")] ↔ isPlainNull (.obj node) := by
  by_cases hobj : isObjectNode node
  · obtain ⟨-, -, -, -, hne⟩ := exists_object_key h hobj
    exact iff_of_false hne (by simp [isPlainNull, hobj])
  · have hobj : isObjectNode node = false := Bool.not_eq_true _ ▸ hobj
    have htype : (encoded node false).get? "type" = node.get? "type" := by
      rw [get?_encoded_of_ne h (by simp [isFreeForm, hobj]) (by decide) (by decide)]
      cases node.get? "type" with
      | none => rfl
      | some t => rw [Option.bind_some, transformKeyword_type]
    have hnull : typeIs node "null" ↔ node.get? "type" = some (.str "null") := by
      rw [typeIs]
      split
      · next t ht => simp [ht]
      · next hnone => simpa using fun ht => hnone _ ht
    rw [isPlainNull, hobj, ← keys_encoded hobj]
    simp only [Bool.not_false, Bool.true_and, Bool.and_eq_true, decide_eq_true_eq, hnull, ← htype]
    constructor
    · intro heq
      rw [heq]
      exact ⟨rfl, rfl⟩
    · rintro ⟨hkeys, hget⟩
      rcases hencoded : encoded node false with _ | ⟨⟨key, v⟩, _ | ⟨p, rest⟩⟩
      · rw [hencoded] at hkeys
        cases hkeys
      · rw [hencoded] at hkeys hget
        cases hkeys
        obtain rfl : v = .str "null" := Option.some.inj hget
        rfl
      · rw [hencoded] at hkeys
        cases hkeys

/-! ### The core of an encoded property -/

/-- What the core of a property is. -/
structure CoreIs (F : JsonValue φ → Place → Prop) (parts : SplitProperty φ)
    (core : Dict (JsonValue φ)) : Prop where
  keys : core.keys.Nodup
  compliant : NodeCompliant Stable Kept False core ↔ CoreFits F parts
  exact : Exact core ↔ RequiredExact parts
  stays : (normalizeAnyofBranch (.obj core)).isSome = coreSurvives parts
  union : core.get? "anyOf" =
    if coreHasUnion parts then some (.arr ((coreUnion parts).map encodedBranch)) else none
  branches : ∀ b ∈ coreUnion parts, SchemaTree b ∧ survives b
  bare : core.keys = [Text.ofString "anyOf"] ↔ coreIsBare parts
  described : (∀ key v, core.get? key = some v → isDescription key) ↔ coreDescribed parts
  null : becomesNull (.obj core) = coreBecomesNull parts
  type : core.get? "type" = (coreSelectors parts).get? "type"

lemma valueKeyword_kept {key : Text} {u v : JsonValue φ} (h : valueKeyword key u = some v) :
    isDropped key v = false ∧ key ∉ metaKeywords := by
  have hkept : isDropped key u = false ∧ key ∉ metaKeywords := by
    cases hout : isDropped key u || metaKeywords.contains key with
    | true =>
      unfold valueKeyword at h
      rw [if_pos hout] at h
      cases h
    | false => simpa using hout
  refine ⟨?_, hkept.2⟩
  by_cases htype : key = "type"
  · subst htype
    simp [isDropped, bannedKeywords]
  · suffices v = u by rw [this]; exact hkept.1
    have hin : (isDropped key u || metaKeywords.contains key) = false := by simp [hkept]
    cases u with
    | arr types =>
      simp only [valueKeyword, hin, Bool.false_eq_true, if_false, htype] at h
      split_ifs at h
      exact (Option.some.inj h).symm
    | _ =>
      simp only [valueKeyword, hin, Bool.false_eq_true, if_false] at h
      exact (Option.some.inj h).symm

/-- A value with keywords is encoded with keywords. -/
lemma exists_encoded_key {node : Dict (JsonValue φ)} (h : node.keys.Nodup)
    (hne : (splitProperty node).value ≠ []) :
    ∃ key v, (encoded (splitProperty node).value false).get? key = some v ∧
      key ∉ metaKeywords := by
  have hkeys : (splitProperty node).value.keys.Nodup := Dict.keys_filterMap_nodup h _
  by_cases hfree : isFreeForm (splitProperty node).value false
  · obtain ⟨description, heq⟩ := encoded_of_freeForm hkeys hfree
    exact ⟨"type", .str "string", by rw [heq]; rfl, by decide⟩
  · have hfree : isFreeForm (splitProperty node).value false = false := Bool.not_eq_true _ ▸ hfree
    by_cases hobj : isObjectNode (splitProperty node).value
    · exact ⟨_, _, get?_encoded_closed hkeys hfree hobj, by decide⟩
    · obtain ⟨⟨key, v⟩, hp⟩ := List.exists_mem_of_ne_nil _ hne
      have hget := (Dict.mem_iff_get? hkeys).1 hp
      have hvalue := hget
      rw [get?_value h, Option.bind_eq_some_iff] at hvalue
      obtain ⟨u, -, hu⟩ := hvalue
      obtain ⟨w, hw⟩ : ∃ w, transformKeyword (transformNode · false)
          (isObjectNode (splitProperty node).value) (requiredNames (splitProperty node).value) key v =
            some w :=
        exists_transformKeyword (valueKeyword_kept hu).1 fun hobject => absurd hobject hobj
      refine ⟨key, w, ?_, (valueKeyword_kept hu).2⟩
      rw [get?_encoded hkeys hfree, if_neg fun h => hobj h.1, if_neg fun h => hobj h.1, hget,
        Option.bind_some, hw]

lemma exact_encoded {node : Dict (JsonValue φ)} (h : node.keys.Nodup) {root : Bool} :
    Exact (encoded node root) := by
  intro hobj
  by_cases hfree : isFreeForm node root
  · obtain ⟨description, heq⟩ := encoded_of_freeForm h hfree
    rw [heq] at hobj
    cases hobj
  · have hfree : isFreeForm node root = false := Bool.not_eq_true _ ▸ hfree
    rw [isObjectNode_encoded h hfree] at hobj
    rw [get?_encoded_required h hfree hobj, propertiesOf_encoded h hfree]
    simp [Dict.keys, encodedProperty, Function.comp_def]

lemma Exact.congr {s t : Dict (JsonValue φ)} (htype : s.get? "type" = t.get? "type")
    (hprops : s.get? "properties" = t.get? "properties")
    (hrequired : s.get? "required" = t.get? "required") (h : Exact s) : Exact t := by
  intro hobj
  have hprops' : propertiesOf s = propertiesOf t := by rw [propertiesOf, propertiesOf, hprops]
  rw [← hprops', ← hrequired]
  exact h (isObjectNode_iff.2 (by rw [htype, hprops]; exact isObjectNode_iff.1 hobj))

/-- A core with one branch lists its properties in their order just if `required` beside the branch
does. -/
lemma exact_mergedCore {branch value : Dict (JsonValue φ)} (hbranch : branch.keys.Nodup)
    (hvalue : NodeShape value) :
    Exact (mergedCore branch value) ↔ (isObjectNode value = false → propertiesOf branch ≠ [] →
      ∀ names, value.get? "required" = some (.arr names) →
        names = (propertiesOf branch).keys.map .str) := by
  by_cases hnone : propertiesOf value = []
  · by_cases hsome : propertiesOf branch = []
    · have hplain := mergedCore_not_object hbranch hvalue hnone hsome
      exact iff_of_true (fun hobj => by rw [hplain] at hobj; cases hobj)
        fun _ hne => absurd hsome hne
    have hkeys : Dict.keys ((propertiesOf branch).map (encodedProperty (requiredNames branch))) =
        (propertiesOf branch).keys := by
      simp [Dict.keys, encodedProperty, Function.comp_def]
    have hobj : isObjectNode (mergedCore branch value) := by
      rw [isObjectNode_iff, get?_mergedCore hvalue.keys, get?_mergedCore hvalue.keys,
        encoded_properties_none hvalue hnone, Option.none_or]
      exact .inr (properties_of_encoded hbranch hsome)
    rw [Exact, imp_iff_right hobj, (get?_shown hbranch hvalue.keys hnone hsome).2,
      propertiesOf_shown hbranch hvalue hnone hsome, hkeys]
    by_cases hobject : isObjectNode value
    · rw [if_pos hobject, Option.none_or]
      exact iff_of_true rfl fun hplain => by rw [hobject] at hplain; cases hplain
    · rw [if_neg hobject]
      simp only [hobject, forall_const, ne_eq, hsome, not_false_eq_true]
      cases hget : value.get? "required" with
      | none => simp
      | some v =>
        obtain ⟨names, rfl⟩ := hvalue.required v hget
        simp
  · -- the property is an object itself
    obtain ⟨hobject, hfree⟩ := object_of_properties hnone
    obtain ⟨props, hproperties⟩ := properties_of_encoded hvalue.keys hnone
    have hrequired := get?_encoded_required hvalue.keys hfree hobject
    have hexact := exact_encoded hvalue.keys (isObjectNode_iff.2 (.inr ⟨props, hproperties⟩))
    have hprops : propertiesOf (mergedCore branch value) = propertiesOf (encoded value false) := by
      rw [propertiesOf, propertiesOf, get?_mergedCore_of_some hvalue.keys hproperties, hproperties]
    refine iff_of_true (fun _ => ?_) fun hplain => by rw [hobject] at hplain; cases hplain
    rw [get?_mergedCore_of_some hvalue.keys hrequired, hprops, ← hexact, hrequired]

/-- A core that has more than a union is not bare. -/
lemma keys_ne_bare {core : Dict (JsonValue φ)} {key : Text} {v : JsonValue φ}
    (hget : core.get? key = some v) (hkey : key ≠ "anyOf") :
    core.keys ≠ [Text.ofString "anyOf"] := by
  intro hkeys
  have hmem := Dict.mem_keys_of_get? hget
  rw [hkeys, List.mem_singleton] at hmem
  exact hkey hmem

lemma encoded_nil : encoded ([] : Dict (JsonValue φ)) false = [] := rfl

/-- The union of an encoded branch keeps the branches that stay. -/
lemma get?_encoded_anyOf {node : Dict (JsonValue φ)} (h : SchemaTree (.obj node)) :
    (encoded node false).get? "anyOf" =
      if !isFreeForm node false && (node.get? "anyOf").isSome then
        some (.arr (((unionOf node).filter survives).map encodedBranch))
      else none := by
  by_cases hfree : isFreeForm node false
  · obtain ⟨description, heq⟩ := encoded_of_freeForm h.shape.keys hfree
    rw [heq, hfree]
    rfl
  · have hfree : isFreeForm node false = false := Bool.not_eq_true _ ▸ hfree
    rw [hfree, get?_encoded_of_ne h.shape.keys hfree (by decide) (by decide)]
    cases hget : node.get? "anyOf" with
    | none => rfl
    | some v =>
      obtain ⟨branches, rfl⟩ := h.shape.anyOf v hget
      have hunion : unionOf node = branches := by rw [unionOf, hget]
      rw [hunion, ← cleanAnyof_map fun b hb =>
      schemaTree_hereditary.branches node h b (hunion ▸ hb)]
      simp [transformKeyword, isDropped, bannedKeywords]

/-- The core of a property, by its parts. -/
lemma coreIs {D : JsonValue φ → Prop} {F : JsonValue φ → Place → Prop} (hD : Hereditary D)
    {node : Dict (JsonValue φ)} (hnodeD : D (.obj node))
    (ih : ∀ w : JsonValue φ, w.depth < (JsonValue.obj node).depth → D w →
      Agrees Stable Kept F w) :
    CoreIs F (splitProperty node) (propertyCore (transformNode · false) (splitProperty node)) := by
  have h := hD.tree _ hnodeD
  have hvalue := h.value.shape
  have hnone := encoded_value_anyOf hvalue.keys (get?_value_anyOf h.shape)
  have hnonempty : (splitProperty node).value ≠ [] → ∃ key v,
      (encoded (splitProperty node).value false).get? key = some v ∧ isDescription key = false := by
    intro hne
    obtain ⟨key, v, hget, hkey⟩ := exists_encoded_key h.shape.keys hne
    refine ⟨key, v, hget, ?_⟩
    have hany : key ≠ "anyOf" := by
      rintro rfl
      rw [hnone] at hget
      cases hget
    simp [isDescription, hkey, hany]
  have hne {key : Text} (hkey : isDescription key = false) : key ≠ "anyOf" := by
    rintro rfl
    cases hkey
  obtain ⟨hcompliant, hsurvives, -⟩ := coreAgrees stable_typeFree hD hnodeD ih
  have hkeys := propertyCore_keys h
  rcases hlist : (splitProperty node).nonNullBranches with _ | ⟨b, _ | ⟨b', bs⟩⟩
  · rw [propertyCore_none hlist] at hcompliant hsurvives hkeys ⊢
    refine ⟨hkeys, hcompliant, ?_, hsurvives, ?_, ?_, ?_, ?_, ?_, ?_⟩
    · exact iff_of_true (exact_encoded hvalue.keys) (by simp [RequiredExact, hlist])
    · simp [hnone, coreHasUnion, hlist]
    · simp [coreUnion, hlist]
    · have hbare : coreIsBare (splitProperty node) = false := by simp [coreIsBare, hlist]
      rw [hbare]
      refine iff_of_false (fun hkeys => ?_) (by simp)
      obtain ⟨v, hget⟩ := Dict.exists_get? (hkeys ▸ List.mem_singleton_self _)
      rw [hnone] at hget
      cases hget
    · by_cases hempty : (splitProperty node).value = []
      · rw [coreDescribed, hlist, hempty, encoded_nil]
        exact iff_of_true (fun key v hget => by cases hget) rfl
      · obtain ⟨key, v, hget, hkey⟩ := hnonempty hempty
        refine iff_of_false (fun hall => ?_) (by simp [coreDescribed, hempty])
        rw [hall key v hget] at hkey
        cases hkey
    · rw [becomesNull_congr (encoded_asText hvalue.keys), coreBecomesNull, coreSelectors, hlist]
    · rw [(encoded_asText hvalue.keys).type, coreSelectors, hlist]
  · have hmem : b ∈ (splitProperty node).nonNullBranches := by simp [hlist]
    have htree := schemaTree_hereditary.branches node h b (List.mem_filter.1 hmem).1
    obtain ⟨branch, rfl⟩ := htree.exists_obj
    have hbranch := htree.shape
    have hselectors := (encoded_asText hbranch.keys).merge (encoded_asText hvalue.keys)
      (encoded_keys hvalue.keys _) (asText_keys hvalue.keys)
    rw [propertyCore_one hlist] at hcompliant hsurvives hkeys ⊢
    refine ⟨hkeys, hcompliant, ?_, hsurvives, ?_, ?_, ?_, ?_, ?_, ?_⟩
    · rw [exact_mergedCore hbranch.keys hvalue, RequiredExact, hlist]
      simp [fieldsOf]
    · rw [get?_mergedCore hvalue.keys, hnone, Option.none_or, coreHasUnion, coreUnion, hlist]
      exact get?_encoded_anyOf htree
    · intro b hb
      rw [coreUnion, hlist] at hb
      obtain ⟨hmem, hsurvives⟩ := List.mem_filter.1 hb
      exact ⟨schemaTree_hereditary.branches branch htree b hmem, hsurvives⟩
    · by_cases hempty : (splitProperty node).value = []
      · rw [coreIsBare, hlist, hempty, mergedCore, encoded_nil]
        exact encoded_bare hbranch.keys
      · obtain ⟨key, v, hget, hkey⟩ := hnonempty hempty
        refine iff_of_false (keys_ne_bare (get?_mergedCore_of_some hvalue.keys hget) (hne hkey)) ?_
        simp [coreIsBare, hempty]
    · by_cases hempty : (splitProperty node).value = []
      · rw [coreDescribed, hlist, hempty, mergedCore, encoded_nil]
        exact encoded_described hbranch.keys
      · obtain ⟨key, v, hget, hkey⟩ := hnonempty hempty
        refine iff_of_false (fun hall => ?_) (by simp [coreDescribed, hempty])
        rw [hall key v (get?_mergedCore_of_some hvalue.keys hget)] at hkey
        cases hkey
    · rw [mergedCore, becomesNull_congr hselectors, coreBecomesNull, coreSelectors, hlist]
      rfl
    · rw [mergedCore, hselectors.type, coreSelectors, hlist]
      rfl
  · have htrees : ∀ c ∈ b :: b' :: bs, SchemaTree c := fun c hc =>
      schemaTree_hereditary.branches node h c (List.mem_filter.1 (hlist ▸ hc)).1
    have hselectors := encoded_asText hvalue.keys
    rw [propertyCore_many hlist] at hcompliant hsurvives hkeys ⊢
    have hget {key : Text} (hkey : key ≠ "anyOf") : (Dict.insert
        (encoded (splitProperty node).value false) "anyOf"
          (.arr (cleanAnyof ((b :: b' :: bs).map (transformNode · false))))).get? key =
        (encoded (splitProperty node).value false).get? key := by
      rw [Dict.get?_insert, if_neg hkey]
    refine ⟨hkeys, hcompliant, ?_, hsurvives, ?_, ?_, ?_, ?_, ?_, ?_⟩
    · refine iff_of_true ?_ (by simp [RequiredExact, hlist])
      exact (exact_encoded hvalue.keys).congr (hget (by decide)).symm (hget (by decide)).symm
        (hget (by decide)).symm
    · rw [Dict.get?_insert, if_pos rfl, coreHasUnion, coreUnion, hlist, cleanAnyof_map htrees]
      rfl
    · intro c hc
      rw [coreUnion, hlist] at hc
      obtain ⟨hmem, hsurvives⟩ := List.mem_filter.1 hc
      exact ⟨htrees c hmem, hsurvives⟩
    · by_cases hempty : (splitProperty node).value = []
      · rw [coreIsBare, hlist, hempty, encoded_nil]
        exact iff_of_true rfl rfl
      · obtain ⟨key, v, hv, hkey⟩ := hnonempty hempty
        refine iff_of_false (keys_ne_bare ((hget (hne hkey)).trans hv) (hne hkey)) ?_
        simp [coreIsBare, hempty]
    · by_cases hempty : (splitProperty node).value = []
      · rw [coreDescribed, hlist, hempty, encoded_nil]
        refine iff_of_true (fun key v hget => ?_) rfl
        rw [Dict.get?_insert] at hget
        split_ifs at hget with hkey
        · rw [hkey]
          rfl
        · cases hget
      · obtain ⟨key, v, hv, hkey⟩ := hnonempty hempty
        refine iff_of_false (fun hall => ?_) (by simp [coreDescribed, hempty])
        rw [hall key v ((hget (hne hkey)).trans hv)] at hkey
        cases hkey
    · have hselected : hasBranchSelector (Dict.insert (encoded (splitProperty node).value false)
          "anyOf" (.arr (cleanAnyof ((b :: b' :: bs).map (transformNode · false))))) :=
        hasBranchSelector_iff.2 ⟨"anyOf", by decide, by rw [Dict.get?_insert, if_pos rfl]; rfl⟩
      have hprops : (encoded (splitProperty node).value false).get? "properties" = none ↔
          (asText (splitProperty node).value).get? "properties" = none := by
        rw [← Option.not_isSome_iff_eq_none, ← Option.not_isSome_iff_eq_none, hselectors.properties]
      rw [becomesNull, normalizeAnyofBranch_obj, if_pos hselected, Option.any_some,
        coreBecomesNull, coreSelectors, hlist]
      rw [Bool.eq_iff_iff, isNullSchema_iff, isNullSchema_iff, hget (by decide), hget (by decide),
        hselectors.type, hprops]
    · rw [hget (by decide), hselectors.type, coreSelectors, hlist]

end RentCompass.Tools
