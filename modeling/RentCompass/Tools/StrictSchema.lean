import RentCompass.Tools.SchemaCheck

/-!
# Strict schemas

The provider's strict mode takes only schemas in which every property is required. The encoder
makes an optional property nullable and an object without properties a JSON text; the executor
drops the nulls and decodes the texts again.
-/

namespace RentCompass.Tools

variable {φ : Type}

/-! ### Keywords -/

def bannedKeywords : List Text := ["minLength", "maxLength", "minItems", "maxItems"]

def supportedFormats : List Text := ["email", "hostname", "ipv4", "ipv6", "uuid"]

/-- A keyword the strict schema does not have. -/
def isDropped (key : Text) (value : JsonValue φ) : Bool :=
  bannedKeywords.contains key || key = "format" &&
    match value with
    | .str format => !supportedFormats.contains format
    | _ => true

def metaKeywords : List Text := ["description", "default", "title", "deprecated", "examples"]

def branchSelectorKeywords : List Text := ["type", "anyOf", "$ref"]

/-- `node.get("type") == type`. -/
def typeIs (node : Dict (JsonValue φ)) (type : Text) : Bool :=
  match node.get? "type" with
  | some (.str t) => t = type
  | _ => false

/-- `name == "null"`. -/
def isNullName (name : JsonValue φ) : Bool :=
  match name with
  | .str t => t = "null"
  | _ => false

def nullBranch : JsonValue φ := .obj [("type", .str "null")]

/-! ### Branches of a union -/

def scalarType : JsonValue φ → Option Text
  | .bool _ => some "boolean"
  | .int _ => some "integer"
  | .float _ => some "number"
  | .str _ => some "string"
  | .null => some "null"
  | _ => none

/-- The types of the members, each once. -/
def memberTypes : List (JsonValue φ) → Option (List Text)
  | [] => some []
  | v :: vs => do
    let t ← scalarType v
    let ts ← memberTypes vs
    some (t :: ts.filter (· ≠ t))

/-- `_enum_member_type`. -/
def enumMemberType (values : JsonValue φ) : Option (JsonValue φ) :=
  match values with
  | .arr (v :: vs) =>
    (memberTypes (v :: vs)).map fun types =>
      match types with
      | [t] => .str t
      | types =>
        if types.all (fun t => t = "integer" || t = "number") then .str "number"
        else .arr (types.map .str)
  | _ => none

def hasBranchSelector (node : Dict (JsonValue φ)) : Bool :=
  branchSelectorKeywords.any node.keys.contains

/-- `_normalize_anyof_branch`. -/
def normalizeAnyofBranch (branch : JsonValue φ) : Option (JsonValue φ) :=
  match branch with
  | .obj node =>
    if hasBranchSelector node then some (.obj node)
    else (Dict.get? node "enum").bind fun values =>
      (enumMemberType values).map fun type => .obj (Dict.insert node "type" type)
  | branch => some branch

/-- `_clean_anyof`. -/
def cleanAnyof (branches : List (JsonValue φ)) : List (JsonValue φ) :=
  branches.filterMap normalizeAnyofBranch

def isNullSchema (node : JsonValue φ) : Bool :=
  match node with
  | .obj node => typeIs node "null" && !(Dict.keys node).contains "properties"
  | _ => false

/-! ### One property -/

/-- `{**a, **b}`. -/
def mergeDicts (a b : Dict (JsonValue φ)) : Dict (JsonValue φ) :=
  b.foldl (fun d p => d.insert p.1 p.2) a

/-- The fields of a dict. -/
def fieldsOf : JsonValue φ → Dict (JsonValue φ)
  | .obj fields => fields
  | _ => []

/-- What `_split_property` keeps of a keyword that describes the value. -/
def valueKeyword (key : Text) (value : JsonValue φ) : Option (JsonValue φ) :=
  if isDropped key value || metaKeywords.contains key then none
  else
    match value with
    | .arr types =>
      if key = "anyOf" then none
      else if key = "type" then
        match types.filter (!isNullName ·) with
        | [] => none
        | [t] => some t
        | types => some (.arr types)
      else some value
    | _ => some value

/-- The four parts of `_split_property`. -/
structure SplitProperty (φ : Type) where
  metadata : Dict (JsonValue φ)
  value : Dict (JsonValue φ)
  nonNullBranches : List (JsonValue φ)
  nullPresent : Bool

/-- The union a schema lists, if it lists one. -/
def unionOf (node : Dict (JsonValue φ)) : List (JsonValue φ) :=
  match node.get? "anyOf" with
  | some (.arr branches) => branches
  | _ => []

/-- The types a schema lists, if it lists several. -/
def typesOf (node : Dict (JsonValue φ)) : List (JsonValue φ) :=
  match node.get? "type" with
  | some (.arr types) => types
  | _ => []

/-- `_split_property`. -/
def splitProperty (node : Dict (JsonValue φ)) : SplitProperty φ where
  metadata := node.filter fun p => !isDropped p.1 p.2 && metaKeywords.contains p.1
  value := node.filterMap fun p => (valueKeyword p.1 p.2).map (p.1, ·)
  nonNullBranches := (unionOf node).filter (!isNullSchema ·)
  nullPresent := (unionOf node).any isNullSchema ||
    (typesOf node).any isNullName

/-- The value schema of a property, its own keywords over those of a single branch. -/
def propertyCore (transform : JsonValue φ → JsonValue φ) (parts : SplitProperty φ) :
    Dict (JsonValue φ) :=
  let valueCore := fieldsOf (transform (.obj parts.value))
  match parts.nonNullBranches.map transform with
  | [] => valueCore
  | [branch] => mergeDicts (fieldsOf branch) valueCore
  | branches => Dict.insert valueCore "anyOf" (.arr (cleanAnyof branches))

/-- The union of a property that may be null. A core that is a union itself is not nested. -/
def nullableUnion (core : Dict (JsonValue φ)) : List (JsonValue φ) :=
  (if core.keys = [Text.ofString "anyOf"] then cleanAnyof (unionOf core)
    else cleanAnyof [.obj core]) ++ [nullBranch]

/-- `_transform_property`. -/
def transformProperty (transform : JsonValue φ → JsonValue φ) (name : Text)
    (originalRequired : List Text) (property : JsonValue φ) : JsonValue φ :=
  match property with
  | .obj node =>
    let parts := splitProperty node
    let core := propertyCore transform parts
    if originalRequired.contains name && !parts.nullPresent then
      .obj (mergeDicts core parts.metadata)
    else .obj (Dict.insert parts.metadata "anyOf" (.arr (nullableUnion core)))
  | property => property

/-! ### One node -/

def isObjectNode (node : Dict (JsonValue φ)) : Bool :=
  typeIs node "object" ||
    (node.get? "properties" matches some (.obj _))

/-- The type of an item that has no selector. -/
def stringByDefault (items : JsonValue φ) : JsonValue φ :=
  match items with
  | .obj node =>
    if hasBranchSelector node then .obj node else .obj (Dict.insert node "type" (.str "string"))
  | items => items

/-- What becomes of one keyword of a node. -/
def transformKeyword (transform : JsonValue φ → JsonValue φ) (isObject : Bool)
    (originalRequired : List Text) (key : Text) (value : JsonValue φ) : Option (JsonValue φ) :=
  if isDropped key value then none
  else if isObject && (key = "required" || key = "additionalProperties") then none
  else
    match value with
    | .obj sub =>
      if key = "properties" then
        some (.obj (sub.map fun p => (p.1, transformProperty transform p.1 originalRequired p.2)))
      else if key = "items" then some (stringByDefault (transform value))
      else if key = "$defs" || key = "definitions" then
        some (.obj (sub.map fun p => (p.1, transform p.2)))
      else some value
    | .arr branches =>
      if key = "anyOf" then some (.arr (cleanAnyof (branches.map transform))) else some value
    | _ => some value

def jsonStringMarker : Text := " (free-form JSON object — pass it JSON-encoded as a string)"

/-- An object without properties, as a JSON text. -/
def freeFormString (out : Dict (JsonValue φ)) : JsonValue φ :=
  let description : Text :=
    match out.get? "description" with
    | some (.str (c :: text)) => c :: text
    | _ => "Free-form object"
  .obj [("type", .str "string"), ("description", .str (description ++ jsonStringMarker))]

/-- One level of `_transform`. -/
def transformStep (transform : JsonValue φ → Bool → JsonValue φ) (node : JsonValue φ)
    (root : Bool) : JsonValue φ :=
  match node with
  | .obj node =>
    let isObject := isObjectNode node
    let out : Dict (JsonValue φ) := node.filterMap fun p =>
      (transformKeyword (transform · false) isObject (requiredNames node) p.1 p.2).map (p.1, ·)
    if isObject then
      if (propertiesOf out).isEmpty && !root then freeFormString out
      else
        .obj ((Dict.insert out "required" (.arr ((propertiesOf out).keys.map .str))).insert
          "additionalProperties" (.bool false))
    else .obj out
  | node => node

/-- `_transform`. -/
def transformNode (node : JsonValue φ) (root : Bool) : JsonValue φ :=
  JsonValue.byDepth transformStep node root

/-- `to_strict_schema`. -/
def toStrictSchema (schema : JsonValue φ) : JsonValue φ := transformNode schema true

/-! ### The executor's side -/

mutual

/-- `strip_null_args`. -/
def stripNullArgs : JsonValue φ → JsonValue φ
  | .obj fields => .obj (stripNullFields fields)
  | args => args

def stripNullFields : List (Text × JsonValue φ) → List (Text × JsonValue φ)
  | [] => []
  | (_, .null) :: fields => stripNullFields fields
  | (key, value) :: fields => (key, stripNullArgs value) :: stripNullFields fields

end

/-- A branch that is a schema of something else than null. -/
def nonNullBranch (branch : JsonValue φ) : Option (Dict (JsonValue φ)) :=
  match branch with
  | .obj node => if typeIs node "null" then none else some node
  | _ => none

/-- `_prop_schema`: the first branch that is not null. -/
def propSchema (schema : JsonValue φ) : Dict (JsonValue φ) :=
  match schema with
  | .obj node => ((unionOf node).findSome? nonNullBranch).getD node
  | _ => []

/-- A text that stands for an object is decoded, if it is the JSON of one. -/
def decodeText [FloatFormat φ] (text : Text) : JsonValue φ :=
  match (JsonValue.loads text : Option (JsonValue φ)) with
  | some (.obj fields) => .obj fields
  | _ => .str text

/-- The schema of the items of a list. -/
def itemsOf (schema : Dict (JsonValue φ)) : JsonValue φ := (schema.get? "items").getD (.obj [])

mutual

/-- `_walk`. -/
def walk [FloatFormat φ] (schema : JsonValue φ) : JsonValue φ → JsonValue φ
  | .str text => if isObjectNode (propSchema schema) then decodeText text else .str text
  | .arr items =>
    if !isObjectNode (propSchema schema) && typeIs (propSchema schema) "array" then
      .arr (walkItems (itemsOf (propSchema schema)) items)
    else .arr items
  | .obj fields =>
    match (propSchema schema).get? "properties" with
    | some (.obj props) => .obj (walkFields props fields)
    | _ => .obj fields
  | value => value

def walkItems [FloatFormat φ] (schema : JsonValue φ) : List (JsonValue φ) → List (JsonValue φ)
  | [] => []
  | v :: items => walk schema v :: walkItems schema items

def walkFields [FloatFormat φ] (props : Dict (JsonValue φ)) :
    List (Text × JsonValue φ) → List (Text × JsonValue φ)
  | [] => []
  | (key, v) :: fields => (key, walk ((props.get? key).getD (.obj [])) v) :: walkFields props fields

end

/-- `decode_json_string_args`. -/
def decodeJsonStringArgs [FloatFormat φ] (args authored : JsonValue φ) : JsonValue φ :=
  match args, authored with
  | .obj fields, .obj schema => .obj (walkFields (propertiesOf schema) fields)
  | args, _ => args

/-- What the executor makes of the arguments of a strict call. -/
def executorArgs [FloatFormat φ] (args authored : JsonValue φ) : JsonValue φ :=
  stripNullArgs (decodeJsonStringArgs (stripNullArgs args) authored)

/-! ### The encoder without its depth -/

lemma depthItems_filter_le (items : List (JsonValue φ)) (p : JsonValue φ → Bool) :
    JsonValue.depthItems (items.filter p) ≤ JsonValue.depthItems items := by
  induction items with
  | nil => exact le_rfl
  | cons v items ih =>
    by_cases hv : p v
    · simpa [hv, JsonValue.depthItems] using max_le_max le_rfl ih
    · simpa [hv, JsonValue.depthItems] using .inr ih

lemma valueKeyword_depth {key : Text} {v w : JsonValue φ} (h : valueKeyword key v = some w) :
    w.depth ≤ v.depth := by
  cases v with
  | arr types =>
    have hfilter := depthItems_filter_le types (!isNullName ·)
    simp only [valueKeyword] at h
    split_ifs at h
    · split at h
      · cases h
      · next t hone =>
        cases h
        rw [hone] at hfilter
        exact ((le_max_left _ _).trans hfilter).trans (Nat.le_succ _)
      · cases h
        exact Nat.succ_le_succ hfilter
    · cases h
      exact le_rfl
  | _ =>
    simp only [valueKeyword] at h
    split_ifs at h
    cases h
    exact le_rfl

lemma splitProperty_value_depth (node : Dict (JsonValue φ)) :
    (JsonValue.obj (splitProperty node).value).depth ≤ (JsonValue.obj node).depth := by
  apply Nat.succ_le_succ
  show JsonValue.depthFields (node.filterMap _) ≤ _
  induction node with
  | nil => exact le_rfl
  | cons p node ih =>
    obtain ⟨k, v⟩ := p
    cases hv : valueKeyword k v with
    | none =>
      simp only [List.filterMap_cons, hv, Option.map_none]
      exact ih.trans (le_max_right _ _)
    | some w =>
      simp only [List.filterMap_cons, hv, Option.map_some]
      exact max_le_max (valueKeyword_depth hv) ih

lemma depth_lt_unionOf {node : Dict (JsonValue φ)} {b : JsonValue φ} (h : b ∈ unionOf node) :
    b.depth < (JsonValue.obj node).depth := by
  unfold unionOf at h
  split at h
  · next hget => exact (JsonValue.depth_lt_arr h).trans (JsonValue.depth_lt_get? hget)
  · cases h

lemma transformProperty_congr {f g : JsonValue φ → JsonValue φ} {pv : JsonValue φ}
    (h : ∀ w, w.depth ≤ pv.depth → f w = g w) (name : Text) (required : List Text) :
    transformProperty f name required pv = transformProperty g name required pv := by
  cases pv with
  | obj node =>
    have hcore : propertyCore f (splitProperty node) = propertyCore g (splitProperty node) := by
      have hbranches : (splitProperty node).nonNullBranches.map f =
          (splitProperty node).nonNullBranches.map g :=
        List.map_congr_left fun b hb =>
          h b (depth_lt_unionOf (List.mem_filter.1 hb).1).le
      unfold propertyCore
      rw [hbranches, h _ (splitProperty_value_depth node)]
    simp only [transformProperty, hcore]
  | _ => rfl

lemma transformStep_looksBelow : JsonValue.LooksBelow (transformStep (φ := φ)) := by
  intro node f g h
  cases node with
  | obj node =>
    have hkeyword (isObject : Bool) (required : List Text) (p) (hp : p ∈ node) :
        transformKeyword (f · false) isObject required p.1 p.2 =
          transformKeyword (g · false) isObject required p.1 p.2 := by
      obtain ⟨key, v⟩ := p
      have hv := JsonValue.depth_lt_obj hp
      cases v with
      | obj sub =>
        have hprops : sub.map (fun q => (q.1, transformProperty (f · false) q.1 required q.2)) =
            sub.map (fun q => (q.1, transformProperty (g · false) q.1 required q.2)) :=
          List.map_congr_left fun q hq => by
            rw [transformProperty_congr fun w hw => by
              rw [h w (hw.trans_lt ((JsonValue.depth_lt_obj hq).trans hv))]]
        have hdefs : sub.map (fun q => (q.1, f q.2 false)) =
            sub.map (fun q => (q.1, g q.2 false)) :=
          List.map_congr_left fun q hq => by rw [h _ ((JsonValue.depth_lt_obj hq).trans hv)]
        simp only [transformKeyword, hprops, hdefs, h _ hv]
      | arr branches =>
        have hbranches : branches.map (f · false) = branches.map (g · false) :=
          List.map_congr_left fun b hb => by rw [h _ ((JsonValue.depth_lt_arr hb).trans hv)]
        simp only [transformKeyword, hbranches]
      | _ => rfl
    have hout (isObject : Bool) (required : List Text) :
        node.filterMap (fun p =>
          (transformKeyword (f · false) isObject required p.1 p.2).map (p.1, ·)) =
        node.filterMap (fun p =>
          (transformKeyword (g · false) isObject required p.1 p.2).map (p.1, ·)) :=
      List.filterMap_congr fun p hp => by rw [hkeyword _ _ p hp]
    funext root
    simp only [transformStep, hout]
  | _ => rfl

lemma transformNode_eq (node : JsonValue φ) (root : Bool) :
    transformNode node root = transformStep transformNode node root :=
  congrFun (JsonValue.byDepth_eq transformStep_looksBelow node) root

/-- The keywords of a node, transformed. -/
def strictFields (node : Dict (JsonValue φ)) : Dict (JsonValue φ) :=
  node.filterMap fun p => (transformKeyword (transformNode · false) (isObjectNode node)
    (requiredNames node) p.1 p.2).map (p.1, ·)

lemma transformNode_obj (node : Dict (JsonValue φ)) (root : Bool) : transformNode (.obj node) root =
    if isObjectNode node then
      if (propertiesOf (strictFields node)).isEmpty && !root then freeFormString (strictFields node)
      else
        .obj ((Dict.insert (strictFields node) "required"
          (.arr ((propertiesOf (strictFields node)).keys.map .str))).insert
            "additionalProperties" (.bool false))
    else .obj (strictFields node) := by
  rw [transformNode_eq]
  rfl

end RentCompass.Tools
