import RentCompass.Tools.StrictSchema

/-!
# What strict mode refuses

The check of a strict schema, with the violations it lists, and what a schema without violations
is like: a condition on each keyword by itself, and one on the properties of an object.
-/

namespace RentCompass.Tools

open JsonValue

variable {φ : Type}

/-! ### The check -/

/-- A schema that has no `type`, no `anyOf` and no `$ref`. -/
def lacksSelector (schema : JsonValue φ) : Bool :=
  match schema with
  | .obj node => !hasBranchSelector node
  | _ => false

/-- `node.get("required") or []` -/
def requiredOf (node : Dict (JsonValue φ)) : List (JsonValue φ) :=
  match node.get? "required" with
  | some (.arr required) => required
  | _ => []

/-- The name is that of a property. -/
def isPropertyOf (props : Dict (JsonValue φ)) (required : JsonValue φ) : Bool :=
  match required with
  | .str name => props.keys.contains name
  | _ => false

def nameNeedsRequired (required : List (JsonValue φ)) (name : Text) : Bool :=
  required.all fun r =>
    match r with
    | .str name' => name' ≠ name
    | _ => true

/-- The keywords that are listed whatever the node is. -/
def keywordViolations (repr : JsonValue φ → Text) (node : Dict (JsonValue φ)) (path : Text) :
    List Text :=
  ((bannedKeywords.filter node.keys.contains).map fun banned =>
    path ++ Text.ofString ": banned keyword '" ++ banned ++ Text.ofString "'") ++
  match node.get? "format" with
  | some format =>
    if isDropped "format" format then
      [path ++ Text.ofString ": unsupported format " ++ repr format ++
        Text.ofString " (strict accepts only " ++ repr (.arr (supportedFormats.map .str)) ++
        Text.ofString ")"]
    else []
  | none => []

/-- What is wrong with an object and its properties. -/
def objectViolations (repr : JsonValue φ → Text) (walk : JsonValue φ → Text → List Text)
    (node : Dict (JsonValue φ)) (path : Text) : List Text :=
  let props := propertiesOf node
  let required := requiredOf node
  let missing := props.keys.filter (nameNeedsRequired required)
  let extra := required.filter (!isPropertyOf props ·)
  (if node.get? "additionalProperties" matches some (.bool false) then []
    else [path ++ Text.ofString ": additionalProperties must be false"]) ++
  (if props.isEmpty && path ≠ "$" then [path ++ Text.ofString ": object with no properties"]
    else []) ++
  (if missing.isEmpty then []
    else [path ++ Text.ofString ": properties not in required: " ++
      repr (.arr (missing.map .str))]) ++
  (if extra.isEmpty then []
    else [path ++ Text.ofString ": required lists unknown properties: " ++ repr (.arr extra)]) ++
  props.flatMap fun p => walk p.2 (path ++ Text.ofString ".properties." ++ p.1)

def unionViolations (repr : JsonValue φ → Text) (walk : JsonValue φ → Text → List Text)
    (node : Dict (JsonValue φ)) (path : Text) : List Text :=
  (unionOf node).zipIdx.flatMap fun (branch, i) =>
    (if lacksSelector branch then
      [path ++ Text.ofString ".anyOf[" ++ decimal i ++
        Text.ofString "]: branch must have one of type/anyOf/$ref (got keys " ++
        repr (.arr ((fieldsOf branch).sortKeys.keys.map .str)) ++ Text.ofString ")"]
    else []) ++
    walk branch (path ++ Text.ofString ".anyOf[" ++ decimal i ++ Text.ofString "]")

def itemsViolations (walk : JsonValue φ → Text → List Text) (node : Dict (JsonValue φ))
    (path : Text) : List Text :=
  match node.get? "items" with
  | some (.obj items) =>
    (if hasBranchSelector items then []
      else [path ++ Text.ofString ".items: missing type/anyOf/$ref"]) ++
    walk (.obj items) (path ++ Text.ofString ".items")
  | _ => []

def definitionViolations (walk : JsonValue φ → Text → List Text) (node : Dict (JsonValue φ))
    (path defkey : Text) : List Text :=
  match node.get? defkey with
  | some (.obj defs) => defs.flatMap fun p =>
      walk p.2 (path ++ Text.ofString "." ++ defkey ++ Text.ofString "." ++ p.1)
  | _ => []

/-- One level of the check. -/
def complianceStep (repr : JsonValue φ → Text) (walk : JsonValue φ → Text → List Text)
    (node : JsonValue φ) (path : Text) : List Text :=
  match node with
  | .obj node =>
    keywordViolations repr node path ++
    (if isObjectNode node then objectViolations repr walk node path else []) ++
    unionViolations repr walk node path ++ itemsViolations walk node path ++
    definitionViolations walk node path "$defs" ++
    definitionViolations walk node path "definitions"
  | _ => []

/-- The violations of a node at this path. -/
def violationsAt (repr : JsonValue φ → Text) (node : JsonValue φ) (path : Text) : List Text :=
  JsonValue.byDepth (complianceStep repr) node path

/-- `validate_strict_compliance` -/
def validateStrictCompliance (repr : JsonValue φ → Text) (schema : JsonValue φ) : List Text :=
  violationsAt repr schema "$"

/-! ### Without violations -/

/-- The keyword is nothing strict mode refuses. -/
def KeywordOk (compliant : JsonValue φ → Prop) (key : Text) (value : JsonValue φ) : Prop :=
  isDropped key value = false ∧
  match value with
  | .arr branches => key = "anyOf" → ∀ b ∈ branches, lacksSelector b = false ∧ compliant b
  | .obj sub =>
    (key = "items" → hasBranchSelector sub ∧ compliant (.obj sub)) ∧
    (key = "$defs" ∨ key = "definitions" → ∀ p ∈ sub, compliant p.2)
  | _ => True

/-- An object lists its properties, each of them, and lets in no others. -/
structure ObjectOk (compliant : JsonValue φ → Prop) (root : Prop) (node : Dict (JsonValue φ)) :
    Prop where
  closed : node.get? "additionalProperties" = some (.bool false)
  nonempty : propertiesOf node = [] → root
  missing : ∀ p ∈ propertiesOf node, .str p.1 ∈ requiredOf node
  extra : ∀ r ∈ requiredOf node, ∃ p ∈ propertiesOf node, r = .str p.1
  properties : ∀ p ∈ propertiesOf node, compliant p.2

/-- One level of a schema without violations, by what its branches and its properties are. -/
structure NodeCompliant (branch property : JsonValue φ → Prop) (root : Prop)
    (node : Dict (JsonValue φ)) : Prop where
  keyword : ∀ key value, node.get? key = some value → KeywordOk branch key value
  object : isObjectNode node → ObjectOk property root node

/-! ### The check lists nothing just if nothing is refused -/

lemma nameNeedsRequired_eq_false {required : List (JsonValue φ)} {name : Text} :
    nameNeedsRequired required name = false ↔ .str name ∈ required := by
  rw [nameNeedsRequired, ← Bool.not_eq_true, List.all_eq_true]
  push Not
  constructor
  · rintro ⟨r, hr, hname⟩
    cases r with
    | str name' =>
      simp only [ne_eq, decide_not, Bool.not_eq_true', decide_eq_false_iff_not, not_not] at hname
      exact hname ▸ hr
    | _ => simp at hname
  · intro hmem
    exact ⟨_, hmem, by simp⟩

lemma isPropertyOf_iff {props : Dict (JsonValue φ)} {r : JsonValue φ} :
    isPropertyOf props r ↔ ∃ p ∈ props, r = .str p.1 := by
  cases r with
  | str name =>
    simp only [isPropertyOf, List.contains_iff_mem, Dict.keys, List.mem_map, JsonValue.str.injEq]
    exact exists_congr fun p => and_congr_right fun _ => eq_comm
  | _ => simp [isPropertyOf]

lemma keywordViolations_nil {repr : JsonValue φ → Text} {node : Dict (JsonValue φ)} {path : Text} :
    keywordViolations repr node path = [] ↔
      ∀ key value, node.get? key = some value → isDropped key value = false := by
  have hbanned : bannedKeywords.filter node.keys.contains = [] ↔
      ∀ key value, node.get? key = some value → key ∉ bannedKeywords := by
    rw [List.filter_eq_nil_iff]
    constructor
    · intro h key value hget hmem
      exact h key hmem (List.contains_iff_mem.2 (Dict.mem_keys_of_get? hget))
    · intro h key hmem hkey
      obtain ⟨value, hget⟩ := Dict.exists_get? (List.contains_iff_mem.1 hkey)
      exact h key value hget hmem
  rw [keywordViolations, List.append_eq_nil_iff, List.map_eq_nil_iff, hbanned]
  constructor
  · rintro ⟨hkeys, hformat⟩ key value hget
    by_cases hkey : key = "format"
    · subst hkey
      rw [hget] at hformat
      by_contra hdropped
      simp [hdropped] at hformat
    · simp [isDropped, hkeys key value hget, hkey]
  · intro h
    refine ⟨fun key value hget hmem => ?_, ?_⟩
    · have hdropped := h key value hget
      simp [isDropped, hmem] at hdropped
    · cases hget : node.get? "format" with
      | none => rfl
      | some format => simp [h _ format hget]

/-- The paths below a node have a point in them. -/
lemma below_ne_root (path name rest : Text) (h : point ∈ name) : path ++ name ++ rest ≠ "$" := by
  intro heq
  have hmem : point ∈ Text.ofString "$" := by
    rw [← heq]
    simp [h]
  exact absurd hmem (by decide)

lemma objectViolations_nil (repr : JsonValue φ → Text) {walk : JsonValue φ → Text → List Text}
    {compliant : JsonValue φ → Prop} {node : Dict (JsonValue φ)} (path : Text)
    (h : ∀ p ∈ propertiesOf node, ∀ path : Text, path ≠ "$" →
      (walk p.2 path = [] ↔ compliant p.2)) :
    objectViolations repr walk node path = [] ↔ ObjectOk compliant (path = "$") node := by
  have hmissing : (propertiesOf node).keys.filter (nameNeedsRequired (requiredOf node)) = [] ↔
      ∀ p ∈ propertiesOf node, .str p.1 ∈ requiredOf node := by
    simp [List.filter_eq_nil_iff, Bool.not_eq_true, nameNeedsRequired_eq_false, Dict.keys]
  have hextra : (requiredOf node).filter (!isPropertyOf (propertiesOf node) ·) = [] ↔
      ∀ r ∈ requiredOf node, ∃ p ∈ propertiesOf node, r = .str p.1 := by
    rw [List.filter_eq_nil_iff]
    refine forall₂_congr fun r _ => ?_
    rw [← isPropertyOf_iff]
    simp
  have hprops : ((propertiesOf node).flatMap fun p =>
      walk p.2 (path ++ Text.ofString ".properties." ++ p.1)) = [] ↔
      ∀ p ∈ propertiesOf node, compliant p.2 := by
    rw [List.flatMap_eq_nil_iff]
    exact forall₂_congr fun p hp => h p hp _ (below_ne_root path _ p.1 (by decide))
  rw [objectViolations]
  simp only [List.append_eq_nil_iff, hprops, ite_eq_left_iff, ite_eq_right_iff,
    List.cons_ne_nil, imp_false, not_not, Bool.and_eq_true, List.isEmpty_iff, decide_eq_true_eq,
    not_and, hmissing, hextra]
  constructor
  · rintro ⟨⟨⟨⟨hclosed, hnonempty⟩, hall⟩, honly⟩, hcompliant⟩
    refine ⟨?_, hnonempty, hall, honly, hcompliant⟩
    split at hclosed
    · assumption
    · cases hclosed
  · intro hok
    exact ⟨⟨⟨⟨by simp [hok.closed], hok.nonempty⟩, hok.missing⟩, hok.extra⟩, hok.properties⟩

lemma unionViolations_nil (repr : JsonValue φ → Text) {walk : JsonValue φ → Text → List Text}
    {compliant : JsonValue φ → Prop} {node : Dict (JsonValue φ)} (path : Text)
    (h : ∀ b ∈ unionOf node, ∀ path : Text, path ≠ "$" →
      (walk b path = [] ↔ compliant b)) :
    unionViolations repr walk node path = [] ↔
      ∀ b ∈ unionOf node, lacksSelector b = false ∧ compliant b := by
  rw [unionViolations, List.flatMap_eq_nil_iff]
  have hbranch (b) (hb : b ∈ unionOf node) (i : Nat) := h b hb
    (path ++ Text.ofString ".anyOf[" ++ decimal i ++ Text.ofString "]")
    (by rw [List.append_assoc]; exact below_ne_root path _ _ (by decide))
  constructor
  · intro hall b hb
    obtain ⟨i, hi⟩ := List.getElem?_of_mem hb
    have hnil := hall (b, i) (List.mk_mem_zipIdx_iff_getElem?.2 hi)
    rw [List.append_eq_nil_iff, hbranch b hb i] at hnil
    refine ⟨?_, hnil.2⟩
    by_contra hlacks
    simp [hlacks] at hnil
  · rintro hall ⟨b, i⟩ hmem
    have hb := List.fst_mem_of_mem_zipIdx hmem
    obtain ⟨hselector, hcompliant⟩ := hall b hb
    simp only [hselector, (hbranch b hb i).2 hcompliant, Bool.false_eq_true, if_false,
      List.append_nil]

lemma itemsViolations_nil {walk : JsonValue φ → Text → List Text}
    {compliant : JsonValue φ → Prop} {node : Dict (JsonValue φ)} (path : Text)
    (h : ∀ items, node.get? "items" = some items → ∀ path : Text, path ≠ "$" →
      (walk items path = [] ↔ compliant items)) :
    itemsViolations walk node path = [] ↔
      ∀ items, node.get? "items" = some (.obj items) →
        hasBranchSelector items ∧ compliant (.obj items) := by
  rw [itemsViolations]
  split
  · next items hget =>
    have hwalk := h _ hget (path ++ Text.ofString ".items")
      (by simpa using below_ne_root path (Text.ofString ".items") [] (by decide))
    rw [List.append_eq_nil_iff, hwalk]
    simp only [ite_eq_left_iff, List.cons_ne_nil, imp_false, not_not, hget, Option.some.injEq,
      JsonValue.obj.injEq, forall_eq']
  · next hnone => simpa using fun items hget => absurd hget (hnone items)

lemma definitionViolations_nil {walk : JsonValue φ → Text → List Text}
    {compliant : JsonValue φ → Prop} {node : Dict (JsonValue φ)} (path defkey : Text)
    (h : ∀ defs, node.get? defkey = some (.obj defs) → ∀ p ∈ defs, ∀ path : Text, path ≠ "$" →
      (walk p.2 path = [] ↔ compliant p.2)) :
    definitionViolations walk node path defkey = [] ↔
      ∀ defs, node.get? defkey = some (.obj defs) → ∀ p ∈ defs, compliant p.2 := by
  rw [definitionViolations]
  split
  · next defs hget =>
    simp only [List.flatMap_eq_nil_iff, hget, Option.some.injEq, JsonValue.obj.injEq, forall_eq']
    refine forall₂_congr fun p hp => h defs hget p hp _ ?_
    have hne := below_ne_root path "." (defkey ++ Text.ofString "." ++ p.1) (by decide)
    rwa [← List.append_assoc, ← List.append_assoc] at hne
  · next hnone => simpa using fun defs hget => absurd hget (hnone defs)

/-- One level of the check lists nothing where the node is compliant. -/
lemma complianceStep_nil (repr : JsonValue φ → Text) {walk : JsonValue φ → Text → List Text}
    {compliant : JsonValue φ → Prop} {node : Dict (JsonValue φ)} (path : Text)
    (h : ∀ w, w.depth < (JsonValue.obj node).depth → ∀ path : Text, path ≠ "$" →
      (walk w path = [] ↔ compliant w)) :
    complianceStep repr walk (.obj node) path = [] ↔
      NodeCompliant compliant compliant (path = "$") node := by
  have hunion := unionViolations_nil repr path
    fun b hb => h b (depth_lt_unionOf hb)
  have hobject := objectViolations_nil repr path
    fun p hp => h p.2 (depth_lt_propertiesOf hp)
  have hitems := itemsViolations_nil path
    fun items hget => h items (depth_lt_get? hget)
  have hdefs (defkey : Text) := definitionViolations_nil path defkey
    fun defs hget p hp => h p.2 ((depth_lt_obj hp).trans (depth_lt_get? hget))
  simp only [complianceStep, List.append_eq_nil_iff, keywordViolations_nil, hunion, hitems, hdefs,
    ite_eq_right_iff, hobject]
  constructor
  · rintro ⟨⟨⟨⟨⟨hkept, hobj⟩, hany⟩, hitem⟩, hdef⟩, hdefinition⟩
    refine ⟨fun key value hget => ⟨hkept key value hget, ?_⟩, hobj⟩
    cases value with
    | arr branches =>
      rintro rfl
      simpa [unionOf, hget] using hany
    | obj sub =>
      refine ⟨?_, ?_⟩
      · rintro rfl
        exact hitem sub hget
      · rintro (rfl | rfl)
        · exact hdef sub hget
        · exact hdefinition sub hget
    | _ => trivial
  · intro hok
    refine ⟨⟨⟨⟨⟨fun key value hget => (hok.keyword key value hget).1, hok.object⟩, ?_⟩, ?_⟩, ?_⟩, ?_⟩
    · intro b hb
      rw [unionOf] at hb
      split at hb
      · next branches hget => exact (hok.keyword _ _ hget).2 rfl b hb
      · cases hb
    · exact fun items hget => (hok.keyword _ _ hget).2.1 rfl
    · exact fun defs hget => (hok.keyword _ _ hget).2.2 (.inl rfl)
    · exact fun defs hget => (hok.keyword _ _ hget).2.2 (.inr rfl)

/-! ### The check without its depth -/

lemma complianceStep_looksBelow (repr : JsonValue φ → Text) :
    JsonValue.LooksBelow (complianceStep repr) := by
  intro node f g h
  cases node with
  | obj node =>
    funext path
    have hobject : objectViolations repr f node path = objectViolations repr g node path := by
      simp only [objectViolations]
      congr 1
      exact List.flatMap_congr fun p hp => by rw [h p.2 (depth_lt_propertiesOf hp)]
    have hunion : unionViolations repr f node path = unionViolations repr g node path :=
      List.flatMap_congr fun p hp => by
        simp only [h p.1 (depth_lt_unionOf (List.fst_mem_of_mem_zipIdx hp))]
    have hitems : itemsViolations f node path = itemsViolations g node path := by
      simp only [itemsViolations]
      split
      · next hget => rw [h _ (depth_lt_get? hget)]
      · rfl
    have hdefs (defkey : Text) :
        definitionViolations f node path defkey = definitionViolations g node path defkey := by
      simp only [definitionViolations]
      split
      · next hget =>
        exact List.flatMap_congr fun p hp => by
          rw [h p.2 ((depth_lt_obj hp).trans (depth_lt_get? hget))]
      · rfl
    simp only [complianceStep, hobject, hunion, hitems, hdefs]
  | _ => rfl

lemma violationsAt_eq (repr : JsonValue φ → Text) (node : JsonValue φ) (path : Text) :
    violationsAt repr node path = complianceStep repr (violationsAt repr) node path :=
  congrFun (JsonValue.byDepth_eq (complianceStep_looksBelow repr) node) path

/-- A node below the root has no violations. -/
def Compliant (repr : JsonValue φ → Text) (node : JsonValue φ) : Prop :=
  ∀ path : Text, path ≠ "$" → violationsAt repr node path = []

/-- Where the node is does not matter, the root apart. -/
lemma violationsAt_nil {repr : JsonValue φ → Text} (node : JsonValue φ) {path : Text}
    (hpath : path ≠ "$") : violationsAt repr node path = [] ↔ Compliant repr node := by
  induction hd : node.depth using Nat.strong_induction_on generalizing node path with
  | _ n ih =>
    subst hd
    refine ⟨fun hnil path' hpath' => ?_, fun h => h path hpath⟩
    cases node with
    | obj node =>
      have hstep (path : Text) := complianceStep_nil repr path
        fun w hw path hpath => ih w.depth hw w hpath rfl
      rw [violationsAt_eq, hstep] at hnil ⊢
      simpa only [hpath, hpath'] using hnil
    | _ =>
      rw [violationsAt_eq]
      rfl

/-- The check of a dict, without the paths. -/
lemma violationsAt_obj {repr : JsonValue φ → Text} {node : Dict (JsonValue φ)} {path : Text} :
    violationsAt repr (.obj node) path = [] ↔
      NodeCompliant (Compliant repr) (Compliant repr) (path = "$") node := by
  rw [violationsAt_eq]
  exact complianceStep_nil repr path fun w _ _ hpath => violationsAt_nil w hpath

lemma compliant_obj {repr : JsonValue φ → Text} {node : Dict (JsonValue φ)} :
    Compliant repr (.obj node) ↔ NodeCompliant (Compliant repr) (Compliant repr) False node := by
  have hpath : Text.ofString "" ≠ Text.ofString "$" := by decide
  rw [← violationsAt_nil _ hpath, violationsAt_obj]
  simp only [hpath]

end RentCompass.Tools
