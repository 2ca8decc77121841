import RentCompass.Tools.StrictCompliance
import RentCompass.Tools.StrictNodes

/-!
# Nodes that are compliant once they are encoded

The encoder puts the keywords of a property over those of its only branch. What it takes for the
two to fit is said here of the schema itself, and for a node it is all that strict mode asks for.
-/

namespace RentCompass.Tools

open JsonValue

variable {φ : Type}

/-! ### Properties that fit their branch -/

/-- Where a schema stands: a node, or a property that `required` lists or not. -/
inductive Place where
  | node (root : Bool)
  | property (listed : Bool)

/-- The schemas under a keyword fit. -/
def KeywordFits (fits : JsonValue φ → Place → Prop) (key : Text) (value : JsonValue φ) : Prop :=
  match value with
  | .arr branches => key = "anyOf" → ∀ b ∈ branches, survives b → fits b (.node false)
  | .obj sub =>
    (key = "items" → fits (.obj sub) (.node false)) ∧
    (key = "$defs" ∨ key = "definitions" → ∀ p ∈ sub, fits p.2 (.node false))
  | _ => True

/-- The properties of a node fit. -/
def PropertiesFit (fits : JsonValue φ → Place → Prop) (node : Dict (JsonValue φ)) : Prop :=
  ∀ p ∈ propertiesOf node, fits p.2 (.property ((requiredNames node).contains p.1))

/-- The keywords of a node fit, unless it becomes a text. -/
def NodeFits (fits : JsonValue φ → Place → Prop) (root : Bool) (node : Dict (JsonValue φ)) : Prop :=
  isFreeForm node root = false →
    (∀ key value, node.get? key = some value → KeywordFits fits key value) ∧ PropertiesFit fits node

/-- What is left of the only branch of a property fits the keywords put over it. -/
structure BranchFits (fits : JsonValue φ → Place → Prop) (branch value : Dict (JsonValue φ)) :
    Prop where
  keywords : isFreeForm branch false = false → ∀ key v, branch.get? key = some v →
    (key ∈ value.keys → isFreeForm value false) → KeywordFits fits key v
  properties : propertiesOf value = [] → PropertiesFit fits branch
  closed : isObjectNode value = false → propertiesOf branch ≠ [] →
    ∀ v, value.get? "additionalProperties" = some v → v = .bool false
  missing : isObjectNode value = false → propertiesOf branch ≠ [] →
    ∀ names, value.get? "required" = some (.arr names) → ∀ p ∈ propertiesOf branch, .str p.1 ∈ names
  extra : isObjectNode value = false → propertiesOf branch ≠ [] →
    ∀ names, value.get? "required" = some (.arr names) →
      ∀ r ∈ names, ∃ p ∈ propertiesOf branch, r = .str p.1

/-- The core of a property fits. -/
def CoreFits (fits : JsonValue φ → Place → Prop) (parts : SplitProperty φ) : Prop :=
  NodeFits fits false parts.value ∧
  match parts.nonNullBranches with
  | [] => True
  | [branch] => BranchFits fits (fieldsOf branch) parts.value
  | branches => ∀ b ∈ branches, survives b → fits b (.node false)

/-- The core of a property stays in its union with null. -/
def coreSurvives (parts : SplitProperty φ) : Bool :=
  match parts.nonNullBranches with
  | [] => survives (.obj parts.value)
  | [branch] =>
    isFreeForm (fieldsOf branch) false || isFreeForm parts.value false ||
      (normalizeAnyofBranch (.obj (mergeDicts (fieldsOf branch) parts.value))).isSome
  | _ => true

/-- One level of what fits. -/
def fitsStep (fits : JsonValue φ → Place → Prop) (schema : JsonValue φ) (place : Place) : Prop :=
  match schema, place with
  | .obj node, .node root => NodeFits fits root node
  | .obj node, .property listed =>
    (listed && !(splitProperty node).nullPresent) ∨ coreSurvives (splitProperty node) →
      CoreFits fits (splitProperty node)
  | _, _ => True

/-- Every property of the schema fits its only branch, as far as the encoder keeps the two. -/
def Fits (schema : JsonValue φ) (place : Place) : Prop := JsonValue.byDepth fitsStep schema place

/-! ### Fitting without its depth -/

/-- `f` fits where `g` does, below a depth. -/
def FitsBelow (f g : JsonValue φ → Place → Prop) (depth : Nat) : Prop :=
  ∀ w : JsonValue φ, w.depth < depth → ∀ place, f w place → g w place

variable {f g : JsonValue φ → Place → Prop}

lemma KeywordFits.mono {key : Text} {value : JsonValue φ} (h : FitsBelow f g (value.depth + 1))
    (hf : KeywordFits f key value) : KeywordFits g key value := by
  cases value with
  | arr branches =>
    intro hkey b hb hsurvives
    exact h b ((depth_lt_arr hb).trans (Nat.lt_succ_self _)) _ (hf hkey b hb hsurvives)
  | obj sub =>
    refine ⟨fun hkey => h _ (Nat.lt_succ_self _) _ (hf.1 hkey), fun hkey p hp => ?_⟩
    exact h p.2 ((depth_lt_obj hp).trans (Nat.lt_succ_self _)) _ (hf.2 hkey p hp)
  | _ => trivial

lemma PropertiesFit.mono {node : Dict (JsonValue φ)} (h : FitsBelow f g (JsonValue.obj node).depth)
    (hf : PropertiesFit f node) : PropertiesFit g node :=
  fun p hp => h p.2 (depth_lt_propertiesOf hp) _ (hf p hp)

lemma FitsBelow.get? {node : Dict (JsonValue φ)} (h : FitsBelow f g (JsonValue.obj node).depth)
    {key : Text} {value : JsonValue φ} (hget : node.get? key = some value) :
    FitsBelow f g (value.depth + 1) :=
  fun w hw => h w (lt_of_le_of_lt (Nat.lt_succ_iff.1 hw) (depth_lt_get? hget))

lemma NodeFits.mono {root : Bool} {node : Dict (JsonValue φ)}
    (h : FitsBelow f g (JsonValue.obj node).depth) (hf : NodeFits f root node) :
    NodeFits g root node := by
  intro hfree
  obtain ⟨hkeywords, hproperties⟩ := hf hfree
  exact ⟨fun key value hget => (hkeywords key value hget).mono (h.get? hget), hproperties.mono h⟩

lemma FitsBelow.le {m n : Nat} (h : FitsBelow f g n) (hle : m ≤ n) : FitsBelow f g m :=
  fun w hw => h w (hw.trans_le hle)

lemma CoreFits.mono {node : Dict (JsonValue φ)} (h : FitsBelow f g (JsonValue.obj node).depth)
    (hf : CoreFits f (splitProperty node)) : CoreFits g (splitProperty node) := by
  obtain ⟨hvalue, hbranches⟩ := hf
  refine ⟨hvalue.mono (h.le (splitProperty_value_depth node)), ?_⟩
  have hbelow (b) (hb : b ∈ (splitProperty node).nonNullBranches) :
      b.depth < (JsonValue.obj node).depth := depth_lt_unionOf (List.mem_filter.1 hb).1
  split at hbranches
  · trivial
  · next branch hone =>
    have hdepth : (JsonValue.obj (fieldsOf branch)).depth ≤ (JsonValue.obj node).depth := by
      cases branch with
      | obj fields => exact (hbelow _ (hone ▸ List.mem_singleton_self _)).le
      | _ => exact Nat.succ_le_succ (Nat.zero_le _)
    have hfits := h.le hdepth
    exact ⟨fun hfree key v hget hover => (hbranches.keywords hfree key v hget hover).mono
        (hfits.get? hget), fun hnone => (hbranches.properties hnone).mono hfits,
      hbranches.closed, hbranches.missing, hbranches.extra⟩
  · exact fun b hb hsurvives => h b (hbelow b hb) _ (hbranches b hb hsurvives)

lemma fitsStep_looksBelow : JsonValue.LooksBelow (fitsStep (φ := φ)) := by
  intro schema f g h
  have hmono : FitsBelow f g schema.depth := fun w hw place hf => h w hw ▸ hf
  have hmono' : FitsBelow g f schema.depth := fun w hw place hg => h w hw ▸ hg
  cases schema with
  | obj node =>
    funext place
    cases place with
    | node root => exact propext ⟨NodeFits.mono hmono, NodeFits.mono hmono'⟩
    | property listed =>
      exact propext (imp_congr_right fun _ => ⟨CoreFits.mono hmono, CoreFits.mono hmono'⟩)
  | _ => rfl

lemma fits_eq (schema : JsonValue φ) (place : Place) :
    Fits schema place ↔ fitsStep Fits schema place :=
  iff_of_eq (congrFun (JsonValue.byDepth_eq fitsStep_looksBelow schema) place)

/-! ### Branches of a union -/

variable {C P : JsonValue φ → Prop} {F : JsonValue φ → Place → Prop}

/-- The keyword `type` by itself is nothing strict mode refuses. -/
lemma keywordOk_type {compliant : JsonValue φ → Prop} (value : JsonValue φ) :
    KeywordOk compliant "type" value := by
  refine ⟨by simp [isDropped, bannedKeywords], ?_⟩
  cases value <;> simp

/-- An object is compliant by three of its keywords. -/
lemma ObjectOk.congr {compliant : JsonValue φ → Prop} {root : Prop} {s t : Dict (JsonValue φ)}
    (hclosed : s.get? "additionalProperties" = t.get? "additionalProperties")
    (hprops : s.get? "properties" = t.get? "properties")
    (hrequired : s.get? "required" = t.get? "required") (h : ObjectOk compliant root s) :
    ObjectOk compliant root t := by
  have hprops' : propertiesOf s = propertiesOf t := by rw [propertiesOf, propertiesOf, hprops]
  have hrequired' : requiredOf s = requiredOf t := by rw [requiredOf, requiredOf, hrequired]
  exact ⟨hclosed ▸ h.closed, hprops' ▸ h.nonempty, hprops' ▸ hrequired' ▸ h.missing,
    hprops' ▸ hrequired' ▸ h.extra, hprops' ▸ h.properties⟩

/-- A type put to a node that has none changes nothing, if it is not that of an object. -/
lemma nodeCompliant_insert_type {root : Prop} {node : Dict (JsonValue φ)} {t : JsonValue φ} (hnone : node.get? "type" = none)
    (ht : t ≠ .str "object") :
    NodeCompliant C P root (Dict.insert node "type" t) ↔ NodeCompliant C P root node := by
  have hget (key : Text) (hkey : key ≠ "type") :
      (Dict.insert node "type" t).get? key = node.get? key := by
    rw [Dict.get?_insert, if_neg hkey]
  have htype : (Dict.insert node "type" t).get? "type" = some t := by
    rw [Dict.get?_insert, if_pos rfl]
  have hobject : isObjectNode (Dict.insert node "type" t) ↔ isObjectNode node := by
    rw [isObjectNode_iff, isObjectNode_iff, htype, hnone, hget _ (by decide)]
    simp [ht]
  constructor
  · intro h
    refine ⟨fun key value hkey => ?_, fun hobj => ?_⟩
    · have hne : key ≠ "type" := by
        rintro rfl
        rw [hnone] at hkey
        cases hkey
      exact h.keyword key value (by rwa [hget key hne])
    · exact (h.object (hobject.2 hobj)).congr (hget _ (by decide)) (hget _ (by decide))
        (hget _ (by decide))
  · intro h
    refine ⟨fun key value hkey => ?_, fun hobj => ?_⟩
    · by_cases hne : key = "type"
      · subst hne
        exact keywordOk_type value
      · exact h.keyword key value (by rwa [hget key hne] at hkey)
    · exact (h.object (hobject.1 hobj)).congr (hget _ (by decide)).symm (hget _ (by decide)).symm
        (hget _ (by decide)).symm

/-- A type put to a node that has none makes no difference, if it is not that of an object. -/
def TypeFree (C : JsonValue φ → Prop) : Prop :=
  ∀ (node : Dict (JsonValue φ)) (t : JsonValue φ), node.get? "type" = none → t ≠ .str "object" →
    (C (.obj (node.insert "type" t)) ↔ C (.obj node))

lemma compliant_typeFree (repr : JsonValue φ → Text) : TypeFree (Compliant repr) :=
  fun _ _ hnone ht => by rw [compliant_obj, compliant_obj, nodeCompliant_insert_type hnone ht]

/-- A branch that stays has a selector, and it is as compliant as it was. -/
lemma normalize_compliant (hC : TypeFree C) {j b : JsonValue φ}
    (h : normalizeAnyofBranch j = some b) : lacksSelector b = false ∧ (C b ↔ C j) := by
  cases j with
  | obj node =>
    rw [normalizeAnyofBranch_obj] at h
    split_ifs at h with hselector
    · cases h
      simp [lacksSelector, hselector]
    · simp only [Option.bind_eq_some_iff, Option.map_eq_some_iff] at h
      obtain ⟨values, -, t, ht, rfl⟩ := h
      have hnone : Dict.get? node "type" = none := by
        rw [← Option.not_isSome_iff_eq_none]
        exact fun htype => hselector (hasBranchSelector_iff.2 ⟨"type", by decide, htype⟩)
      refine ⟨?_, ?_⟩
      · have hinserted : hasBranchSelector (Dict.insert node "type" t) :=
          hasBranchSelector_iff.2 ⟨"type", by decide, by rw [Dict.get?_insert, if_pos rfl]; rfl⟩
        simp [lacksSelector, hinserted]
      · exact hC node t hnone (enumMemberType_ne_object ht).1
  | _ =>
    cases h
    exact ⟨rfl, Iff.rfl⟩

/-- A cleaned union is compliant where the branches that stay are. -/
lemma cleanAnyof_compliant (hC : TypeFree C) {branches : List (JsonValue φ)} :
    (∀ b ∈ cleanAnyof branches, lacksSelector b = false ∧ C b) ↔
      ∀ j ∈ branches, (normalizeAnyofBranch j).isSome → C j := by
  simp only [cleanAnyof, List.mem_filterMap]
  constructor
  · intro h j hj hsome
    obtain ⟨b, hb⟩ := Option.isSome_iff_exists.1 hsome
    exact (normalize_compliant hC hb).2.1 (h b ⟨j, hj, hb⟩).2
  · rintro h b ⟨j, hj, hb⟩
    obtain ⟨hlacks, hiff⟩ := normalize_compliant hC hb
    exact ⟨hlacks, hiff.2 (h j hj (by rw [hb]; rfl))⟩

/-! ### Keywords -/

/-- As a branch, the schema is compliant once it is encoded just if it fits. -/
structure BranchAgrees (C : JsonValue φ → Prop) (F : JsonValue φ → Place → Prop)
    (schema : JsonValue φ) : Prop where
  compliant : C (transformNode schema false) ↔ F schema (.node false)
  survives : (normalizeAnyofBranch (transformNode schema false)).isSome = survives schema

/-- The schemas under a keyword agree. -/
def AgreesUnder (C : JsonValue φ → Prop) (F : JsonValue φ → Place → Prop) (key : Text)
    (value : JsonValue φ) : Prop :=
  match value with
  | .arr branches => key = "anyOf" → ∀ b ∈ branches, BranchAgrees C F b
  | .obj sub =>
    (key = "items" → BranchAgrees C F (.obj sub)) ∧
    (key = "$defs" ∨ key = "definitions" → ∀ p ∈ sub, BranchAgrees C F p.2)
  | _ => True

/-- Items get a type by default. -/
lemma stringByDefault_ok (hC : TypeFree C) (sub : Dict (JsonValue φ)) :
    ∃ node, stringByDefault (transformNode (.obj sub) false) = .obj node ∧
      hasBranchSelector node ∧
      (C (.obj node) ↔ C (transformNode (.obj sub) false)) := by
  obtain ⟨fields, hfields⟩ := exists_transformNode sub false
  rw [hfields, stringByDefault]
  split_ifs with hselector
  · exact ⟨fields, rfl, hselector, Iff.rfl⟩
  · have hnone : Dict.get? fields "type" = none := by
      rw [← Option.not_isSome_iff_eq_none]
      exact fun htype => hselector (hasBranchSelector_iff.2 ⟨"type", by decide, htype⟩)
    refine ⟨_, rfl, ?_, ?_⟩
    · exact hasBranchSelector_iff.2 ⟨"type", by decide, by rw [Dict.get?_insert, if_pos rfl]; rfl⟩
    · exact hC fields _ hnone (by simp)

/-- A keyword that is kept is compliant just if the schemas under it fit. -/
lemma keywordOk_transform (hC : TypeFree C) {isObject : Bool} {required : List Text} {key : Text}
    {value w : JsonValue φ} (h : AgreesUnder C F key value)
    (hw : transformKeyword (transformNode · false) isObject required key value = some w) :
    KeywordOk C key w ↔ KeywordFits F key value := by
  have hkept : isDropped key value = false := by
    by_contra hdropped
    simp [transformKeyword, hdropped] at hw
  cases value with
  | obj sub =>
    simp only [transformKeyword, hkept, Bool.false_eq_true, if_false] at hw
    split_ifs at hw with hrebuilt hprops hitems hdefs
    · cases hw
      subst hprops
      simp [KeywordOk, KeywordFits, isDropped, bannedKeywords]
    · cases hw
      subst hitems
      obtain ⟨node, heq, hselector, hiff⟩ := stringByDefault_ok hC sub
      rw [heq]
      simp [KeywordOk, KeywordFits, isDropped, bannedKeywords, hselector, hiff,
        (h.1 rfl).compliant]
    · cases hw
      have hagrees := h.2 (by simpa using hdefs)
      have hnot : key ≠ "items" := hitems
      have hmap : (∀ p ∈ sub.map fun p => (p.1, transformNode p.2 false), C p.2) ↔
          ∀ p ∈ sub, F p.2 (.node false) := by
        rw [List.forall_mem_map]
        exact forall₂_congr fun p hp => (hagrees p hp).compliant
      have hkey : isDropped key (.obj (sub.map fun p => (p.1, transformNode p.2 false))) = false := by
        rcases (by simpa using hdefs : key = Text.ofString "$defs" ∨ key = "definitions") with
          rfl | rfl <;> simp [isDropped, bannedKeywords]
      simp only [KeywordOk, KeywordFits, hkey, hnot, IsEmpty.forall_iff, true_and, hmap]
    · cases hw
      have hnot : ¬ (key = Text.ofString "$defs" ∨ key = Text.ofString "definitions") := by
        simpa using hdefs
      simp only [KeywordOk, KeywordFits, hkept, hnot, hitems, IsEmpty.forall_iff, and_self]
  | arr branches =>
    simp only [transformKeyword, hkept, Bool.false_eq_true, if_false] at hw
    split_ifs at hw with hrebuilt hany
    · cases hw
      subst hany
      have hbranches := h rfl
      simp only [KeywordOk, KeywordFits, forall_const, cleanAnyof_compliant hC, List.forall_mem_map]
      have hkey : isDropped "anyOf" (.arr (cleanAnyof (branches.map (transformNode · false)))) =
          false := by simp [isDropped, bannedKeywords]
      rw [hkey]
      simp only [true_and]
      exact forall₂_congr fun b hb => by
        rw [(hbranches b hb).survives, (hbranches b hb).compliant]
    · cases hw
      simp only [KeywordOk, KeywordFits, hkept, hany, IsEmpty.forall_iff, and_self]
  | _ =>
    simp only [transformKeyword, hkept, Bool.false_eq_true, if_false] at hw
    split_ifs at hw
    cases hw
    simp [KeywordOk, KeywordFits, hkept]

/-! ### Nodes -/

/-- The properties of a node agree. -/
def PropertiesAgree (P : JsonValue φ → Prop) (F : JsonValue φ → Place → Prop)
    (node : Dict (JsonValue φ)) : Prop :=
  ∀ p ∈ propertiesOf node, ∀ required : List Text,
    (P (encodedProperty required p).2 ↔ F p.2 (.property (required.contains p.1)))

lemma propertiesAgree_iff {node : Dict (JsonValue φ)} (h : PropertiesAgree P F node) :
    (∀ p ∈ (propertiesOf node).map (encodedProperty (requiredNames node)), P p.2) ↔
      PropertiesFit F node := by
  rw [List.forall_mem_map]
  exact forall₂_congr fun p hp => h p hp _

/-- The names of the properties list each property and nothing else. -/
lemma listed_of_names {props : Dict (JsonValue φ)} {names : List (JsonValue φ)}
    (h : names = props.keys.map .str) :
    (∀ p ∈ props, .str p.1 ∈ names) ∧ ∀ r ∈ names, ∃ p ∈ props, r = .str p.1 := by
  subst h
  refine ⟨fun p hp => List.mem_map_of_mem (List.mem_map_of_mem hp), fun r hr => ?_⟩
  obtain ⟨name, hname, rfl⟩ := List.mem_map.1 hr
  obtain ⟨p, hp, rfl⟩ := List.mem_map.1 hname
  exact ⟨p, hp, rfl⟩

/-- An object that is not a text lists its properties once it is encoded. -/
lemma objectOk_encoded {node : Dict (JsonValue φ)} (h : node.keys.Nodup) {root : Bool}
    (hfree : isFreeForm node root = false) (hobj : isObjectNode node)
    (hprops : PropertiesAgree P F node) :
    ObjectOk P (root = true) (encoded node root) ↔ PropertiesFit F node := by
  have hrequired : requiredOf (encoded node root) = (propertiesOf (encoded node root)).keys.map .str := by
    rw [requiredOf, get?_encoded_required h hfree hobj, propertiesOf_encoded h hfree]
    simp [Dict.keys, encodedProperty, Function.comp_def]
  obtain ⟨hmissing, hextra⟩ := listed_of_names hrequired
  rw [← propertiesAgree_iff hprops, ← propertiesOf_encoded h hfree]
  refine ⟨fun hok => hok.properties, fun hall =>
    ⟨get?_encoded_closed h hfree hobj, fun hnil => ?_, hmissing, hextra, hall⟩⟩
  rw [propertiesOf_encoded h hfree, List.map_eq_nil_iff] at hnil
  simpa [isFreeForm, hobj, hnil] using hfree

/-- A text that stands for an object is compliant. -/
lemma nodeCompliant_freeForm (C P : JsonValue φ → Prop) (root : Prop) (description : Text) :
    NodeCompliant C P root
      [(Text.ofString "type", .str "string"), (Text.ofString "description", .str description)] := by
  refine ⟨fun key value hget => ?_, fun hobj => ?_⟩
  · have hmem := Dict.mem_of_get? hget
    simp only [List.mem_cons, Prod.mk.injEq, List.not_mem_nil, or_false] at hmem
    rcases hmem with ⟨rfl, rfl⟩ | ⟨rfl, rfl⟩ <;> simp [KeywordOk, isDropped, bannedKeywords]
  · rcases isObjectNode_iff.1 hobj with htype | ⟨props, hprops⟩
    · cases htype
    · cases hprops

lemma keywordFits_of_notMem {fits : JsonValue φ → Place → Prop} {key : Text} {value : JsonValue φ}
    (h : key ∉ schemaKeys) : KeywordFits fits key value := by
  simp only [schemaKeys, List.mem_cons, List.not_mem_nil, or_false, not_or] at h
  cases value <;> simp [KeywordFits, h]

lemma keywordOk_of_notMem {compliant : JsonValue φ → Prop} {key : Text} {value : JsonValue φ}
    (hkept : isDropped key value = false) (h : key ∉ schemaKeys) :
    KeywordOk compliant key value := by
  simp only [schemaKeys, List.mem_cons, List.not_mem_nil, or_false, not_or] at h
  cases value <;> simp [KeywordOk, hkept, h]

/-- The keywords of an encoded node are compliant where those of the node fit. -/
lemma keywords_encoded (hC : TypeFree C) {node : Dict (JsonValue φ)} (h : node.keys.Nodup) {root : Bool}
    (hfree : isFreeForm node root = false) {key : Text}
    (hunder : ∀ value, node.get? key = some value → AgreesUnder C F key value) :
    (∀ w, (encoded node root).get? key = some w → KeywordOk C key w) ↔
      ∀ value, node.get? key = some value → KeywordFits F key value := by
  by_cases hrebuilt : key = "additionalProperties" ∨ key = "required"
  · have hnot : key ∉ schemaKeys := by rcases hrebuilt with rfl | rfl <;> decide
    have hkept (w : JsonValue φ) : isDropped key w = false := by
      rcases hrebuilt with rfl | rfl <;> simp [isDropped, bannedKeywords]
    exact iff_of_true (fun w _ => keywordOk_of_notMem (hkept w) hnot)
      fun value _ => keywordFits_of_notMem hnot
  · rw [not_or] at hrebuilt
    rw [get?_encoded_of_ne h hfree hrebuilt.1 hrebuilt.2]
    cases hget : node.get? key with
    | none => simp
    | some value =>
      cases hw : transformKeyword (transformNode · false) (isObjectNode node) (requiredNames node)
          key value with
      | none =>
        have hnot := notMem_of_transform_none hw
        simp [hw, keywordFits_of_notMem hnot]
      | some w =>
        have hiff := keywordOk_transform hC (hunder value hget) hw
        simp [hw, hiff]

/-- A node is compliant once it is encoded just if it fits. -/
lemma nodeCompliant_encoded (hC : TypeFree C) {node : Dict (JsonValue φ)} (h : node.keys.Nodup) (root : Bool)
    (hunder : ∀ key value, node.get? key = some value → AgreesUnder C F key value)
    (hprops : PropertiesAgree P F node) :
    NodeCompliant C P (root = true) (encoded node root) ↔ NodeFits F root node := by
  by_cases hfree : isFreeForm node root
  · obtain ⟨description, heq⟩ := encoded_of_freeForm h hfree
    rw [heq]
    exact iff_of_true (nodeCompliant_freeForm _ _ _ description) fun hnot => by simp [hfree] at hnot
  · have hfree : isFreeForm node root = false := Bool.not_eq_true _ ▸ hfree
    have hkeywords (key : Text) := keywords_encoded hC h hfree (hunder key)
    by_cases hobj : isObjectNode node
    · have hok := objectOk_encoded h hfree hobj hprops
      refine ⟨fun hnode _ => ⟨fun key => (hkeywords key).1 (hnode.keyword key), ?_⟩, fun hfits => ?_⟩
      · exact hok.1 (hnode.object (by rwa [isObjectNode_encoded h hfree]))
      · obtain ⟨hkeys, hfit⟩ := hfits hfree
        exact ⟨fun key => (hkeywords key).2 (hkeys key), fun _ => hok.2 hfit⟩
    · refine ⟨fun hnode _ => ⟨fun key => (hkeywords key).1 (hnode.keyword key), ?_⟩, fun hfits => ?_⟩
      · rw [PropertiesFit, propertiesOf_of_not_object hobj]
        simp
      · refine ⟨fun key => (hkeywords key).2 ((hfits hfree).1 key), fun henc => ?_⟩
        rw [isObjectNode_encoded h hfree] at henc
        exact absurd henc hobj

end RentCompass.Tools
