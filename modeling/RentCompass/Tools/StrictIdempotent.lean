import RentCompass.Tools.StrictListed

/-!
# Idempotence of the strict schema

A strict schema is its own strict schema just if every property of the schema it comes from settles.
-/

namespace RentCompass.Tools

open JsonValue

variable {φ : Type}

/-! ### Branches -/

lemma encodedBranch_cases {node : Dict (JsonValue φ)} (h : SchemaTree (.obj node))
    (hsurvives : survives (.obj node)) :
    encodedBranch (.obj node) = .obj (encoded node false) ∨
      ∃ values t, (encoded node false).get? "enum" = some values ∧
        encodedBranch (.obj node) = .obj (Dict.insert (encoded node false) "type" t) := by
  have hnormal := normalize_encodedBranch h hsurvives
  rw [transformNode_encoded, normalizeAnyofBranch_obj] at hnormal
  split_ifs at hnormal
  · exact .inl (Option.some.inj hnormal).symm
  · simp only [Option.bind_eq_some_iff, Option.map_eq_some_iff] at hnormal
    obtain ⟨values, hvalues, t, -, heq⟩ := hnormal
    exact .inr ⟨values, t, hvalues, heq.symm⟩

/-- A branch as it stands in its union. -/
structure BranchIs (branch : JsonValue φ) (node : Dict (JsonValue φ)) : Prop where
  eq : encodedBranch branch = .obj node
  keys : node.keys.Nodup
  selector : lacksSelector (.obj node) = false
  bare : node.keys = [Text.ofString "anyOf"] ↔ isBareUnion branch
  plain : node = [(Text.ofString "type", .str "null")] ↔ isPlainNull branch
  null : isNullSchema (.obj node) = becomesNull branch

lemma exists_branchIs {branch : JsonValue φ} (h : SchemaTree branch) (hsurvives : survives branch) :
    ∃ node, BranchIs branch node := by
  obtain ⟨node, rfl⟩ := h.exists_obj
  have hkeys := h.shape.keys
  have hselector := (normalize_compliant distinctFields_typeFree (normalize_encodedBranch h hsurvives)).1
  have hnull := isNullSchema_encodedBranch h hsurvives
  rcases encodedBranch_cases h hsurvives with heq | ⟨values, t, hvalues, heq⟩
  · rw [heq] at hselector hnull
    exact ⟨_, heq, encoded_keys hkeys false, hselector, encoded_bare hkeys, encoded_plainNull hkeys,
      hnull⟩
  · rw [heq] at hselector hnull
    have hmem : Text.ofString "enum" ∈ (encoded node false).keys := Dict.mem_keys_of_get? hvalues
    have hvalues' : (Dict.insert (encoded node false) "type" t).get? "enum" = some values := by
      rw [Dict.get?_insert, if_neg (by decide), hvalues]
    refine ⟨_, heq, (Dict.keys_insert_nodup (encoded_keys hkeys false) _ _).1, hselector, ?_, ?_, hnull⟩
    · rw [← encoded_bare hkeys]
      refine iff_of_false (keys_ne_bare hvalues' (by decide)) fun hbare => ?_
      rw [hbare] at hmem
      exact absurd hmem (by decide)
    · rw [← encoded_plainNull hkeys]
      refine iff_of_false (fun hplain => ?_) fun hplain => ?_
      · rw [hplain] at hvalues'
        cases hvalues'
      · rw [hplain] at hvalues
        cases hvalues

lemma same_nullBranch_iff {node : Dict (JsonValue φ)} (h : node.keys.Nodup) :
    Same nullBranch (.obj node) ↔ node = [(Text.ofString "type", .str "null")] := by
  refine ⟨fun hsame => ?_, fun heq => heq ▸ .refl _⟩
  have hkeys : node.keys = [Text.ofString "type"] := keys_same h hsame.symm rfl
  match node, hkeys, hsame with
  | [(key, v)], hkeys, hsame =>
    have hkey : key = Text.ofString "type" := List.singleton_inj.1 hkeys
    rw [hkey] at hsame ⊢
    have hrel : Option.Rel Same (some (.str "null")) (some v) := hsame.get? "type"
    cases hrel with
    | some hv => rw [hv.eq_of_str]

lemma stable_null : Stable (.obj [(Text.ofString "type", .str "null")] : JsonValue φ) := by
  refine ⟨distinctFields_obj.2 (List.nodup_singleton _), ?_⟩
  have heq : transformNode (.obj [(Text.ofString "type", .str "null")] : JsonValue φ) false =
      .obj [(Text.ofString "type", .str "null")] := by
    rw [transformNode_eq]
    rfl
  rw [heq]
  exact .refl _

/-! ### A property that may be null -/

variable {F : JsonValue φ → Place → Prop} {node core : Dict (JsonValue φ)}

/-- A core that is a bare union keeps its branches beside null. -/
lemma nullableBranches_bare (h : CoreIs F (splitProperty node) core)
    (hbare : coreIsBare (splitProperty node)) :
    core.get? "anyOf" = some (.arr ((coreUnion (splitProperty node)).map encodedBranch)) ∧
      nullableBranches core = (coreUnion (splitProperty node)).map encodedBranch := by
  have hkeys := h.bare.2 hbare
  have hmem : Text.ofString "anyOf" ∈ core.keys := by
    rw [hkeys]
    exact List.mem_singleton_self _
  obtain ⟨v, hget⟩ := Dict.exists_get? hmem
  have hunion := h.union
  split_ifs at hunion with hhas
  · refine ⟨hunion, ?_⟩
    rw [nullableBranches, if_pos hkeys, unionOf, hunion]
    refine cleanAnyof_eq_self ?_
    rw [List.forall_mem_map]
    intro b hb
    obtain ⟨htree, hsurvives⟩ := h.branches b hb
    obtain ⟨d, hd⟩ := exists_branchIs htree hsurvives
    rw [hd.eq]
    exact hd.selector
  · rw [hunion] at hget
    cases hget

/-- Any other core is the only branch beside null, if it stays. -/
lemma nullableBranches_other (h : CoreIs F (splitProperty node) core) (htidy : Tidy core)
    (hbare : coreIsBare (splitProperty node) = false) :
    (coreSurvives (splitProperty node) = false ∧ nullableBranches core = []) ∨
      ∃ d : Dict (JsonValue φ), nullableBranches core = [.obj d] ∧
        coreSurvives (splitProperty node) ∧ d.keys.Nodup ∧ lacksSelector (.obj d) = false ∧
        (Stable (.obj d) ↔ Stable (.obj core)) ∧ d.keys ≠ [Text.ofString "anyOf"] ∧
        isNullSchema (.obj d) = coreBecomesNull (splitProperty node) := by
  have hkeys : core.keys ≠ [Text.ofString "anyOf"] := fun hkeys => by
    rw [h.bare.1 hkeys] at hbare
    cases hbare
  have hfront : nullableBranches core = cleanAnyof [.obj core] := by
    rw [nullableBranches, if_neg hkeys]
  have hstays := h.stays
  have hnull := h.null
  cases hnormal : normalizeAnyofBranch (.obj core) with
  | none =>
    rw [hnormal] at hstays
    refine .inl ⟨hstays.symm, ?_⟩
    rw [hfront, cleanAnyof, List.filterMap_cons_none hnormal, List.filterMap_nil]
  | some c =>
    obtain ⟨hselector, hstable⟩ := normalize_compliant stable_typeFree hnormal
    rw [hnormal] at hstays
    rw [becomesNull, hnormal, Option.any_some] at hnull
    have hclean : nullableBranches core = [c] := by
      rw [hfront, cleanAnyof, List.filterMap_cons_some hnormal, List.filterMap_nil]
    refine .inr ?_
    rw [normalizeAnyofBranch_obj] at hnormal
    split_ifs at hnormal
    · cases hnormal
      exact ⟨core, hclean, hstays.symm, htidy.keys, hselector, hstable, hkeys, hnull⟩
    · simp only [Option.bind_eq_some_iff, Option.map_eq_some_iff] at hnormal
      obtain ⟨-, -, t, -, rfl⟩ := hnormal
      refine ⟨_, hclean, hstays.symm, (Dict.keys_insert_nodup htidy.keys _ _).1, hselector, hstable,
        ?_, hnull⟩
      exact keys_ne_bare (v := t) (by rw [Dict.get?_insert, if_pos rfl]) (by decide)

lemma kept_nullable (h : SchemaTree (.obj node)) (hcore : CoreIs F (splitProperty node) core)
    (htidy : Tidy core) :
    Same (listedProperty (.obj (Dict.insert (splitProperty node).metadata "anyOf"
        (.arr (nullableUnion core)))))
      (.obj (Dict.insert (splitProperty node).metadata "anyOf" (.arr (nullableUnion core)))) ↔
      (coreSurvives (splitProperty node) → CoreFits F (splitProperty node) ∧
        RequiredExact (splitProperty node) ∧ NullableSettles (splitProperty node)) := by
  have hkeys := (Dict.keys_insert_nodup (metadata_keys_nodup h.shape.keys) (Text.ofString "anyOf")
    (.arr (nullableUnion core))).1
  have hunion : (Dict.insert (splitProperty node).metadata "anyOf"
      (.arr (nullableUnion core))).get? "anyOf" =
      some (.arr (nullableBranches core ++ [nullBranch])) := by
    rw [Dict.get?_insert, if_pos rfl, nullableUnion_eq]
  have honly (key) (v) (hget : (Dict.insert (splitProperty node).metadata "anyOf"
      (.arr (nullableUnion core))).get? key = some v) : isDescription key := by
    rw [isDescription_iff]
    by_contra hkey
    rw [not_or] at hkey
    rw [Dict.get?_insert, if_neg hkey.2, get?_metadata_none node hkey.1] at hget
    cases hget
  by_cases hbare : coreIsBare (splitProperty node)
  · obtain ⟨hany, hfront⟩ := nullableBranches_bare hcore hbare
    have honlyAny (key) (v) (hget : core.get? key = some v) :
        key ∈ metaKeywords ∨ key = "anyOf" := by
      have hmem := Dict.mem_keys_of_get? hget
      rw [hcore.bare.2 hbare, List.mem_singleton] at hmem
      exact .inr hmem
    have hplain : ¬ isObjectNode core := fun hobj => by
      rcases isObjectNode_iff.1 hobj with hget | ⟨_, hget⟩
      · exact absurd (honlyAny _ _ hget) (by decide)
      · exact absurd (honlyAny _ _ hget) (by decide)
    have hexact := hcore.exact.1 fun hobj => absurd hobj hplain
    have hstays : coreSurvives (splitProperty node) := by
      rw [← hcore.stays, normalizeAnyofBranch_obj, if_pos (hasBranchSelector_iff.2
        ⟨"anyOf", by decide, by rw [hany]; rfl⟩)]
      rfl
    have hbranches : ∀ b ∈ coreUnion (splitProperty node), ∃ d, BranchIs b d := fun b hb =>
      exists_branchIs (hcore.branches b hb).1 (hcore.branches b hb).2
    have hfits : CoreFits F (splitProperty node) ↔
        ∀ b ∈ coreUnion (splitProperty node), Stable (encodedBranch b) := by
      rw [← hcore.compliant, nodeCompliant_described honlyAny hany, List.forall_mem_map]
      refine forall₂_congr fun b hb => and_iff_right ?_
      obtain ⟨d, hd⟩ := hbranches b hb
      rw [hd.eq]
      exact hd.selector
    rw [same_nullable hkeys honly hunion (.refl _) (by
      rw [hfront, List.forall_mem_map]
      intro b hb
      obtain ⟨d, hd⟩ := hbranches b hb
      exact ⟨hd.eq ▸ hd.selector, d, hd.eq, hd.keys⟩), hfront, List.forall_mem_map,
      imp_iff_right hstays, hfits, and_iff_right hexact]
    constructor
    · rintro ⟨hall, hsingle⟩
      refine ⟨fun b hb => (hall b hb).2, fun _ b hb => ?_, fun _ b hb => ?_, fun hnot => ?_⟩
      · obtain ⟨d, hd⟩ := hbranches b hb
        rw [← hd.null, ← hd.eq]
        exact (hall b hb).1
      · obtain ⟨d, hd⟩ := hbranches b (by rw [hb]; exact List.mem_singleton_self b)
        rw [← Bool.not_eq_true, ← hd.bare]
        exact hsingle d (by rw [hb, List.map_singleton, hd.eq])
      · rw [hbare] at hnot
        cases hnot
    · rintro ⟨hstable, hsettles⟩
      refine ⟨fun b hb => ⟨?_, hstable b hb⟩, fun d hd => ?_⟩
      · obtain ⟨d, hd⟩ := hbranches b hb
        rw [hd.eq, hd.null]
        exact hsettles.nonNull hbare b hb
      · obtain ⟨b, hb, heq⟩ := List.map_eq_singleton_iff.1 hd
        obtain ⟨e, he⟩ := hbranches b (by rw [hb]; exact List.mem_singleton_self b)
        obtain rfl := JsonValue.obj.inj (heq.symm.trans he.eq)
        rw [ne_eq, he.bare, hsettles.single hbare b hb]
        simp
  · have hbare : coreIsBare (splitProperty node) = false := Bool.not_eq_true _ ▸ hbare
    rcases nullableBranches_other hcore htidy hbare with
      ⟨hstays, hfront⟩ | ⟨d, hfront, hstays, hd, hselector, hstable, hne, hnull⟩
    · rw [same_nullable hkeys honly hunion (.refl _) (by simp [hfront]), hfront, hstays]
      simp
    · rw [same_nullable hkeys honly hunion (.refl _) (by
        rw [hfront, List.forall_mem_singleton]
        exact ⟨hselector, d, rfl, hd⟩), hfront, List.forall_mem_singleton, hnull, hstable,
        stable_iff htidy, hcore.compliant, hcore.exact, imp_iff_right hstays]
      constructor
      · rintro ⟨⟨hcoreNull, hfits, hexact⟩, -⟩
        refine ⟨hfits, hexact, fun hnot => ?_, fun hnot => ?_, fun _ => hcoreNull⟩
        all_goals
          rw [hbare] at hnot
          cases hnot
      · rintro ⟨hfits, hexact, hsettles⟩
        refine ⟨⟨hsettles.core hbare, hfits, hexact⟩, fun e he => ?_⟩
        obtain rfl := JsonValue.obj.inj (List.singleton_inj.1 he)
        exact hne

/-! ### A property that is required -/

section Listed

/-- The property, its descriptions over its core. -/
abbrev describedCore (node core : Dict (JsonValue φ)) : Dict (JsonValue φ) :=
  mergeDicts core (splitProperty node).metadata

lemma get?_describedCore (h : node.keys.Nodup) {key : Text} (hkey : key ∉ metaKeywords) :
    (describedCore node core).get? key = core.get? key := by
  rw [get?_mergeDicts (metadata_keys_nodup h), get?_metadata_none node hkey, Option.none_or]

lemma exact_describedCore (h : node.keys.Nodup) : Exact (describedCore node core) ↔ Exact core :=
  ⟨.congr (get?_describedCore h (by decide)) (get?_describedCore h (by decide))
      (get?_describedCore h (by decide)),
    .congr (get?_describedCore h (by decide)).symm (get?_describedCore h (by decide)).symm
      (get?_describedCore h (by decide)).symm⟩

/-- What stands for null in a property that is required. -/
lemma nullPresent_iff (h : node.keys.Nodup) (hcore : CoreIs F (splitProperty node) core) :
    (splitProperty (describedCore node core)).nullPresent ↔
      (coreHasUnion (splitProperty node) ∧
        ∃ b ∈ coreUnion (splitProperty node), becomesNull b) ∨
      ∃ types, (coreSelectors (splitProperty node)).get? "type" = some (.arr types) ∧
        ∃ t ∈ types, isNullName t := by
  have hsplit : (splitProperty (describedCore node core)).nullPresent =
      ((unionOf (describedCore node core)).any isNullSchema ||
        (typesOf (describedCore node core)).any isNullName) := rfl
  rw [hsplit, Bool.or_eq_true, List.any_eq_true, List.any_eq_true]
  refine or_congr ?_ ?_
  · rw [unionOf, get?_describedCore h (by decide), hcore.union]
    split_ifs with hhas
    · rw [and_iff_right hhas]
      have hnull (b) (hb : b ∈ coreUnion (splitProperty node)) :=
        isNullSchema_encodedBranch (hcore.branches b hb).1 (hcore.branches b hb).2
      constructor
      · rintro ⟨_, hmem, hb'⟩
        obtain ⟨b, hb, rfl⟩ := List.mem_map.1 hmem
        exact ⟨b, hb, hnull b hb ▸ hb'⟩
      · rintro ⟨b, hb, hb'⟩
        exact ⟨_, List.mem_map_of_mem hb, (hnull b hb).symm ▸ hb'⟩
    · simp [hhas]
  · rw [typesOf, get?_describedCore h (by decide), hcore.type]
    split
    · next types hget => simp [hget]
    · next hnone =>
      refine iff_of_false (by simp) ?_
      rintro ⟨types, hget, -⟩
      exact hnone types hget

/-- Without null the property settles just if its union and its types stay. -/
lemma same_listed_plain (h : DistinctTree (.obj node))
    (hcore : CoreIs F (splitProperty node) core) (htidy : Tidy (describedCore node core))
    (hnull : ¬ (splitProperty (describedCore node core)).nullPresent) :
    Same (listedProperty (.obj (describedCore node core))) (.obj (describedCore node core)) ↔
      CoreFits F (splitProperty node) ∧ RequiredExact (splitProperty node) ∧
        ListedSettles (splitProperty node) := by
  have hkeys := h.1.shape.keys
  have hnot := mt (nullPresent_iff hkeys hcore).2 hnull
  rw [not_or] at hnot
  have hget {key : Text} (hkey : key ∉ metaKeywords) :
      (describedCore node core).get? key = core.get? key := get?_describedCore hkeys hkey
  have hany : (describedCore node core).get? "anyOf" = _ := hget (by decide)
  have htype : (describedCore node core).get? "type" = _ := hget (by decide)
  rw [hcore.union] at hany
  rw [hcore.type] at htype
  rw [same_listed htidy (Bool.not_eq_true _ ▸ hnull) ?_ ?_, nodeCompliant_metadata hkeys,
    hcore.compliant, exact_describedCore hkeys, hcore.exact, hany, htype]
  · refine and_congr_right fun _ => and_congr_right fun _ => ?_
    constructor
    · rintro ⟨hseveral, hplain⟩
      refine ⟨fun hhas => ?_, fun hhas b hb => ?_, hplain⟩
      · have hlength := hseveral _ (if_pos hhas)
        rwa [List.length_map] at hlength
      · rw [← Bool.not_eq_true]
        exact fun hb' => hnot.1 ⟨hhas, b, hb, hb'⟩
    · rintro ⟨hseveral, -, hplain⟩
      refine ⟨fun branches hget => ?_, hplain⟩
      split_ifs at hget with hhas
      cases hget
      rw [List.length_map]
      exact hseveral hhas
  · intro v hget
    rw [hany] at hget
    split_ifs at hget
    exact ⟨_, (Option.some.inj hget).symm⟩
  · intro b hb
    rw [unionOf, hany] at hb
    split_ifs at hb
    · obtain ⟨c, hc, rfl⟩ := List.mem_map.1 hb
      obtain ⟨d, hd⟩ := exists_branchIs (hcore.branches c hc).1 (hcore.branches c hc).2
      exact ⟨d, hd.eq⟩
    · cases hb

/-- With null the property settles just if it is a union with null. -/
lemma same_listed_null (h : DistinctTree (.obj node))
    (hcore : CoreIs F (splitProperty node) core) (htidy : Tidy (describedCore node core))
    (hnull : (splitProperty (describedCore node core)).nullPresent) :
    Same (listedProperty (.obj (describedCore node core))) (.obj (describedCore node core)) ↔
      CoreFits F (splitProperty node) ∧ RequiredExact (splitProperty node) ∧
        ∃ branches last, ListedAsNullable (splitProperty node) branches last := by
  have hkeys := h.1.shape.keys
  have hget {key : Text} (hkey : key ∉ metaKeywords) :
      (describedCore node core).get? key = core.get? key := get?_describedCore hkeys hkey
  have hbranches : ∀ b ∈ coreUnion (splitProperty node), ∃ d, BranchIs b d := fun b hb =>
    exists_branchIs (hcore.branches b hb).1 (hcore.branches b hb).2
  have hdescribed : (∀ key v, (describedCore node core).get? key = some v → isDescription key) ↔
      coreDescribed (splitProperty node) := by
    rw [← hcore.described]
    constructor
    · intro honly key v hv
      by_cases hmeta : key ∈ metaKeywords
      · exact isDescription_iff.2 (.inl hmeta)
      · exact honly key v (by rwa [hget hmeta])
    · intro honly key v hv
      by_cases hmeta : key ∈ metaKeywords
      · exact isDescription_iff.2 (.inl hmeta)
      · exact honly key v (by rwa [hget hmeta] at hv)
  have hunionIff : coreHasUnion (splitProperty node) → ∀ branches last,
      coreUnion (splitProperty node) = branches ++ [last] →
        (describedCore node core).get? "anyOf" =
          some (.arr (branches.map encodedBranch ++ [encodedBranch last])) := by
    intro hhas branches last heq
    rw [hget (by decide), hcore.union, if_pos hhas, heq, List.map_append, List.map_singleton]
  -- what it takes once the union is known
  have hiff (branches last) (hhas : coreHasUnion (splitProperty node))
      (heq : coreUnion (splitProperty node) = branches ++ [last])
      (honly : coreDescribed (splitProperty node)) (hlast : isPlainNull last) :
      Same (listedProperty (.obj (describedCore node core))) (.obj (describedCore node core)) ↔
        (CoreFits F (splitProperty node) ∧ RequiredExact (splitProperty node)) ∧
          (∀ b ∈ branches, becomesNull b = false) ∧
          ∀ b, branches = [b] → isBareUnion b = false := by
    have hunion := hunionIff hhas branches last heq
    have hall := hdescribed.2 honly
    have hsub : ∀ b ∈ branches, ∃ d, BranchIs b d := fun b hb =>
      hbranches b (heq ▸ List.mem_append_left _ hb)
    obtain ⟨e, he⟩ := hbranches last (heq ▸ List.mem_append_right _ (List.mem_singleton_self last))
    have heNull := he.plain.2 hlast
    have hsame : Same nullBranch (encodedBranch last) := by
      rw [he.eq]
      exact (same_nullBranch_iff he.keys).2 heNull
    have hstable : Stable (encodedBranch last) := by
      rw [he.eq, heNull]
      exact stable_null
    have hplain : ¬ isObjectNode (describedCore node core) := fun hobj => by
      rcases isObjectNode_iff.1 hobj with hget | ⟨_, hget⟩
      · exact absurd (hall _ _ hget) (by decide)
      · exact absurd (hall _ _ hget) (by decide)
    have hexact : RequiredExact (splitProperty node) := by
      rw [← hcore.exact, ← exact_describedCore hkeys]
      exact fun hobj => absurd hobj hplain
    have hfits : CoreFits F (splitProperty node) ↔ ∀ b ∈ branches, Stable (encodedBranch b) := by
      rw [← hcore.compliant, ← nodeCompliant_metadata hkeys, nodeCompliant_described
        (fun key v hv => isDescription_iff.1 (hall key v hv)) hunion, List.forall_mem_append,
        List.forall_mem_singleton, List.forall_mem_map, and_iff_left ⟨he.eq ▸ he.selector, hstable⟩]
      refine forall₂_congr fun b hb => and_iff_right ?_
      obtain ⟨d, hd⟩ := hsub b hb
      exact hd.eq ▸ hd.selector
    rw [same_nullable htidy.keys hall hunion hsame (by
      rw [List.forall_mem_map]
      intro b hb
      obtain ⟨d, hd⟩ := hsub b hb
      exact ⟨hd.eq ▸ hd.selector, d, hd.eq, hd.keys⟩), List.forall_mem_map, hfits,
      and_iff_left hexact, ← and_assoc]
    refine and_congr ?_ ?_
    · rw [← forall₂_and]
      refine forall₂_congr fun b hb => ?_
      obtain ⟨d, hd⟩ := hsub b hb
      rw [hd.eq, hd.null, and_comm]
    · constructor
      · intro hsingle b hb
        obtain ⟨d, hd⟩ := hsub b (by rw [hb]; exact List.mem_singleton_self b)
        rw [← Bool.not_eq_true, ← hd.bare]
        exact hsingle d (by rw [hb, List.map_singleton, hd.eq])
      · intro hsingle d hd
        obtain ⟨b, hb, heq⟩ := List.map_eq_singleton_iff.1 hd
        obtain ⟨e, he⟩ := hsub b (by rw [hb]; exact List.mem_singleton_self b)
        obtain rfl := JsonValue.obj.inj (heq.symm.trans he.eq)
        rw [ne_eq, he.bare, hsingle b hb]
        simp
  constructor
  · intro hsame
    have hrel := hsame
    rw [listedProperty_obj, if_pos hnull, nullableUnion_eq] at hrel
    have honly : ∀ key v, (describedCore node core).get? key = some v → isDescription key := by
      intro key v hv
      have hsome := hrel.isSome_get? key
      rw [hv, Dict.get?_insert] at hsome
      rw [isDescription_iff]
      by_contra hkey
      rw [not_or] at hkey
      rw [if_neg hkey.2, get?_metadata_none _ hkey.1] at hsome
      cases hsome
    have hany := hrel.get? "anyOf"
    rw [Dict.get?_insert, if_pos rfl, hget (by decide), hcore.union] at hany
    split_ifs at hany with hhas
    · cases hany with
      | some hv =>
        rw [Same.arr_iff] at hv
        rcases List.eq_nil_or_concat (coreUnion (splitProperty node)) with hnil | ⟨branches, last, heq⟩
        · rw [hnil, List.map_nil] at hv
          simpa using hv.length_eq
        · rw [List.concat_eq_append] at heq
          rw [heq, List.map_append, List.map_singleton, forall₂_concat] at hv
          obtain ⟨e, he⟩ := hbranches last (heq ▸ List.mem_append_right _ (List.mem_singleton_self _))
          have hlast := hv.2
          rw [he.eq, same_nullBranch_iff he.keys] at hlast
          have hplain := he.plain.1 hlast
          obtain ⟨⟨hfits, hexact⟩, hnonNull, hsingle⟩ :=
            (hiff branches last hhas heq (hdescribed.1 honly) hplain).1 hsame
          exact ⟨hfits, hexact, branches, last, hhas, heq, hdescribed.1 honly, hplain, hnonNull, hsingle⟩
    · cases hany
  · rintro ⟨hfits, hexact, branches, last, hhas, heq, hdescribed, hplain, hnonNull, hsingle⟩
    exact (hiff branches last hhas heq hdescribed hplain).2 ⟨⟨hfits, hexact⟩, hnonNull, hsingle⟩

/-- A property that is required settles by its parts. -/
lemma kept_listed (h : DistinctTree (.obj node)) (hcore : CoreIs F (splitProperty node) core)
    (htidy : Tidy (describedCore node core)) :
    Same (listedProperty (.obj (describedCore node core))) (.obj (describedCore node core)) ↔
      CoreFits F (splitProperty node) ∧ RequiredExact (splitProperty node) ∧
        (ListedSettles (splitProperty node) ∨
          ∃ branches last, ListedAsNullable (splitProperty node) branches last) := by
  have hiff := nullPresent_iff h.1.shape.keys hcore
  by_cases hnull : (splitProperty (describedCore node core)).nullPresent
  · have hnot : ¬ ListedSettles (splitProperty node) := by
      intro hsettles
      rcases hiff.1 hnull with ⟨hhas, b, hb, hb'⟩ | ⟨types, hget, t, ht, ht'⟩
      · rw [hsettles.nonNull hhas b hb] at hb'
        cases hb'
      · have hplain := hsettles.types _ hget
        simp only [plainTypes, Bool.and_eq_true, List.all_eq_true] at hplain
        simpa [ht'] using hplain.1 t ht
    rw [same_listed_null h hcore htidy hnull, or_iff_right hnot]
  · have hnot : ¬ ∃ branches last, ListedAsNullable (splitProperty node) branches last := by
      rintro ⟨branches, last, hlast⟩
      have hmem : last ∈ coreUnion (splitProperty node) :=
        hlast.union ▸ List.mem_append_right _ (List.mem_singleton_self last)
      obtain ⟨d, hd⟩ := exists_branchIs (hcore.branches last hmem).1 (hcore.branches last hmem).2
      refine hnull (hiff.2 (.inl ⟨hlast.hasUnion, last, hmem, ?_⟩))
      rw [← hd.null, hd.plain.2 hlast.plainNull]
      rfl
    rw [same_listed_plain h hcore htidy hnull, or_iff_left hnot]

end Listed

/-! ### Schemas that are encoded again -/

/-- A schema is its own encoding once it is encoded just if it settles, wherever it stands. -/
theorem settles {schema : JsonValue φ} (h : DistinctTree schema) :
    Agrees Stable Kept Settled schema := by
  induction hd : schema.depth using Nat.strong_induction_on generalizing schema with
  | _ n ih =>
    subst hd
    obtain ⟨node, rfl⟩ := h.1.exists_obj
    have ih : ∀ w : JsonValue φ, w.depth < (JsonValue.obj node).depth → DistinctTree w →
        Agrees Stable Kept Settled w := fun w hw htree => ih w.depth hw htree rfl
    have hkeys := h.1.shape.keys
    refine ⟨⟨?_, survives_encoded hkeys⟩, fun name required => ?_⟩
    · obtain ⟨hunder, hprops⟩ := agreesUnder distinctTree_hereditary h ih
      have hnode := nodeCompliant_encoded stable_typeFree hkeys false hunder hprops
      simp only [Bool.false_eq_true] at hnode
      rw [transformNode_encoded, stable_iff (tidy_encoded h false), hnode, settled_eq, settledStep,
        and_iff_left (exact_encoded hkeys)]
    · have hcore := coreIs distinctTree_hereditary h ih
      have htidy := tidy_core h
      rw [Kept, and_iff_right (distinctFields_property h.1 name required), settled_eq, settledStep,
        transformProperty]
      by_cases hlisted : required.contains name && !(splitProperty node).nullPresent
      · simp only [hlisted, if_true]
        exact kept_listed h hcore (htidy.merge (tidy_metadata h))
      · simp only [hlisted, Bool.false_eq_true, if_false]
        exact kept_nullable h.1 hcore htidy

/-- A strict schema is its own strict schema just if every property of the schema settles. -/
theorem toStrictSchema_idempotent_iff {node : Dict (JsonValue φ)} (h : SchemaTree (.obj node))
    (hkeys : (JsonValue.obj node).distinctKeys) :
    Same (toStrictSchema (toStrictSchema (.obj node))) (toStrictSchema (.obj node)) ↔
      Settled (.obj node) (.node true) := by
  have htree : DistinctTree (.obj node) := ⟨h, hkeys⟩
  obtain ⟨hunder, hprops⟩ := agreesUnder distinctTree_hereditary htree fun w _ hw => settles hw
  have hnode := nodeCompliant_encoded stable_typeFree h.shape.keys true hunder hprops
  rw [toStrictSchema, toStrictSchema, transformNode_encoded node true,
    same_iff (tidy_encoded htree true), hnode, settled_eq, settledStep,
    and_iff_left (exact_encoded h.shape.keys)]

theorem areaSchema_idempotent_iff :
    Same (toStrictSchema (toStrictSchema (.obj areaSchema))) (toStrictSchema (.obj areaSchema)) ↔
      Settled (.obj areaSchema) (.node true) :=
  toStrictSchema_idempotent_iff areaSchema_tree (by decide)

/-- An object whose required property `area` is a text or anything. -/
def droppedBranch : JsonValue NonFinite :=
  .obj [("type", .str "object"), ("properties", .obj [("area",
    .obj [("anyOf", .arr [.obj [("type", .str "string")], .obj []])])]), ("required", .arr [.str "area"])]

/-- The branch without a type is dropped, and the one that is left is then merged into the
property. -/
theorem dropped_branch_merged :
    ¬ Same (toStrictSchema (toStrictSchema droppedBranch)) (toStrictSchema droppedBranch) := by
  intro hsame
  have htype := ((hsame.fieldAt "properties").fieldAt "area").hasField "type"
  revert htype
  decide +kernel

end RentCompass.Tools
