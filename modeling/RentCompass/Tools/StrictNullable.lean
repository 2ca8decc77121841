import RentCompass.Tools.StrictSettled

/-!
# Properties that may be null, encoded again

A union with null stays the same as its other branches do, unless one of them is null as well, or
the only one of them is a bare union.
-/

namespace RentCompass.Tools

open JsonValue

variable {φ : Type}

/-! ### Unions under unions -/

/-- The schema has unions nested this deep. -/
def nested : Nat → JsonValue φ → Prop
  | 0, _ => True
  | n + 1, .obj node => ∃ b ∈ unionOf node, nested n b
  | _ + 1, _ => False

lemma nested_depth {n : Nat} {v : JsonValue φ} (h : nested n v) : n ≤ v.depth := by
  induction n generalizing v with
  | zero => exact Nat.zero_le _
  | succ n ih =>
    cases v with
    | obj node =>
      obtain ⟨b, hb, hn⟩ := h
      exact (Nat.succ_le_succ (ih hn)).trans (depth_lt_unionOf hb)
    | _ => exact h.elim

lemma exists_of_forall₂ {α β : Type} {R : α → β → Prop} {l : List α} {m : List β}
    (h : List.Forall₂ R l m) {a : α} (ha : a ∈ l) : ∃ b ∈ m, R a b := by
  induction h with
  | nil => cases ha
  | @cons a' b' _ _ hab _ ih =>
    rcases List.mem_cons.1 ha with rfl | ha
    · exact ⟨b', List.mem_cons_self, hab⟩
    · obtain ⟨b, hb, hR⟩ := ih ha
      exact ⟨b, List.mem_cons_of_mem _ hb, hR⟩

lemma nested_same {n : Nat} {v w : JsonValue φ} (h : Same v w) (hn : nested n v) : nested n w := by
  induction n generalizing v w with
  | zero => trivial
  | succ n ih =>
    cases v with
    | obj node =>
      obtain ⟨node', rfl⟩ := h.symm.exists_obj
      obtain ⟨b, hb, hn⟩ := hn
      rw [unionOf] at hb
      split at hb
      · next branches hget =>
        have hrel := h.get? "anyOf"
        rw [hget] at hrel
        cases hget' : Dict.get? node' "anyOf" with
        | none =>
          rw [hget'] at hrel
          cases hrel
        | some v =>
          rw [hget'] at hrel
          cases hrel with
          | some hv =>
            obtain ⟨branches', rfl⟩ := hv.symm.exists_arr
            obtain ⟨b', hb', hsame⟩ := exists_of_forall₂ (Same.arr_iff.1 hv) hb
            exact ⟨b', by rwa [unionOf, hget'], ih hsame hn⟩
      · cases hb
    | _ => exact hn.elim

/-- The branches of an encoded union come from those of the union. -/
lemma mem_unionOf_encoded {node : Dict (JsonValue φ)} {root : Bool} {b : JsonValue φ}
    (hb : b ∈ unionOf (encoded node root)) :
    ∃ c ∈ unionOf node, normalizeAnyofBranch (transformNode c false) = some b := by
  have hstrict : (strictFields node).get? "anyOf" = (node.get? "anyOf").bind
      (transformKeyword (transformNode · false) (isObjectNode node) (requiredNames node) "anyOf") := by
    refine Dict.get?_filterMap_of_isSome _ fun v => ?_
    cases v <;> simp [transformKeyword, isDropped, bannedKeywords]
  have hget : unionOf (encoded node root) = [] ∨
      (encoded node root).get? "anyOf" = (strictFields node).get? "anyOf" := by
    rw [encoded, transformNode_obj]
    split_ifs
    · exact .inl rfl
    · exact .inr (by rw [fieldsOf, Dict.get?_insert, if_neg (by decide), Dict.get?_insert,
        if_neg (by decide)])
    · exact .inr rfl
  rcases hget with hnil | hget
  · rw [hnil] at hb
    cases hb
  · rw [unionOf, hget, hstrict] at hb
    cases hany : node.get? "anyOf" with
    | none =>
      rw [hany] at hb
      cases hb
    | some v =>
      rw [hany, Option.bind_some] at hb
      cases v with
      | arr branches =>
        have hb : b ∈ cleanAnyof (branches.map (transformNode · false)) := by
          simpa [transformKeyword, isDropped, bannedKeywords] using hb
        obtain ⟨j, hj, hb⟩ := List.mem_filterMap.1 hb
        obtain ⟨c, hc, rfl⟩ := List.mem_map.1 hj
        exact ⟨c, by rwa [unionOf, hany], hb⟩
      | _ => simp [transformKeyword, isDropped, bannedKeywords] at hb

/-- A branch has no union once a type is put to it, if it had none. -/
lemma nested_normalize {n : Nat} {j b : JsonValue φ} (h : normalizeAnyofBranch j = some b)
    (hn : nested n b) : nested n j := by
  cases j with
  | obj node =>
    rw [normalizeAnyofBranch_obj] at h
    split_ifs at h
    · cases h
      exact hn
    · simp only [Option.bind_eq_some_iff, Option.map_eq_some_iff] at h
      obtain ⟨values, -, t, -, rfl⟩ := h
      cases n with
      | zero => trivial
      | succ n =>
        obtain ⟨c, hc, hn⟩ := hn
        rw [unionOf, Dict.get?_insert, if_neg (by decide)] at hc
        exact ⟨c, hc, hn⟩
  | _ =>
    cases h
    exact hn

lemma nested_transform {n : Nat} {v : JsonValue φ} {root : Bool}
    (hn : nested n (transformNode v root)) : nested n v := by
  induction n generalizing v root with
  | zero => trivial
  | succ n ih =>
    cases v with
    | obj node =>
      rw [transformNode_encoded] at hn
      obtain ⟨b, hb, hn⟩ := hn
      obtain ⟨c, hc, hcb⟩ := mem_unionOf_encoded hb
      exact ⟨c, hc, ih (nested_normalize hcb hn)⟩
    | _ =>
      rw [transformNode_leaf (by simp)] at hn
      exact hn

/-- No branch of a schema is the schema itself, encoded or not. -/
lemma not_same_branch {node : Dict (JsonValue φ)} {b x : JsonValue φ} (hb : b ∈ unionOf node)
    (hx : normalizeAnyofBranch (transformNode b false) = some x) : ¬ Same x (.obj node) := by
  intro hsame
  have hall (n : Nat) : nested n (.obj node) := by
    induction n with
    | zero => trivial
    | succ n ih => exact ⟨b, hb, nested_transform (nested_normalize hx (nested_same hsame.symm ih))⟩
  exact absurd (nested_depth (hall (JsonValue.obj node).depth.succ)) (Nat.not_succ_le_self _)

/-! ### A property that is encoded again -/

/-- The branches beside null in the union of a property that may be null. -/
def nullableBranches (core : Dict (JsonValue φ)) : List (JsonValue φ) :=
  if core.keys = [Text.ofString "anyOf"] then cleanAnyof (unionOf core) else cleanAnyof [.obj core]

lemma nullableUnion_eq (core : Dict (JsonValue φ)) :
    nullableUnion core = nullableBranches core ++ [nullBranch] := rfl

lemma listedProperty_obj (node : Dict (JsonValue φ)) : listedProperty (.obj node) =
    if (splitProperty node).nullPresent then
      .obj (Dict.insert (splitProperty node).metadata "anyOf"
        (.arr (nullableUnion (propertyCore (transformNode · false) (splitProperty node)))))
    else
      .obj (mergeDicts (propertyCore (transformNode · false) (splitProperty node))
        (splitProperty node).metadata) := by
  rw [listedProperty, transformProperty]
  cases (splitProperty node).nullPresent <;> rfl

lemma isDescription_iff {key : Text} : isDescription key ↔ key ∈ metaKeywords ∨ key = "anyOf" := by
  simp [isDescription]

lemma get?_metadata {node : Dict (JsonValue φ)} (h : node.keys.Nodup) {key : Text}
    (hkey : key ∈ metaKeywords) : (splitProperty node).metadata.get? key = node.get? key := by
  cases hget : node.get? key with
  | none =>
    refine Dict.get?_eq_none fun hmem => ?_
    obtain ⟨p, hp, rfl⟩ := List.mem_map.1 hmem
    rw [(Dict.mem_iff_get? h).1 (List.mem_filter.1 hp).1] at hget
    cases hget
  | some v =>
    refine (Dict.mem_iff_get? (metadata_keys_nodup h)).1 (List.mem_filter.2 ⟨Dict.mem_of_get? hget, ?_⟩)
    have hdropped := (keywordOk_meta hkey v : KeywordOk (fun _ => True) key v).1
    simp [hdropped, hkey]

/-- A union under descriptions says nothing of the value. -/
lemma value_eq_nil {node : Dict (JsonValue φ)} (h : node.keys.Nodup)
    (honly : ∀ key v, node.get? key = some v → isDescription key) {branches : List (JsonValue φ)}
    (hunion : node.get? "anyOf" = some (.arr branches)) : (splitProperty node).value = [] := by
  refine List.filterMap_eq_nil_iff.2 fun p hp => ?_
  rw [Option.map_eq_none_iff]
  by_contra hne
  obtain ⟨w, hw⟩ := Option.ne_none_iff_exists'.1 hne
  have hget := (Dict.mem_iff_get? h).1 hp
  rcases isDescription_iff.1 (honly _ _ hget) with hmeta | hany
  · have hout : valueKeyword p.1 p.2 = none := by simp [valueKeyword, hmeta]
    rw [hout] at hw
    cases hw
  · rw [hany, hunion, Option.some.injEq] at hget
    rw [hany, ← hget] at hw
    simp [valueKeyword] at hw

lemma forall₂_concat {α β : Type} {R : α → β → Prop} {l : List α} {m : List β} {x : α} {y : β} :
    List.Forall₂ R (l ++ [x]) (m ++ [y]) ↔ List.Forall₂ R l m ∧ R x y := by
  rw [← List.forall₂_reverse_iff, List.reverse_append, List.reverse_append, List.reverse_singleton,
    List.reverse_singleton, List.singleton_append, List.singleton_append, List.forall₂_cons,
    List.forall₂_reverse_iff, and_comm]

lemma isNullSchema_same {v w : JsonValue φ} (h : Same v w) (hv : isNullSchema v) :
    isNullSchema w := by
  cases v with
  | obj node =>
    obtain ⟨node', rfl⟩ := h.symm.exists_obj
    obtain ⟨htype, hprops⟩ := isNullSchema_iff.1 hv
    refine isNullSchema_iff.2 ⟨?_, ?_⟩
    · have hrel := h.get? "type"
      rw [htype] at hrel
      cases hget : Dict.get? node' "type" with
      | none =>
        rw [hget] at hrel
        cases hrel
      | some t =>
        rw [hget] at hrel
        cases hrel with
        | some ht => rw [ht.eq_of_str]
    · rw [← Option.not_isSome_iff_eq_none, ← h.isSome_get?, hprops]
      simp
  | _ => cases hv

section Nullable

variable {node : Dict (JsonValue φ)} {branches : List (JsonValue φ)} {last : JsonValue φ}

/-- A union with null under descriptions stays the same as its other branches do. -/
lemma same_nullable_iff (h : node.keys.Nodup)
    (honly : ∀ key v, node.get? key = some v → isDescription key)
    (hunion : node.get? "anyOf" = some (.arr (branches ++ [last]))) (hlast : Same nullBranch last) :
    Same (listedProperty (.obj node)) (.obj node) ↔ List.Forall₂ Same
      (nullableBranches (propertyCore (transformNode · false) (splitProperty node))) branches := by
  have hnull : (splitProperty node).nullPresent := by
    have hmem : last ∈ unionOf node := by simp [unionOf, hunion]
    have hany : (unionOf node).any isNullSchema :=
      List.any_eq_true.2 ⟨last, hmem, isNullSchema_same hlast rfl⟩
    simp [splitProperty, hany]
  rw [listedProperty_obj, if_pos hnull, nullableUnion_eq]
  constructor
  · intro hsame
    have hrel := hsame.get? "anyOf"
    rw [Dict.get?_insert, if_pos rfl, hunion] at hrel
    cases hrel with
    | some hv => exact (forall₂_concat.1 (Same.arr_iff.1 hv)).1
  · intro hall
    refine Same.of_get? fun key => ?_
    rw [Dict.get?_insert]
    split_ifs with hkey
    · rw [hkey, hunion]
      exact .some (Same.arr_iff.2 (forall₂_concat.2 ⟨hall, hlast⟩))
    · by_cases hmeta : key ∈ metaKeywords
      · rw [get?_metadata h hmeta]
        cases node.get? key with
        | none => exact .none
        | some v => exact .some (.refl v)
      · rw [get?_metadata_none node hmeta]
        cases hget : node.get? key with
        | none => exact .none
        | some v => exact absurd (isDescription_iff.1 (honly key v hget)) (not_or.2 ⟨hmeta, hkey⟩)

lemma nonNullBranches_union (hunion : node.get? "anyOf" = some (.arr (branches ++ [last])))
    (hlast : Same nullBranch last) :
    (splitProperty node).nonNullBranches = branches.filter (!isNullSchema ·) := by
  have hdrop : isNullSchema last := isNullSchema_same hlast rfl
  simp [splitProperty, unionOf, hunion, hdrop]

lemma keys_same {s t : Dict (JsonValue φ)} (hs : s.keys.Nodup) (h : Same (.obj s) (.obj t))
    {key : Text} (hkeys : t.keys = [key]) : s.keys = [key] := by
  have hall (k : Text) : k ∈ s.keys ↔ k ∈ t.keys := by
    have hsome (d : Dict (JsonValue φ)) : k ∈ d.keys ↔ (d.get? k).isSome := by
      rw [Option.isSome_iff_exists]
      exact ⟨Dict.exists_get?, fun ⟨_, hget⟩ => Dict.mem_keys_of_get? hget⟩
    rw [hsome, hsome, h.isSome_get?]
  have hperm := (List.perm_ext_iff_of_nodup hs (hkeys ▸ List.nodup_singleton key)).2 hall
  rw [hkeys] at hperm
  exact List.perm_singleton.1 hperm

/-- A union with null stays the same just if its other branches do, they are not null, and the only
one of them is no bare union. -/
lemma same_nullable (h : node.keys.Nodup)
    (honly : ∀ key v, node.get? key = some v → isDescription key)
    (hunion : node.get? "anyOf" = some (.arr (branches ++ [last]))) (hlast : Same nullBranch last)
    (hbranches : ∀ b ∈ branches, lacksSelector b = false ∧ ∃ d : Dict (JsonValue φ),
      b = .obj d ∧ d.keys.Nodup) :
    Same (listedProperty (.obj node)) (.obj node) ↔
      (∀ b ∈ branches, isNullSchema b = false ∧ Stable b) ∧
      ∀ d : Dict (JsonValue φ), branches = [.obj d] → d.keys ≠ [Text.ofString "anyOf"] := by
  have hvalue := value_eq_nil h honly hunion
  have hnonNull := nonNullBranches_union hunion hlast
  rw [same_nullable_iff h honly hunion hlast]
  have hfilter : (∀ b ∈ branches, isNullSchema b = false) ↔
      branches.filter (!isNullSchema ·) = branches := by
    rw [List.filter_eq_self]
    simp
  rcases hlist : branches.filter (!isNullSchema ·) with _ | ⟨b, _ | ⟨b', bs⟩⟩
  · have hcore : propertyCore (transformNode · false) (splitProperty node) = [] := by
      rw [propertyCore_none (hnonNull.trans hlist), hvalue, encoded_nil]
    rw [hcore]
    show List.Forall₂ Same [] branches ↔ _
    rw [List.forall₂_nil_left_iff]
    constructor
    · rintro rfl
      exact ⟨by simp, by simp⟩
    · rintro ⟨hall, -⟩
      rw [← hfilter.1 fun b hb => (hall b hb).1, hlist]
  · have hb : b ∈ branches := (List.mem_filter.1 (by rw [hlist]; exact List.mem_singleton_self b)).1
    obtain ⟨hselector, d, rfl, hd⟩ := hbranches b hb
    have hcore : propertyCore (transformNode · false) (splitProperty node) = encoded d false := by
      rw [propertyCore_one (hnonNull.trans hlist), hvalue, mergedCore, encoded_nil]
      rfl
    have hstable : Stable (.obj d) ↔ Same (.obj (encoded d false)) (.obj d) := by
      rw [Stable, transformNode_encoded, distinctFields_obj, and_iff_right hd]
    have hnormal := normalize_transformNode hselector (distinctFields_obj.2 hd)
    rw [transformNode_encoded] at hnormal
    rw [hcore, nullableBranches]
    split_ifs with hbare
    · -- the branch is flattened
      refine iff_of_false (fun hall => ?_) ?_
      · obtain ⟨x, hx, hsame⟩ := exists_of_forall₂ hall.flip hb
        obtain ⟨j, hj, hjx⟩ := List.mem_filterMap.1 hx
        obtain ⟨c, hc, hcj⟩ := mem_unionOf_encoded hj
        have hlacks := (normalize_compliant distinctFields_typeFree hcj).1
        rw [normalize_of_selector hlacks] at hjx
        cases hjx
        exact not_same_branch hc hcj hsame
      · rintro ⟨hall, hsingle⟩
        have heq : branches = [.obj d] := (hfilter.1 fun b hb => (hall b hb).1) ▸ hlist
        have hsame := hstable.1 (hall _ hb).2
        exact hsingle d heq (keys_same hd hsame.symm hbare)
    · rw [cleanAnyof, List.filterMap_cons_some hnormal, List.filterMap_nil]
      constructor
      · intro hall
        obtain ⟨k, _, hk, hnil, heq⟩ := List.forall₂_cons_left_iff.1 hall
        rw [List.forall₂_nil_left_iff.1 hnil] at heq
        subst heq
        obtain rfl := List.mem_singleton.1 hb
        have hsame : isNullSchema (.obj d) = false := by
          have hmem : JsonValue.obj d ∈ [JsonValue.obj d].filter (!isNullSchema ·) := by
            rw [hlist]
            exact List.mem_singleton_self _
          simpa using (List.mem_filter.1 hmem).2
        refine ⟨fun b hb => ?_, fun e heq hkeys => ?_⟩
        · obtain rfl := List.mem_singleton.1 hb
          exact ⟨hsame, hstable.2 hk⟩
        · obtain rfl := JsonValue.obj.inj (List.singleton_inj.1 heq)
          exact hbare (keys_same (encoded_keys hd false) hk hkeys)
      · rintro ⟨hall, -⟩
        have heq : branches = [.obj d] := (hfilter.1 fun b hb => (hall b hb).1) ▸ hlist
        rw [heq]
        exact .cons (hstable.1 (hall _ hb).2) .nil
  · have hcore : propertyCore (transformNode · false) (splitProperty node) =
        [(Text.ofString "anyOf", .arr (cleanAnyof ((b :: b' :: bs).map (transformNode · false))))] := by
      rw [propertyCore_many (hnonNull.trans hlist), hvalue, encoded_nil]
      rfl
    have hsub : ∀ c ∈ b :: b' :: bs, lacksSelector c = false ∧ DistinctFields c := by
      intro c hc
      obtain ⟨hselector, d, rfl, hd⟩ := hbranches c (List.mem_filter.1 (hlist ▸ hc)).1
      exact ⟨hselector, distinctFields_obj.2 hd⟩
    have hfront : nullableBranches (propertyCore (transformNode · false) (splitProperty node)) =
        (b :: b' :: bs).map (transformNode · false) := by
      rw [hcore]
      show cleanAnyof (cleanAnyof _) = _
      rw [cleanAnyof_eq_self fun c hc => mem_cleanAnyof hc, cleanAnyof_transformNode hsub]
    rw [hfront, List.forall₂_map_left_iff]
    constructor
    · intro hall
      have heq : branches.filter (!isNullSchema ·) = branches :=
        List.filter_sublist.eq_of_length (by rw [hlist, hall.length_eq])
      rw [← hlist, heq, List.forall₂_same] at hall
      refine ⟨fun c hc => ⟨hfilter.2 heq c hc, ?_, hall c hc⟩, fun d hd => ?_⟩
      · exact (hsub c (hlist ▸ heq.symm ▸ hc)).2
      · rw [heq, hd] at hlist
        cases hlist
    · rintro ⟨hall, -⟩
      rw [← hlist, hfilter.1 fun c hc => (hall c hc).1, List.forall₂_same]
      exact fun c hc => (hall c hc).2.2

end Nullable

end RentCompass.Tools
