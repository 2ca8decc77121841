import RentCompass.Tools.SchemaMeaning

/-!
# Where the check follows the meaning

The check of tool arguments accepts what JSON schema accepts, as long as no node that it comes to
has a keyword it takes another way: keywords beside a union, whole floats where an integer is asked
for, multiples up to rounding, and equality of what contains truth values or two writings of a
number.
-/

namespace RentCompass.Tools

open JsonValue

variable {φ : Type} [ExactFloats φ] {checks : StringChecks φ}

/-! ### Equality -/

omit [ExactFloats φ] in
lemma equalItems_iff {scalar : JsonValue φ → JsonValue φ → Bool} {vs ws : List (JsonValue φ)} :
    equalItems scalar vs ws ↔ List.Forall₂ (fun v w => equalBy scalar v w) vs ws := by
  induction vs generalizing ws with
  | nil => cases ws <;> simp [equalItems]
  | cons v vs ih =>
    cases ws with
    | nil => simp [equalItems]
    | cons w ws => simp [equalItems, ih]

omit [ExactFloats φ] in
lemma equalFields_iff {scalar : JsonValue φ → JsonValue φ → Bool}
    {fields e : Dict (JsonValue φ)} :
    equalFields scalar fields e ↔
      ∀ p ∈ fields, ∃ w, e.get? p.1 = some w ∧ equalBy scalar p.2 w := by
  induction fields with
  | nil => simp [equalFields]
  | cons p fields ih =>
    rw [equalFields, Bool.and_eq_true, ih, List.forall_mem_cons]
    refine and_congr ?_ Iff.rfl
    cases hget : e.get? p.1 <;> simp

lemma scalarEqual_py {v w : JsonValue φ} (h : scalarEqual number v w) :
    scalarEqual pyNumber v w := by
  cases v <;> cases w <;> simp_all [scalarEqual, number, pyNumber]

/-- What is equal in JSON is equal in Python. -/
lemma pyEqual_of_jsonEqual {v w : JsonValue φ} (h : jsonEqual v w) : pyEqual v w := by
  unfold jsonEqual at h
  unfold pyEqual
  induction v using JsonValue.induct generalizing w with
  | arr vs ih =>
    cases w with
    | arr ws =>
      rw [equalBy, equalItems_iff, List.forall₂_iff_zip] at h ⊢
      exact ⟨h.1, fun hmem => ih _ (List.of_mem_zip hmem).1 (h.2 hmem)⟩
    | _ => simp [equalBy, scalarEqual, number] at h
  | obj d ih =>
    cases w with
    | obj e =>
      rw [equalBy, Bool.and_eq_true, equalFields_iff] at h ⊢
      refine ⟨h.1, fun p hp => ?_⟩
      obtain ⟨w, hget, hw⟩ := h.2 p hp
      exact ⟨w, hget, ih p hp hw⟩
    | _ => simp [equalBy, scalarEqual, number] at h
  | _ =>
    cases w <;>
    · simp only [equalBy] at h ⊢
      exact scalarEqual_py h

/-- The comparison that `const` and `enum` are checked by sees what is equal. -/
lemma same_of_jsonEqual {v w : JsonValue φ} (h : jsonEqual v w) :
    sameJsonScalar (pyKeywords checks) v w := by
  have hpy := pyEqual_of_jsonEqual h
  cases v <;> cases w <;>
    simp_all [sameJsonScalar, pyKeywords, jsonEqual, equalBy, scalarEqual, number]

/-! ### Schemas as they are authored -/

/-- The keyword has a bound that JSON schema allows. -/
structure BoundOk (keyword : Text) (bound : JsonValue φ) : Prop where
  size : keyword ∈ ["minLength", "maxLength", "minItems", "maxItems", "minProperties",
    "maxProperties"].map Text.ofString → ∃ n : ℕ, number bound = some (n : ℚ)
  limit : keyword ∈ ["minimum", "maximum", "exclusiveMinimum", "exclusiveMaximum"].map
    Text.ofString → ∃ q, number bound = some q
  divisor : keyword = "multipleOf" → ∃ q, 0 < q ∧ number bound = some q
  pattern : keyword = "pattern" → ∃ p, bound = .str p
  format : keyword = "format" → ∃ f, bound = .str f
  unique : keyword = "uniqueItems" → ∃ b, bound = .bool b

/-- The keywords of a node are as JSON schema has them. -/
structure WellFormedNode (schema : Dict (JsonValue φ)) : Prop where
  keys : schema.keys.Nodup
  enum : ∀ v, schema.get? "enum" = some v → ∃ cs, v = .arr cs
  anyOf : ∀ v, schema.get? "anyOf" = some v → ∃ b bs, v = .arr (b :: bs)
  oneOf : ∀ v, schema.get? "oneOf" = some v → ∃ b bs, v = .arr (b :: bs)
  type : ∀ v, schema.get? "type" = some v → (∃ name ∈ typeNames, v = .str name) ∨
    ∃ names, v = .arr names ∧ ∀ t ∈ names, ∃ name ∈ typeNames, t = .str name
  bounds : ∀ keyword bound, schema.get? keyword = some bound → BoundOk keyword bound
  items : ∀ v, schema.get? "items" = some v → ∃ d, v = .obj d
  required : ∀ v, schema.get? "required" = some v →
    ∃ names, v = .arr names ∧ ∀ t ∈ names, ∃ name, t = .str name
  properties : ∀ v, schema.get? "properties" = some v →
    ∃ props, v = .obj props ∧ (Dict.keys props).Nodup
  additional : ∀ v, schema.get? "additionalProperties" = some v →
    (∃ b, v = .bool b) ∨ ∃ d, v = .obj d

/-- A schema made of such nodes. -/
inductive WellFormed : JsonValue φ → Prop
  | node {schema : Dict (JsonValue φ)} (node : WellFormedNode schema)
      (anyOf : ∀ bs, schema.get? "anyOf" = some (.arr bs) → ∀ b ∈ bs, WellFormed b)
      (oneOf : ∀ bs, schema.get? "oneOf" = some (.arr bs) → ∀ b ∈ bs, WellFormed b)
      (items : ∀ s, schema.get? "items" = some s → WellFormed s)
      (properties : ∀ props, schema.get? "properties" = some (.obj props) →
        ∀ p ∈ props, WellFormed p.2)
      (additional : ∀ d, schema.get? "additionalProperties" = some (.obj d) →
        WellFormed (.obj d)) :
      WellFormed (.obj schema)

/-! ### Nodes that are checked as they are meant -/

/-- A value the keywords `const` and `enum` compare with. -/
def Compared (schema : Dict (JsonValue φ)) (c : JsonValue φ) : Prop :=
  schema.get? "const" = some c ∨ ∃ cs, schema.get? "enum" = some (.arr cs) ∧ c ∈ cs

/-- A type that the node names. -/
def NamesType (schema : Dict (JsonValue φ)) (name : Text) : Prop :=
  schema.get? "type" = some (.str name) ∨
    ∃ names, schema.get? "type" = some (.arr names) ∧ .str name ∈ names

/-- No keyword of the node takes the value another way than it is meant. -/
structure NodeOk (checks : StringChecks φ) (schema : Dict (JsonValue φ)) (value : JsonValue φ) :
    Prop where
  /-- Nothing the value is compared with equals it in Python alone. -/
  equal : ∀ c, Compared schema c → sameJsonScalar (pyKeywords checks) value c → jsonEqual value c
  one : schema.get? "anyOf" = none ∨ schema.get? "oneOf" = none
  /-- What stands beside a union holds where the union does. -/
  beside : ∀ branches, alternatives schema = some branches →
    (∃ b ∈ branches, Accepts checks b value) → Rest checks (Accepts checks) schema value
  /-- No whole float meets a node that asks for an integer and for no other number. -/
  whole : alternatives schema = none → ∀ x, value = .float x → (ExactFloats.rat x).isInt →
    NamesType schema "integer" → NamesType schema "number"
  /-- What is close to a multiple is one. -/
  multiple : alternatives schema = none → ∀ bound q d, schema.get? "multipleOf" = some bound →
    number value = some q → number bound = some d → closeToMultiple q d → ∃ k : ℤ, q = k * d
  /-- Items that are to be unique are equal just if they are written alike. -/
  unique : alternatives schema = none → schema.get? "uniqueItems" = some (.bool true) →
    ∀ items, value = .arr items → ((items.map (dumpsAscii .canonical)).Nodup ↔
      items.Pairwise fun v w => jsonEqual v w = false)

/-- Every node that the check of the value comes to is checked as it is meant. -/
inductive AsMeant (checks : StringChecks φ) : JsonValue φ → JsonValue φ → Prop
  | node {schema : Dict (JsonValue φ)} {value : JsonValue φ} (node : NodeOk checks schema value)
      (branches : ∀ bs, alternatives schema = some bs → ∀ b ∈ bs, AsMeant checks b value)
      (items : alternatives schema = none → ∀ items s, value = .arr items →
        schema.get? "items" = some s → ∀ v ∈ items, AsMeant checks s v)
      (properties : alternatives schema = none → ∀ fields props, value = .obj fields →
        schema.get? "properties" = some (.obj props) → ∀ p ∈ props, ∀ v,
          Dict.get? fields p.1 = some v → AsMeant checks p.2 v)
      (additional : alternatives schema = none → ∀ fields d, value = .obj fields →
        schema.get? "additionalProperties" = some (.obj d) → ∀ p ∈ fields,
          p.1 ∉ (propertiesOf schema).keys → AsMeant checks (.obj d) p.2) :
      AsMeant checks (.obj schema) value

variable {schema : Dict (JsonValue φ)} {value : JsonValue φ}

/-! ### Constants and types -/

lemma checkConst_iff (h : NodeOk checks schema value) :
    checkConst (pyKeywords checks) schema value ↔
      ∀ c, schema.get? "const" = some c → jsonEqual value c := by
  rw [checkConst]
  cases hconst : schema.get? "const" with
  | none => simp
  | some c =>
    simp only [Option.some.injEq, forall_eq']
    exact ⟨h.equal c (.inl hconst), same_of_jsonEqual⟩

lemma checkEnum_iff (hw : WellFormedNode schema) (h : NodeOk checks schema value) :
    checkEnum (pyKeywords checks) schema value ↔
      ∀ cs, schema.get? "enum" = some (.arr cs) → ∃ c ∈ cs, jsonEqual value c := by
  rw [checkEnum]
  cases henum : schema.get? "enum" with
  | none => simp
  | some v =>
    obtain ⟨cs, rfl⟩ := hw.enum v henum
    simp only [List.any_eq_true, Option.some.injEq, JsonValue.arr.injEq, forall_eq']
    constructor
    · rintro ⟨c, hc, hsame⟩
      exact ⟨c, hc, h.equal c (.inr ⟨cs, henum, hc⟩) hsame⟩
    · rintro ⟨c, hc, hequal⟩
      exact ⟨c, hc, same_of_jsonEqual hequal⟩

/-- A type matches what is of it, a whole float apart. -/
lemma schemaTypeMatches_iff {name : Text} (hname : name ∈ typeNames)
    (hwhole : ∀ x, value = .float x → (ExactFloats.rat x).isInt → name ≠ "integer") :
    schemaTypeMatches name value ↔ HasType name value := by
  simp only [typeNames, List.map_cons, List.map_nil, List.mem_cons, List.not_mem_nil,
    or_false] at hname
  cases value with
  | float x =>
    rcases hname with rfl | rfl | rfl | rfl | rfl | rfl | rfl
    case inr.inr.inl =>
      have hnot : ¬ (ExactFloats.rat x).isInt := fun h => hwhole x rfl h rfl
      simp [schemaTypeMatches, HasType, hnot]
    all_goals simp [schemaTypeMatches, HasType]
  | _ => rcases hname with rfl | rfl | rfl | rfl | rfl | rfl | rfl <;>
      simp [schemaTypeMatches, HasType]

lemma checkType_iff (hw : WellFormedNode schema) (h : NodeOk checks schema value)
    (hunion : alternatives schema = none) :
    checkType schema value ↔
      (∀ name, schema.get? "type" = some (.str name) → HasType name value) ∧
        ∀ names, schema.get? "type" = some (.arr names) →
          ∃ name, .str name ∈ names ∧ HasType name value := by
  rw [checkType]
  cases htype : schema.get? "type" with
  | none => simp
  | some v =>
    rcases hw.type v htype with ⟨name, hname, rfl⟩ | ⟨names, rfl, hnames⟩
    · have hwhole : ∀ x, value = .float x → (ExactFloats.rat x).isInt → name ≠ "integer" := by
        rintro x hx hint rfl
        rcases h.whole hunion x hx hint (.inl htype) with hnumber | ⟨ts, hts, -⟩
        · rw [htype] at hnumber
          exact absurd (JsonValue.str.inj (Option.some.inj hnumber)) (by decide)
        · rw [htype] at hts
          cases hts
      simp [schemaTypeMatches_iff hname hwhole]
    · simp only [List.any_eq_true, Option.some.injEq, reduceCtorEq, JsonValue.arr.injEq,
        forall_eq', IsEmpty.forall_iff, implies_true, true_and]
      constructor
      · rintro ⟨t, ht, hmatch⟩
        obtain ⟨name, hname, rfl⟩ := hnames t ht
        by_cases hint : name = Text.ofString "integer"
        · -- an integer matches as an integer
          subst hint
          refine ⟨_, ht, ?_⟩
          cases value <;> simp_all [schemaTypeMatches, HasType]
        · exact ⟨name, ht, (schemaTypeMatches_iff hname fun _ _ _ => hint).1 hmatch⟩
      · rintro ⟨name, hmem, hhas⟩
        obtain ⟨name', hname, heq⟩ := hnames _ hmem
        cases heq
        by_cases hwhole : ∀ x, value = .float x → (ExactFloats.rat x).isInt → name ≠ "integer"
        · exact ⟨_, hmem, (schemaTypeMatches_iff hname hwhole).2 hhas⟩
        · -- a whole float is let in as a number
          push Not at hwhole
          obtain ⟨x, rfl, hint, rfl⟩ := hwhole
          rcases h.whole hunion x rfl hint (.inr ⟨names, htype, hmem⟩) with hnumber | ⟨ts, hts, hin⟩
          · rw [htype] at hnumber
            cases hnumber
          · rw [htype] at hts
            cases hts
            exact ⟨_, hin, rfl⟩

/-! ### Sizes, texts and numbers -/

lemma intOf_of_number {bound : JsonValue φ} {n : ℕ} (h : number bound = some (n : ℚ)) :
    intOf bound = some (n : ℤ) := by
  cases bound with
  | int m =>
    simp only [number, Option.some.injEq] at h
    rw [intOf]
    exact congrArg some (by exact_mod_cast h)
  | float x =>
    simp only [number, Option.some.injEq] at h
    rw [intOf, h, if_pos (Nat.cast_nonneg n), Int.floor_natCast]
  | _ => cases h

lemma sizeAtLeast_iff {bound : JsonValue φ} {n : ℕ} (h : number bound = some (n : ℚ)) (size : Nat) :
    sizeAtLeast bound size ↔ ∀ q, number bound = some q → q ≤ size := by
  rw [sizeAtLeast, intOf_of_number h, h]
  simp

lemma sizeAtMost_iff {bound : JsonValue φ} {n : ℕ} (h : number bound = some (n : ℚ)) (size : Nat) :
    sizeAtMost bound size ↔ ∀ q, number bound = some q → (size : ℚ) ≤ q := by
  rw [sizeAtMost, intOf_of_number h, h]
  simp

lemma stringHolds_iff {keyword : Text} {bound : JsonValue φ} (h : BoundOk keyword bound) (s : Text) :
    stringHolds checks keyword bound s ↔ Asserts checks keyword bound (.str s) := by
  unfold stringHolds
  rw [Asserts]
  split_ifs with h1 h2 h3 h4
  · subst h1
    obtain ⟨n, hn⟩ := h.size (by simp)
    simp [sizeAtLeast_iff hn]
  · subst h2
    obtain ⟨n, hn⟩ := h.size (by simp)
    simp [sizeAtMost_iff hn]
  · subst h3
    obtain ⟨p, rfl⟩ := h.pattern rfl
    simp [StringChecks.strOf]
  · subst h4
    obtain ⟨f, rfl⟩ := h.format rfl
    simp only [truthy, Text.ofString_inj, String.reduceEq, IsEmpty.forall_iff, true_and,
      forall_const, JsonValue.str.injEq, forall_eq']
    by_cases hf : f = [] <;> simp [hf, StringChecks.strOf]
  · simp [h1, h2, h3, h4]

lemma listHolds_iff {keyword : Text} {bound : JsonValue φ} (h : BoundOk keyword bound)
    {items : List (JsonValue φ)}
    (hunique : keyword = "uniqueItems" → bound = .bool true →
      ((items.map (dumpsAscii .canonical)).Nodup ↔
        items.Pairwise fun v w => jsonEqual v w = false)) :
    listHolds keyword bound items ↔ Asserts checks keyword bound (.arr items) := by
  rw [listHolds, Asserts]
  split_ifs with h1 h2 h3
  · subst h1
    obtain ⟨n, hn⟩ := h.size (by simp)
    simp [sizeAtLeast_iff hn]
  · subst h2
    obtain ⟨n, hn⟩ := h.size (by simp)
    simp [sizeAtMost_iff hn]
  · obtain ⟨b, rfl⟩ := h.unique h3
    cases b with
    | false => simp [truthy, h1, h2]
    | true => simp [truthy, h3, hunique h3 rfl]
  · simp [h1, h2, h3]

lemma dictHolds_iff {keyword : Text} {bound : JsonValue φ} (h : BoundOk keyword bound)
    (fields : Dict (JsonValue φ)) :
    dictHolds keyword bound fields ↔ Asserts checks keyword bound (.obj fields) := by
  rw [dictHolds, Asserts]
  split_ifs with h1 h2
  · subst h1
    obtain ⟨n, hn⟩ := h.size (by simp)
    simp [sizeAtLeast_iff hn]
  · subst h2
    obtain ⟨n, hn⟩ := h.size (by simp)
    simp [sizeAtMost_iff hn]
  · simp [h1, h2]

lemma pyNumber_of_number {bound : JsonValue φ} {q : ℚ} (h : number bound = some q) :
    pyNumber bound = some q := by
  cases bound with
  | bool b => cases h
  | _ => exact h

/-- A multiple is close to one. -/
lemma closeToMultiple_of_eq {k : ℤ} {d : ℚ} (hd : 0 < d) : closeToMultiple (k * d) d := by
  have hdiv : (k : ℚ) * d / d = k := mul_div_cancel_right₀ _ hd.ne'
  have hround : pyRound (k : ℚ) = k := by
    rw [pyRound, Int.fract_intCast, if_neg (by norm_num), round_intCast]
  rw [closeToMultiple, hdiv, hround, isClose]
  simp only [sub_self, abs_zero, max_self, Bool.and_eq_true, decide_eq_true_eq]
  exact ⟨hd.ne', by positivity⟩

lemma numberHolds_iff {keyword : Text} {bound : JsonValue φ} (h : BoundOk keyword bound)
    {q : ℚ} (hq : number value = some q)
    (hmultiple : keyword = "multipleOf" → ∀ d, number bound = some d → closeToMultiple q d →
      ∃ k : ℤ, q = k * d) :
    numberHolds keyword bound q ↔ Asserts checks keyword bound value := by
  have hasserts : Asserts checks keyword bound value ↔ ∀ b, number bound = some b →
      (keyword = "minimum" → b ≤ q) ∧ (keyword = "maximum" → q ≤ b) ∧
      (keyword = "exclusiveMinimum" → b < q) ∧ (keyword = "exclusiveMaximum" → q < b) ∧
      (keyword = "multipleOf" → ∃ k : ℤ, q = k * b) := by
    cases value with
    | int n => simp [Asserts, hq]
    | float x => simp [Asserts, hq]
    | _ => cases hq
  rw [hasserts, numberHolds]
  split_ifs with h1 h2 h3 h4 h5
  · obtain ⟨b, hb⟩ := h.limit (by simp [h1])
    simp [pyNumber_of_number hb, hb, h1]
  · obtain ⟨b, hb⟩ := h.limit (by simp [h2])
    simp [pyNumber_of_number hb, hb, h2]
  · obtain ⟨b, hb⟩ := h.limit (by simp [h3])
    simp [pyNumber_of_number hb, hb, h3]
  · obtain ⟨b, hb⟩ := h.limit (by simp [h4])
    simp [pyNumber_of_number hb, hb, h4]
  · obtain ⟨d, hd, hb⟩ := h.divisor h5
    have hiff : closeToMultiple q d ↔ ∃ k : ℤ, q = k * d := by
      refine ⟨hmultiple h5 d hb, ?_⟩
      rintro ⟨k, rfl⟩
      exact closeToMultiple_of_eq hd
    simp [pyNumber_of_number hb, hb, h5, hiff]
  · simp [h1, h2, h3, h4, h5]

/-- The keywords hold one by one. -/
lemma checkAssertions_iff (hw : WellFormedNode schema) :
    checkAssertions (pyKeywords checks) schema value ↔ ∀ keyword bound,
      schema.get? keyword = some bound → keyword ∈ assertionKeywords →
        (pyKeywords checks).holds keyword bound value := by
  rw [checkAssertions, List.all_eq_true]
  constructor
  · intro h keyword bound hget hmem
    simpa [hmem] using h (keyword, bound) ((Dict.mem_iff_get? hw.keys).2 hget)
  · rintro h ⟨keyword, bound⟩ hp
    by_cases hmem : keyword ∈ assertionKeywords
    · simp [hmem, h keyword bound ((Dict.mem_iff_get? hw.keys).1 hp) hmem]
    · simp [hmem]

/-- A keyword that asserts nothing asserts nothing. -/
lemma asserts_of_notMem {keyword : Text} (h : keyword ∉ assertionKeywords) (bound : JsonValue φ) :
    Asserts checks keyword bound value := by
  have hne : ∀ {name : Text}, name ∈ assertionKeywords → keyword ≠ name :=
    fun hname heq => h (heq ▸ hname)
  cases value <;> simp [Asserts, number, hne (by decide : Text.ofString "minLength" ∈ assertionKeywords),
    hne (by decide : Text.ofString "maxLength" ∈ assertionKeywords),
    hne (by decide : Text.ofString "pattern" ∈ assertionKeywords),
    hne (by decide : Text.ofString "format" ∈ assertionKeywords),
    hne (by decide : Text.ofString "minItems" ∈ assertionKeywords),
    hne (by decide : Text.ofString "maxItems" ∈ assertionKeywords),
    hne (by decide : Text.ofString "uniqueItems" ∈ assertionKeywords),
    hne (by decide : Text.ofString "minProperties" ∈ assertionKeywords),
    hne (by decide : Text.ofString "maxProperties" ∈ assertionKeywords),
    hne (by decide : Text.ofString "minimum" ∈ assertionKeywords),
    hne (by decide : Text.ofString "maximum" ∈ assertionKeywords),
    hne (by decide : Text.ofString "exclusiveMinimum" ∈ assertionKeywords),
    hne (by decide : Text.ofString "exclusiveMaximum" ∈ assertionKeywords),
    hne (by decide : Text.ofString "multipleOf" ∈ assertionKeywords)]

/-- A keyword holds as it is meant. -/
lemma holds_iff (hw : WellFormedNode schema) (h : NodeOk checks schema value)
    (hunion : alternatives schema = none) {keyword : Text} {bound : JsonValue φ}
    (hget : schema.get? keyword = some bound) :
    (pyKeywords checks).holds keyword bound value ↔ Asserts checks keyword bound value := by
  have hbound := hw.bounds keyword bound hget
  cases value with
  | null => simp [pyKeywords, Asserts, number]
  | bool b => simp [pyKeywords, Asserts, number]
  | str s => exact stringHolds_iff hbound s
  | arr items =>
    refine listHolds_iff hbound ?_
    rintro rfl rfl
    exact h.unique hunion hget items rfl
  | obj fields => exact dictHolds_iff hbound fields
  | int n =>
    refine numberHolds_iff hbound rfl ?_
    rintro rfl d hd
    exact h.multiple hunion bound _ d hget rfl hd
  | float x =>
    refine numberHolds_iff hbound rfl ?_
    rintro rfl d hd
    exact h.multiple hunion bound _ d hget rfl hd

lemma checkAssertions_iff_asserts (hw : WellFormedNode schema) (h : NodeOk checks schema value)
    (hunion : alternatives schema = none) :
    checkAssertions (pyKeywords checks) schema value ↔ ∀ keyword bound,
      schema.get? keyword = some bound → Asserts checks keyword bound value := by
  rw [checkAssertions_iff hw]
  constructor
  · intro hall keyword bound hget
    by_cases hmem : keyword ∈ assertionKeywords
    · exact (holds_iff hw h hunion hget).1 (hall keyword bound hget hmem)
    · exact asserts_of_notMem hmem bound
  · intro hall keyword bound hget _
    exact (holds_iff hw h hunion hget).2 (hall keyword bound hget)

/-! ### Items and fields -/

lemma mem_requiredNames (hw : WellFormedNode schema) {name : Text} :
    name ∈ requiredNames schema ↔
      ∃ names, schema.get? "required" = some (.arr names) ∧ .str name ∈ names := by
  rw [requiredNames]
  cases hrequired : schema.get? "required" with
  | none => simp
  | some v =>
    obtain ⟨names, rfl, hnames⟩ := hw.required v hrequired
    simp only [List.mem_filterMap, Option.some.injEq, JsonValue.arr.injEq, exists_eq_left']
    constructor
    · rintro ⟨t, ht, heq⟩
      obtain ⟨name', rfl⟩ := hnames t ht
      cases heq
      exact ht
    · intro hmem
      exact ⟨_, hmem, rfl⟩

/-- A list is checked item by item. -/
lemma checkItems_iff_meant (hw : WellFormedNode schema) {items : List (JsonValue φ)}
    {check : JsonValue φ → JsonValue φ → Bool} {accepts : JsonValue φ → JsonValue φ → Prop}
    (h : ∀ s, schema.get? "items" = some s → ∀ v ∈ items, (check s v ↔ accepts s v)) :
    checkItems check schema items ↔
      ∀ s, schema.get? "items" = some s → ∀ v ∈ items, accepts s v := by
  rw [checkItems]
  cases hitems : schema.get? "items" with
  | none => simp
  | some s =>
    obtain ⟨d, rfl⟩ := hw.items s hitems
    simp only [List.all_eq_true, Option.some.injEq, forall_eq']
    exact forall₂_congr fun v hv => h _ hitems v hv

/-- A dict is checked by the properties it has, and its other fields by `additionalProperties`. -/
lemma checkFields_iff_meant (hw : WellFormedNode schema) {fields : Dict (JsonValue φ)}
    {check : JsonValue φ → JsonValue φ → Bool} {accepts : JsonValue φ → JsonValue φ → Prop}
    (hbool : ∀ b v, accepts (.bool b) v ↔ b = true)
    (hprops : ∀ props, schema.get? "properties" = some (.obj props) → ∀ p ∈ props, ∀ v,
      fields.get? p.1 = some v → (check p.2 v ↔ accepts p.2 v))
    (hmore : ∀ d, schema.get? "additionalProperties" = some (.obj d) → ∀ p ∈ fields,
      p.1 ∉ (propertiesOf schema).keys → (check (.obj d) p.2 ↔ accepts (.obj d) p.2)) :
    checkFields check schema fields ↔
      (∀ names, schema.get? "required" = some (.arr names) →
        ∀ name, .str name ∈ names → name ∈ Dict.keys fields) ∧
      (∀ props, schema.get? "properties" = some (.obj props) →
        ∀ p ∈ props, ∀ v, fields.get? p.1 = some v → accepts p.2 v) ∧
      ∀ s, schema.get? "additionalProperties" = some s →
        ∀ p ∈ fields, p.1 ∉ (propertiesOf schema).keys → accepts s p.2 := by
  rw [checkFields, Bool.and_eq_true, Bool.and_eq_true, and_assoc]
  refine and_congr ?_ (and_congr ?_ ?_)
  · simp only [List.all_eq_true, mem_requiredNames hw, List.contains_iff_mem]
    exact ⟨fun h names hnames name hname => h name ⟨names, hnames, hname⟩,
      fun h name ⟨names, hnames, hname⟩ => h names hnames name hname⟩
  · rw [propertiesOf]
    cases hget : schema.get? "properties" with
    | none => simp
    | some v =>
      obtain ⟨props, rfl, -⟩ := hw.properties v hget
      simp only [List.all_eq_true, Option.some.injEq, JsonValue.obj.injEq, forall_eq']
      refine forall₂_congr fun p hp => ?_
      rw [Option.all_eq_true]
      exact forall₂_congr fun v hv => hprops props hget p hp v hv
  · cases hget : schema.get? "additionalProperties" with
    | none => simp
    | some v =>
      rcases hw.additional v hget with ⟨b, rfl⟩ | ⟨d, rfl⟩
      · cases b with
        | true => simp [hbool]
        | false =>
          simp only [List.all_eq_true, List.contains_iff_mem, Option.some.injEq, forall_eq', hbool,
            Bool.false_eq_true, imp_false, not_not, Dict.keys, List.forall_mem_map]
      · simp only [List.all_eq_true, Bool.or_eq_true, List.contains_iff_mem, Option.some.injEq,
          forall_eq']
        refine forall₂_congr fun p hp => ?_
        by_cases hmem : p.1 ∈ (propertiesOf schema).keys
        · simp [hmem]
        · simp [hmem, hmore d hget p hp hmem]


/-! ### Nodes -/

/-- What a node without a union checks is what its other keywords mean. -/
lemma check_iff_rest (hw : WellFormedNode schema) (h : NodeOk checks schema value)
    (hunion : alternatives schema = none)
    {check : JsonValue φ → JsonValue φ → Bool} {accepts : JsonValue φ → JsonValue φ → Prop}
    (hbool : ∀ b v, accepts (.bool b) v ↔ b = true)
    (hitems : ∀ items s, value = .arr items → schema.get? "items" = some s →
      ∀ v ∈ items, (check s v ↔ accepts s v))
    (hprops : ∀ fields props, value = .obj fields →
      schema.get? "properties" = some (.obj props) → ∀ p ∈ props, ∀ v,
        Dict.get? fields p.1 = some v → (check p.2 v ↔ accepts p.2 v))
    (hmore : ∀ fields d, value = .obj fields →
      schema.get? "additionalProperties" = some (.obj d) → ∀ p ∈ fields,
        p.1 ∉ (propertiesOf schema).keys → (check (.obj d) p.2 ↔ accepts (.obj d) p.2)) :
    (checkType schema value && checkContent (pyKeywords checks) check schema value) ↔
      Rest checks accepts schema value := by
  have htype := checkType_iff hw h hunion
  have hasserts := checkAssertions_iff_asserts hw h hunion
  -- the value is null, a list, a dict, or something with assertions only
  have hscalar (hcontent : checkContent (pyKeywords checks) check schema value ↔
        ∀ keyword bound, schema.get? keyword = some bound →
          Asserts checks keyword bound value)
      (harr : ∀ items, value ≠ .arr items) (hobj : ∀ fields, value ≠ .obj fields) :
      (checkType schema value && checkContent (pyKeywords checks) check schema value) ↔
        Rest checks accepts schema value := by
    rw [Bool.and_eq_true, htype, hcontent]
    constructor
    · rintro ⟨⟨hname, hnames⟩, hall⟩
      exact ⟨hname, hnames, hall, fun items _ hv => absurd hv (harr items),
        fun fields _ hv => absurd hv (hobj fields), fun fields _ hv => absurd hv (hobj fields),
        fun fields _ hv => absurd hv (hobj fields)⟩
    · intro hrest
      exact ⟨⟨hrest.type, hrest.types⟩, hrest.asserts⟩
  cases value with
  | null =>
    refine hscalar ?_ (by simp) (by simp)
    simp [checkContent, Asserts, number]
  | float x =>
    refine hscalar ?_ (by simp) (by simp)
    rw [checkContent, ExactFloats.finite, Bool.and_true, hasserts]
  | arr items =>
    have hlist := checkItems_iff_meant hw fun s hs => hitems items s rfl hs
    rw [Bool.and_eq_true, checkContent, Bool.and_eq_true, htype, hasserts, hlist]
    constructor
    · rintro ⟨⟨hname, hnames⟩, hall, heach⟩
      refine ⟨hname, hnames, hall, ?_, by simp, by simp, by simp⟩
      rintro _ s ⟨⟩ hs
      exact heach s hs
    · intro hrest
      exact ⟨⟨hrest.type, hrest.types⟩, hrest.asserts, fun s => hrest.items items s rfl⟩
  | obj fields =>
    have hdict := checkFields_iff_meant hw hbool (fun props => hprops fields props rfl)
      fun d => hmore fields d rfl
    rw [Bool.and_eq_true, checkContent, Bool.and_eq_true, htype, hasserts, hdict]
    constructor
    · rintro ⟨⟨hname, hnames⟩, hall, hreq, heach, hother⟩
      refine ⟨hname, hnames, hall, by simp, ?_, ?_, ?_⟩
      · rintro _ names ⟨⟩
        exact hreq names
      · rintro _ props ⟨⟩
        exact heach props
      · rintro _ s ⟨⟩
        exact hother s
    · intro hrest
      exact ⟨⟨hrest.type, hrest.types⟩, hrest.asserts, fun names => hrest.required fields names rfl,
        fun props => hrest.properties fields props rfl, fun s => hrest.additional fields s rfl⟩
  | bool b => exact hscalar hasserts (by simp) (by simp)
  | int n => exact hscalar hasserts (by simp) (by simp)
  | str s => exact hscalar hasserts (by simp) (by simp)

/-- Exactly one item of a list has the property. -/
lemma countP_eq_one_iff {α : Type} {p : α → Bool} {l : List α} :
    l.countP p = 1 ↔
      ∃ before a after, l = before ++ a :: after ∧ p a ∧ ∀ b ∈ before ++ after, ¬ p b := by
  constructor
  · intro hcount
    have hpos : 0 < l.countP p := by omega
    obtain ⟨a, hmem, ha⟩ := List.countP_pos_iff.1 hpos
    obtain ⟨before, after, rfl⟩ := List.append_of_mem hmem
    refine ⟨before, a, after, rfl, ha, ?_⟩
    rw [← List.countP_eq_zero]
    simp only [List.countP_append, List.countP_cons, ha, if_true] at hcount ⊢
    omega
  · rintro ⟨before, a, after, rfl, ha, hothers⟩
    have hzero := List.countP_eq_zero.2 hothers
    simp only [List.countP_append, List.countP_cons, ha, if_true] at hzero ⊢
    omega

/-- A node has no union, a list of alternatives, or a list of which one is to match. -/
inductive Union (schema : Dict (JsonValue φ)) : Option (List (JsonValue φ)) → Prop
  | none (anyOf : schema.get? "anyOf" = .none) (oneOf : schema.get? "oneOf" = .none) :
      Union schema .none
  | anyOf {bs : List (JsonValue φ)} (anyOf : schema.get? "anyOf" = some (.arr bs))
      (oneOf : schema.get? "oneOf" = .none) : Union schema (some bs)
  | oneOf {bs : List (JsonValue φ)} (anyOf : schema.get? "anyOf" = .none)
      (oneOf : schema.get? "oneOf" = some (.arr bs)) : Union schema (some bs)

lemma union_alternatives (hw : WellFormedNode schema)
    (hone : schema.get? "anyOf" = none ∨ schema.get? "oneOf" = none) :
    Union schema (alternatives schema) := by
  rw [alternatives]
  cases hany : schema.get? "anyOf" with
  | none =>
    cases hexactly : schema.get? "oneOf" with
    | none => exact .none hany hexactly
    | some v =>
      obtain ⟨b, bs, rfl⟩ := hw.oneOf v hexactly
      exact .oneOf hany hexactly
  | some v =>
    obtain ⟨b, bs, rfl⟩ := hw.anyOf v hany
    exact .anyOf hany (hone.resolve_left (by simp [hany]))

/-- What the keywords of a node mean, by the union it has. -/
lemma conforms_iff {accepts : JsonValue φ → JsonValue φ → Prop} :
    Conforms checks accepts schema value ↔
      ((∀ c, schema.get? "const" = some c → jsonEqual value c) ∧
        ∀ cs, schema.get? "enum" = some (.arr cs) → ∃ c ∈ cs, jsonEqual value c) ∧
      ((∀ bs, schema.get? "anyOf" = some (.arr bs) → ∃ b ∈ bs, accepts b value) ∧
        ∀ bs, schema.get? "oneOf" = some (.arr bs) →
          ∃ before b after, bs = before ++ b :: after ∧ accepts b value ∧
            ∀ b' ∈ before ++ after, ¬ accepts b' value) ∧
      Rest checks accepts schema value :=
  ⟨fun h => ⟨⟨h.const, h.enum⟩, ⟨h.anyOf, h.oneOf⟩, h.rest⟩,
    fun ⟨⟨hconst, henum⟩, ⟨hany, hone⟩, hrest⟩ => ⟨hconst, henum, hany, hone, hrest⟩⟩

/-- A node is checked as it is meant where its parts are. -/
lemma checkNode_iff (hw : WellFormedNode schema) (h : NodeOk checks schema value)
    (hbranches : ∀ bs, alternatives schema = some bs → ∀ b ∈ bs,
      (validateSchemaValue (pyKeywords checks) b value ↔ Accepts checks b value))
    (hrest : alternatives schema = none →
      ((checkType schema value && checkContent (pyKeywords checks)
        (validateSchemaValue (pyKeywords checks)) schema value) ↔
          Rest checks (Accepts checks) schema value)) :
    checkNode (pyKeywords checks) (validateSchemaValue (pyKeywords checks)) schema value ↔
      Conforms checks (Accepts checks) schema value := by
  rw [conforms_iff, checkNode, Bool.and_eq_true, Bool.and_eq_true, checkConst_iff h,
    checkEnum_iff hw h]
  refine and_congr Iff.rfl ?_
  have hbeside := h.beside
  have hunion := union_alternatives hw h.one
  generalize halts : alternatives schema = alts at hunion hbranches hrest hbeside
  cases hunion with
  | none hany hone => simpa [hany, hone] using hrest rfl
  | @anyOf bs hany hone =>
    have hiff : bs.any (validateSchemaValue (pyKeywords checks) · value) ↔
        ∃ b ∈ bs, Accepts checks b value := by
      rw [List.any_eq_true]
      exact exists_congr fun b => and_congr_right fun hb => hbranches bs rfl b hb
    simp only [hany, hone, Option.isSome_none, Bool.false_eq_true, if_false, hiff,
      Option.some.injEq, JsonValue.arr.injEq, forall_eq', reduceCtorEq, IsEmpty.forall_iff,
      implies_true, and_true]
    exact (and_iff_left_of_imp (hbeside bs rfl)).symm
  | @oneOf bs hany hone =>
    have hiff : bs.countP (validateSchemaValue (pyKeywords checks) · value) = 1 ↔
        ∃ before b after, bs = before ++ b :: after ∧ Accepts checks b value ∧
          ∀ b' ∈ before ++ after, ¬ Accepts checks b' value := by
      rw [countP_eq_one_iff]
      refine exists_congr fun before => exists_congr fun b => exists_congr fun after =>
        and_congr_right fun hsplit => ?_
      have hmem : ∀ b' ∈ before ++ b :: after,
          (validateSchemaValue (pyKeywords checks) b' value ↔ Accepts checks b' value) :=
        fun b' hb' => hbranches bs rfl b' (hsplit ▸ hb')
      refine and_congr (hmem b (by simp)) (forall₂_congr fun b' hb' => not_congr (hmem b' ?_))
      rw [List.mem_append] at hb'
      rw [List.mem_append, List.mem_cons]
      tauto
    simp only [hany, hone, Option.isSome_some, if_true, decide_eq_true_eq, hiff,
      Option.some.injEq, JsonValue.arr.injEq, forall_eq', reduceCtorEq, IsEmpty.forall_iff,
      implies_true, true_and]
    refine (and_iff_left_of_imp ?_).symm
    rintro ⟨before, b, after, rfl, hb, -⟩
    exact hbeside _ rfl ⟨b, by simp, hb⟩

/-- Floats without a fraction. -/
structure Whole where
  value : Int

instance : ExactFloats Whole where
  nan := ⟨0⟩
  infinity := ⟨0⟩
  negInfinity := ⟨0⟩
  isFinite _ := true
  text x := intText x.value ++ Text.ofString ".0"
  ofToken t :=
    let (sign, t) := readSign [minus] t
    ⟨if sign = [] then digitsValue (digitsOf t).1 else -(digitsValue (digitsOf t).1)⟩
  rat x := x.value
  finite _ := rfl

/-- Every pattern is found, every text has every format. -/
def anyText : StringChecks Whole where
  searches _ _ := true
  hasFormat _ _ := true
  str _ := []

/-- `{"type": "string", "minLength": 2}` -/
def shortText : Dict (JsonValue Whole) := [("type", .str "string"), ("minLength", .int 2)]

lemma shortText_wellFormed : WellFormed (.obj shortText) := by
  refine .node ⟨by decide, ?_, ?_, ?_, ?_, ?_, ?_, ?_, ?_, ?_⟩ ?_ ?_ ?_ ?_ ?_
  case refine_5 =>
    intro keyword bound hget
    have hmem := Dict.mem_of_get? hget
    simp only [shortText, List.mem_cons, Prod.mk.injEq, List.not_mem_nil, or_false] at hmem
    rcases hmem with ⟨rfl, rfl⟩ | ⟨rfl, rfl⟩
    · constructor <;> simp
    · constructor <;> simp [number]
      exact ⟨2, rfl⟩
  case refine_4 =>
    rintro v ⟨⟩
    exact .inl ⟨_, by decide, rfl⟩
  all_goals
    intro v hget
    cases hget

lemma shortText_asMeant (s : Text) : AsMeant anyText (.obj shortText) (.str s) := by
  have hunion : alternatives shortText = none := rfl
  refine .node ⟨?_, .inl rfl, ?_, by simp, by simp [number], by simp⟩ ?_ (by simp) (by simp) (by simp)
  · rintro c (hc | ⟨cs, hcs, -⟩) -
    · cases hc
    · cases hcs
  · simp [hunion]
  · simp [hunion]

/-- `{"anyOf": [{"type": "string"}], "minLength": 2}` -/
def shortUnion : Dict (JsonValue Whole) :=
  [("anyOf", .arr [.obj [("type", .str "string")]]), ("minLength", .int 2)]

/-- `{"const": [true]}` -/
def truthInside : Dict (JsonValue Whole) := [("const", .arr [.bool true])]

/-- `{"type": "integer"}` -/
def wholeNumber : Dict (JsonValue Whole) := [("type", .str "integer")]

end RentCompass.Tools
