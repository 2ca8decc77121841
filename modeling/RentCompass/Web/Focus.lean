import RentCompass.Scraping.ListingCache
import Mathlib.Data.List.ReduceOption

/-!
# The listing a card is about

A card sends an address, a price and a URL. The URL identifies a listing; the address does not, as
listings of one street often share it. The card is resolved among the results of the session, then
among all listings recommended so far, then among the demo rows.
-/

namespace RentCompass.Web

open Scraping

/-- The values of records and payloads. -/
class FieldValue (V : Type) extends RowValue V where
  /-- `None` -/
  null : V
  isNull : V → Bool
  ofText : Text → V
  /-- The text, of a `str`. -/
  text? : V → Option Text

section

variable {V : Type} [FieldValue V]

/-- `row.get(name)` -/
def valueOf (row : Row V) (name : String) : V := (row.field name).getD FieldValue.null

/-- `row.get(name, '')` -/
def valueOrEmpty (row : Row V) (name : String) : V := (row.field name).getD (FieldValue.ofText [])

/-- `a or b` -/
def orElse (a b : V) : V := if RowValue.truthy a then a else b

/-- `ctx[name] = value` -/
def setField (ctx : Row V) (name : String) (value : V) : Row V :=
  ctx.insert (Text.ofString name) value

/-- `if condition: ctx[name] = value` -/
def setFieldIf (condition : Bool) (ctx : Row V) (name : String) (value : V) : Row V :=
  if condition then setField ctx name value else ctx

end

/-- `str.lower` and `\d`. -/
structure Characters where
  lower : Text → Text
  isDigit : Nat → Bool

variable {V : Type} [FieldValue V] (chars : Characters)

/-! ### Keys -/

/-- `_listing_url_key` -/
def listingUrlKey (url : V) : Text :=
  trimSlash (chars.lower (if RowValue.truthy url then RowValue.str url else []).strip)

/-- `_listing_price_key` -/
def listingPriceKey (price : V) : Text :=
  (if FieldValue.isNull price then [] else RowValue.str price).filter chars.isDigit

/-- `str(row.get(field) or '').lower().strip()` -/
def addressKey (row : Row V) (field : String) : Text := (chars.lower (row.text field)).strip

/-- The names a list keeps the address, the URL and the price under. -/
structure FieldNames where
  address : String
  url : String
  price : String

def FieldNames.record : FieldNames := ⟨"address", "url", "price"⟩

def FieldNames.csv : FieldNames := ⟨"Address", "URL", "Price"⟩

/-- The keys of a payload. -/
structure FocusKeys where
  address : Text
  url : Text
  price : Text
deriving DecidableEq

/-- The URL key of a record. -/
def FieldNames.urlKey (fields : FieldNames) (row : Row V) : Text :=
  listingUrlKey chars (valueOf row fields.url)

/-! ### Matching by address -/

/-- The records of the address, which have the URL or none where the payload has one. -/
def sameAddress (fields : FieldNames) (keys : FocusKeys) (rows : List (Option (Row V))) :
    List (Row V) :=
  let cands := rows.reduceOption.filter fun r => addressKey chars r fields.address = keys.address
  if keys.url = [] then cands
  else cands.filter fun r => fields.urlKey chars r = [] ∨ fields.urlKey chars r = keys.url

/-- Those of the price, where several are left and some are of the price. -/
def narrowByPrice (fields : FieldNames) (keys : FocusKeys) (cands : List (Row V)) :
    List (Row V) :=
  let priced := cands.filter fun r =>
    listingPriceKey chars (valueOf r fields.price) = keys.price
  if 1 < cands.length ∧ keys.price ≠ [] ∧ priced ≠ [] then priced else cands

/-- The records that may be meant. -/
def candidates (fields : FieldNames) (keys : FocusKeys) (rows : List (Option (Row V))) :
    List (Row V) :=
  narrowByPrice chars fields keys (sameAddress chars fields keys rows)

/-- `_match_listing_by_address` -/
def matchListingByAddress (fields : FieldNames) (keys : FocusKeys)
    (rows : List (Option (Row V))) : Option (Row V) × Bool :=
  if keys.address = [] then (none, false)
  else
    match candidates chars fields keys rows with
    | [] => (none, false)
    | cand :: cands =>
      if cands.all fun r => fields.urlKey chars r = fields.urlKey chars cand then
        (some cand, false)
      else (none, true)

/-! ### Resolving -/

/-- Where the record was found. -/
inductive FocusSource where
  | session
  | registryAndCache
  | registry
  | csv
  | ambiguous
  | scalar
deriving DecidableEq

/-- The lists a card is resolved in, and the cache the full records are in. -/
structure FocusLists (V : Type) where
  lastResults : List (Option (Row V))
  registry : List (Option (Row V))
  cache : Option (Cache V)
  csvProperties : List (Option (Row V))

/-- The keys of a payload; none where its address is not a text. -/
def focusKeys (payload : Row V) : Option FocusKeys :=
  (FieldValue.text? (orElse (valueOf payload "address") (FieldValue.ofText []))).map fun address =>
    ⟨(chars.lower address).strip, listingUrlKey chars (valueOf payload "url"),
      listingPriceKey chars (valueOf payload "price")⟩

/-- The scalars of the payload. -/
def scalarContext (payload : Row V) : Row V :=
  setField (setField (setField [] "property_address"
    (orElse (valueOf payload "address") (FieldValue.ofText [])))
    "property_price" (valueOf payload "price"))
    "property_travel_time" (valueOf payload "travel_time")

/-- The address, the price and the travel time of a record over those of the payload. -/
def recordScalars (payload hit : Row V) : Row V :=
  let ctx := scalarContext payload
  let ctx := setField ctx "property_address"
    (orElse (valueOf hit "address") (orElse (valueOf payload "address") (FieldValue.ofText [])))
  let ctx := setFieldIf (!FieldValue.isNull (valueOf hit "price")) ctx "property_price"
    (valueOf hit "price")
  setFieldIf (!FieldValue.isNull (valueOf hit "travel_time")) ctx "property_travel_time"
    (valueOf hit "travel_time")

/-- The context of a record of the session. -/
def sessionContext (payload hit : Row V) : Row V :=
  let empty : V := FieldValue.ofText []
  let ctx := recordScalars payload hit
  let ctx := setField ctx "property_url" (orElse (valueOf hit "url") empty)
  let ctx := setField ctx "description" (orElse (valueOf hit "description") empty)
  let ctx := setField ctx "available_from" (orElse (valueOf hit "available_from") empty)
  let ctx := setField ctx "availability_status" (orElse (valueOf hit "availability_status") empty)
  let ctx := setField ctx "bedrooms" (valueOf hit "bedrooms")
  let ctx := setField ctx "property_type" (valueOf hit "property_type")
  let ctx := setField ctx "area" (valueOf hit "area")
  let ctx := setField ctx "budget_status" (orElse (valueOf hit "budget_status") empty)
  setFieldIf (hit.states "geo_location") ctx "geo_location" (valueOf hit "geo_location")

/-- The URL of a record of the registry, or else of the payload. -/
def registryUrl (payload hit : Row V) : V :=
  orElse (valueOf hit "url") (orElse (valueOf payload "url") (FieldValue.ofText []))

/-- The context of a record of the registry, without what the cache holds of it. -/
def registryContext (payload hit : Row V) : Row V :=
  let ctx := setField (recordScalars payload hit) "property_url" (registryUrl payload hit)
  let ctx := setFieldIf (hit.states "area") ctx "area" (valueOf hit "area")
  setFieldIf (hit.states "available_from") ctx "available_from" (valueOf hit "available_from")

/-- The cached record of the URL. -/
def cachedRecord (cache : Option (Cache V)) (url : V) : Option (Row V) :=
  cache.bind fun cache =>
    if RowValue.truthy url then findCachedListingByUrl cache (RowValue.str url) else none

/-- The fields a demo row and a cached record are read for. -/
def richContext (ctx full : Row V) : Row V :=
  let ctx := setField ctx "room_type" (valueOrEmpty full "Room_Type_Category")
  let ctx := setField ctx "amenities" (valueOrEmpty full "Detailed_Amenities")
  let ctx := setField ctx "guest_policy" (valueOrEmpty full "Guest_Policy")
  let ctx := setField ctx "payment_rules" (valueOrEmpty full "Payment_Rules")
  setField ctx "excluded_features" (valueOrEmpty full "Excluded_Features")

/-- The context of a record of the registry, filled from its cached record. -/
def cachedContext (ctx full : Row V) : Row V :=
  let price := valueOf full "Price"
  let ctx := setFieldIf (full.states "Address") ctx "property_address" (valueOf full "Address")
  let ctx := setFieldIf (!FieldValue.isNull price && FieldValue.text? price ≠ some []) ctx
    "property_price" price
  let ctx := setField ctx "description"
    (orElse (valueOf full "Description") (orElse (valueOf ctx "description") (FieldValue.ofText [])))
  let ctx := richContext ctx full
  let ctx := setFieldIf (full.states "URL") ctx "property_url" (valueOf full "URL")
  let ctx := setFieldIf (full.states "Available From") ctx "available_from"
    (valueOf full "Available From")
  setFieldIf (full.states "geo_location") ctx "geo_location" (valueOf full "geo_location")

/-- The context of a demo row. -/
def csvContext (payload hit : Row V) : Row V :=
  let ctx := richContext (scalarContext payload) hit
  let ctx := setField ctx "description" (valueOrEmpty hit "Description")
  let ctx := setField ctx "enhanced_description" (valueOrEmpty hit "Enhanced_Description")
  setField ctx "property_url" (valueOrEmpty hit "URL")

/-- A record of the URL, or else one that matches by its address. -/
def matchRecord (keys : FocusKeys) (rows : List (Option (Row V))) : Option (Row V) × Bool :=
  let byUrl := if keys.url = [] then none
    else rows.reduceOption.find? fun r => FieldNames.record.urlKey chars r = keys.url
  match byUrl with
  | some hit => (some hit, false)
  | none => matchListingByAddress chars .record keys rows

/-- `_resolve_focus_listing`; none where the address of the payload is not a text. -/
def resolveFocusListing (payload : Option (Row V)) (lists : FocusLists V) :
    Option (Row V × FocusSource) :=
  let payload := payload.getD []
  (focusKeys chars payload).map fun keys =>
    let session := matchRecord chars keys lists.lastResults
    match session.1 with
    | some hit => (sessionContext payload hit, .session)
    | none =>
      let registry := matchRecord chars keys lists.registry
      match registry.1 with
      | some hit =>
        let ctx := registryContext payload hit
        match cachedRecord lists.cache (registryUrl payload hit) with
        | some full => (cachedContext ctx full, .registryAndCache)
        | none => (ctx, .registry)
      | none =>
        let csv := matchListingByAddress chars .csv keys lists.csvProperties
        match csv.1 with
        | some hit => (csvContext payload hit, .csv)
        | none =>
          (scalarContext payload, if session.2 || registry.2 || csv.2 then .ambiguous else .scalar)

/-! ### What is bound -/

variable {chars} {fields : FieldNames} {keys : FocusKeys} {rows : List (Option (Row V))}
  {hit : Row V}

/-- The record is the payload's: by its URL, or by its address where one of them has no URL. -/
def FocusKeys.Names (chars : Characters) (fields : FieldNames) (keys : FocusKeys) (row : Row V) :
    Prop :=
  fields.urlKey chars row = keys.url ∨
    ((fields.urlKey chars row = [] ∨ keys.url = []) ∧
      addressKey chars row fields.address = keys.address)

/-- The records that may be meant are of two listings. -/
def TwoListings (chars : Characters) (keys : FocusKeys) (rows : List (Option (Row V))) : Prop :=
  ∃ r ∈ candidates chars .record keys rows, ∃ r' ∈ candidates chars .record keys rows,
    FieldNames.record.urlKey chars r ≠ [] ∧ FieldNames.record.urlKey chars r' ≠ [] ∧
      FieldNames.record.urlKey chars r ≠ FieldNames.record.urlKey chars r'

lemma mem_narrowByPrice {cands : List (Row V)}
    (h : hit ∈ narrowByPrice chars fields keys cands) : hit ∈ cands := by
  rw [narrowByPrice] at h
  split at h
  · exact List.mem_of_mem_filter h
  · exact h

lemma mem_candidates (h : hit ∈ candidates chars fields keys rows) :
    some hit ∈ rows ∧ keys.Names chars fields hit := by
  have hsame := mem_narrowByPrice h
  have haddress : hit ∈ rows.reduceOption.filter
        (fun r => addressKey chars r fields.address = keys.address) →
      some hit ∈ rows ∧ addressKey chars hit fields.address = keys.address := by
    simp [List.mem_filter, List.reduceOption_mem_iff]
  rw [sameAddress] at hsame
  split at hsame
  · next hurl =>
    obtain ⟨hmem, haddr⟩ := haddress hsame
    exact ⟨hmem, .inr ⟨.inr hurl, haddr⟩⟩
  · obtain ⟨hsame, hurl⟩ := List.mem_filter.1 hsame
    obtain ⟨hmem, haddr⟩ := haddress hsame
    rcases of_decide_eq_true hurl with hurl | hurl
    · exact ⟨hmem, .inr ⟨.inl hurl, haddr⟩⟩
    · exact ⟨hmem, .inl hurl⟩

/-- A match by address is a record that may be meant, and was not a choice between two. -/
lemma matchListingByAddress_spec (h : (matchListingByAddress chars fields keys rows).1 = some hit) :
    (some hit ∈ rows ∧ keys.Names chars fields hit) ∧
      (matchListingByAddress chars fields keys rows).2 = false := by
  rw [matchListingByAddress] at h ⊢
  split at h
  · cases h
  · next haddr =>
    rw [if_neg haddr]
    cases hcands : candidates chars fields keys rows with
    | nil =>
      rw [hcands] at h
      cases h
    | cons cand cands =>
      rw [hcands] at h
      dsimp only at h ⊢
      split at h
      · next hall =>
        rw [if_pos hall]
        cases h
        exact ⟨mem_candidates (hcands ▸ List.mem_cons_self), rfl⟩
      · cases h

/-- Between two listings there is no match by address. -/
lemma matchListingByAddress_of_two (haddr : keys.address ≠ []) (h : TwoListings chars keys rows) :
    matchListingByAddress chars .record keys rows = (none, true) := by
  obtain ⟨r, hr, r', hr', -, -, hne⟩ := h
  rw [matchListingByAddress, if_neg haddr]
  cases hcands : candidates chars .record keys rows with
  | nil =>
    rw [hcands] at hr
    cases hr
  | cons cand cands =>
    rw [hcands] at hr hr'
    dsimp only
    refine if_neg fun hall => hne ?_
    -- both would have the URL of the first
    have hsame (row : Row V) (hrow : row ∈ cand :: cands) :
        FieldNames.record.urlKey chars row = FieldNames.record.urlKey chars cand := by
      rcases List.mem_cons.1 hrow with rfl | hrow
      · rfl
      · exact of_decide_eq_true (List.all_eq_true.1 hall row hrow)
    exact (hsame r hr).trans (hsame r' hr').symm

lemma matchRecord_of_no_url (hurl : keys.url = []) (rows : List (Option (Row V))) :
    matchRecord chars keys rows = matchListingByAddress chars .record keys rows := by
  rw [matchRecord, if_pos hurl]

lemma matchRecord_spec (h : (matchRecord chars keys rows).1 = some hit) :
    some hit ∈ rows ∧ keys.Names chars .record hit := by
  rw [matchRecord] at h
  split at h
  · next byUrl found hfound =>
    cases h
    split at hfound
    · cases hfound
    · exact ⟨List.reduceOption_mem_iff.1 (List.mem_of_find?_eq_some hfound),
        .inl (by simpa using List.find?_some hfound)⟩
  · exact (matchListingByAddress_spec h).1

lemma cachedRecord_spec {cache : Option (Cache V)} {url : V} {full : Row V}
    (h : cachedRecord cache url = some full) :
    ∃ held ∈ cache, full ∈ iterCachedListings held ∧
      full.key = trimSlash (RowValue.str url).strip := by
  obtain ⟨held, hcache, hfull⟩ := Option.bind_eq_some_iff.1 h
  split at hfull
  · rw [findCachedListingByUrl] at hfull
    split at hfull
    · cases hfull
    · refine ⟨held, hcache, List.mem_of_find?_eq_some hfull, ?_⟩
      have hkey := List.find?_some hfull
      simp only [decide_eq_true_eq] at hkey
      exact hkey.2
  · cases hfull

/-- The context is that of a record the payload names; a cached record is that of the URL. -/
def Binds (chars : Characters) (keys : FocusKeys) (payload : Row V) (lists : FocusLists V)
    (ctx : Row V) : FocusSource → Prop
  | .session => ∃ hit, some hit ∈ lists.lastResults ∧ keys.Names chars .record hit ∧
      ctx = sessionContext payload hit
  | .registry => ∃ hit, some hit ∈ lists.registry ∧ keys.Names chars .record hit ∧
      ctx = registryContext payload hit
  | .registryAndCache => ∃ hit, some hit ∈ lists.registry ∧ keys.Names chars .record hit ∧
      ∃ cache ∈ lists.cache, ∃ full ∈ iterCachedListings cache,
        full.key = trimSlash (RowValue.str (registryUrl payload hit)).strip ∧
          ctx = cachedContext (registryContext payload hit) full
  | .csv => ∃ hit, some hit ∈ lists.csvProperties ∧ keys.Names chars .csv hit ∧
      ctx = csvContext payload hit
  | .ambiguous | .scalar => ctx = scalarContext payload

/-- A card is bound to records it names only, and to none where there are two to choose from. -/
def NeverGuesses (chars : Characters) (payload : Option (Row V)) (lists : FocusLists V) : Prop :=
  ∀ keys ctx source, focusKeys chars (payload.getD []) = some keys →
    resolveFocusListing chars payload lists = some (ctx, source) →
    Binds chars keys (payload.getD []) lists ctx source ∧
      (keys.url = [] → keys.address ≠ [] →
        TwoListings chars keys lists.lastResults ∨ TwoListings chars keys lists.registry →
        source = .ambiguous ∧ ctx = scalarContext (payload.getD []))

/-- Where there are two to choose from, no list has a match by address. -/
def NoListMatches (chars : Characters) (payload : Option (Row V)) (lists : FocusLists V) : Prop :=
  ∀ keys, focusKeys chars (payload.getD []) = some keys → keys.url = [] → keys.address ≠ [] →
    TwoListings chars keys lists.lastResults ∨ TwoListings chars keys lists.registry →
    (matchListingByAddress chars .record keys lists.lastResults).1 = none ∧
      (matchListingByAddress chars .record keys lists.registry).1 = none ∧
      (matchListingByAddress chars .csv keys lists.csvProperties).1 = none

/-- A card is bound to records it names, whatever the lists hold. -/
theorem resolveFocusListing_binds {payload : Option (Row V)} {lists : FocusLists V} {ctx : Row V}
    {source : FocusSource} (hkeys : focusKeys chars (payload.getD []) = some keys)
    (h : resolveFocusListing chars payload lists = some (ctx, source)) :
    Binds chars keys (payload.getD []) lists ctx source := by
  rw [resolveFocusListing] at h
  simp only [hkeys, Option.map_some, Option.some.injEq] at h
  split at h
  · next hit hsession =>
    cases h
    obtain ⟨hmem, hnames⟩ := matchRecord_spec hsession
    exact ⟨hit, hmem, hnames, rfl⟩
  split at h
  · next hit hregistry =>
    obtain ⟨hmem, hnames⟩ := matchRecord_spec hregistry
    split at h
    · next full hfull =>
      cases h
      obtain ⟨cache, hcache, hheld, hkey⟩ := cachedRecord_spec hfull
      exact ⟨hit, hmem, hnames, cache, hcache, full, hheld, hkey, rfl⟩
    · cases h
      exact ⟨hit, hmem, hnames, rfl⟩
  split at h
  · next hit hcsv =>
    cases h
    obtain ⟨⟨hmem, hnames⟩, -⟩ := matchListingByAddress_spec hcsv
    exact ⟨hit, hmem, hnames, rfl⟩
  · split at h <;> cases h <;> rfl

/-- Where no list has a match by address, an ambiguity in one of them is reported. -/
lemma resolve_of_no_match {payload : Option (Row V)} {lists : FocusLists V}
    (hkeys : focusKeys chars (payload.getD []) = some keys) (hurl : keys.url = [])
    (hsession : (matchListingByAddress chars .record keys lists.lastResults).1 = none)
    (hregistry : (matchListingByAddress chars .record keys lists.registry).1 = none)
    (hcsv : (matchListingByAddress chars .csv keys lists.csvProperties).1 = none)
    (htwo : (matchListingByAddress chars .record keys lists.lastResults).2 ∨
      (matchListingByAddress chars .record keys lists.registry).2) :
    resolveFocusListing chars payload lists =
      some (scalarContext (payload.getD []), .ambiguous) := by
  have hambiguous : ((matchListingByAddress chars .record keys lists.lastResults).2 ||
      (matchListingByAddress chars .record keys lists.registry).2 ||
      (matchListingByAddress chars .csv keys lists.csvProperties).2) = true := by
    rw [Bool.or_eq_true, Bool.or_eq_true]
    exact .inl htwo
  simp only [resolveFocusListing, hkeys, Option.map_some, matchRecord_of_no_url hurl, hsession,
    hregistry, hcsv, hambiguous, if_true]

/-- A card is never bound by a guess just if no list has a match where another has two. -/
theorem focus_resolution_never_guesses_iff (chars : Characters) (payload : Option (Row V))
    (lists : FocusLists V) :
    NeverGuesses chars payload lists ↔ NoListMatches chars payload lists := by
  constructor
  · intro h keys hkeys hurl haddr htwo
    obtain ⟨⟨ctx, source⟩, hresolved⟩ : ∃ result, resolveFocusListing chars payload lists =
        some result := ⟨_, by rw [resolveFocusListing, hkeys, Option.map_some]⟩
    obtain ⟨hsource, -⟩ := (h keys ctx source hkeys hresolved).2 hurl haddr htwo
    rw [hsource, resolveFocusListing] at hresolved
    simp only [hkeys, Option.map_some, Option.some.injEq, matchRecord_of_no_url hurl] at hresolved
    split at hresolved
    · cases hresolved
    next hsession =>
    split at hresolved
    · split at hresolved <;> cases hresolved
    next hregistry =>
    split at hresolved
    · cases hresolved
    next hcsv => exact ⟨hsession, hregistry, hcsv⟩
  · intro h keys ctx source hkeys hresolved
    refine ⟨resolveFocusListing_binds hkeys hresolved, fun hurl haddr htwo => ?_⟩
    obtain ⟨hsession, hregistry, hcsv⟩ := h keys hkeys hurl haddr htwo
    have hambiguous := resolve_of_no_match hkeys hurl hsession hregistry hcsv (htwo.imp
      (fun h => by rw [matchListingByAddress_of_two haddr h])
      (fun h => by rw [matchListingByAddress_of_two haddr h]))
    rw [hambiguous] at hresolved
    cases hresolved
    exact ⟨rfl, rfl⟩

/-! ### An ambiguity that the registry hides -/

/-- The values of records of texts. -/
instance : FieldValue (Option Text) where
  truthy v := v.any (· ≠ [])
  str v := v.getD (Text.ofString "None")
  eq v w := v = w
  parsePrice _ := none
  namesStudio _ := false
  bedsNamed _ := none
  null := none
  isNull v := v.isNone
  ofText t := some t
  text? v := v

def asciiCharacters : Characters where
  lower t := t.map fun c => if 65 ≤ c ∧ c ≤ 90 then c + 32 else c
  isDigit c := 48 ≤ c && c ≤ 57

/-- One of two flats of one street. -/
def marriottRoad (price url : String) : Row (Option Text) :=
  [(Text.ofString "address", some (Text.ofString "Marriott Road, London")),
   (Text.ofString "price", some (Text.ofString price)),
   (Text.ofString "url", some (Text.ofString url))]

def firstFlat : Row (Option Text) :=
  marriottRoad "£800/month" "https://www.onthemarket.com/details/17896574/"

def secondFlat : Row (Option Text) :=
  marriottRoad "£850/month" "https://www.onthemarket.com/details/17896573/"

/-- The session shows both flats, of which the first alone was recommended. -/
def marriottLists : FocusLists (Option Text) where
  lastResults := [some firstFlat, some secondFlat]
  registry := [some firstFlat]
  cache := none
  csvProperties := []

/-- The street alone. -/
def marriottPayload : Row (Option Text) :=
  [(Text.ofString "address", some (Text.ofString "Marriott Road, London"))]

/-- The two flats are told apart nowhere, and the answer is about the first. -/
theorem registry_answers_ambiguous_address :
    ¬ NeverGuesses asciiCharacters (some marriottPayload) marriottLists := by
  intro h
  have hkeys : focusKeys asciiCharacters marriottPayload =
      some ⟨Text.ofString "marriott road, london", [], []⟩ := by
    decide +kernel
  have hresolved : resolveFocusListing asciiCharacters (some marriottPayload) marriottLists =
      some (registryContext marriottPayload firstFlat, .registry) := by
    decide +kernel
  have htwo : TwoListings asciiCharacters ⟨Text.ofString "marriott road, london", [], []⟩
      marriottLists.lastResults :=
    ⟨firstFlat, by decide +kernel, secondFlat, by decide +kernel, by decide +kernel⟩
  have hsource := ((h _ _ _ hkeys hresolved).2 rfl (by decide) (.inl htwo)).1
  cases hsource

end RentCompass.Web
