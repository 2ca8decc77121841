import RentCompass.Scraping.ListingCache
import RentCompass.Runs

/-!
# Search on demand

A search serves the rows held of its area, or scrapes them; the set is cut down to the bedrooms and
prices asked for, and to the limit, and then each row takes the price its newest copy states.
-/

namespace RentCompass.Scraping

variable {V : Type} [RowValue V]

/-! ### The band -/

/-- The bedrooms and prices asked for, and how many rows are wanted. -/
structure Band where
  minBeds : Int
  maxBeds : Int
  minPrice : ℚ
  maxPrice : ℚ
  limit : Int

/-- `_row_beds` -/
def rowBeds (row : Row V) : Option Int :=
  if RowValue.namesStudio V (row.text "Room_Type_Category") then some 0
  else (RowValue.bedsNamed V (row.text "Room_Type_Category")).or
    (RowValue.bedsNamed V (row.text "Description"))

/-- `_row_price` -/
def rowPrice (row : Row V) : Option ℚ := (row.field "Price").bind RowValue.parsePrice

/-- `_in_band` -/
def inBand (band : Band) (row : Row V) : Bool :=
  (rowBeds row).all (fun beds => band.minBeds ≤ beds ∧ beds ≤ band.maxBeds) &&
    (rowPrice row).all (fun price => band.minPrice ≤ price ∧ price ≤ band.maxPrice)

/-- `_filter_band` -/
def filterBand (band : Band) (rows : List (Row V)) : List (Row V) :=
  if 0 < band.limit then (rows.filter (inBand band)).take band.limit.toNat
  else rows.filter (inBand band)

/-- `_clean`; `wrongCity` is `_wrong_city` of an address in a search of the city. -/
def clean (wrongCity : V → Bool) (rows : List (Row V)) : List (Row V) :=
  rows.filter fun row => row.states "Address" && row.states "URL" && row.states "Price" &&
    !(row.field "Address").any wrongCity

/-! ### The newest prices -/

/-- `a == b` of what two `get`s return. -/
def sameField : Option V → Option V → Bool
  | some v, some w => RowValue.eq v w
  | none, none => true
  | _, _ => false

/-- `row` with the price of the newest copy, and its date, where the price is another. -/
def reprice (newest row : Row V) : Row V :=
  if newest.states "Price" && !sameField (newest.field "Price") (row.field "Price") then
    let priced := (newest.field "Price").elim row (row.insert (Text.ofString "Price"))
    if newest.states "Available From" then
      (newest.field "Available From").elim priced (priced.insert (Text.ofString "Available From"))
    else priced
  else row

/-- One row of the loop of `_with_freshest_prices`. -/
def freshen (index : Dict (Row V)) (row : Row V) : Row V :=
  if row.key = [] then row else (index.get? row.key).elim row (reprice · row)

/-! ### The search -/

/-- `DEFAULT_PLAN` -/
def defaultPlan : Text := Text.ofString "property"

/-- `_query_key` -/
def queryKey (slug plan : Text) : Text :=
  if plan = defaultPlan then
    Text.ofString "otm|" ++ slug ++ Text.ofString "|canonical2"
  else Text.ofString "otm|" ++ slug ++ Text.ofString "|" ++ plan ++ Text.ofString "|canonical2"

/-- `TTL_HOURS`, `SHALLOW_TTL_HOURS` and the path of the cache in the temporary directory. -/
structure Settings where
  ttlHours : ℚ
  shallowTtlHours : ℚ
  fallbackPath : Text

/-- `_is_fresh_entry` -/
def isFreshEntry (settings : Settings) (now : ℚ) (entry : Option (List (Row V) × ℚ))
    (coverage : Option Coverage) : Bool :=
  entry.any fun e => (now - e.2) / 3600 <
    if coverage.any fun c => c.stoppedEarly || !c.channels then settings.shallowTtlHours
    else settings.ttlHours

/-- A call of `get_listings`: the place as `resolve_location` and `search_plan` read it. -/
structure Request (V : Type) where
  slug : Option Text
  wrongCity : V → Bool
  plan : Text
  band : Band
  forceRefresh : Bool
  cacheOnly : Bool

/-- What becomes of the call: the locks, the clock and the disk, and the `_ScrapeOutcome`. -/
structure Circumstances (V : Type) where
  /-- The lock of the area is held by others until the budget is spent. -/
  lockTimesOut : Bool
  now : ℚ
  scraped : Option (List (Row V))
  coverage : Option Coverage
  partialRows : List (Row V)
  /-- `cache.set` raises. -/
  writeFails : Bool
  /-- From the last write of a cache to the one of this call. -/
  since : Elapsed

/-- The cache files and what a process keeps: `_CACHE_PATH` and `_FRESHEST_INDEX`. -/
structure World (V : Type) where
  caches : Caches V
  path : Text
  memo : FreshestIndex V

/-- `meta["source"]` -/
inductive Source where
  | hit
  | scraped
  | staleCache
  | partialSample
  | none
deriving DecidableEq

structure Result (V : Type) where
  source : Source
  rows : List (Row V)

/-- The coverage a search starts with. -/
def defaultCoverage : Coverage := ⟨false, false⟩

/-- The set is kept, in the temporary directory where it cannot be written in its place. -/
def World.keep (settings : Settings) (w : World V) (c : Circumstances V) (key : Text)
    (rows : List (Row V)) : World V :=
  let path := if c.writeFails then settings.fallbackPath else w.path
  { w with
    caches := w.caches.write path key rows (c.coverage.or (some defaultCoverage)) c.since
    path := path }

/-- The older set of the area that stands in for a failed scrape. -/
def heldSet (cache : Cache V) (slug plan : Text) : Option (List (Row V) × ℚ) :=
  (cache.get (queryKey slug plan)).or
    (if plan = defaultPlan then none else cache.get (queryKey slug defaultPlan))

/-- `_get_listings_unlocked`, after a scrape that left no set. -/
def serveWithoutScrape (cache : Cache V) (slug : Text) (r : Request V) (c : Circumstances V) :
    Result V :=
  let held := filterBand r.band (clean r.wrongCity ((heldSet cache slug r.plan).elim [] (·.1)))
  let rest := filterBand r.band (clean r.wrongCity c.partialRows)
  if held ≠ [] then ⟨.staleCache, held⟩
  else if rest ≠ [] then ⟨.partialSample, rest⟩
  else ⟨.none, []⟩

/-- The set a scrape leaves: none where all its rows are placeholders or of another city. -/
def canonicalSet (r : Request V) (c : Circumstances V) : Option (List (Row V)) :=
  c.scraped.bind fun scraped =>
    if clean r.wrongCity scraped ≠ [] ∨ scraped = [] then some (clean r.wrongCity scraped)
    else none

/-- `_get_listings_unlocked` -/
def getListingsUnlocked (settings : Settings) (w : World V) (r : Request V)
    (c : Circumstances V) : World V × Result V :=
  match r.slug with
  | none => (w, ⟨.none, []⟩)
  | some slug =>
    let cache := w.caches.content w.path
    let key := queryKey slug r.plan
    if isFreshEntry settings c.now (cache.get key) (cache.coverage key) && !r.forceRefresh then
      (w, ⟨.hit, filterBand r.band ((cache.get key).elim [] (·.1))⟩)
    else if r.cacheOnly then (w, ⟨.none, []⟩)
    else
      match canonicalSet r c with
      | some canonical =>
        (w.keep settings c key canonical, ⟨.scraped, filterBand r.band canonical⟩)
      | none => (w, serveWithoutScrape cache slug r c)

/-- `_with_freshest_prices` -/
def withFreshestPrices (w : World V) (result : Result V) : World V × Result V :=
  if result.rows = [] then (w, result)
  else
    let memo := freshestCopyIndex w.memo w.path (w.caches.content w.path)
    ({ w with memo := memo }, { result with rows := result.rows.map (freshen memo.rows) })

/-- `get_listings` -/
def getListings (settings : Settings) (w : World V) (r : Request V) (c : Circumstances V) :
    World V × Result V :=
  if !r.cacheOnly && r.slug.isSome && c.lockTimesOut then (w, ⟨.none, []⟩)
  else
    let served := getListingsUnlocked settings w r c
    withFreshestPrices served.1 served.2

/-! ### What a search serves -/

/-- The set that is served where no scrape left one. -/
def spareSet (cache : Cache V) (slug : Text) (r : Request V) (c : Circumstances V) :
    List (Row V) :=
  let held := clean r.wrongCity ((heldSet cache slug r.plan).elim [] (·.1))
  let rest := clean r.wrongCity c.partialRows
  if held.any (inBand r.band) then held
  else if rest.any (inBand r.band) then rest
  else []

/-- The set a call serves its rows from. -/
def servedSet (settings : Settings) (w : World V) (r : Request V) (c : Circumstances V) :
    List (Row V) :=
  match r.slug with
  | none => []
  | some slug =>
    let cache := w.caches.content w.path
    let key := queryKey slug r.plan
    if !r.cacheOnly && c.lockTimesOut then []
    else if isFreshEntry settings c.now (cache.get key) (cache.coverage key) && !r.forceRefresh then
      (cache.get key).elim [] (·.1)
    else if r.cacheOnly then []
    else (canonicalSet r c).getD (spareSet cache slug r c)

/-- The world once the call has kept what it scraped. -/
def afterScrape (settings : Settings) (w : World V) (r : Request V) (c : Circumstances V) :
    World V :=
  match r.slug with
  | none => w
  | some slug =>
    let cache := w.caches.content w.path
    let key := queryKey slug r.plan
    if !r.cacheOnly && c.lockTimesOut then w
    else if isFreshEntry settings c.now (cache.get key) (cache.coverage key) && !r.forceRefresh then
      w
    else if r.cacheOnly then w
    else (canonicalSet r c).elim w (w.keep settings c key)

@[simp] lemma filterBand_nil (band : Band) : filterBand band ([] : List (Row V)) = [] := by
  simp [filterBand]

/-- The limit leaves nothing only of nothing. -/
lemma filterBand_eq_nil {band : Band} {rows : List (Row V)} :
    filterBand band rows = [] ↔ rows.any (inBand band) = false := by
  have hfilter : rows.filter (inBand band) = [] ↔ rows.any (inBand band) = false := by
    simp
  rw [← hfilter, filterBand]
  split
  · next hlimit =>
    rw [List.take_eq_nil_iff]
    constructor
    · rintro (hzero | hnil)
      · omega
      · exact hnil
    · exact .inr
  · exact Iff.rfl

lemma serveWithoutScrape_rows (cache : Cache V) (slug : Text) (r : Request V)
    (c : Circumstances V) :
    (serveWithoutScrape cache slug r c).rows = filterBand r.band (spareSet cache slug r c) := by
  rw [serveWithoutScrape, spareSet]
  by_cases hheld :
      (clean r.wrongCity ((heldSet cache slug r.plan).elim [] (·.1))).any (inBand r.band)
  · rw [if_pos hheld, if_pos (by simpa [filterBand_eq_nil] using hheld)]
  · rw [if_neg hheld, if_neg (by simpa [filterBand_eq_nil] using hheld)]
    by_cases hrest : (clean r.wrongCity c.partialRows).any (inBand r.band)
    · rw [if_pos hrest, if_pos (by simpa [filterBand_eq_nil] using hrest)]
    · rw [if_neg hrest, if_neg (by simpa [filterBand_eq_nil] using hrest), filterBand_nil]

/-- Without the lock's delay, a call cuts the served set down. -/
lemma getListingsUnlocked_spec (settings : Settings) (w : World V) (r : Request V)
    {c : Circumstances V} (hlock : (!r.cacheOnly && r.slug.isSome && c.lockTimesOut) = false) :
    (getListingsUnlocked settings w r c).1 = afterScrape settings w r c ∧
      (getListingsUnlocked settings w r c).2.rows =
        filterBand r.band (servedSet settings w r c) := by
  rw [getListingsUnlocked, afterScrape, servedSet]
  cases hslug : r.slug with
  | none => exact ⟨rfl, (filterBand_nil _).symm⟩
  | some slug =>
    have hfree : ¬ (!r.cacheOnly && c.lockTimesOut) := by
      simpa [hslug] using hlock
    dsimp only
    rw [if_neg hfree, if_neg hfree]
    split
    · exact ⟨rfl, rfl⟩
    · split
      · exact ⟨rfl, (filterBand_nil _).symm⟩
      · cases canonicalSet r c with
        | some canonical => exact ⟨rfl, rfl⟩
        | none => exact ⟨rfl, serveWithoutScrape_rows _ _ _ _⟩

/-! ### The newest copies of the rows -/

/-- The newest copy of a row's listing. -/
def Cache.newestOf (cache : Cache V) (row : Row V) : Option (Row V) :=
  if row.key = [] then none else cache.newest row.key

/-- `row` as a search shows it. -/
def Cache.shown (cache : Cache V) (row : Row V) : Row V :=
  (cache.newestOf row).elim row (reprice · row)

/-- The newest copy states a price other than the row's. -/
def Repriced (newest row : Row V) : Prop :=
  newest.states "Price" ∧ ¬ sameField (newest.field "Price") (row.field "Price")

lemma freshen_copiesByUrl {cache : Cache V}
    (htimes : Rows.Keyed (fun e : CacheEntry V => e.fetched) cache) (row : Row V) :
    freshen (copiesByUrl cache) row = cache.shown row := by
  rw [freshen, get?_copiesByUrl htimes, Cache.shown, Cache.newestOf]
  split <;> rfl

lemma afterScrape_sound (settings : Settings) {w : World V} (hmemo : w.memo.Sound w.caches)
    (r : Request V) (c : Circumstances V) :
    (afterScrape settings w r c).memo.Sound (afterScrape settings w r c).caches := by
  rw [afterScrape]
  cases r.slug with
  | none => exact hmemo
  | some slug =>
    dsimp only
    split
    · exact hmemo
    split
    · exact hmemo
    split
    · exact hmemo
    cases canonicalSet r c with
    | none => exact hmemo
    | some canonical => exact hmemo.write _ _ _ _ _

/-- While others hold the lock of the area, nothing is served and nothing is kept. -/
lemma served_of_lock (settings : Settings) (w : World V) {r : Request V} {c : Circumstances V}
    (hlock : (!r.cacheOnly && r.slug.isSome && c.lockTimesOut) = true) :
    servedSet settings w r c = [] ∧ afterScrape settings w r c = w := by
  simp only [Bool.and_eq_true, Bool.not_eq_true', Option.isSome_iff_exists] at hlock
  obtain ⟨⟨honly, slug, hslug⟩, htimeout⟩ := hlock
  constructor <;> simp [servedSet, afterScrape, hslug, honly, htimeout]

/-- What a search returns is its served set cut down, each row as it is shown. -/
theorem getListings_rows (settings : Settings) {w : World V} (hmemo : w.memo.Sound w.caches)
    (r : Request V) (c : Circumstances V) :
    (getListings settings w r c).2.rows = (filterBand r.band (servedSet settings w r c)).map
      ((afterScrape settings w r c).caches.content (afterScrape settings w r c).path).shown := by
  rw [getListings]
  split
  · next hlock =>
    rw [(served_of_lock settings w hlock).1, filterBand_nil]
    rfl
  · next hlock =>
    obtain ⟨hworld, hrows⟩ := getListingsUnlocked_spec settings w r (Bool.not_eq_true _ ▸ hlock)
    have hsound := afterScrape_sound settings hmemo r c
    dsimp only
    rw [withFreshestPrices, hrows, hworld]
    split
    · next hnil =>
      rw [hnil, List.map_nil]
      exact hrows.trans hnil
    · dsimp only
      rw [hsound.rows_eq]
      exact List.map_congr_left fun row _ => freshen_copiesByUrl (Caches.times _ _) row

/-- A search leaves the index sound. -/
theorem getListings_sound (settings : Settings) {w : World V} (hmemo : w.memo.Sound w.caches)
    (r : Request V) (c : Circumstances V) :
    (getListings settings w r c).1.memo.Sound (getListings settings w r c).1.caches := by
  rw [getListings]
  split
  · exact hmemo
  · next hlock =>
    obtain ⟨hworld, -⟩ := getListingsUnlocked_spec settings w r (Bool.not_eq_true _ ▸ hlock)
    have hsound := afterScrape_sound settings hmemo r c
    dsimp only
    rw [withFreshestPrices, hworld]
    split
    · exact hsound
    · exact hsound.freshestCopyIndex _

lemma reprice_of_not {newest row : Row V} (h : ¬ Repriced newest row) :
    reprice newest row = row := by
  rw [reprice, if_neg]
  simpa [Repriced] using h

omit [RowValue V] in
lemma field_insert (row : Row V) (name name' : String) (v : V) :
    Row.field (row.insert (Text.ofString name) v) name' =
      if name' = name then some v else row.field name' := by
  rw [Row.field, Dict.get?_insert]
  simp [Row.field]

/-- A repriced row differs in its price and its date. -/
lemma field_reprice {newest row : Row V} (h : Repriced newest row) (name : String) :
    (reprice newest row).field name =
      if name = "Price" ∨ name = "Available From" ∧ newest.states name then newest.field name
      else row.field name := by
  obtain ⟨price, hprice, -⟩ : ∃ v, newest.field "Price" = some v ∧ RowValue.truthy v :=
    (Option.any_eq_true _ _).1 h.1
  rw [reprice, if_pos (by simpa [Repriced] using h), hprice, Option.elim_some]
  by_cases hdate : newest.states "Available From"
  · obtain ⟨date, hdate', -⟩ : ∃ v, newest.field "Available From" = some v ∧ RowValue.truthy v :=
      (Option.any_eq_true _ _).1 hdate
    rw [if_pos hdate, hdate', Option.elim_some, field_insert, field_insert]
    by_cases hname : name = "Available From"
    · subst hname
      rw [if_pos rfl, if_pos (.inr ⟨rfl, hdate⟩), hdate']
    · by_cases hname' : name = "Price"
      · subst hname'
        rw [if_neg hname, if_pos rfl, if_pos (.inl rfl), hprice]
      · rw [if_neg hname, if_neg hname', if_neg (by tauto)]
  · rw [if_neg hdate, field_insert]
    by_cases hname : name = "Price"
    · subst hname
      rw [if_pos rfl, if_pos (.inl rfl), hprice]
    · rw [if_neg hname, if_neg]
      rintro (hname' | ⟨rfl, hstates⟩)
      · exact hname hname'
      · exact hdate hstates

/-! ### The rows and the details -/

/-- The band of a search without a limit. -/
def Band.unlimited (band : Band) : Band := { band with limit := 0 }

/-- The price is unknown or asked for. -/
def inPrice (band : Band) (row : Row V) : Bool :=
  (rowPrice row).all fun price => band.minPrice ≤ price ∧ price ≤ band.maxPrice

/-- The row states this as the copy does. -/
def Row.StatesAs (row copy : Row V) (name : String) : Prop :=
  row.field name = copy.field name ∨ sameField (copy.field name) (row.field name)

/-- The fields a search takes from the newest copies. -/
def shownFields : List String := ["Price", "Available From"]

/-- The newest copy of a row: the row itself, where no entry holds its listing. -/
def Cache.newestCopy (cache : Cache V) (row : Row V) : Row V := (cache.newestOf row).getD row

/-- The rows served of a set agree with the band and the details, and leave out no listing but for
the limit; `unlimited` are the rows served without a limit. -/
structure Agree (cache : Cache V) (r : Request V) (sample rows unlimited : List (Row V)) :
    Prop where
  inBand : ∀ row ∈ rows, inBand r.band row
  details : ∀ row ∈ rows, ∀ copy, findCachedListingByUrl cache row.url = some copy →
    ∀ name ∈ shownFields, copy.states name → row.StatesAs copy name
  complete : ∀ row ∈ clean r.wrongCity sample, Scraping.inBand r.band (cache.newestCopy row) →
    (∃ served ∈ rows, served.key = row.key) ∨
      (0 < r.band.limit ∧ rows.length = r.band.limit.toNat ∧
        ∃ served ∈ unlimited, served.key = row.key)

/-- When the rows served of a set agree with the band and the details. -/
structure CopiesAgree (cache : Cache V) (r : Request V) (sample : List (Row V)) : Prop where
  /-- No newest copy of a row that is served has another price outside the band. -/
  price : ∀ row ∈ filterBand r.band sample, ∀ newest, cache.newestOf row = some newest →
    Repriced newest row → inPrice r.band newest
  /-- Where the newest copy has no other price, it has no other date either. -/
  date : ∀ row ∈ filterBand r.band sample, NoPlaceholder row.key cache.rows →
    ∀ newest, cache.newestOf row = some newest → ¬ Repriced newest row →
      newest.states "Available From" → row.StatesAs newest "Available From"
  /-- A URL spelled like the key of a row without one has the details of the copy shown. -/
  placeholder : ∀ row ∈ filterBand r.band sample, ¬ NoPlaceholder row.key cache.rows →
    ∀ copy, findCachedListingByUrl cache row.url = some copy →
      ∀ name ∈ shownFields, copy.states name → (cache.shown row).StatesAs copy name
  /-- No listing that comes into the band with its newest copy is out of it in all its rows. -/
  outside : ∀ row ∈ clean r.wrongCity sample, Scraping.inBand r.band (cache.newestCopy row) →
    ∃ held ∈ sample, Scraping.inBand r.band held ∧ held.key = row.key

lemma shown_of_repriced {cache : Cache V} {row newest : Row V}
    (h : cache.newestOf row = some newest) : cache.shown row = reprice newest row := by
  rw [Cache.shown, h]
  rfl

lemma shown_of_none {cache : Cache V} {row : Row V} (h : cache.newestOf row = none) :
    cache.shown row = row := by
  rw [Cache.shown, h]
  rfl

/-- A row keeps its fields but the price and the date. -/
lemma field_shown (cache : Cache V) (row : Row V) {name : String} (hname : name ∉ shownFields) :
    (cache.shown row).field name = row.field name := by
  cases hnewest : cache.newestOf row with
  | none => rw [shown_of_none hnewest]
  | some newest =>
    rw [shown_of_repriced hnewest]
    by_cases h : Repriced newest row
    · rw [field_reprice h, if_neg]
      simp only [shownFields, List.mem_cons, List.not_mem_nil, or_false, not_or] at hname
      tauto
    · rw [reprice_of_not h]

lemma url_shown (cache : Cache V) (row : Row V) : (cache.shown row).url = row.url := by
  rw [Row.url, Row.url, Row.text, Row.text, field_shown cache row (by decide)]

lemma key_shown (cache : Cache V) (row : Row V) : (cache.shown row).key = row.key := by
  rw [Row.key, url_shown, Row.key]

lemma rowBeds_shown (cache : Cache V) (row : Row V) : rowBeds (cache.shown row) = rowBeds row := by
  rw [rowBeds, rowBeds, Row.text, Row.text, Row.text, Row.text,
    field_shown cache row (by decide), field_shown cache row (by decide)]

lemma mem_filterBand {band : Band} {rows : List (Row V)} {row : Row V}
    (h : row ∈ filterBand band rows) : row ∈ rows ∧ inBand band row := by
  rw [filterBand] at h
  split at h
  · exact List.mem_filter.1 (List.mem_of_mem_take h)
  · exact List.mem_filter.1 h

/-- A row in the band is served, or the limit is reached. -/
lemma filterBand_complete {band : Band} {rows : List (Row V)} {row : Row V} (hmem : row ∈ rows)
    (hband : inBand band row) :
    row ∈ filterBand band rows ∨
      (0 < band.limit ∧ (filterBand band rows).length = band.limit.toNat) := by
  have hfilter : row ∈ rows.filter (inBand band) := List.mem_filter.2 ⟨hmem, hband⟩
  rw [filterBand]
  split
  · next hlimit =>
    by_cases hshort : (rows.filter (inBand band)).length ≤ band.limit.toNat
    · rw [List.take_of_length_le hshort]
      exact .inl hfilter
    · exact .inr ⟨hlimit, by rw [List.length_take]; omega⟩
  · exact .inl hfilter

/-- A row in the band is shown in the band unless it takes a price outside. -/
lemma inBand_shown {cache : Cache V} {band : Band} {row : Row V} (hband : inBand band row) :
    inBand band (cache.shown row) ↔ ∀ newest, cache.newestOf row = some newest →
      Repriced newest row → inPrice band newest := by
  cases hnewest : cache.newestOf row with
  | none =>
    rw [shown_of_none hnewest]
    simpa using hband
  | some newest =>
    by_cases h : Repriced newest row
    · have hprice : rowPrice (cache.shown row) = rowPrice newest := by
        rw [shown_of_repriced hnewest, rowPrice, field_reprice h, if_pos (.inl rfl), rowPrice]
      rw [inBand, Bool.and_eq_true] at hband ⊢
      rw [rowBeds_shown, hprice]
      constructor
      · rintro hshown _ ⟨⟩ -
        exact hshown.2
      · exact fun hshown => ⟨hband.1, hshown newest rfl h⟩
    · rw [shown_of_repriced hnewest, reprice_of_not h]
      refine iff_of_true hband ?_
      rintro _ ⟨⟩ h'
      exact absurd h' h

/-- The details of a row are those of its newest copy. -/
lemma details_eq_newest {cache : Cache V} {row : Row V}
    (hrows : NoPlaceholder row.key cache.rows) :
    findCachedListingByUrl cache row.url = cache.newestOf row := by
  have hkey : trimSlash row.url.strip = row.key := by
    rw [Row.key, Row.url, Text.strip_strip]
  rw [Cache.newestOf]
  split
  · next hnil => exact findCachedListingByUrl_of_key (hkey.trans hnil) cache
  · next hne =>
    rw [← hkey] at hne hrows ⊢
    exact findCachedListingByUrl_eq_newest hne hrows

/-- A row is shown with what its newest copy states, unless the date alone is another. -/
lemma statesAs_shown {cache : Cache V} {row newest : Row V}
    (hnewest : cache.newestOf row = some newest) :
    (∀ name ∈ shownFields, newest.states name → (cache.shown row).StatesAs newest name) ↔
      (¬ Repriced newest row → newest.states "Available From" →
        row.StatesAs newest "Available From") := by
  rw [shown_of_repriced hnewest]
  by_cases h : Repriced newest row
  · refine iff_of_true (fun name hname hstates => .inl ?_) fun h' => absurd h h'
    rw [field_reprice h, if_pos]
    rcases List.mem_pair.1 hname with rfl | rfl
    · exact .inl rfl
    · exact .inr ⟨rfl, hstates⟩
  · rw [reprice_of_not h]
    constructor
    · exact fun hall _ hstates => hall _ (by simp [shownFields]) hstates
    · intro hdate name hname hstates
      rcases List.mem_pair.1 hname with rfl | rfl
      · exact .inr (by_contra fun hprice => h ⟨hstates, hprice⟩)
      · exact hdate h hstates

/-- What is served of a set agrees with the band and the details just if the copies do. -/
theorem agree_iff (cache : Cache V) (r : Request V) (sample : List (Row V)) :
    Agree cache r sample ((filterBand r.band sample).map cache.shown)
        ((filterBand r.band.unlimited sample).map cache.shown) ↔
      CopiesAgree cache r sample := by
  have hunlimited : filterBand r.band.unlimited sample = sample.filter (inBand r.band) := rfl
  constructor
  · intro h
    have hmem {row : Row V} (hrow : row ∈ filterBand r.band sample) :
        cache.shown row ∈ (filterBand r.band sample).map cache.shown :=
      List.mem_map_of_mem hrow
    refine ⟨fun row hrow => ?_, fun row hrow hplace newest hnewest => ?_,
      fun row hrow _ copy hcopy => ?_, fun row hrow hband => ?_⟩
    · exact (inBand_shown (mem_filterBand hrow).2).1 (h.inBand _ (hmem hrow))
    · refine (statesAs_shown hnewest).1 (h.details _ (hmem hrow) newest ?_)
      rw [url_shown, details_eq_newest hplace, hnewest]
    · exact h.details _ (hmem hrow) copy (by rw [url_shown, hcopy])
    · obtain ⟨served, hserved, hkey⟩ : ∃ served ∈ (sample.filter (inBand r.band)).map cache.shown,
          served.key = row.key := by
        rcases h.complete row hrow hband with ⟨served, hserved, hkey⟩ | ⟨-, -, hserved⟩
        · obtain ⟨held, hheld, rfl⟩ := List.mem_map.1 hserved
          exact ⟨_, List.mem_map_of_mem (List.mem_filter.2 (mem_filterBand hheld)), hkey⟩
        · exact hserved
      obtain ⟨held, hheld, rfl⟩ := List.mem_map.1 hserved
      obtain ⟨hheld, hin⟩ := List.mem_filter.1 hheld
      exact ⟨held, hheld, hin, (key_shown cache held).symm.trans hkey⟩
  · intro h
    refine ⟨fun row hrow => ?_, fun row hrow copy hcopy => ?_, fun row hrow hband => ?_⟩
    · obtain ⟨held, hheld, rfl⟩ := List.mem_map.1 hrow
      exact (inBand_shown (mem_filterBand hheld).2).2 (h.price held hheld)
    · obtain ⟨held, hheld, rfl⟩ := List.mem_map.1 hrow
      rw [url_shown] at hcopy
      by_cases hplace : NoPlaceholder held.key cache.rows
      · rw [details_eq_newest hplace] at hcopy
        exact (statesAs_shown hcopy).2 (h.date held hheld hplace copy hcopy)
      · exact h.placeholder held hheld hplace copy hcopy
    · obtain ⟨held, hheld, hin, hkey⟩ := h.outside row hrow hband
      rw [← hkey, ← key_shown cache held]
      rcases filterBand_complete hheld hin with hserved | ⟨hlimit, hlength⟩
      · exact .inl ⟨_, List.mem_map_of_mem hserved, rfl⟩
      · refine .inr ⟨hlimit, by rw [List.length_map, hlength], _, List.mem_map_of_mem ?_, rfl⟩
        rw [hunlimited]
        exact List.mem_filter.2 ⟨hheld, hin⟩

/-! ### Runs -/

/-- What happens to the caches of a host and to a process that reads them. -/
inductive Event (V : Type) where
  /-- Someone keeps a set. -/
  | keep (path key : Text) (rows : List (Row V)) (coverage : Option Coverage) (since : Elapsed)
  | search (r : Request V) (c : Circumstances V)
  /-- `set_cache_path` -/
  | setCachePath (path : Text)

def World.step (settings : Settings) (w : World V) : Event V → World V
  | .keep path key rows coverage since =>
    { w with caches := w.caches.write path key rows coverage since }
  | .search r c => (getListings settings w r c).1
  | .setCachePath path => { w with path := path }

/-- A process that has not searched yet. -/
def World.start (caches : Caches V) (path : Text) : World V := ⟨caches, path, .empty⟩

lemma sound_run (settings : Settings) (caches : Caches V) (path : Text) (events : List (Event V)) :
    (Runs.run (World.step settings) (World.start caches path) events).memo.Sound
      (Runs.run (World.step settings) (World.start caches path) events).caches := by
  refine Runs.run_preserves (I := fun w : World V => w.memo.Sound w.caches)
    (fun w event hmemo => ?_) (FreshestIndex.sound_empty caches) events
  cases event with
  | keep path key rows coverage since => exact hmemo.write path key rows coverage since
  | search r c => exact getListings_sound settings hmemo r c
  | setCachePath path => exact hmemo

/-- What a search returns agrees with the band and with the details looked up after it. -/
def SearchAgrees (settings : Settings) (w : World V) (r : Request V) (c : Circumstances V) :
    Prop :=
  Agree ((getListings settings w r c).1.caches.content (getListings settings w r c).1.path) r
    (servedSet settings w r c) (getListings settings w r c).2.rows
    (getListings settings w { r with band := r.band.unlimited } c).2.rows

/-- The copies of the served rows agree, once the call has kept what it scraped. -/
def ServedCopiesAgree (settings : Settings) (w : World V) (r : Request V) (c : Circumstances V) :
    Prop :=
  CopiesAgree ((afterScrape settings w r c).caches.content (afterScrape settings w r c).path) r
    (servedSet settings w r c)

lemma getListings_caches (settings : Settings) (w : World V) (r : Request V)
    (c : Circumstances V) :
    (getListings settings w r c).1.caches = (afterScrape settings w r c).caches ∧
      (getListings settings w r c).1.path = (afterScrape settings w r c).path := by
  rw [getListings]
  split
  · next hlock =>
    rw [(served_of_lock settings w hlock).2]
    exact ⟨rfl, rfl⟩
  · next hlock =>
    obtain ⟨hworld, -⟩ := getListingsUnlocked_spec settings w r (Bool.not_eq_true _ ▸ hlock)
    dsimp only
    rw [withFreshestPrices, hworld]
    split <;> exact ⟨rfl, rfl⟩

/-- In every run, a search agrees with the band and the details just if the copies do. -/
theorem search_rows_agree_with_details (settings : Settings) (caches : Caches V) (path : Text)
    (events : List (Event V)) (r : Request V) (c : Circumstances V) :
    SearchAgrees settings (Runs.run (World.step settings) (World.start caches path) events) r c ↔
      ServedCopiesAgree settings
        (Runs.run (World.step settings) (World.start caches path) events) r c := by
  have hmemo := sound_run settings caches path events
  generalize Runs.run (World.step settings) (World.start caches path) events = w at hmemo ⊢
  have hrows := getListings_rows settings hmemo r c
  have hunlimited := getListings_rows settings hmemo { r with band := r.band.unlimited } c
  obtain ⟨hcaches, hpath⟩ := getListings_caches settings w r c
  rw [SearchAgrees, ServedCopiesAgree, hcaches, hpath, hrows, hunlimited]
  exact agree_iff _ r _

/-! ### A price that changed between two fetches -/

/-- The values of a row of texts. -/
instance : RowValue Text where
  truthy t := t ≠ []
  str t := t
  eq t u := t = u
  parsePrice t :=
    -- `[\d,]+`, the commas left out
    let digits := (t.dropWhile fun c => !(c = 44 || 48 ≤ c && c ≤ 57)).takeWhile fun c =>
      c = 44 || 48 ≤ c && c ≤ 57
    if digits = [] then none
    else some ((digits.filter (· ≠ 44)).foldl (fun n c => 10 * n + (c - 48)) 0 : Nat)
  namesStudio t :=
    (t.map fun c => if 65 ≤ c ∧ c ≤ 90 then c + 32 else c).tails.any
      (Text.ofString "studio").isPrefixOf
  bedsNamed t :=
    if (Text.ofString " bed").isPrefixOf (t.drop 1) then t.head?.map fun c => (c - 48 : Nat)
    else none

/-- The row of a flat at a price. -/
def flatRow (price : String) : Row Text :=
  [(Text.ofString "Address", Text.ofString "1 Doughty Street, London WC1N"),
   (Text.ofString "URL", Text.ofString "https://www.onthemarket.com/details/1/"),
   (Text.ofString "Price", Text.ofString price),
   (Text.ofString "Room_Type_Category", Text.ofString "1 bed Flat")]

/-- A host without cached listings. -/
def noCaches : Caches Text where
  content _ := []
  clock := 0
  keys _ := List.nodup_nil
  times _ := List.nodup_nil
  past _ _ he := by cases he

def onDemandSettings : Settings := ⟨12, 1, Text.ofString "/tmp/uk-rent-agent/listing_cache.sqlite3"⟩

/-- A listing is cached for Holborn, and an hour later for Bloomsbury at a higher price. -/
def repricedWorld : World Text :=
  let path := Text.ofString "/srv/.runtime/listing_cache.sqlite3"
  Runs.run (World.step onDemandSettings) (World.start noCaches path)
    [.keep path (queryKey (Text.ofString "holborn") (Text.ofString "1-bed"))
      [flatRow "£1,500 pcm"] (some ⟨false, true⟩) ⟨1000, by norm_num⟩,
     .keep path (queryKey (Text.ofString "bloomsbury") (Text.ofString "1-bed"))
      [flatRow "£1,900 pcm"] (some ⟨false, true⟩) ⟨3600, by norm_num⟩]

/-- One bedroom in Holborn for at most £1,600. -/
def holbornRequest : Request Text where
  slug := some (Text.ofString "holborn")
  wrongCity _ := false
  plan := Text.ofString "1-bed"
  band := ⟨1, 1, 100, 1600, 15⟩
  forceRefresh := false
  cacheOnly := false

/-- The cached set is served. -/
def holbornServed : Circumstances Text := ⟨false, 5000, none, none, [], false, ⟨1, by norm_num⟩⟩

/-- The row of Holborn is in the band, and is shown at the price of Bloomsbury. -/
theorem cached_price_served_outside_band :
    ¬ SearchAgrees onDemandSettings repricedWorld holbornRequest holbornServed := by
  intro h
  have hrows : (getListings onDemandSettings repricedWorld holbornRequest holbornServed).2.rows =
      [flatRow "£1,900 pcm"] := by
    decide +kernel
  have hband := h.inBand (flatRow "£1,900 pcm") (by rw [hrows]; exact List.mem_singleton_self _)
  revert hband
  decide +kernel

end RentCompass.Scraping
