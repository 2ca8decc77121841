import RentCompass.Json.Value
import RentCompass.Runs
import RentCompass.Rows
import Mathlib.Algebra.Order.Ring.Rat
import Mathlib.Tactic.Linarith

/-!
# The listing cache

Each area key holds the rows of one fetch and the time of the fetch, so one listing may be held in
several copies. The details of a listing are those of the copy `find_cached_listing_by_url` comes
upon first, newest entry first; a search takes its prices from an index of the newest copies, which
each process keeps until the cache changes.
-/

namespace RentCompass.Scraping

/-- The values of a row, with what the code reads off them. -/
class RowValue (V : Type) where
  truthy : V → Bool
  /-- `str(v)` -/
  str : V → Text
  /-- `v == w` -/
  eq : V → V → Bool
  /-- `parse_price` -/
  parsePrice : V → Option ℚ
  /-- `"studio" in text.lower()` -/
  namesStudio : Text → Bool
  /-- The number in the first match of `_ROW_BEDS_RE`. -/
  bedsNamed : Text → Option Int

abbrev Row (V : Type) := Dict V

variable {V : Type}

/-- `row.get(field)` -/
def Row.field (row : Row V) (name : String) : Option V := row.get? (Text.ofString name)

section

variable [RowValue V]

/-- `bool(row.get(field))` -/
def Row.states (row : Row V) (name : String) : Bool := (row.field name).any RowValue.truthy

/-- `str(row.get(field) or "")` -/
def Row.text (row : Row V) (name : String) : Text :=
  ((row.field name).filter RowValue.truthy).elim [] RowValue.str

/-- `(row.get("URL") or "").strip()` -/
def Row.url (row : Row V) : Text := (row.text "URL").strip

/-- `url.rstrip("/")` -/
def trimSlash (url : Text) : Text := url.rdropWhile (· = 47)

/-- The URL without its trailing slashes. -/
def Row.key (row : Row V) : Text := trimSlash row.url

end

/-! ### The entries -/

/-- What the evidence of a fetch says of its coverage. -/
structure Coverage where
  stoppedEarly : Bool
  /-- `"channels" in coverage` -/
  channels : Bool

/-- A row of the table `listings`; `rows` is `none` where its text cannot be decoded. -/
structure CacheEntry (V : Type) where
  key : Text
  rows : Option (List (Row V))
  fetched : ℚ
  coverage : Option Coverage

abbrev Cache (V : Type) := List (CacheEntry V)

/-- `ListingCache.get` -/
def Cache.get (cache : Cache V) (key : Text) : Option (List (Row V) × ℚ) :=
  (cache.find? fun e => e.key = key).bind fun e => e.rows.map fun rows => (rows, e.fetched)

/-- `ListingCache.metadata(key).get("coverage")` -/
def Cache.coverage (cache : Cache V) (key : Text) : Option Coverage :=
  (cache.find? fun e => e.key = key).bind (·.coverage)

/-- `ListingCache.set` -/
def Cache.set (cache : Cache V) (key : Text) (rows : List (Row V)) (coverage : Option Coverage)
    (now : ℚ) : Cache V :=
  if cache.any (·.key = key) then
    cache.map fun e => if e.key = key then ⟨key, some rows, now, coverage⟩ else e
  else cache ++ [⟨key, some rows, now, coverage⟩]

/-- The rows of all entries, newest entry first. -/
def Cache.newestFirst (cache : Cache V) : List (Row V) :=
  (cache.insertionSort fun e f => f.fetched ≤ e.fetched).flatMap fun e => e.rows.getD []

variable [RowValue V]

/-- The key a row is seen under. -/
def seenKey (row : Row V) (seen : List Text) : Text :=
  if row.url = [] then Text.ofString "_noindex_" ++ Text.ofNat seen.length else row.url

/-- The loop of `iter_cached_listings`; `seen` are the keys in the order they were met. -/
def unseen (seen : List Text) : List (Row V) → List (Row V)
  | [] => []
  | row :: rows =>
    if seenKey row seen ∈ seen then unseen seen rows
    else row :: unseen (seen ++ [seenKey row seen]) rows

/-- `iter_cached_listings` -/
def iterCachedListings (cache : Cache V) : List (Row V) := unseen [] cache.newestFirst

/-- `find_cached_listing_by_url` -/
def findCachedListingByUrl (cache : Cache V) (url : Text) : Option (Row V) :=
  if url.strip = [] then none
  else (iterCachedListings cache).find? fun row => row.key ≠ [] ∧ row.key = trimSlash url.strip

/-! ### The index of the newest copies -/

/-- One row of the loop of `_freshest_copy_index`. -/
def indexRow (fetched : ℚ) (index : Dict (ℚ × Row V)) (row : Row V) : Dict (ℚ × Row V) :=
  if row.key ≠ [] ∧ ∀ held ∈ index.get? row.key, held.1 < fetched then
    index.insert row.key (fetched, row)
  else index

/-- The index of a cache. -/
def copyIndex (cache : Cache V) : Dict (ℚ × Row V) :=
  cache.foldl (fun index e => (e.rows.getD []).foldl (indexRow e.fetched) index) []

/-- The newest copies by URL. -/
def copiesByUrl (cache : Cache V) : Dict (Row V) := (copyIndex cache).map fun p => (p.1, p.2.2)

omit [RowValue V] in
/-- `(str(cache.path),)` and `SELECT COUNT(*), MAX(fetched)`. -/
def Cache.stamp (path : Text) (cache : Cache V) : Text × Nat × Option ℚ :=
  (path, cache.length, (cache.map (·.fetched)).max?)

/-- `_FRESHEST_INDEX` of a process. -/
structure FreshestIndex (V : Type) where
  stamp : Option (Text × Nat × Option ℚ)
  rows : Dict (Row V)

/-- The index a process starts with. -/
def FreshestIndex.empty : FreshestIndex V := ⟨none, []⟩

/-- `_freshest_copy_index`: the index as it is kept. -/
def freshestCopyIndex (memo : FreshestIndex V) (path : Text) (cache : Cache V) : FreshestIndex V :=
  if some (cache.stamp path) = memo.stamp then memo
  else ⟨some (cache.stamp path), copiesByUrl cache⟩

/-! ### The newest copy -/

/-- The copy of a listing in one entry. -/
def CacheEntry.copy (e : CacheEntry V) (key : Text) : Option (Row V) :=
  (e.rows.getD []).find? fun row => row.key = key

/-- No row of the listing has a URL spelled like the key of a row without one. -/
def NoPlaceholder (key : Text) (rows : List (Row V)) : Prop :=
  ∀ row ∈ rows, row.key = key → ∀ n, row.url ≠ Text.ofString "_noindex_" ++ Text.ofNat n

lemma seenKey_of_key {row : Row V} (h : row.key ≠ []) (seen : List Text) :
    seenKey row seen = row.url := by
  refine if_neg fun hurl => h ?_
  rw [Row.key, hurl]
  rfl

/-- Passing over the rows whose URL was seen does not change the first copy of a listing. -/
lemma find?_unseen {key : Text} (hkey : key ≠ []) {rows : List (Row V)}
    (hrows : NoPlaceholder key rows)
    {seen : List Text} (hseen : ∀ row ∈ rows, row.key = key → row.url ∉ seen) :
    (unseen seen rows).find? (fun row => row.key = key) = rows.find? fun row => row.key = key := by
  induction rows generalizing seen with
  | nil => rfl
  | cons row rows ih =>
    have hrest : NoPlaceholder key rows := fun r hr => hrows r (List.mem_cons_of_mem _ hr)
    rw [unseen]
    by_cases hmatch : row.key = key
    · have hnew : seenKey row seen ∉ seen := by
        rw [seenKey_of_key (hmatch ▸ hkey)]
        exact hseen row List.mem_cons_self hmatch
      rw [if_neg hnew, List.find?_cons_of_pos (by simpa using hmatch),
        List.find?_cons_of_pos (by simpa using hmatch)]
    · rw [List.find?_cons_of_neg (by simpa using hmatch)]
      split
      · exact ih hrest fun r hr => hseen r (List.mem_cons_of_mem _ hr)
      · rw [List.find?_cons_of_neg (by simpa using hmatch)]
        refine ih hrest fun r hr hr' hmem => ?_
        rcases List.mem_append.1 hmem with hmem | hmem
        · exact hseen r (List.mem_cons_of_mem _ hr) hr' hmem
        · -- another URL, or the key of a row without one
          have heq : r.url = seenKey row seen := List.mem_singleton.1 hmem
          by_cases hurl : row.url = []
          · rw [seenKey, if_pos hurl] at heq
            exact hrows r (List.mem_cons_of_mem _ hr) hr' _ heq
          · rw [seenKey, if_neg hurl] at heq
            exact hmatch (by rw [Row.key, ← heq]; exact hr')

/-- The rows of the cache. -/
def Cache.rows (cache : Cache V) : List (Row V) := cache.flatMap fun e => e.rows.getD []

omit [RowValue V] in
lemma mem_newestFirst {cache : Cache V} {row : Row V} :
    row ∈ cache.newestFirst ↔ row ∈ cache.rows := by
  simp [Cache.newestFirst, Cache.rows, List.mem_insertionSort]

/-- A copy of the listing in an entry which no entry with a copy is newer than. -/
def Cache.NewestCopy (cache : Cache V) (key : Text) (e : CacheEntry V) (row : Row V) : Prop :=
  e ∈ cache ∧ e.copy key = some row ∧
    ∀ e' ∈ cache, (e'.copy key).isSome → e'.fetched ≤ e.fetched

/-- The copy of a listing in the newest entry that holds one. -/
def Cache.newest (cache : Cache V) (key : Text) : Option (Row V) :=
  (cache.insertionSort fun e f => f.fetched ≤ e.fetched).findSome? fun e => e.copy key

lemma Cache.newest_spec (cache : Cache V) (key : Text) :
    match cache.newest key with
    | none => ∀ e ∈ cache, e.copy key = none
    | some row => ∃ e, cache.NewestCopy key e row := by
  rw [Cache.newest]
  split
  · next hnone =>
    exact fun e he => List.findSome?_eq_none_iff.1 hnone e ((List.mem_insertionSort _).2 he)
  · next row hsome =>
    obtain ⟨l₁, e, l₂, hl, hcopy, hbefore⟩ := List.findSome?_eq_some_iff.1 hsome
    have hmem : ∀ e', e' ∈ cache ↔ e' ∈ l₁ ++ e :: l₂ := fun e' => by
      rw [← hl, List.mem_insertionSort]
    have hsorted : (l₁ ++ e :: l₂).Pairwise fun e f : CacheEntry V => f.fetched ≤ e.fetched := by
      rw [← hl]
      exact List.pairwise_insertionSort _ _
    refine ⟨e, (hmem e).2 (by simp), hcopy, fun e' he' hsome' => ?_⟩
    rcases List.mem_append.1 ((hmem e').1 he') with he' | he'
    · rw [hbefore e' he'] at hsome'
      cases hsome'
    · rcases List.mem_cons.1 he' with rfl | he'
      · exact le_rfl
      · exact (List.pairwise_cons.1 (List.pairwise_append.1 hsorted).2.1).1 e' he'

/-- The details of a listing are those of its newest copy. -/
theorem findCachedListingByUrl_eq_newest {cache : Cache V} {url : Text}
    (hkey : trimSlash url.strip ≠ []) (hrows : NoPlaceholder (trimSlash url.strip) cache.rows) :
    findCachedListingByUrl cache url = cache.newest (trimSlash url.strip) := by
  have hurl : url.strip ≠ [] := fun hnil => hkey (by rw [hnil]; rfl)
  have hpred : (fun row : Row V => decide (row.key ≠ [] ∧ row.key = trimSlash url.strip)) =
      fun row => decide (row.key = trimSlash url.strip) := by
    funext row
    by_cases h : row.key = trimSlash url.strip
    · simp [h, hkey]
    · simp [h]
  rw [findCachedListingByUrl, if_neg hurl, iterCachedListings, hpred, find?_unseen hkey
    (fun row hrow => hrows row (mem_newestFirst.1 hrow)) (by simp), Cache.newestFirst,
    List.find?_flatMap]
  rfl

/-- A listing without a URL has no details. -/
lemma findCachedListingByUrl_of_key {url : Text} (hkey : trimSlash url.strip = [])
    (cache : Cache V) : findCachedListingByUrl cache url = none := by
  rw [findCachedListingByUrl, hkey]
  split
  · rfl
  · simp

/-- The copy held of a listing after an entry of this time with this copy. -/
def takeNewer (fetched : ℚ) (copy : Option (Row V)) (held : Option (ℚ × Row V)) :
    Option (ℚ × Row V) :=
  match copy with
  | none => held
  | some row => if ∀ h ∈ held, h.1 < fetched then some (fetched, row) else held

/-- Of the rows of one entry the first of a listing counts. -/
lemma get?_foldl_indexRow {key : Text} (hkey : key ≠ []) (fetched : ℚ) (rows : List (Row V))
    (index : Dict (ℚ × Row V)) :
    (rows.foldl (indexRow fetched) index).get? key =
      takeNewer fetched (rows.find? fun row => row.key = key) (index.get? key) := by
  induction rows generalizing index with
  | nil => rfl
  | cons row rows ih =>
    rw [List.foldl_cons, ih]
    by_cases hmatch : row.key = key
    · rw [List.find?_cons_of_pos (by simpa using hmatch)]
      change _ = if ∀ h ∈ index.get? key, h.1 < fetched then some (fetched, row)
        else index.get? key
      by_cases hnew : ∀ held ∈ index.get? key, held.1 < fetched
      · -- later rows of the listing are not newer than the first
        have hheld : (indexRow fetched index row).get? key = some (fetched, row) := by
          rw [indexRow, hmatch, if_pos ⟨hkey, hnew⟩, Dict.get?_insert, if_pos rfl]
        have hold : ¬ ∀ held ∈ some (fetched, row), held.1 < fetched := by simp
        rw [hheld, if_pos hnew]
        cases rows.find? fun row => row.key = key with
        | none => rfl
        | some later => exact if_neg hold
      · have hheld : (indexRow fetched index row).get? key = index.get? key := by
          rw [indexRow, hmatch, if_neg fun h => hnew h.2]
        rw [hheld, if_neg hnew]
        cases rows.find? fun row => row.key = key with
        | none => rfl
        | some later => exact if_neg hnew
    · have hheld : (indexRow fetched index row).get? key = index.get? key := by
        rw [indexRow]
        split
        · rw [Dict.get?_insert, if_neg (Ne.symm hmatch)]
        · rfl
      rw [List.find?_cons_of_neg (by simpa using hmatch), hheld]

lemma get?_copyIndex_concat {key : Text} (hkey : key ≠ []) (cache : Cache V) (e : CacheEntry V) :
    (copyIndex (cache ++ [e])).get? key =
      takeNewer e.fetched (e.copy key) ((copyIndex cache).get? key) := by
  rw [copyIndex, List.foldl_append]
  exact get?_foldl_indexRow hkey e.fetched _ _

/-- The index holds a newest copy of each listing. -/
lemma get?_copyIndex {key : Text} (hkey : key ≠ []) (cache : Cache V) :
    match (copyIndex cache).get? key with
    | none => ∀ e ∈ cache, e.copy key = none
    | some held => ∃ e, cache.NewestCopy key e held.2 ∧ e.fetched = held.1 := by
  induction cache using List.reverseRecOn with
  | nil => exact fun e he => by cases he
  | append_singleton cache e ih =>
    rw [get?_copyIndex_concat hkey]
    cases hcopy : e.copy key with
    | none =>
      have hlast : ∀ e' ∈ [e], e'.copy key = none := fun e' he' => by
        rw [List.mem_singleton.1 he', hcopy]
      change match (copyIndex cache).get? key with
        | none => _
        | some _ => _
      cases hindex : (copyIndex cache).get? key with
      | none =>
        rw [hindex] at ih
        exact fun e' he' => (List.mem_append.1 he').elim (ih e') (hlast e')
      | some held =>
        rw [hindex] at ih
        obtain ⟨e₀, ⟨he₀, hcopy₀, hmax⟩, hfetched⟩ := ih
        refine ⟨e₀, ⟨List.mem_append_left _ he₀, hcopy₀, fun e' he' hsome => ?_⟩, hfetched⟩
        rcases List.mem_append.1 he' with he' | he'
        · exact hmax e' he' hsome
        · rw [hlast e' he'] at hsome
          cases hsome
    | some row =>
      cases hindex : (copyIndex cache).get? key with
      | none =>
        rw [hindex] at ih
        refine ⟨e, ⟨by simp, hcopy, fun e' he' hsome => ?_⟩, rfl⟩
        rcases List.mem_append.1 he' with he' | he'
        · rw [ih e' he'] at hsome
          cases hsome
        · rw [List.mem_singleton.1 he']
      | some held =>
        rw [hindex] at ih
        obtain ⟨e₀, ⟨he₀, hcopy₀, hmax⟩, hfetched⟩ := ih
        rw [takeNewer]
        by_cases hnew : held.1 < e.fetched
        · rw [if_pos (by simpa using hnew)]
          refine ⟨e, ⟨by simp, hcopy, fun e' he' hsome => ?_⟩, rfl⟩
          rcases List.mem_append.1 he' with he' | he'
          · exact (hmax e' he' hsome).trans (hfetched.le.trans hnew.le)
          · rw [List.mem_singleton.1 he']
        · rw [if_neg (by simpa using hnew)]
          refine ⟨e₀, ⟨List.mem_append_left _ he₀, hcopy₀, fun e' he' hsome => ?_⟩, hfetched⟩
          rcases List.mem_append.1 he' with he' | he'
          · exact hmax e' he' hsome
          · rw [List.mem_singleton.1 he']
            exact (not_lt.1 hnew).trans hfetched.ge

/-- No two entries are of one time, so there is one newest copy. -/
lemma Cache.NewestCopy.unique {cache : Cache V}
    (htimes : Rows.Keyed (fun e : CacheEntry V => e.fetched) cache) {key : Text}
    {e e' : CacheEntry V} {row row' : Row V} (h : cache.NewestCopy key e row)
    (h' : cache.NewestCopy key e' row') : row = row' := by
  have heq : e.fetched = e'.fetched :=
    le_antisymm (h'.2.2 e h.1 (by rw [h.2.1]; rfl)) (h.2.2 e' h'.1 (by rw [h'.2.1]; rfl))
  obtain rfl := htimes.eq h.1 h'.1 heq
  exact Option.some_injective _ (h.2.1.symm.trans h'.2.1)

lemma get?_copyIndex_nil (cache : Cache V) : (copyIndex cache).get? [] = none := by
  have hrows (fetched : ℚ) (rows : List (Row V)) (index : Dict (ℚ × Row V))
      (h : index.get? [] = none) : (rows.foldl (indexRow fetched) index).get? [] = none := by
    induction rows generalizing index with
    | nil => exact h
    | cons row rows ih =>
      refine ih _ ?_
      rw [indexRow]
      split
      · next hkey => rw [Dict.get?_insert, if_neg (Ne.symm hkey.1), h]
      · exact h
  induction cache using List.reverseRecOn with
  | nil => rfl
  | append_singleton cache e ih =>
    rw [copyIndex, List.foldl_append]
    exact hrows _ _ _ ih

/-- Where no two entries are of one time, the index holds the newest copies. -/
theorem get?_copiesByUrl {cache : Cache V}
    (htimes : Rows.Keyed (fun e : CacheEntry V => e.fetched) cache) (key : Text) :
    (copiesByUrl cache).get? key = if key = [] then none else cache.newest key := by
  have hmap : (copiesByUrl cache).get? key = ((copyIndex cache).get? key).map (·.2) :=
    Dict.get?_map (copyIndex cache) (fun _ held => held.2) key
  rw [hmap]
  by_cases hkey : key = []
  · rw [hkey, get?_copyIndex_nil, if_pos rfl]
    rfl
  · rw [if_neg hkey]
    have hindex := get?_copyIndex hkey cache
    have hnewest := cache.newest_spec key
    cases hi : (copyIndex cache).get? key with
    | none =>
      rw [hi] at hindex
      cases hn : cache.newest key with
      | none => rfl
      | some row =>
        rw [hn] at hnewest
        obtain ⟨e, he⟩ := hnewest
        have hcopy := he.2.1
        rw [hindex e he.1] at hcopy
        cases hcopy
    | some held =>
      rw [hi] at hindex
      obtain ⟨e, he, -⟩ := hindex
      cases hn : cache.newest key with
      | none =>
        rw [hn] at hnewest
        have hcopy := he.2.1
        rw [hnewest e he.1] at hcopy
        cases hcopy
      | some row =>
        rw [hn] at hnewest
        obtain ⟨e', he'⟩ := hnewest
        exact congrArg some (he.unique htimes he')

/-! ### The cache files -/

/-- A length of time that is not nothing. -/
abbrev Elapsed := {d : ℚ // 0 < d}

omit [RowValue V] in
lemma Cache.mem_set {cache : Cache V} {key : Text} {rows : List (Row V)}
    {coverage : Option Coverage} {now : ℚ} {e : CacheEntry V}
    (h : e ∈ cache.set key rows coverage now) : e ∈ cache ∨ e.fetched = now := by
  rw [Cache.set] at h
  split at h
  · obtain ⟨e₀, he₀, rfl⟩ := List.mem_map.1 h
    split
    · exact .inr rfl
    · exact .inl he₀
  · rcases List.mem_append.1 h with h | h
    · exact .inl h
    · exact .inr (by rw [List.mem_singleton.1 h])

omit [RowValue V] in
lemma Cache.now_mem_set (cache : Cache V) (key : Text) (rows : List (Row V))
    (coverage : Option Coverage) (now : ℚ) :
    now ∈ (cache.set key rows coverage now).map (·.fetched) := by
  rw [Cache.set]
  split
  · next h =>
    obtain ⟨e, he, hkey⟩ := List.any_eq_true.1 h
    refine List.mem_map.2 ⟨_, List.mem_map.2 ⟨e, he, rfl⟩, ?_⟩
    rw [if_pos (by simpa using hkey)]
  · simp

omit [RowValue V] in
lemma Cache.keyed_set {cache : Cache V} (hkeys : Rows.Keyed (fun e : CacheEntry V => e.key) cache)
    (key : Text) (rows : List (Row V)) (coverage : Option Coverage) (now : ℚ) :
    Rows.Keyed (fun e : CacheEntry V => e.key) (cache.set key rows coverage now) := by
  rw [Cache.set]
  split
  · refine Rows.Keyed.updateWhere (p := fun e : CacheEntry V => e.key = key) hkeys ?_
    exact fun e _ hkey => hkey.symm
  · next h =>
    refine hkeys.append_one fun e he hkey => h ?_
    exact List.any_eq_true.2 ⟨e, he, by simpa using hkey⟩

omit [RowValue V] in
/-- A write at a later time leaves the times distinct. -/
lemma Cache.distinct_set {cache : Cache V}
    (hkeys : Rows.Keyed (fun e : CacheEntry V => e.key) cache)
    (htimes : Rows.Keyed (fun e : CacheEntry V => e.fetched) cache) {now : ℚ}
    (hpast : ∀ e ∈ cache, e.fetched < now) (key : Text) (rows : List (Row V))
    (coverage : Option Coverage) :
    Rows.Keyed (fun e : CacheEntry V => e.fetched) (cache.set key rows coverage now) := by
  rw [Cache.set]
  split
  · -- one entry is of the key, and the others are older than the write
    rw [Rows.Keyed, List.Nodup, List.pairwise_map, List.pairwise_map]
    have hpairs := (List.pairwise_map.1 hkeys).and (List.pairwise_map.1 htimes)
    refine hpairs.imp_of_mem fun {e f} he hf hne => ?_
    by_cases hkeyE : e.key = key
    · have hkeyF : f.key ≠ key := fun h => hne.1 (hkeyE.trans h.symm)
      rw [if_pos hkeyE, if_neg hkeyF]
      exact (hpast f hf).ne'
    · rw [if_neg hkeyE]
      split
      · exact (hpast e he).ne
      · exact hne.2
  · exact htimes.append_one fun e he => (hpast e he).ne

/-- The cache files of a host. Every write is later than the writes before it. -/
structure Caches (V : Type) where
  /-- The table `listings` of the file at a path. -/
  content : Text → Cache V
  /-- The time of the last write. -/
  clock : ℚ
  keys : ∀ path, Rows.Keyed (fun e : CacheEntry V => e.key) (content path)
  times : ∀ path, Rows.Keyed (fun e : CacheEntry V => e.fetched) (content path)
  past : ∀ path, ∀ e ∈ content path, e.fetched ≤ clock

/-- `ListingCache.set` of the file at a path. -/
def Caches.write (caches : Caches V) (path key : Text) (rows : List (Row V))
    (coverage : Option Coverage) (since : Elapsed) : Caches V where
  content := Function.update caches.content path
    ((caches.content path).set key rows coverage (caches.clock + since))
  clock := caches.clock + since
  keys p := by
    by_cases hp : p = path
    · rw [hp, Function.update_self]
      exact Cache.keyed_set (caches.keys path) key rows coverage _
    · rw [Function.update_of_ne hp]
      exact caches.keys p
  times p := by
    by_cases hp : p = path
    · rw [hp, Function.update_self]
      refine Cache.distinct_set (caches.keys path) (caches.times path) (fun e he => ?_) key rows
        coverage
      linarith [caches.past path e he, since.2]
    · rw [Function.update_of_ne hp]
      exact caches.times p
  past p e he := by
    have hold (e : CacheEntry V) (path : Text) (he : e ∈ caches.content path) :
        e.fetched ≤ caches.clock + since := by
      linarith [caches.past path e he, since.2]
    by_cases hp : p = path
    · rw [hp, Function.update_self] at he
      rcases Cache.mem_set he with he | he
      · exact hold e path he
      · exact he.le
    · rw [Function.update_of_ne hp] at he
      exact hold e p he

omit [RowValue V] in
lemma Caches.content_write_self (caches : Caches V) (path key : Text) (rows : List (Row V))
    (coverage : Option Coverage) (since : Elapsed) :
    (caches.write path key rows coverage since).content path =
      (caches.content path).set key rows coverage (caches.clock + since) :=
  Function.update_self _ _ _

omit [RowValue V] in
lemma Caches.content_write_of_ne (caches : Caches V) {path p : Text} (hp : p ≠ path) (key : Text)
    (rows : List (Row V)) (coverage : Option Coverage) (since : Elapsed) :
    (caches.write path key rows coverage since).content p = caches.content p :=
  Function.update_of_ne hp _ _

/-- Where the stamp of the index is that of a file, its rows are those of the file. -/
def FreshestIndex.Sound (memo : FreshestIndex V) (caches : Caches V) : Prop :=
  ∀ path count last, memo.stamp = some (path, count, last) → (∀ t ∈ last, t ≤ caches.clock) ∧
    ((caches.content path).stamp path = (path, count, last) →
      memo.rows = copiesByUrl (caches.content path))

lemma FreshestIndex.sound_empty (caches : Caches V) :
    (FreshestIndex.empty : FreshestIndex V).Sound caches := by
  intro path count last h
  cases h

/-- A write changes the stamp of its file, the time being later than any in a stamp. -/
lemma FreshestIndex.Sound.write {memo : FreshestIndex V} {caches : Caches V}
    (h : memo.Sound caches) (path key : Text) (rows : List (Row V)) (coverage : Option Coverage)
    (since : Elapsed) : memo.Sound (caches.write path key rows coverage since) := by
  intro p count last hstamp
  obtain ⟨hlast, hrows⟩ := h p count last hstamp
  have hlater : caches.clock < caches.clock + since := by linarith [since.2]
  refine ⟨fun t ht => (hlast t ht).trans hlater.le, fun hcurrent => ?_⟩
  by_cases hp : p = path
  · exfalso
    have hmax : (((caches.write path key rows coverage since).content p).map (·.fetched)).max? =
        some (caches.clock + since) := by
      refine List.max?_eq_some_iff.2 ⟨?_, fun t ht => ?_⟩
      · rw [hp, Caches.content_write_self]
        exact Cache.now_mem_set _ key rows coverage _
      · obtain ⟨e, he, rfl⟩ := List.mem_map.1 ht
        exact (caches.write path key rows coverage since).past p e he
    have heq : last = some (caches.clock + since) :=
      (congrArg (fun stamp => stamp.2.2) hcurrent).symm.trans hmax
    exact absurd (hlast _ heq) hlater.not_ge
  · rw [Caches.content_write_of_ne _ hp] at hcurrent ⊢
    exact hrows hcurrent

/-- The index a process reads is that of the file. -/
lemma FreshestIndex.Sound.rows_eq {memo : FreshestIndex V} {caches : Caches V}
    (h : memo.Sound caches) (path : Text) :
    (freshestCopyIndex memo path (caches.content path)).rows =
      copiesByUrl (caches.content path) := by
  rw [freshestCopyIndex]
  split
  · next hstamp => exact (h path _ _ hstamp.symm).2 rfl
  · rfl

lemma FreshestIndex.Sound.freshestCopyIndex {memo : FreshestIndex V} {caches : Caches V}
    (h : memo.Sound caches) (path : Text) :
    (freshestCopyIndex memo path (caches.content path)).Sound caches := by
  rw [Scraping.freshestCopyIndex]
  split
  · exact h
  · intro p count last hstamp
    obtain ⟨rfl, rfl, rfl⟩ : path = p ∧ (caches.content path).length = count ∧
        ((caches.content path).map (·.fetched)).max? = last := by
      simpa [Cache.stamp] using hstamp
    refine ⟨fun t ht => ?_, fun _ => rfl⟩
    obtain ⟨e, he, rfl⟩ := List.mem_map.1 (List.max?_eq_some_iff.1 ht).1
    exact caches.past path e he

end RentCompass.Scraping
