import RentCompass.Greedy
import RentCompass.Listings.Ranking
import Mathlib.Data.List.Perm.Subperm

/-!
# The order of a ranked page

The loop of the ranking is a greedy selection: what it takes away by equality is the row it chose,
since equal rows are valued alike. So no row is lost or placed twice, each place goes to the best
of what is left, and a row whose score is raised does not come later.
-/

namespace RentCompass.Ranking

variable {py : Python}

/-! ### The first of the greatest -/

lemma pick_spec {α β : Type} [LinearOrder β] (key : α → β) (best : α) (rows : List α) :
    ∃ pre post, best :: rows = pre ++ pick key best rows :: post ∧
      (∀ x ∈ pre, key x < key (pick key best rows)) ∧
        ∀ x ∈ post, key x ≤ key (pick key best rows) := by
  induction rows generalizing best with
  | nil => exact ⟨[], [], rfl, by simp, by simp⟩
  | cons row rows ih =>
    rw [pick]
    split_ifs with hlt
    · obtain ⟨pre, post, hsplit, hpre, hpost⟩ := ih row
      refine ⟨best :: pre, post, by rw [hsplit]; rfl, ?_, hpost⟩
      have hrow : key row ≤ key (pick key row rows) := by
        have hmem : row ∈ pre ++ pick key row rows :: post := hsplit ▸ List.mem_cons_self
        rcases List.mem_append.1 hmem with hmem | hmem
        · exact (hpre row hmem).le
        · rcases List.mem_cons.1 hmem with heq | hmem
          · exact heq ▸ le_rfl
          · exact hpost row hmem
      exact List.forall_mem_cons.2 ⟨hlt.trans_le hrow, hpre⟩
    · obtain ⟨pre, post, hsplit, hpre, hpost⟩ := ih best
      have hle : key row ≤ key best := not_lt.1 hlt
      cases pre with
      | nil =>
        obtain ⟨hbest, rfl⟩ := List.cons.inj hsplit
        refine ⟨[], row :: rows, by rw [← hbest]; rfl, by simp, ?_⟩
        exact List.forall_mem_cons.2 ⟨hbest ▸ hle, hpost⟩
      | cons x pre =>
        obtain ⟨rfl, hrows⟩ := List.cons.inj hsplit
        obtain ⟨hbest, hpre⟩ := List.forall_mem_cons.1 hpre
        refine ⟨best :: row :: pre, post, congrArg (fun rest => best :: row :: rest) hrows, ?_, hpost⟩
        exact List.forall_mem_cons.2 ⟨hbest, List.forall_mem_cons.2 ⟨hle.trans_lt hbest, hpre⟩⟩

/-! ### Equal rows -/

lemma Value.eq_of_textual {v w : Value} (hv : v = .null ∨ ∃ s, v = .str s) (h : v.eq w = true) :
    v = w := by
  obtain rfl | ⟨s, rfl⟩ := hv
  · cases w <;> simp [Value.eq, Value.scalarEq, Value.number?] at h ⊢
  · cases w <;> simp [Value.eq, Value.scalarEq, Value.number?] at h ⊢
    exact h

lemma Value.eqFields_iff {d : List (Text × Value)} {e : Dict Value} :
    Value.eqFields d e = true ↔ ∀ p ∈ d, ∃ w, e.get? p.1 = some w ∧ p.2.eq w = true := by
  induction d with
  | nil => simp [Value.eqFields]
  | cons p d ih =>
    rw [Value.eqFields, Bool.and_eq_true, ih, List.forall_mem_cons]
    refine and_congr_left fun _ => ?_
    cases e.get? p.1 <;> simp

/-- Equal dicts have the same textual fields. -/
lemma get?_eq_of_eqFields {d e : Dict Value} (hd : d.keys.Nodup) (hlength : d.length = e.length)
    (h : Value.eqFields d e = true) {key : Text}
    (hnamed : ∀ v, d.get? key = some v → v = .null ∨ ∃ s, v = .str s) : d.get? key = e.get? key := by
  rw [Value.eqFields_iff] at h
  cases hget : d.get? key with
  | some v =>
    obtain ⟨w, hw, heq⟩ := h _ (Dict.mem_of_get? hget)
    rw [hw, Value.eq_of_textual (hnamed v hget) heq]
  | none =>
    have hsub : d.keys ⊆ e.keys := by
      intro k hk
      obtain ⟨v, hv⟩ := Dict.exists_get? hk
      obtain ⟨w, hw, -⟩ := h _ (Dict.mem_of_get? hv)
      exact Dict.mem_keys_of_get? hw
    have hperm : d.keys.Perm e.keys :=
      (List.subperm_of_subset hd hsub).perm_of_length_le (by simp [Dict.keys, hlength])
    cases hget' : e.get? key with
    | none => rfl
    | some w =>
      obtain ⟨v, hv⟩ := Dict.exists_get? (hperm.mem_iff.2 (Dict.mem_keys_of_get? hget'))
      rw [hget] at hv
      cases hv

lemma Listing.get?_own (l : Listing) {key : Text} (hkey : key ∉ setKeys) :
    l.own.get? key = l.fields.get? key := by
  rw [Listing.own]
  exact Dict.get?_filter (p := fun k => decide (k ∉ setKeys)) (by simpa using hkey)

lemma Listing.own_nodup (l : Listing) : (Dict.keys l.own).Nodup :=
  (List.Sublist.map Prod.fst List.filter_sublist).nodup l.distinct

namespace Prepared

variable {r best : Prepared} {d : ℚ}

/-- An equal row at another place has the same value, score and address. -/
lemma mmr_eq_of_isEqual (h : best.isEqual d r = true) (hindex : r.index ≠ best.index) (lam : ℚ)
    (chosen : List Prepared) : r.mmr py lam chosen = best.mmr py lam chosen := by
  simp only [isEqual, Bool.false_or, Bool.and_eq_true, beq_iff_eq, decide_eq_true_eq,
    decide_eq_false hindex] at h
  obtain ⟨⟨⟨⟨⟨hlength, hfields⟩, hscore⟩, -⟩, htokens⟩, -⟩ := h
  have hget (key : Text) (hkey : key ∈ ["Address", "address"].map Text.ofString) :
      r.listing.fields.get? key = best.listing.fields.get? key := by
    obtain ⟨name, hname, rfl⟩ := List.mem_map.1 hkey
    have hset : Text.ofString name ∉ setKeys := by
      rcases List.mem_pair.1 hname with rfl | rfl <;> decide
    rw [← r.listing.get?_own hset, ← best.listing.get?_own hset]
    refine get?_eq_of_eqFields r.listing.own_nodup hlength hfields fun v hv => ?_
    exact r.listing.named name hname v (by rw [← r.listing.get?_own hset, hv])
  have haddress : r.address py = best.address py := by
    rw [address, address, word, word, hget "Address" (by decide), hget "address" (by decide)]
  rw [mmr, mmr, value, value, similarity, similarity, hscore, htokens, haddress]

end Prepared

/-! ### The loop -/

/-- What is taken away by equality is the chosen row. -/
lemma eraseP_isEqual {pre post : List Prepared} {best : Prepared} {d lam : ℚ}
    {chosen : List Prepared} (hnodup : ((pre ++ best :: post).map Prepared.index).Nodup)
    (hpre : ∀ x ∈ pre, x.mmr py lam chosen < best.mmr py lam chosen) :
    (pre ++ best :: post).eraseP (best.isEqual d) = pre ++ post := by
  have hself : best.isEqual d best = true := by simp [Prepared.isEqual]
  have hnot : ∀ x ∈ pre, ¬ best.isEqual d x = true := by
    intro x hx hequal
    have hindex : x.index ≠ best.index := by
      rw [List.map_append, List.nodup_append] at hnodup
      exact hnodup.2.2 _ (List.mem_map_of_mem hx) _ (by simp)
    exact (hpre x hx).ne (Prepared.mmr_eq_of_isEqual hequal hindex lam chosen)
  rw [List.eraseP_append_right _ hnot, List.eraseP_cons_of_pos hself]

/-- The loop is a greedy selection. -/
lemma exists_greedy (lam : ℚ) {n : Nat} {chosen : List (Prepared × ℚ)} {remaining : List Prepared}
    (hlength : remaining.length ≤ n) (hnodup : (remaining.map Prepared.index).Nodup) :
    ∃ out, Greedy (Prepared.mmr py lam) (chosen.map Prod.fst) remaining out ∧
      (diversify py lam n chosen remaining).map Prod.fst = chosen.map Prod.fst ++ out := by
  induction n generalizing chosen remaining with
  | zero =>
    obtain rfl := List.length_eq_zero_iff.1 (Nat.le_zero.1 hlength)
    exact ⟨[], .nil, by simp [diversify]⟩
  | succ n ih =>
    cases remaining with
    | nil => exact ⟨[], .nil, by simp [diversify]⟩
    | cons row rows =>
      obtain ⟨pre, post, hsplit, hpre, hpost⟩ :=
        pick_spec (Prepared.mmr py lam (chosen.map Prod.fst)) row rows
      rw [diversify]
      generalize pick (Prepared.mmr py lam (chosen.map Prod.fst)) row rows = best at hsplit hpre hpost ⊢
      rw [hsplit] at hlength hnodup ⊢
      have hshorter : (pre ++ post).length ≤ n := by
        simp only [List.length_append, List.length_cons] at hlength ⊢
        omega
      have hdistinct : ((pre ++ post).map Prepared.index).Nodup :=
        hnodup.sublist ((List.Sublist.append_left (List.sublist_cons_self _ _) _).map _)
      rw [eraseP_isEqual hnodup hpre]
      obtain ⟨out, hgreedy, hout⟩ := @ih
        (chosen ++ [(best, Listings.roundCents (best.value lam (chosen.map Prod.fst)))]) (pre ++ post)
        hshorter hdistinct
      rw [List.map_append, List.map_singleton] at hgreedy hout
      exact ⟨best :: out, .pick hpre hpost hgreedy, by rw [hout, List.append_assoc]; rfl⟩

/-- The page without the diversified scores. -/
lemma exists_greedy_of_diversify (lam : ℚ) {prepared : List Prepared}
    (hnodup : (prepared.map Prepared.index).Nodup) :
    Greedy (Prepared.mmr py lam) [] prepared
      ((diversify py lam prepared.length [] prepared).map Prod.fst) := by
  obtain ⟨out, hgreedy, hout⟩ := @exists_greedy py lam _ [] _ le_rfl hnodup
  rw [hout]
  exact hgreedy

/-! ### The laws of the page -/

variable {lam : ℚ} {chosen : List Prepared} {r r' : Prepared}

lemma clamp_nonneg (q : ℚ) : 0 ≤ clamp q := le_max_left _ _

lemma Prepared.value_le_of_mmr_le (h : r.mmr py lam chosen ≤ r'.mmr py lam chosen) :
    r.value lam chosen ≤ r'.value lam chosen := by
  rcases Prod.Lex.toLex_le_toLex.1 h with hlt | ⟨heq, -⟩
  · exact hlt.le
  · exact heq.le

/-- Before anything is chosen, what is valued most has the highest score. -/
lemma Prepared.score_le_of_mmr_le (hlam : 0 ≤ lam) (h : r.mmr py lam [] ≤ r'.mmr py lam []) :
    r.recommendation_score ≤ r'.recommendation_score := by
  have hvalue (x : Prepared) : x.value lam [] = lam * x.recommendation_score := by
    simp [Prepared.value, Prepared.similarity]
  rcases Prod.Lex.toLex_le_toLex.1 h with hlt | ⟨-, hle⟩
  · rw [hvalue, hvalue] at hlt
    exact (lt_of_mul_lt_mul_left hlt hlam).le
  · rcases Prod.Lex.toLex_le_toLex.1 hle with hlt | ⟨heq, -⟩
    · exact hlt.le
    · exact heq.le

/-- The row keeps its place, its likeness to others and its address, and its score at least. -/
structure Prepared.Above (py : Python) (r r' : Prepared) : Prop where
  index : r.index = r'.index
  tokens : r.tokens = r'.tokens
  address : r.address py = r'.address py
  score : r.recommendation_score ≤ r'.recommendation_score

/-- The row at the place may be raised, and every other has its score as before. -/
def Prepared.RaisedAt (py : Python) (i : Nat) (r r' : Prepared) : Prop :=
  r.Above py r' ∧ (r.index ≠ i → r.recommendation_score = r'.recommendation_score)

/-- A row that is not the raised one. -/
def Prepared.SameBut (py : Python) (i : Nat) (r r' : Prepared) : Prop :=
  r.RaisedAt py i r' ∧ r.index ≠ i

lemma similarity_congr {i : Nat} {chosen chosen' : List Prepared}
    (hchosen : List.Forall₂ (Prepared.SameBut py i) chosen chosen')
    (htokens : r.tokens = r'.tokens) : r.similarity chosen = r'.similarity chosen' := by
  have hmap : (chosen.map fun picked => jaccard r.tokens picked.tokens) =
      chosen'.map fun picked => jaccard r'.tokens picked.tokens := by
    induction hchosen with
    | nil => rfl
    | cons hx _ ih => rw [List.map_cons, List.map_cons, ih, hx.1.1.tokens, htokens]
  rw [Prepared.similarity, Prepared.similarity, hmap]

lemma lifts_mmr (hlam : 0 ≤ lam) (i : Nat) : Greedy.Lifts (Prepared.mmr py lam)
    (Prepared.mmr py lam) (Prepared.SameBut py i)
    fun r r' => r.Above py r' ∧ r.index = i where
  same chosen chosen' r r' hchosen h := by
    have hscore := h.1.2 h.2
    have hsimilarity := similarity_congr hchosen h.1.1.tokens
    rw [Prepared.mmr, Prepared.mmr, Prepared.value, Prepared.value, hscore, hsimilarity,
      h.1.1.address]
  raised chosen chosen' r r' hchosen h := by
    have hsimilarity := similarity_congr hchosen h.1.tokens
    have hvalue : r.value lam chosen ≤ r'.value lam chosen' := by
      rw [Prepared.value, Prepared.value, hsimilarity]
      gcongr
      exact h.1.score
    rw [Prepared.mmr, Prepared.mmr, h.1.address]
    refine Prod.Lex.toLex_mono ⟨hvalue, Prod.Lex.toLex_mono ⟨h.1.score, le_rfl⟩⟩

/-- A row whose score is raised, all others staying as they are, does not come later. -/
lemma findIdx_diversify_le (hlam : 0 ≤ lam) (i : Nat) {prepared prepared' : List Prepared}
    (hnodup : (prepared.map Prepared.index).Nodup)
    (h : List.Forall₂ (Prepared.RaisedAt py i) prepared prepared') :
    (diversify py lam prepared'.length [] prepared').findIdx (fun r => r.1.index = i) ≤
      (diversify py lam prepared.length [] prepared).findIdx fun r => r.1.index = i := by
  have hindices : prepared'.map Prepared.index = prepared.map Prepared.index := by
    clear hnodup
    induction h with
    | nil => rfl
    | cons hx _ ih => rw [List.map_cons, List.map_cons, ih, hx.1.index]
  have hfind (l : List (Prepared × ℚ)) : l.findIdx (fun r => r.1.index = i) =
      (l.map Prod.fst).findIdx fun r => r.index = i := by
    rw [List.findIdx_map]
    rfl
  have hremaining : List.Forall₂ (fun r r' => r.SameBut py i r' ∨ r.Above py r' ∧ r.index = i)
      prepared prepared' := by
    refine h.imp fun r r' hr => ?_
    by_cases hi : r.index = i
    · exact .inr ⟨hr.1, hi⟩
    · exact .inl ⟨hr, hi⟩
  rw [hfind, hfind]
  refine Greedy.findIdx_le (lifts_mmr hlam i) (fun r r' hr => ?_) (fun r r' hr => ?_)
    (exists_greedy_of_diversify lam hnodup)
    (exists_greedy_of_diversify lam (hindices.symm ▸ hnodup)) .nil hremaining
  · simpa using hr.2
  · simpa using hr.1.index ▸ hr.2

lemma nodup_prepareAll (py : Python) (rows : List Listing) (request : Request) :
    ((prepareAll py rows request).map Prepared.index).Nodup := by
  have hindex : (prepareAll py rows request).map Prepared.index = rows.zipIdx.map Prod.snd := by
    rw [prepareAll, List.map_map]
    rfl
  rw [hindex, List.zipIdx_map_snd]
  exact List.nodup_range'

/-- The page holds every row once, the row with the highest score first; each place goes to the row
that is worth most after those above it; and a row whose score is raised does not come later. -/
theorem rank_and_diversify_laws (py : Python) (rows : List Listing) (request : Request) :
    ((rank_and_diversify py rows request).map Prod.fst).Perm (prepareAll py rows request) ∧
    (∀ first ∈ (rank_and_diversify py rows request).head?, ∀ r ∈ rank_and_diversify py rows request,
      r.1.recommendation_score ≤ first.1.recommendation_score) ∧
    (∀ n r, (rank_and_diversify py rows request)[n]? = some r →
      ∀ r' ∈ (rank_and_diversify py rows request).drop n,
        r'.1.value (clamp request.diversity_lambda)
            (((rank_and_diversify py rows request).take n).map Prod.fst) ≤
          r.1.value (clamp request.diversity_lambda)
            (((rank_and_diversify py rows request).take n).map Prod.fst)) ∧
    ∀ i prepared prepared', (prepared.map Prepared.index).Nodup →
      List.Forall₂ (Prepared.RaisedAt py i) prepared prepared' →
        (diversify py (clamp request.diversity_lambda) prepared'.length [] prepared').findIdx
            (fun r => r.1.index = i) ≤
          (diversify py (clamp request.diversity_lambda) prepared.length [] prepared).findIdx
            fun r => r.1.index = i := by
  have hgreedy : Greedy (Prepared.mmr py (clamp request.diversity_lambda)) []
      (prepareAll py rows request) ((rank_and_diversify py rows request).map Prod.fst) :=
    exists_greedy_of_diversify _ (nodup_prepareAll py rows request)
  have hmmr {n : Nat} {r r' : Prepared × ℚ} (hr : (rank_and_diversify py rows request)[n]? = some r)
      (hr' : r' ∈ (rank_and_diversify py rows request).drop n) :
      r'.1.mmr py (clamp request.diversity_lambda)
          (((rank_and_diversify py rows request).take n).map Prod.fst) ≤
        r.1.mmr py (clamp request.diversity_lambda)
          (((rank_and_diversify py rows request).take n).map Prod.fst) := by
    have hplace : ((rank_and_diversify py rows request).map Prod.fst)[n]? = some r.1 := by
      rw [List.getElem?_map, hr]
      rfl
    have hlater : r'.1 ∈ ((rank_and_diversify py rows request).map Prod.fst).drop n := by
      rw [← List.map_drop]
      exact List.mem_map_of_mem hr'
    have hle := hgreedy.key_le hplace hlater
    rwa [List.nil_append, ← List.map_take] at hle
  refine ⟨hgreedy.perm, ?_, ?_, ?_⟩
  · intro first hfirst r hr
    rw [List.head?_eq_getElem?] at hfirst
    exact Prepared.score_le_of_mmr_le (clamp_nonneg _) (hmmr hfirst hr)
  · intro n r hr r' hr'
    exact Prepared.value_le_of_mmr_le (hmmr hr hr')
  · intro i prepared prepared' hnodup h
    exact findIdx_diversify_le (clamp_nonneg _) i hnodup h

/-! ### A page of two flats -/

/-- An interpreter that reads no numbers from texts. -/
def plainPython : Python where
  floatOf _ := none
  lower t := t
  repr _ := []

/-- A flat, with an address and a rent. -/
def flat (address : String) (price : Int) : Listing where
  fields := [("Address", .str address), ("price", .int price)]
  distinct := (by decide : (["Address", "price"].map Text.ofString).Nodup)
  named := by
    intro key hkey v hv
    right
    rcases List.mem_pair.1 hkey with rfl | rfl
    · exact ⟨address, (Option.some.inj hv).symm⟩
    · cases hv

/-- The copies of two flats at the same rent, and with the score of the second raised. -/
def twoFlats : List Prepared :=
  prepareAll plainPython [flat "12 mill lane" 1000, flat "9 mill lane" 1000] {}

def raisedFlats : List Prepared :=
  twoFlats.map fun r => if r.index = 1 then { r with recommendation_score := 100 } else r

theorem raised_flat_not_later :
    (diversify plainPython (clamp (88 / 100)) 2 [] raisedFlats).findIdx (fun r => r.1.index = 1) ≤
      (diversify plainPython (clamp (88 / 100)) 2 [] twoFlats).findIdx fun r => r.1.index = 1 := by
  refine (rank_and_diversify_laws plainPython [] {}).2.2.2 1 twoFlats raisedFlats (by decide +kernel) ?_
  refine .cons ⟨⟨rfl, rfl, rfl, ?_⟩, ?_⟩ (.cons ⟨⟨rfl, rfl, rfl, ?_⟩, ?_⟩ .nil)
  · exact le_rfl
  · exact fun _ => rfl
  · decide +kernel
  · exact fun h => absurd rfl h

end RentCompass.Ranking
