import Mathlib.Data.List.Nodup
import Mathlib.Data.List.Pairwise
import Mathlib.Order.Nat
import RentCompass.Runs

/-!
# Caches by recency

A cache of bounded size whose entries also grow old: using a key first removes what has expired,
then puts the key last, and removes from the front what is too much. Keys can be dropped at any
time. Whether an entry survives a run can be read off the run: how many other keys came to be
newer than it, and how much later it is.
-/

namespace Recency

/-- What the cache has for a key, and when the key was used last. -/
structure Entry (κ ν : Type*) where
  key : κ
  value : ν
  touched : ℕ

variable {κ ν : Type*}

/-- Remove the keys that `p` holds of. -/
def dropKeys (p : κ → Bool) (l : List (Entry κ ν)) : List (Entry κ ν) :=
  l.filter fun e => !p e.key

/-- Remove what has not been used for `ttl`. -/
def expire (ttl now : ℕ) (l : List (Entry κ ν)) : List (Entry κ ν) :=
  l.filter fun e => now < e.touched + ttl

@[simp] lemma mem_dropKeys {p : κ → Bool} {l : List (Entry κ ν)} {e : Entry κ ν} :
    e ∈ dropKeys p l ↔ e ∈ l ∧ p e.key = false := by
  simp [dropKeys]

@[simp] lemma mem_expire {ttl now : ℕ} {l : List (Entry κ ν)} {e : Entry κ ν} :
    e ∈ expire ttl now l ↔ e ∈ l ∧ now < e.touched + ttl := by
  simp [expire]

/-- The entry is in the cache, and `newer` are the keys after it. -/
def Holds (e : Entry κ ν) (newer : List κ) (l : List (Entry κ ν)) : Prop :=
  ∃ older rest, l = older ++ e :: rest ∧ rest.map (·.key) = newer

lemma Holds.mem {e : Entry κ ν} {newer : List κ} {l : List (Entry κ ν)} (h : Holds e newer l) :
    e ∈ l := by
  obtain ⟨older, rest, rfl, -⟩ := h
  simp

/-- The cache has every key once, in the order of use, and is not too long. -/
structure Ordered (cap now : ℕ) (l : List (Entry κ ν)) : Prop where
  keys : (l.map (·.key)).Nodup
  order : l.Pairwise fun e e' => e.touched ≤ e'.touched
  past : ∀ e ∈ l, e.touched ≤ now
  size : l.length ≤ cap

lemma ordered_nil (cap now : ℕ) : Ordered cap now ([] : List (Entry κ ν)) :=
  ⟨List.nodup_nil, List.Pairwise.nil, by simp, Nat.zero_le _⟩

lemma Ordered.sublist {cap now : ℕ} {l l' : List (Entry κ ν)} (h : Ordered cap now l)
    (hsub : l'.Sublist l) : Ordered cap now l' :=
  ⟨h.keys.sublist (hsub.map _), h.order.sublist hsub, fun e he => h.past e (hsub.subset he),
    hsub.length_le.trans h.size⟩

/-- What happens to a cache: a key is used, with the value it gets if it has none, or keys are
dropped. -/
inductive Event (κ ν : Type*) where
  | use (k : κ) (v : ν) (now : ℕ)
  | drop (p : κ → Bool)

/-- The clock an event shows, if it shows one. -/
def Event.time : Event κ ν → Option ℕ
  | .use _ _ now => some now
  | .drop _ => none

/-- The clock readings of a run. -/
def times (evs : List (Event κ ν)) : List ℕ := evs.filterMap Event.time

@[simp] lemma times_use (k : κ) (v : ν) (t : ℕ) (evs : List (Event κ ν)) :
    times (.use k v t :: evs) = t :: times evs := rfl

@[simp] lemma times_drop (p : κ → Bool) (evs : List (Event κ ν)) :
    times (.drop p :: evs) = times evs := rfl

/-- The clock after an event. -/
lemma exists_clock {now : ℕ} {ev : Event κ ν} {evs : List (Event κ ν)}
    (h : (now :: times (ev :: evs)).Pairwise (· ≤ ·)) :
    ∃ now', now ≤ now' ∧ (∀ t, ev.time = some t → now' = t) ∧
      (now' :: times evs).Pairwise (· ≤ ·) := by
  cases ev with
  | use k v t =>
    rw [times_use, List.pairwise_cons] at h
    exact ⟨t, h.1 t (by simp), fun t' ht' => Option.some.inj ht', h.2⟩
  | drop p =>
    refine ⟨now, le_rfl, ?_, h⟩
    intro t ht
    cases ht

variable [DecidableEq κ]

/-- The value of a key. -/
def find? (l : List (Entry κ ν)) (k : κ) : Option ν := (l.find? (·.key = k)).map (·.value)

/-- Put a key last, and remove from the front what is too much. -/
def touch (cap : ℕ) (k : κ) (v : ν) (now : ℕ) (l : List (Entry κ ν)) : List (Entry κ ν) :=
  let l' := l.filter (·.key ≠ k) ++ [⟨k, v, now⟩]
  l'.drop (l'.length - cap)

/-- The effect of an event. -/
def step (cap ttl : ℕ) (l : List (Entry κ ν)) : Event κ ν → List (Entry κ ν)
  | .use k v now =>
    let l := expire ttl now l
    touch cap k ((find? l k).getD v) now l
  | .drop p => dropKeys p l

/-! ### Entries -/

lemma mem_of_mem_touch {cap : ℕ} {k : κ} {v : ν} {now : ℕ} {l : List (Entry κ ν)}
    {e : Entry κ ν} (h : e ∈ touch cap k v now l) : e ∈ l ∧ e.key ≠ k ∨ e = ⟨k, v, now⟩ := by
  have := List.mem_of_mem_drop h
  simpa using this

lemma find?_eq_none {l : List (Entry κ ν)} {k : κ} :
    find? l k = none ↔ ∀ e ∈ l, e.key ≠ k := by
  simp [find?]

lemma find?_eq_some {l : List (Entry κ ν)} (hkeys : (l.map (·.key)).Nodup) {k : κ} {v : ν} :
    find? l k = some v ↔ ∃ t, ⟨k, v, t⟩ ∈ l := by
  constructor
  · intro h
    obtain ⟨e, he, rfl⟩ := Option.map_eq_some_iff.1 h
    have hkey : e.key = k := by simpa using List.find?_some he
    subst hkey
    exact ⟨e.touched, List.mem_of_find?_eq_some he⟩
  · rintro ⟨t, ht⟩
    cases hfind : find? l k with
    | none => exact absurd rfl (find?_eq_none.1 hfind _ ht)
    | some w =>
      obtain ⟨e, he, rfl⟩ := Option.map_eq_some_iff.1 hfind
      have hkey : e.key = k := by simpa using List.find?_some he
      have := List.inj_on_of_nodup_map hkeys (List.mem_of_find?_eq_some he) ht hkey
      rw [this]

lemma nodup_touch {l : List (Entry κ ν)} (h : (l.map (·.key)).Nodup) (cap : ℕ) (k : κ) (v : ν)
    (now : ℕ) : ((touch cap k v now l).map (·.key)).Nodup := by
  have hkeys : ((l.filter (·.key ≠ k) ++ [(⟨k, v, now⟩ : Entry κ ν)]).map (·.key)).Nodup := by
    rw [List.map_append, List.map_singleton]
    refine (h.sublist (List.filter_sublist.map _)).append (List.nodup_singleton _) ?_
    rw [List.disjoint_singleton]
    simp
  exact hkeys.sublist ((List.drop_sublist _ _).map _)

lemma length_touch_le (cap : ℕ) (k : κ) (v : ν) (now : ℕ) (l : List (Entry κ ν)) :
    (touch cap k v now l).length ≤ cap := by
  rw [touch, List.length_drop]
  omega

lemma Ordered.touch {cap now now' : ℕ} {l : List (Entry κ ν)} (h : Ordered cap now l)
    (hnow : now ≤ now') (k : κ) (v : ν) : Ordered cap now' (touch cap k v now' l) := by
  have horder : (l.filter (·.key ≠ k) ++ [(⟨k, v, now'⟩ : Entry κ ν)]).Pairwise
      fun e e' => e.touched ≤ e'.touched := by
    rw [List.pairwise_append]
    refine ⟨h.order.sublist List.filter_sublist, List.pairwise_singleton _ _, ?_⟩
    intro e he e' he'
    rw [List.mem_singleton.1 he']
    exact (h.past e (List.mem_of_mem_filter he)).trans hnow
  refine ⟨nodup_touch h.keys _ _ _ _, horder.sublist (List.drop_sublist _ _), fun e he => ?_,
    length_touch_le _ _ _ _ _⟩
  rcases mem_of_mem_touch he with ⟨he, -⟩ | rfl
  · exact (h.past e he).trans hnow
  · exact le_rfl

/-- An event that does not turn the clock back keeps the cache in order. -/
lemma Ordered.step {cap now now' : ℕ} {l : List (Entry κ ν)} (h : Ordered cap now l) (ttl : ℕ)
    {ev : Event κ ν} (hle : now ≤ now') (htime : ∀ t, ev.time = some t → now' = t) :
    Ordered cap now' (step cap ttl l ev) := by
  have hpast : Ordered cap now' l := ⟨h.keys, h.order, fun e he => (h.past e he).trans hle, h.size⟩
  cases ev with
  | use k v t =>
    obtain rfl := htime t rfl
    exact (h.sublist List.filter_sublist).touch hle _ _
  | drop p => exact hpast.sublist List.filter_sublist

/-- A cache stays in order as long as the clock does not turn back. -/
lemma Ordered.run {cap ttl now t : ℕ} {l : List (Entry κ ν)} (h : Ordered cap now l)
    {evs : List (Event κ ν)} (hclock : (now :: times evs).Pairwise (· ≤ ·))
    (hlast : ∀ t' ∈ now :: times evs, t' ≤ t) :
    Ordered cap t (Runs.run (Recency.step cap ttl) l evs) := by
  induction evs generalizing l now with
  | nil =>
    have := hlast now (by simp)
    exact ⟨h.keys, h.order, fun e he => (h.past e he).trans this, h.size⟩
  | cons ev evs ih =>
    cases ev with
    | use k v now' =>
      rw [times_use] at hclock hlast
      obtain ⟨hle, htail⟩ := List.pairwise_cons.1 hclock
      refine ih (h.step ttl (hle now' (by simp)) fun t ht => Option.some.inj ht) htail ?_
      intro t' ht'
      exact hlast t' (List.mem_cons_of_mem _ ht')
    | drop p =>
      refine ih (h.step ttl le_rfl fun t ht => ?_) hclock hlast
      cases ht

/-! ### Survival -/

/-- The keys newer than an entry, after one more event. -/
def newerStep (newer : List κ) : Event κ ν → List κ
  | .use k _ _ => newer.filter (· ≠ k) ++ [k]
  | .drop p => newer.filter fun k => !p k

/-- The event leaves the key `k`, used at `t`, where it is. -/
def Leaves (cap ttl : ℕ) (k : κ) (t : ℕ) (newer : List κ) (ev : Event κ ν) : Prop :=
  match ev with
  | .use _ _ now => now < t + ttl ∧ (newerStep newer ev).length < cap
  | .drop p => p k = false

/-- A key that is absent stays so until it is used. -/
lemma absent_step {cap ttl : ℕ} {l : List (Entry κ ν)} {k : κ} (h : ∀ e ∈ l, e.key ≠ k)
    {ev : Event κ ν} (hev : ∀ v now, ev ≠ .use k v now) : ∀ e ∈ step cap ttl l ev, e.key ≠ k := by
  intro e he
  cases ev with
  | use k' v now =>
    rcases mem_of_mem_touch he with ⟨he, -⟩ | rfl
    · exact h e (mem_expire.1 he).1
    · rintro rfl
      exact hev v now rfl
  | drop p => exact h e (mem_dropKeys.1 he).1

lemma absent_run {cap ttl : ℕ} {l : List (Entry κ ν)} {k : κ} (h : ∀ e ∈ l, e.key ≠ k)
    {evs : List (Event κ ν)} (hevs : ∀ ev ∈ evs, ∀ v now, ev ≠ .use k v now) :
    ∀ e ∈ Runs.run (step cap ttl) l evs, e.key ≠ k := by
  induction evs generalizing l with
  | nil => exact h
  | cons ev evs ih =>
    exact ih (absent_step h (hevs ev (by simp))) fun ev' hev' => hevs ev' (by simp [hev'])

lemma mem_of_mem_drop_append {α : Type*} {as bs : List α} {a b : α} {n : ℕ} (hn : as.length < n)
    (h : b ∈ (as ++ a :: bs).drop n) : b ∈ bs := by
  have hnil : (as ++ [a]).drop n = [] := by
    apply List.drop_eq_nil_of_le
    rw [List.length_append, List.length_singleton]
    exact hn
  rw [List.append_cons, List.drop_append, hnil, List.nil_append] at h
  exact List.mem_of_mem_drop h

/-- One event, as seen from an entry: the entry stays and the keys after it are the newer ones, or
its key is gone. -/
lemma Holds.step {cap now : ℕ} {l : List (Entry κ ν)} {e : Entry κ ν} {newer : List κ}
    (h : Holds e newer l) (ttl : ℕ) (hl : Ordered cap now l) {ev : Event κ ν}
    (hev : ∀ v t, ev ≠ .use e.key v t) :
    (Leaves cap ttl e.key e.touched newer ev → Holds e (newerStep newer ev) (Recency.step cap ttl l ev)) ∧
      (¬ Leaves cap ttl e.key e.touched newer ev →
        ∀ e' ∈ Recency.step cap ttl l ev, e'.key ≠ e.key) := by
  obtain ⟨older, rest, rfl, rfl⟩ := h
  cases ev with
  | drop p =>
    constructor
    · intro hp
      refine ⟨dropKeys p older, dropKeys p rest, ?_, ?_⟩
      · have hp' : p e.key = false := hp
        simp [Recency.step, dropKeys, hp']
      · simp only [newerStep, dropKeys, List.filter_map, Function.comp_def]
    · intro hp e' he' heq
      exact hp (heq ▸ (mem_dropKeys.1 he').2)
  | use k v t =>
    have hk : e.key ≠ k := fun heq => hev v t (heq ▸ rfl)
    have hkeys := hl.keys
    rw [List.map_append, List.map_cons, List.nodup_append] at hkeys
    by_cases htime : t < e.touched + ttl
    · -- nothing newer has expired either
      have hrest : expire ttl t rest = rest := by
        rw [expire, List.filter_eq_self]
        intro e' he'
        have := (List.pairwise_cons.1 (List.pairwise_append.1 hl.order).2.1).1 e' he'
        simp only [decide_eq_true_eq]
        omega
      have hexpire : expire ttl t (older ++ e :: rest) = expire ttl t older ++ e :: rest := by
        have : expire ttl t (e :: rest) = e :: rest := by
          rw [expire, List.filter_cons_of_pos (by simpa using htime)]
          exact congrArg _ hrest
        rw [← this]
        simp [expire]
      obtain ⟨w, hw⟩ : ∃ w, Recency.step cap ttl (older ++ e :: rest) (.use k v t) =
          touch cap k w t (expire ttl t older ++ e :: rest) := ⟨_, by rw [Recency.step, hexpire]⟩
      have hlist : (expire ttl t older ++ e :: rest).filter (·.key ≠ k) ++ [⟨k, w, t⟩] =
          (expire ttl t older).filter (·.key ≠ k) ++
            e :: (rest.filter (·.key ≠ k) ++ [⟨k, w, t⟩]) := by
        simp [hk]
      have hnewer : (rest.filter (·.key ≠ k) ++ [(⟨k, w, t⟩ : Entry κ ν)]).map (·.key) =
          newerStep (rest.map (·.key)) (.use k v t) := by
        simp [newerStep, List.filter_map, Function.comp_def]
      have hlen : (newerStep (rest.map (·.key)) (Event.use k v t)).length =
          (rest.filter (·.key ≠ k) ++ [(⟨k, w, t⟩ : Entry κ ν)]).length := by
        rw [← hnewer, List.length_map]
      rw [hw, touch, hlist]
      constructor
      · rintro ⟨-, hcap⟩
        rw [hlen] at hcap
        refine ⟨_, _, List.drop_append_of_le_length ?_, hnewer⟩
        rw [List.length_append, List.length_cons]
        omega
      · intro hnot e' he' heq
        have hcap : cap ≤ (newerStep (rest.map (·.key)) (Event.use k v t)).length :=
          not_lt.1 fun h => hnot ⟨htime, h⟩
        rw [hlen] at hcap
        have hmem : e' ∈ rest.filter (·.key ≠ k) ++ [(⟨k, w, t⟩ : Entry κ ν)] := by
          refine mem_of_mem_drop_append ?_ he'
          rw [List.length_append, List.length_cons]
          omega
        rcases List.mem_append.1 hmem with hmem | hmem
        · have hin := List.mem_of_mem_filter hmem
          exact (List.nodup_cons.1 hkeys.2.1).1 (heq ▸ List.mem_map_of_mem hin)
        · rw [List.mem_singleton.1 hmem] at heq
          exact hk heq.symm
    · refine ⟨fun h => absurd h.1 htime, fun _ e' he' heq => ?_⟩
      rcases mem_of_mem_touch he' with ⟨he', -⟩ | rfl
      · obtain ⟨hmem, hlive⟩ := mem_expire.1 he'
        have hmem' : e ∈ older ++ e :: rest := by simp
        rw [List.inj_on_of_nodup_map hl.keys hmem hmem' heq] at hlive
        exact htime hlive
      · exact hk heq.symm

/-- From `newer` on, every event leaves the entry where it is. -/
def Survives (cap ttl : ℕ) (k : κ) (t : ℕ) (newer : List κ) (evs : List (Event κ ν)) : Prop :=
  Runs.Along newerStep (Leaves cap ttl k t) newer evs

/-- **Survival.** In a run that does not use its key, an entry is kept or is lost for good, and
which of the two can be read off the events. -/
theorem Holds.run {cap now : ℕ} {l : List (Entry κ ν)} {e : Entry κ ν} {newer : List κ}
    (h : Holds e newer l) (ttl : ℕ) (hl : Ordered cap now l) {evs : List (Event κ ν)}
    (hclock : (now :: times evs).Pairwise (· ≤ ·))
    (hevs : ∀ ev ∈ evs, ∀ v t, ev ≠ .use e.key v t) :
    (Survives cap ttl e.key e.touched newer evs → e ∈ Runs.run (Recency.step cap ttl) l evs) ∧
      (¬ Survives cap ttl e.key e.touched newer evs →
        ∀ e' ∈ Runs.run (Recency.step cap ttl) l evs, e'.key ≠ e.key) := by
  induction evs generalizing l newer now with
  | nil => exact ⟨fun _ => h.mem, fun hnot => absurd trivial hnot⟩
  | cons ev evs ih =>
    have hquiet := hevs ev (by simp)
    have hrest : ∀ ev' ∈ evs, ∀ v t, ev' ≠ .use e.key v t := fun ev' hev' => hevs ev' (by simp [hev'])
    obtain ⟨hstays, hgoes⟩ := h.step ttl hl hquiet
    obtain ⟨now', hle, htime, hclock'⟩ := exists_clock hclock
    have hl' := hl.step ttl hle htime
    rw [Runs.run_cons]
    by_cases hleaves : Leaves cap ttl e.key e.touched newer ev
    · have hnext := ih (hstays hleaves) hl' hclock' hrest
      refine ⟨fun hs => hnext.1 hs.2, fun hs => hnext.2 fun hs' => hs ⟨hleaves, hs'⟩⟩
    · refine ⟨fun hs => absurd hs.1 hleaves, fun _ => ?_⟩
      exact absent_run (hgoes hleaves) hrest

/-- The event neither drops the key `k` nor comes when what was used at `t` has expired. -/
def Event.Spares (ttl : ℕ) (k : κ) (t : ℕ) : Event κ ν → Prop
  | .use _ _ now => now < t + ttl
  | .drop p => p k = false

/-- An entry survives if every event spares it and there are never too many newer keys. -/
theorem survives_iff {cap : ℕ} {newer : List κ} (hnewer : newer.length < cap) (ttl : ℕ) (k : κ)
    (t : ℕ) (evs : List (Event κ ν)) : Survives cap ttl k t newer evs ↔
      (∀ ev ∈ evs, ev.Spares ttl k t) ∧
        ∀ n, ((evs.take n).foldl newerStep newer).length < cap := by
  induction evs generalizing newer with
  | nil => simpa [Survives] using hnewer
  | cons ev evs ih =>
    have hleaves : Leaves cap ttl k t newer ev ↔
        ev.Spares ttl k t ∧ (newerStep newer ev).length < cap := by
      cases ev with
      | use k' v now => exact Iff.rfl
      | drop p =>
        refine ⟨fun hp => ⟨hp, ?_⟩, fun h => h.1⟩
        exact (List.length_filter_le _ _).trans_lt hnewer
    have htake : (∀ n, (((ev :: evs).take n).foldl newerStep newer).length < cap) ↔
        ∀ n, ((evs.take n).foldl newerStep (newerStep newer ev)).length < cap := by
      constructor
      · intro h n
        exact h (n + 1)
      · intro h n
        cases n with
        | zero => exact hnewer
        | succ n => exact h n
    rw [Survives, Runs.along_cons, hleaves, htake]
    simp only [List.mem_cons, forall_eq_or_imp]
    constructor
    · rintro ⟨⟨hspares, hlen⟩, hs⟩
      obtain ⟨hall, htakes⟩ := (ih hlen).1 hs
      exact ⟨⟨hspares, hall⟩, htakes⟩
    · rintro ⟨⟨hspares, hall⟩, htakes⟩
      have hlen := htakes 0
      exact ⟨⟨hspares, hlen⟩, (ih hlen).2 ⟨hall, htakes⟩⟩

/-- A key that was used is the newest. -/
lemma holds_touch {cap : ℕ} (hcap : 0 < cap) (k : κ) (v : ν) (now : ℕ) (l : List (Entry κ ν)) :
    Holds ⟨k, v, now⟩ [] (touch cap k v now l) := by
  refine ⟨(l.filter (·.key ≠ k)).drop ((l.filter (·.key ≠ k)).length + 1 - cap), [], ?_, rfl⟩
  rw [touch, List.length_append, List.length_singleton]
  apply List.drop_append_of_le_length
  omega

end Recency
