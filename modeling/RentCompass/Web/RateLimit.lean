import RentCompass.Sha256
import RentCompass.Runs
import Mathlib.Order.MinMax

/-!
# The rate limiter

A sliding window of charges for each key, kept either in memory, one deque for a key, or in a
table that all processes share. The two modes answer alike as long as no call finds itself at its
limit because of a charge that an earlier call, with a shorter window, has already pruned from the
table.
-/

namespace RentCompass.Web

variable {τ : Type}

/-- Arithmetic on the times a clock shows. -/
structure Clock (τ : Type) where
  /-- `now - window_seconds`. -/
  cutoff : (now : τ) → (window : Int) → τ
  /-- `int(oldest + window_seconds - now)`. -/
  wait : (oldest : τ) → (window : Int) → (now : τ) → Int
  /-- `not t`. -/
  isZero : τ → Bool

/-- A call of the limiter; what the clock shows is part of it. -/
inductive LimiterCall (τ : Type) where
  | allow (now : τ) (key : Text) (limit window : Int)
  | refund (key : Text)

def LimiterCall.key : LimiterCall τ → Text
  | .allow _ key _ _ => key
  | .refund key => key

def LimiterCall.time : LimiterCall τ → Option τ
  | .allow now _ _ _ => some now
  | .refund _ => none

inductive LimiterReply where
  /-- `ValueError`. -/
  | invalid
  /-- `UnicodeEncodeError`. -/
  | unencodable
  | decision (allowed : Bool) (retryAfter : Int)
  | refunded
  deriving DecidableEq

def Clock.retryAfter (clk : Clock τ) (oldest : τ) (window : Int) (now : τ) : Int :=
  max 1 (clk.wait oldest window now + 1)

variable [LinearOrder τ] (clk : Clock τ)

/-! ### In memory -/

/-- `_events`. -/
abbrev Buckets (τ : Type) := Text → List τ

/-- What is left of a bucket in the window of a call. -/
def inWindow (cutoff : τ) (bucket : List τ) : List τ := bucket.dropWhile (· ≤ cutoff)

/-- `SlidingWindowRateLimiter.allow` and `refund`, without a database. -/
def Buckets.call (events : Buckets τ) : LimiterCall τ → Buckets τ × LimiterReply
  | .allow now key limit window =>
    if limit < 1 ∨ window < 1 then (events, .invalid)
    else
      let bucket := inWindow (clk.cutoff now window) (events key)
      match bucket.head? with
      | some oldest =>
        if limit ≤ bucket.length then
          (Function.update events key bucket,
            .decision false (clk.retryAfter oldest window now))
        else (Function.update events key (bucket ++ [now]), .decision true 0)
      | none => (Function.update events key (bucket ++ [now]), .decision true 0)
  | .refund key => (Function.update events key (events key).dropLast, .refunded)

/-! ### In the database -/

/-- A row of `rate_limit_events`. -/
structure RateEvent (τ : Type) where
  subjectHash : Text
  occurred : τ
  deriving DecidableEq

/-- `rate_limit_events`, by row id. -/
abbrev RateTable (τ : Type) := List (RateEvent τ)

/-- The charges of a subject. -/
def RateTable.charges (t : RateTable τ) (subject : Text) : List τ :=
  (t.filter (·.subjectHash = subject)).map (·.occurred)

/-- The latest charge of a subject is deleted. -/
def RateTable.refund (t : RateTable τ) (subject : Text) : RateTable τ :=
  match (t.charges subject).max? with
  | some latest => t.erase ⟨subject, latest⟩
  | none => t

/-- `_allow_shared`, and `refund` with a database. -/
def RateTable.call (t : RateTable τ) : LimiterCall τ → RateTable τ × LimiterReply
  | .allow now key limit window =>
    if limit < 1 ∨ window < 1 then (t, .invalid)
    else if ¬ key.Storable then (t, .unencodable)
    else
      let cutoff := clk.cutoff now window
      let subject := Sha256.hexDigest key
      -- of every subject, by this call's window
      let rows : RateTable τ := t.filter fun e => ¬ e.occurred ≤ cutoff
      let matching := (rows.charges subject).filter (cutoff < ·)
      if limit ≤ matching.length then
        let oldest := (matching.min?.filter (!clk.isZero ·)).getD now
        (rows, .decision false (clk.retryAfter oldest window now))
      else (rows ++ [⟨subject, now⟩], .decision true 0)
  | .refund key =>
    if ¬ key.Storable then (t, .unencodable) else (t.refund (Sha256.hexDigest key), .refunded)

/-! ### Histories -/

def Buckets.replies (events : Buckets τ) : List (LimiterCall τ) → List LimiterReply
  | [] => []
  | c :: calls => (events.call clk c).2 :: Buckets.replies (events.call clk c).1 calls

def RateTable.replies (t : RateTable τ) : List (LimiterCall τ) → List LimiterReply
  | [] => []
  | c :: calls => (t.call clk c).2 :: RateTable.replies (t.call clk c).1 calls

/-- The replies to the calls for one key. -/
def repliesFor (key : Text) (calls : List (LimiterCall τ)) (replies : List LimiterReply) :
    List LimiterReply :=
  ((calls.zip replies).filter (·.1.key = key)).map (·.2)

/-! ### What the calls so far have done -/

/-- The cutoff a call prunes by. -/
def LimiterCall.prunes : LimiterCall τ → Option τ
  | .allow now _ limit window =>
    if limit < 1 ∨ window < 1 then none else some (clk.cutoff now window)
  | .refund _ => none

/-- The buckets after some calls, the keys they charged and the cutoffs they pruned by. -/
structure Past (τ : Type) where
  events : Buckets τ
  keys : List Text
  cutoffs : List τ

def Past.start : Past τ := ⟨fun _ => [], [], []⟩

def Past.step (p : Past τ) (c : LimiterCall τ) : Past τ where
  events := (p.events.call clk c).1
  keys := ((c.prunes clk).map fun _ => c.key).toList ++ p.keys
  cutoffs := (c.prunes clk).toList ++ p.cutoffs

/-- No other key that was charged has the digest of this one. -/
def Past.Own (p : Past τ) (key : Text) : Prop :=
  ∀ other ∈ p.keys, Sha256.hexDigest other = Sha256.hexDigest key → other = key

/-- The call is below its limit, or the oldest charge in its window is later than every cutoff so
far, and not at the clock's zero. -/
def Past.Undisturbed (p : Past τ) : LimiterCall τ → Prop
  | .allow now key limit window => 1 ≤ limit → 1 ≤ window → key.Storable ∧ p.Own key ∧
      let bucket := inWindow (clk.cutoff now window) (p.events key)
      (bucket.length < limit ∨
        ∀ oldest ∈ bucket.head?, clk.isZero oldest = false ∧ ∀ c ∈ p.cutoffs, c < oldest)
  | .refund key => key.Storable ∧ p.Own key

/-! ### Buckets and charges -/

lemma inWindow_eq_filter {cutoff : τ} {bucket : List τ} (h : bucket.Pairwise (· ≤ ·)) :
    inWindow cutoff bucket = bucket.filter (cutoff < ·) := by
  induction bucket with
  | nil => rfl
  | cons t bucket ih =>
    obtain ⟨hle, hsorted⟩ := List.pairwise_cons.1 h
    by_cases ht : t ≤ cutoff
    · have hnot : ¬ cutoff < t := not_lt.2 ht
      rw [inWindow, List.dropWhile_cons_of_pos (by simpa using ht),
        List.filter_cons_of_neg (by simpa using hnot)]
      exact ih hsorted
    · have hall : ∀ e ∈ t :: bucket, cutoff < e := by
        intro e he
        rcases List.mem_cons.1 he with rfl | he
        · exact not_le.1 ht
        · exact (not_le.1 ht).trans_le (hle e he)
      rw [inWindow, List.dropWhile_cons_of_neg (by simpa using ht), eq_comm, List.filter_eq_self]
      simpa using hall

/-- In order, the latest charge is the last. -/
lemma erase_max_eq_dropLast {l : List τ} {latest : τ} (h : l.Pairwise (· ≤ ·))
    (hmax : l.max? = some latest) : l.erase latest = l.dropLast := by
  have hmem : latest ∈ l := List.max?_mem hmax
  have hne : l ≠ [] := List.ne_nil_of_mem hmem
  have hlast : l.getLast hne = latest := by
    refine le_antisymm ((List.max?_le_iff hmax).1 le_rfl _ (List.getLast_mem hne)) ?_
    have hsplit := List.dropLast_append_getLast hne
    rw [← hsplit] at h hmem
    rcases List.mem_append.1 hmem with hin | hin
    · exact (List.pairwise_append.1 h).2.2 _ hin _ (by simp)
    · exact (List.mem_singleton.1 hin).le
  have hperm : (latest :: l.erase latest).Perm (latest :: l.dropLast) := by
    refine (List.perm_cons_erase hmem).symm.trans ?_
    conv_lhs => rw [← List.dropLast_append_getLast hne, hlast]
    exact List.perm_append_singleton latest l.dropLast
  exact hperm.cons_inv.eq_of_pairwise (fun a b _ _ => le_antisymm)
    (h.sublist (List.erase_sublist)) (h.sublist (List.dropLast_sublist l))

lemma min?_eq_head? {l : List τ} (h : l.Pairwise (· ≤ ·)) : l.min? = l.head? := by
  cases l with
  | nil => rfl
  | cons t l =>
    rw [List.head?_cons, List.min?_eq_some_iff]
    refine ⟨by simp, fun e he => ?_⟩
    rcases List.mem_cons.1 he with rfl | he
    · exact le_rfl
    · exact (List.pairwise_cons.1 h).1 e he

lemma RateTable.charges_filter (t : RateTable τ) (subject : Text) (cutoff : τ) :
    RateTable.charges (t.filter fun e => ¬ e.occurred ≤ cutoff) subject =
      (t.charges subject).filter (cutoff < ·) := by
  simp only [RateTable.charges, List.filter_map, List.filter_filter]
  congr 1
  refine List.filter_congr fun e _ => ?_
  simp [Bool.and_comm]

lemma RateTable.charges_erase (t : RateTable τ) (subject s : Text) (at' : τ) :
    RateTable.charges (t.erase ⟨s, at'⟩) subject =
      if s = subject then (t.charges subject).erase at' else t.charges subject := by
  induction t with
  | nil => simp [RateTable.charges]
  | cons e t ih =>
    obtain ⟨s', o⟩ := e
    by_cases he : s' = s ∧ o = at'
    · obtain ⟨rfl, rfl⟩ := he
      by_cases h : s' = subject <;> simp [RateTable.charges, h]
    · have hne : ¬ ((⟨s', o⟩ : RateEvent τ) == ⟨s, at'⟩) = true := by
        simpa [RateEvent.mk.injEq] using he
      rw [List.erase_cons_tail hne]
      by_cases hs : s' = subject
      · subst hs
        by_cases h : s = s'
        · subst h
          have ho : o ≠ at' := fun h => he ⟨rfl, h⟩
          simp only [RateTable.charges, List.filter_cons, decide_true, if_true, List.map_cons,
            List.erase_cons] at ih ⊢
          simp [ho, ih]
        · simp only [RateTable.charges, List.filter_cons, decide_true, if_true, List.map_cons,
            h, if_false] at ih ⊢
          rw [ih]
      · simpa [RateTable.charges, hs] using ih

/-! ### The two modes, side by side -/

/-- The table is the buckets without charges that some call's cutoff has passed. -/
structure Tracks (p : Past τ) (t : RateTable τ) : Prop where
  sorted : ∀ key, (p.events key).Pairwise (· ≤ ·)
  kept : ∀ key, p.Own key → ∃ lost, p.events key = lost ++ t.charges (Sha256.hexDigest key) ∧
    ∀ e ∈ lost, ∃ c ∈ p.cutoffs, e ≤ c
  charged : ∀ e ∈ t, ∃ key ∈ p.keys, Sha256.hexDigest key = e.subjectHash

/-- Every charge is older than the calls to come. -/
def Past.Before (p : Past τ) (calls : List (LimiterCall τ)) : Prop :=
  ∀ key, ∀ e ∈ p.events key, ∀ now ∈ calls.filterMap (·.time), e ≤ now

lemma Tracks.start : Tracks (Past.start : Past τ) [] where
  sorted _ := .nil
  kept _ _ := ⟨[], rfl, by simp⟩
  charged e he := by cases he

/-- What the window of a call shows in the two modes. -/
lemma Tracks.window {p : Past τ} {t : RateTable τ} (h : Tracks p t) {key : Text}
    (hown : p.Own key) (cutoff : τ) :
    ∃ lost, inWindow cutoff (p.events key) =
        lost ++ (t.charges (Sha256.hexDigest key)).filter (cutoff < ·) ∧
      ∀ e ∈ lost, ∃ c ∈ p.cutoffs, e ≤ c := by
  obtain ⟨lost, hsplit, hlost⟩ := h.kept key hown
  refine ⟨lost.filter (cutoff < ·), ?_, fun e he => hlost e (List.mem_of_mem_filter he)⟩
  rw [inWindow_eq_filter (h.sorted key), hsplit, List.filter_append]

/-- A call that prunes the bucket of its key and adds a charge to it, or none. -/
def Past.prune (p : Past τ) (key : Text) (cutoff : τ) (charge : List τ) : Past τ where
  events := Function.update p.events key (inWindow cutoff (p.events key) ++ charge)
  keys := key :: p.keys
  cutoffs := cutoff :: p.cutoffs

@[simp] lemma Past.prune_events_self (p : Past τ) (key : Text) (cutoff : τ) (charge : List τ) :
    (p.prune key cutoff charge).events key = inWindow cutoff (p.events key) ++ charge :=
  Function.update_self ..

lemma Past.prune_events_of_ne (p : Past τ) {key other : Text} (h : other ≠ key) (cutoff : τ)
    (charge : List τ) : (p.prune key cutoff charge).events other = p.events other :=
  Function.update_of_ne h ..

/-- The same call in the database. -/
def RateTable.prune (t : RateTable τ) (subject : Text) (cutoff : τ) (charge : List τ) :
    RateTable τ :=
  (t.filter fun e => ¬ e.occurred ≤ cutoff) ++ charge.map (RateEvent.mk subject)

lemma RateTable.charges_prune (t : RateTable τ) (s subject : Text) (cutoff : τ)
    (charge : List τ) :
    (t.prune s cutoff charge).charges subject =
      (t.charges subject).filter (cutoff < ·) ++ if s = subject then charge else [] := by
  rw [← RateTable.charges_filter]
  by_cases hs : s = subject <;>
    simp [RateTable.prune, RateTable.charges, hs, List.filter_map, Function.comp_def]

lemma Tracks.prune {p : Past τ} {t : RateTable τ} (h : Tracks p t) {now cutoff : τ} {key : Text}
    (hown : p.Own key) (hbefore : ∀ e ∈ p.events key, e ≤ now) {charge : List τ}
    (hcharge : charge = [now] ∨ charge = []) :
    Tracks (p.prune key cutoff charge) (t.prune (Sha256.hexDigest key) cutoff charge) := by
  have hnow : ∀ e ∈ charge, e = now := by
    rcases hcharge with rfl | rfl <;> simp
  have hsorted : charge.Pairwise (· ≤ ·) := by
    rcases hcharge with rfl | rfl <;> simp
  constructor
  · intro other
    by_cases ho : other = key
    · subst ho
      rw [Past.prune_events_self]
      refine List.pairwise_append.2 ⟨(h.sorted other).sublist (List.dropWhile_sublist _), hsorted,
        fun e he e' he' => ?_⟩
      rw [hnow e' he']
      exact hbefore e ((List.dropWhile_sublist _).subset he)
    · rw [Past.prune_events_of_ne p ho]
      exact h.sorted other
  · intro other hother
    have hsub : p.Own other := fun k hk => hother k (List.mem_cons_of_mem _ hk)
    rw [RateTable.charges_prune]
    by_cases ho : other = key
    · subst ho
      obtain ⟨lost, hwin, hlost⟩ := h.window hown cutoff
      refine ⟨lost, ?_, fun e he => ?_⟩
      · rw [Past.prune_events_self, hwin, if_pos rfl, List.append_assoc]
      · obtain ⟨c, hc, hle⟩ := hlost e he
        exact ⟨c, List.mem_cons_of_mem _ hc, hle⟩
    · have hdigest : Sha256.hexDigest key ≠ Sha256.hexDigest other := fun heq =>
        ho (hother key (List.mem_cons_self ..) heq).symm
      obtain ⟨lost, hsplit, hlost⟩ := h.kept other hsub
      have hcharges : (t.charges (Sha256.hexDigest other)).Pairwise (· ≤ ·) := by
        have hall := h.sorted other
        rw [hsplit] at hall
        exact (List.pairwise_append.1 hall).2.1
      -- what this call prunes of the other key has been passed by its cutoff
      refine ⟨lost ++ (t.charges (Sha256.hexDigest other)).takeWhile (· ≤ cutoff), ?_,
        fun e he => ?_⟩
      · rw [Past.prune_events_of_ne p ho, hsplit, if_neg hdigest, List.append_nil,
          List.append_assoc, ← inWindow_eq_filter hcharges, inWindow,
          List.takeWhile_append_dropWhile]
      · rcases List.mem_append.1 he with he | he
        · obtain ⟨c, hc, hle⟩ := hlost e he
          exact ⟨c, List.mem_cons_of_mem _ hc, hle⟩
        · exact ⟨cutoff, List.mem_cons_self .., by simpa using List.mem_takeWhile_imp he⟩
  · intro e he
    rcases List.mem_append.1 he with he | he
    · obtain ⟨k, hk, hdigest⟩ := h.charged e (List.mem_of_mem_filter he)
      exact ⟨k, List.mem_cons_of_mem _ hk, hdigest⟩
    · obtain ⟨_, -, rfl⟩ := List.mem_map.1 he
      exact ⟨key, List.mem_cons_self .., rfl⟩

/-! ### Calls of the two modes -/

/-- A valid call, whose window is not empty when it is at its limit. -/
lemma Buckets.call_allow (events : Buckets τ) {now : τ} {key : Text} {limit window : Int}
    (hvalid : ¬ (limit < 1 ∨ window < 1)) :
    let bucket := inWindow (clk.cutoff now window) (events key)
    events.call clk (.allow now key limit window) =
      if limit ≤ bucket.length then
        (Function.update events key bucket,
          .decision false (clk.retryAfter (bucket.head?.getD now) window now))
      else (Function.update events key (bucket ++ [now]), .decision true 0) := by
  intro bucket
  have hlimit : 1 ≤ limit := by
    by_contra hlt
    exact hvalid (.inl (by omega))
  cases hhead : bucket.head? with
  | none =>
    have hnil : bucket = [] := List.head?_eq_none_iff.1 hhead
    have hbelow : ¬ limit ≤ (bucket.length : Int) := by simp [hnil]; omega
    rw [if_neg hbelow, Buckets.call, if_neg hvalid]
    show (match bucket.head? with | some _ => _ | none => _) = _
    rw [hhead]
  | some oldest =>
    rw [Buckets.call, if_neg hvalid]
    show (match bucket.head? with | some _ => _ | none => _) = _
    rw [hhead]
    rfl

lemma RateTable.call_allow (t : RateTable τ) {now : τ} {key : Text} {limit window : Int}
    (hvalid : ¬ (limit < 1 ∨ window < 1)) (hkey : key.Storable) :
    let cutoff := clk.cutoff now window
    let matching := (t.charges (Sha256.hexDigest key)).filter (cutoff < ·)
    t.call clk (.allow now key limit window) =
      if limit ≤ matching.length then
        (t.prune (Sha256.hexDigest key) cutoff [], .decision false (clk.retryAfter
          ((matching.min?.filter (!clk.isZero ·)).getD now) window now))
      else (t.prune (Sha256.hexDigest key) cutoff [now], .decision true 0) := by
  intro cutoff matching
  have hmatching : (RateTable.charges (t.filter fun e => ¬ e.occurred ≤ cutoff)
      (Sha256.hexDigest key)).filter (cutoff < ·) = matching := by
    rw [RateTable.charges_filter, List.filter_filter]
    simp [matching]
  rw [RateTable.call, if_neg hvalid, if_neg (not_not.2 hkey)]
  simp only [RateTable.prune, List.map_nil, List.append_nil, List.map_cons]
  rw [← hmatching]

/-- A refund takes the latest charge from the table, unless only lost charges are left. -/
lemma RateTable.charges_refund (t : RateTable τ) (s subject : Text)
    (h : (t.charges s).Pairwise (· ≤ ·)) :
    (t.refund s).charges subject =
      if s = subject then (t.charges subject).dropLast else t.charges subject := by
  unfold RateTable.refund
  cases hmax : (t.charges s).max? with
  | none =>
    by_cases hs : s = subject
    · subst hs
      rw [if_pos rfl, List.max?_eq_none_iff.1 hmax]
      rw [List.dropLast_nil]
    · rw [if_neg hs]
  | some latest =>
    show RateTable.charges (t.erase ⟨s, latest⟩) subject = _
    rw [RateTable.charges_erase]
    by_cases hs : s = subject
    · subst hs
      rw [if_pos rfl, if_pos rfl, erase_max_eq_dropLast h hmax]
    · rw [if_neg hs, if_neg hs]

lemma RateTable.mem_of_mem_refund {t : RateTable τ} {s : Text} {e : RateEvent τ}
    (he : e ∈ t.refund s) : e ∈ t := by
  unfold RateTable.refund at he
  split at he
  · exact List.mem_of_mem_erase he
  · exact he

lemma Tracks.refund {p : Past τ} {t : RateTable τ} (h : Tracks p t) {key : Text}
    (hown : p.Own key) :
    Tracks { p with events := Function.update p.events key (p.events key).dropLast }
      (t.refund (Sha256.hexDigest key)) := by
  have hsorted (k : Text) (hk : p.Own k) :
      (t.charges (Sha256.hexDigest k)).Pairwise (· ≤ ·) := by
    obtain ⟨lost, hsplit, -⟩ := h.kept k hk
    have hall := h.sorted k
    rw [hsplit] at hall
    exact (List.pairwise_append.1 hall).2.1
  refine ⟨fun other => ?_, fun other hother => ?_,
    fun e he => h.charged e (RateTable.mem_of_mem_refund he)⟩
  · by_cases ho : other = key
    · subst ho
      show List.Pairwise (· ≤ ·) (Function.update p.events other _ other)
      rw [Function.update_self]
      exact (h.sorted other).sublist (List.dropLast_sublist _)
    · show List.Pairwise (· ≤ ·) (Function.update p.events key _ other)
      rw [Function.update_of_ne ho]
      exact h.sorted other
  · have hother : p.Own other := hother
    obtain ⟨lost, hsplit, hlost⟩ := h.kept other hother
    show ∃ lost, Function.update p.events key (p.events key).dropLast other = lost ++ _ ∧ _
    rw [RateTable.charges_refund t _ _ (hsorted key hown)]
    by_cases ho : other = key
    · subst ho
      rw [Function.update_self, if_pos rfl, hsplit]
      by_cases hnil : t.charges (Sha256.hexDigest other) = []
      · refine ⟨lost.dropLast, by simp [hnil], fun e he =>
          hlost e ((List.dropLast_sublist lost).subset he)⟩
      · exact ⟨lost, List.dropLast_append_of_ne_nil hnil, hlost⟩
    · rw [Function.update_of_ne ho]
      refine ⟨lost, ?_, hlost⟩
      by_cases hdigest : Sha256.hexDigest key = Sha256.hexDigest other
      · -- neither key has been charged, or they would be one
        have hnil : t.charges (Sha256.hexDigest other) = [] := by
          rw [RateTable.charges, List.map_eq_nil_iff, List.filter_eq_nil_iff]
          intro e he hsubject
          obtain ⟨k, hk, hke⟩ := h.charged e he
          have hsub : e.subjectHash = Sha256.hexDigest other := by simpa using hsubject
          have hk₁ := hother k hk (hke.trans hsub)
          have hk₂ := hown k hk (hke.trans (hsub.trans hdigest.symm))
          exact ho (hk₁.symm.trans hk₂)
        rw [if_pos hdigest, hsplit, hnil, List.dropLast_nil]
      · rw [if_neg hdigest, hsplit]

lemma Past.step_invalid (p : Past τ) (now : τ) (key : Text) {limit window : Int}
    (h : limit < 1 ∨ window < 1) : p.step clk (.allow now key limit window) = p := by
  simp [Past.step, Buckets.call, LimiterCall.prunes, h]

lemma Past.step_allow (p : Past τ) (now : τ) (key : Text) {limit window : Int}
    (h : ¬ (limit < 1 ∨ window < 1)) :
    p.step clk (.allow now key limit window) =
      p.prune key (clk.cutoff now window)
        (if limit ≤ (inWindow (clk.cutoff now window) (p.events key)).length then [] else [now]) := by
  rw [Past.step, Buckets.call_allow clk p.events h]
  split_ifs with hlimit <;> simp [Past.prune, LimiterCall.prunes, h, LimiterCall.key]

/-- One call: the modes answer alike, and stay side by side. -/
lemma Tracks.call {p : Past τ} {t : RateTable τ} (h : Tracks p t) {c : LimiterCall τ}
    (hundisturbed : p.Undisturbed clk c)
    (hbefore : ∀ now ∈ c.time, ∀ e ∈ p.events c.key, e ≤ now) :
    (t.call clk c).2 = (p.events.call clk c).2 ∧ Tracks (p.step clk c) (t.call clk c).1 := by
  cases c with
  | refund key =>
    obtain ⟨hkey, hown⟩ := hundisturbed
    rw [RateTable.call, if_neg (not_not.2 hkey)]
    exact ⟨rfl, h.refund hown⟩
  | allow now key limit window =>
    by_cases hvalid : limit < 1 ∨ window < 1
    · rw [Past.step_invalid clk p now key hvalid, RateTable.call, Buckets.call, if_pos hvalid,
        if_pos hvalid]
      exact ⟨rfl, h⟩
    · rw [not_or, not_lt, not_lt] at hvalid
      obtain ⟨hkey, hown, hroom⟩ := hundisturbed hvalid.1 hvalid.2
      have hnot : ¬ (limit < 1 ∨ window < 1) := by
        rw [not_or, not_lt, not_lt]
        exact hvalid
      have hle : ∀ e ∈ p.events key, e ≤ now := hbefore now rfl
      rw [Past.step_allow clk p now key hnot, RateTable.call_allow clk t hnot hkey,
        Buckets.call_allow clk p.events hnot]
      obtain ⟨lost, hwin, hlost⟩ := h.window hown (clk.cutoff now window)
      generalize hmatching : (t.charges (Sha256.hexDigest key)).filter
        (clk.cutoff now window < ·) = matching at hwin ⊢
      by_cases hlimit : limit ≤ ((inWindow (clk.cutoff now window) (p.events key)).length : Int)
      · -- at the limit no charge in the window is lost
        have hkept : lost = [] := by
          rcases hroom with hroom | hroom
          · omega
          · cases lost with
            | nil => rfl
            | cons e lost =>
              obtain ⟨c, hc, hec⟩ := hlost e (by simp)
              have hlt := (hroom e (by simp [hwin])).2 c hc
              exact absurd hec (not_le.2 hlt)
        rw [hkept, List.nil_append] at hwin
        rw [hwin] at hlimit hroom ⊢
        rw [if_pos hlimit, if_pos hlimit, if_pos hlimit]
        refine ⟨?_, h.prune hown hle (.inr rfl)⟩
        have hsorted : matching.Pairwise (· ≤ ·) := by
          rw [← hwin]
          exact (h.sorted key).sublist (List.dropWhile_sublist _)
        rw [min?_eq_head? hsorted]
        cases hhead : matching.head? with
        | none => rfl
        | some oldest =>
          have hroom : clk.isZero oldest = false := by
            rcases hroom with hroom | hroom
            · omega
            · exact (hroom oldest hhead).1
          simp [Option.filter, hroom]
      · have hlimit' : ¬ limit ≤ (matching.length : Int) := by
          rw [hwin, List.length_append] at hlimit
          push_cast at hlimit
          omega
        rw [if_neg hlimit, if_neg hlimit', if_neg hlimit]
        exact ⟨rfl, h.prune hown hle (.inl rfl)⟩

/-! ### Histories of the two modes -/

/-- A bucket gains at most the time of the call. -/
lemma Past.mem_step_events {p : Past τ} {c : LimiterCall τ} {key : Text} {e : τ}
    (he : e ∈ (p.step clk c).events key) : e ∈ p.events key ∨ c.time = some e := by
  cases c with
  | refund k =>
    left
    by_cases hk : key = k
    · subst hk
      have he : e ∈ Function.update p.events key (p.events key).dropLast key := he
      rw [Function.update_self] at he
      exact (List.dropLast_sublist _).subset he
    · have he : e ∈ Function.update p.events k (p.events k).dropLast key := he
      rwa [Function.update_of_ne hk] at he
  | allow now k limit window =>
    by_cases hvalid : limit < 1 ∨ window < 1
    · rw [Past.step_invalid clk p now k hvalid] at he
      exact .inl he
    · rw [Past.step_allow clk p now k hvalid] at he
      by_cases hk : key = k
      · subst hk
        rw [Past.prune_events_self] at he
        rcases List.mem_append.1 he with he | he
        · exact .inl ((List.dropWhile_sublist _).subset he)
        · split_ifs at he
          · cases he
          · exact .inr (by rw [List.mem_singleton.1 he]; rfl)
      · rw [Past.prune_events_of_ne p hk] at he
        exact .inl he

lemma Past.Before.step {p : Past τ} {c : LimiterCall τ} {calls : List (LimiterCall τ)}
    (h : p.Before (c :: calls))
    (hclock : ((c :: calls).filterMap (·.time)).Pairwise (· ≤ ·)) :
    (p.step clk c).Before calls := by
  intro key e he now hnow
  rcases Past.mem_step_events clk he with he | htime
  · refine h key e he now ?_
    rw [List.filterMap_cons]
    split
    · exact hnow
    · exact List.mem_cons_of_mem _ hnow
  · rw [List.filterMap_cons_some htime] at hclock
    exact (List.pairwise_cons.1 hclock).1 now hnow

lemma Tracks.replies {calls : List (LimiterCall τ)} {p : Past τ} {t : RateTable τ}
    (h : Tracks p t) (hclock : (calls.filterMap (·.time)).Pairwise (· ≤ ·))
    (hbefore : p.Before calls)
    (hrun : Runs.Along (Past.step clk) (Past.Undisturbed clk) p calls) :
    t.replies clk calls = p.events.replies clk calls := by
  induction calls generalizing p t with
  | nil => rfl
  | cons c calls ih =>
    obtain ⟨hundisturbed, hrun⟩ := hrun
    have hnow : ∀ now ∈ c.time, ∀ e ∈ p.events c.key, e ≤ now := by
      intro now hnow e he
      refine hbefore c.key e he now ?_
      rw [List.filterMap_cons_some hnow]
      exact List.mem_cons_self ..
    obtain ⟨hreply, hnext⟩ := h.call clk hundisturbed hnow
    have hlater : (calls.filterMap (·.time)).Pairwise (· ≤ ·) :=
      hclock.sublist ((List.sublist_cons_self c calls).filterMap _)
    rw [RateTable.replies, Buckets.replies, hreply]
    exact congrArg _ (ih hnext hlater (hbefore.step clk hclock) hrun)

/-! ### One key at a time -/

/-- In memory a call for one key leaves the others alone. -/
lemma Buckets.call_of_ne (events : Buckets τ) {c : LimiterCall τ} {key : Text}
    (h : c.key ≠ key) : (events.call clk c).1 key = events key := by
  have hstep : (Past.step clk ⟨events, [], []⟩ c).events key = events key := by
    cases c with
    | refund k => exact Function.update_of_ne (Ne.symm h) ..
    | allow now k limit window =>
      by_cases hvalid : limit < 1 ∨ window < 1
      · rw [Past.step_invalid clk _ now k hvalid]
      · rw [Past.step_allow clk _ now k hvalid]
        exact Past.prune_events_of_ne _ (Ne.symm h) _ _
  exact hstep

/-- In memory a call depends on the bucket of its key. -/
lemma Buckets.call_congr {events events' : Buckets τ} {c : LimiterCall τ}
    (h : events c.key = events' c.key) :
    (events.call clk c).2 = (events'.call clk c).2 ∧
      (events.call clk c).1 c.key = (events'.call clk c).1 c.key := by
  cases c with
  | refund key =>
    have h : events key = events' key := h
    simp [Buckets.call, LimiterCall.key, h]
  | allow now key limit window =>
    have h : events key = events' key := h
    by_cases hvalid : limit < 1 ∨ window < 1
    · simp [Buckets.call, LimiterCall.key, hvalid, h]
    · rw [Buckets.call_allow clk _ hvalid, Buckets.call_allow clk _ hvalid, h]
      split_ifs <;> simp [LimiterCall.key]

lemma Buckets.repliesFor (key : Text) {calls : List (LimiterCall τ)} {events events' : Buckets τ}
    (h : events key = events' key) :
    repliesFor key calls (events.replies clk calls) =
      events'.replies clk (calls.filter (·.key = key)) := by
  induction calls generalizing events events' with
  | nil => rfl
  | cons c calls ih =>
    by_cases hkey : c.key = key
    · subst hkey
      obtain ⟨hreply, hnext⟩ := Buckets.call_congr clk h
      rw [List.filter_cons_of_pos (by simp), Buckets.replies, Buckets.replies, ← ih hnext, ← hreply]
      simp [Web.repliesFor]
    · rw [List.filter_cons_of_neg (by simpa using hkey), Buckets.replies,
        ← ih ((Buckets.call_of_ne clk events hkey).trans h)]
      simp [Web.repliesFor, hkey]

/-- `q` has seen fewer calls than `p`, but all those for the key. -/
structure Past.Narrower (key : Text) (q p : Past τ) : Prop where
  events : q.events key = p.events key
  keys : ∀ k ∈ q.keys, k ∈ p.keys
  cutoffs : ∀ c ∈ q.cutoffs, c ∈ p.cutoffs

lemma Past.Narrower.undisturbed {q p : Past τ} {c : LimiterCall τ} (h : q.Narrower c.key p)
    (hc : p.Undisturbed clk c) : q.Undisturbed clk c := by
  cases c with
  | refund key => exact ⟨hc.1, fun k hk => hc.2 k (h.keys k hk)⟩
  | allow now key limit window =>
    intro hlimit hwindow
    obtain ⟨hkey, hown, hroom⟩ := hc hlimit hwindow
    have hevents : q.events key = p.events key := h.events
    refine ⟨hkey, fun k hk => hown k (h.keys k hk), ?_⟩
    rw [hevents]
    exact hroom.imp_right fun hall oldest holdest =>
      ⟨(hall oldest holdest).1, fun c hc => (hall oldest holdest).2 c (h.cutoffs c hc)⟩

lemma Past.Narrower.along {key : Text} {calls : List (LimiterCall τ)} {q p : Past τ}
    (h : q.Narrower key p) (hrun : Runs.Along (Past.step clk) (Past.Undisturbed clk) p calls) :
    Runs.Along (Past.step clk) (Past.Undisturbed clk) q (calls.filter (·.key = key)) := by
  induction calls generalizing q p with
  | nil => trivial
  | cons c calls ih =>
    obtain ⟨hc, hrun⟩ := hrun
    by_cases hkey : c.key = key
    · subst hkey
      rw [List.filter_cons_of_pos (by simp)]
      have hevents : (q.step clk c).events c.key = (p.step clk c).events c.key :=
        (Buckets.call_congr clk h.events).2
      refine ⟨h.undisturbed clk hc, ih ⟨hevents, ?_, ?_⟩ hrun⟩
      · intro k hk
        rcases List.mem_append.1 hk with hk | hk
        · exact List.mem_append_left _ hk
        · exact List.mem_append_right _ (h.keys k hk)
      · intro k hk
        rcases List.mem_append.1 hk with hk | hk
        · exact List.mem_append_left _ hk
        · exact List.mem_append_right _ (h.cutoffs k hk)
    · rw [List.filter_cons_of_neg (by simpa using hkey)]
      refine ih ⟨?_, ?_, ?_⟩ hrun
      · exact h.events.trans (Buckets.call_of_ne clk p.events hkey).symm
      · exact fun k hk => List.mem_append_right _ (h.keys k hk)
      · exact fun k hk => List.mem_append_right _ (h.cutoffs k hk)

/-- Where no call finds itself at its limit because of a charge the table has lost, the table and
the buckets answer alike, and the answers for a key are those of its own calls. -/
theorem limiter_modes_agree (calls : List (LimiterCall τ))
    (hclock : (calls.filterMap (·.time)).Pairwise (· ≤ ·))
    (hrun : Runs.Along (Past.step clk) (Past.Undisturbed clk) Past.start calls) :
    RateTable.replies clk [] calls = Buckets.replies clk (fun _ => []) calls ∧
      ∀ key, repliesFor key calls (RateTable.replies clk [] calls) =
        RateTable.replies clk [] (calls.filter (·.key = key)) := by
  have hagree {calls : List (LimiterCall τ)}
      (hclock : (calls.filterMap (·.time)).Pairwise (· ≤ ·))
      (hrun : Runs.Along (Past.step clk) (Past.Undisturbed clk) Past.start calls) :
      RateTable.replies clk [] calls = Buckets.replies clk (fun _ => []) calls :=
    Tracks.start.replies clk hclock (fun _ e he => by cases he) hrun
  refine ⟨hagree hclock hrun, fun key => ?_⟩
  have hnarrow : (Past.start : Past τ).Narrower key Past.start :=
    ⟨rfl, fun _ h => h, fun _ h => h⟩
  rw [hagree hclock hrun, Buckets.repliesFor clk key rfl, hagree ?_ (hnarrow.along clk hrun)]
  exact hclock.sublist (List.filter_sublist.filterMap _)

/-- A clock that counts whole seconds. -/
def secondsClock : Clock Int where
  cutoff now window := now - window
  wait oldest window now := oldest + window - now
  isZero t := t = 0

/-- Two requests for one key, the second over its limit, and a refund. -/
def oneKey : List (LimiterCall Int) := [.allow 1 "a" 1 60, .allow 2 "a" 1 60, .refund "a"]

theorem limiter_modes_agree_oneKey :
    RateTable.replies secondsClock [] oneKey = Buckets.replies secondsClock (fun _ => []) oneKey ∧
      ∀ key, repliesFor key oneKey (RateTable.replies secondsClock [] oneKey) =
        RateTable.replies secondsClock [] (oneKey.filter (·.key = key)) := by
  refine limiter_modes_agree secondsClock oneKey (by decide) ⟨fun _ _ => ⟨by decide, ?_, ?_⟩,
    fun _ _ => ⟨by decide, ?_, ?_⟩, ⟨by decide, ?_⟩, trivial⟩
  · exact fun k hk => by cases hk
  · exact .inl (by decide)
  · exact fun k hk _ => List.mem_singleton.1 hk
  · refine .inr fun oldest h => ?_
    have h : some (1 : Int) = some oldest := h
    obtain rfl := Option.some.inj h
    exact ⟨by decide, by decide⟩
  · intro k hk _
    rcases List.mem_cons.1 hk with rfl | hk
    · rfl
    · exact List.mem_singleton.1 hk

/-- A call with a window of five seconds takes the charge another key has made ten seconds ago for
its own window of a minute: the key is let in again. -/
theorem shared_limiter_forgets :
    ¬ ∀ calls : List (LimiterCall Int), (calls.filterMap (·.time)).Pairwise (· ≤ ·) →
      RateTable.replies secondsClock [] calls = Buckets.replies secondsClock (fun _ => []) calls := by
  intro h
  have hrun := h [.allow 1 "a" 1 60, .allow 11 "b" 1 5, .allow 12 "a" 1 60] (by decide)
  revert hrun
  decide +kernel

end RentCompass.Web
