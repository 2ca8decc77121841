import RentCompass.Web.RateLimit
import Mathlib.Data.List.Perm.Subperm

/-!
# Refunds and the sliding window

An admitted request that turns out to be invalid is given its charge back, but the limiter is told
only the key: what it returns is the latest charge of the key. As long as that is the charge of the
request itself, and the clock is not read out of order, no window holds more requests than the
limit that were admitted and not refunded.
-/

namespace RentCompass.Web

variable {τ : Type} [LinearOrder τ]

/-- What a limiter does with the charges it holds, later ones than the cutoff counted. -/
structure LimiterMode (clk : Clock τ) where
  State : Type
  start : State
  call : State → LimiterCall τ → State × LimiterReply
  /-- What the charges of a key are kept under. -/
  subject : Text → Text
  charges : State → Text → List τ
  /-- The charge a refund takes. -/
  latest : State → Text → Option τ
  start_charges : ∀ s, charges start s = []
  allow_keeps : ∀ l now key limit window s e, clk.cutoff now window < e →
    (charges l s).count e ≤ (charges (call l (.allow now key limit window)).1 s).count e
  allow_charges : ∀ l now key limit window,
    (call l (.allow now key limit window)).2 = .decision true 0 →
      (((charges l (subject key)).filter (clk.cutoff now window < ·)).length : Int) < limit ∧
      ∀ e, clk.cutoff now window < e → (charges l (subject key)).count e + [now].count e ≤
        (charges (call l (.allow now key limit window)).1 (subject key)).count e
  refund_takes : ∀ l key s e, (charges l s).count e ≤
    (charges (call l (.refund key)).1 s).count e +
      if s = subject key then (latest l key).toList.count e else 0

/-! ### The two modes -/

lemma count_inWindow {cutoff e : τ} (bucket : List τ) (h : cutoff < e) :
    (inWindow cutoff bucket).count e = bucket.count e := by
  conv_rhs => rw [← List.takeWhile_append_dropWhile (p := (· ≤ cutoff)) (l := bucket)]
  have hnone : (bucket.takeWhile (· ≤ cutoff)).count e = 0 := by
    refine List.count_eq_zero.2 fun hmem => ?_
    have hle : e ≤ cutoff := by simpa using List.mem_takeWhile_imp hmem
    exact absurd h (not_lt.2 hle)
  rw [List.count_append, hnone, Nat.zero_add, inWindow]

lemma filter_inWindow (cutoff : τ) (bucket : List τ) :
    (inWindow cutoff bucket).filter (cutoff < ·) = bucket.filter (cutoff < ·) := by
  conv_rhs => rw [← List.takeWhile_append_dropWhile (p := (· ≤ cutoff)) (l := bucket)]
  have hnone : (bucket.takeWhile (· ≤ cutoff)).filter (cutoff < ·) = [] := by
    refine List.filter_eq_nil_iff.2 fun e he => ?_
    have hle : e ≤ cutoff := by simpa using List.mem_takeWhile_imp he
    simpa using hle
  rw [List.filter_append, hnone, List.nil_append, inWindow]

lemma count_dropLast (l : List τ) (e : τ) :
    l.count e = l.dropLast.count e + l.getLast?.toList.count e := by
  rcases l.eq_nil_or_concat with rfl | ⟨front, last, rfl⟩
  · rfl
  · simp [List.count_append]

lemma count_erase_le (l : List τ) (a e : τ) : l.count e ≤ (l.erase a).count e + [a].count e := by
  by_cases h : a = e
  · subst h
    simp [List.count_erase_self]
    omega
  · rw [List.count_erase_of_ne (Ne.symm h)]
    omega

/-- A charge of the window of a call outlives it, in memory. -/
lemma Buckets.allow_keeps (clk : Clock τ) (events : Buckets τ) {now e : τ} (key s : Text)
    (limit : Int) {window : Int} (h : clk.cutoff now window < e) :
    (events s).count e ≤ ((events.call clk (.allow now key limit window)).1 s).count e := by
  by_cases hvalid : limit < 1 ∨ window < 1
  · rw [Buckets.call, if_pos hvalid]
  · rw [Buckets.call_allow clk events hvalid]
    by_cases hs : s = key
    · subst hs
      split_ifs <;> simp [count_inWindow _ h, List.count_append]
    · split_ifs <;> simp [Function.update_of_ne hs]

lemma Buckets.allow_charges (clk : Clock τ) {events : Buckets τ} {now : τ} {key : Text}
    {limit window : Int}
    (h : (events.call clk (.allow now key limit window)).2 = .decision true 0) :
    (((events key).filter (clk.cutoff now window < ·)).length : Int) < limit ∧
      ∀ e, clk.cutoff now window < e → (events key).count e + [now].count e ≤
        ((events.call clk (.allow now key limit window)).1 key).count e := by
  have hvalid : ¬ (limit < 1 ∨ window < 1) := by
    intro hinvalid
    rw [Buckets.call, if_pos hinvalid] at h
    cases h
  rw [Buckets.call_allow clk events hvalid] at h ⊢
  by_cases hlimit : limit ≤ ((inWindow (clk.cutoff now window) (events key)).length : Int)
  · rw [if_pos hlimit] at h
    cases h
  · rw [if_neg hlimit]
    constructor
    · have hle := List.length_filter_le (clk.cutoff now window < ·)
        (inWindow (clk.cutoff now window) (events key))
      rw [filter_inWindow] at hle
      omega
    · intro e he
      simp [count_inWindow _ he, List.count_append]

/-- Deques in memory, one for a key. -/
def memoryMode (clk : Clock τ) : LimiterMode clk where
  State := Buckets τ
  start _ := []
  call := Buckets.call clk
  subject key := key
  charges events key := events key
  latest events key := (events key).getLast?
  start_charges _ := rfl
  allow_keeps events _ key limit _ s _ h := Buckets.allow_keeps clk events key s limit h
  allow_charges _ _ _ _ _ h := Buckets.allow_charges clk h
  refund_takes events key s e := by
    by_cases hs : s = key
    · subst hs
      simp [Buckets.call, ← count_dropLast]
    · simp [Buckets.call, Function.update_of_ne hs]

/-- A charge of the window of a call outlives it, in the table. -/
lemma RateTable.allow_keeps (clk : Clock τ) (t : RateTable τ) {now e : τ} (key s : Text)
    (limit : Int) {window : Int} (h : clk.cutoff now window < e) :
    (t.charges s).count e ≤ ((t.call clk (.allow now key limit window)).1.charges s).count e := by
  by_cases hvalid : limit < 1 ∨ window < 1
  · rw [RateTable.call, if_pos hvalid]
  by_cases hkey : key.Storable
  · rw [RateTable.call_allow clk t hvalid hkey]
    have hcount : ((t.charges s).filter (clk.cutoff now window < ·)).count e =
        (t.charges s).count e := List.count_filter (by simpa using h)
    split_ifs <;> simp only [RateTable.charges_prune, List.count_append, hcount] <;> omega
  · rw [RateTable.call, if_neg hvalid, if_pos hkey]

lemma RateTable.allow_charges (clk : Clock τ) {t : RateTable τ} {now : τ} {key : Text}
    {limit window : Int}
    (h : (t.call clk (.allow now key limit window)).2 = .decision true 0) :
    (((t.charges (Sha256.hexDigest key)).filter (clk.cutoff now window < ·)).length : Int) < limit ∧
      ∀ e, clk.cutoff now window < e →
        (t.charges (Sha256.hexDigest key)).count e + [now].count e ≤
          ((t.call clk (.allow now key limit window)).1.charges (Sha256.hexDigest key)).count e := by
  have hvalid : ¬ (limit < 1 ∨ window < 1) := by
    intro hinvalid
    rw [RateTable.call, if_pos hinvalid] at h
    cases h
  have hkey : key.Storable := by
    by_contra hkey
    rw [RateTable.call, if_neg hvalid, if_pos hkey] at h
    cases h
  rw [RateTable.call_allow clk t hvalid hkey] at h ⊢
  generalize hmatching : (t.charges (Sha256.hexDigest key)).filter
    (clk.cutoff now window < ·) = matching at h ⊢
  by_cases hlimit : limit ≤ (matching.length : Int)
  · rw [if_pos hlimit] at h
    cases h
  · rw [if_neg hlimit]
    refine ⟨by omega, fun e he => ?_⟩
    have hcount : matching.count e = (t.charges (Sha256.hexDigest key)).count e := by
      rw [← hmatching]
      exact List.count_filter (by simpa using he)
    rw [RateTable.charges_prune, hmatching, if_pos rfl, List.count_append, hcount]

lemma RateTable.refund_takes (clk : Clock τ) (t : RateTable τ) (key s : Text) (e : τ) :
    (t.charges s).count e ≤ ((RateTable.call clk t (.refund key)).1.charges s).count e +
      if s = Sha256.hexDigest key then
        (t.charges (Sha256.hexDigest key)).max?.toList.count e else 0 := by
  by_cases hkey : key.Storable
  · rw [RateTable.call, if_neg (not_not.2 hkey), RateTable.refund]
    cases hmax : (t.charges (Sha256.hexDigest key)).max? with
    | none => simp
    | some latest =>
      show _ ≤ (RateTable.charges (t.erase ⟨Sha256.hexDigest key, latest⟩) s).count e + _
      rw [RateTable.charges_erase]
      by_cases hs : s = Sha256.hexDigest key
      · subst hs
        rw [if_pos rfl, if_pos rfl]
        exact count_erase_le _ latest e
      · rw [if_neg (Ne.symm hs)]
        omega
  · rw [RateTable.call, if_pos hkey]
    exact Nat.le_add_right _ _

/-- The table that all processes share. -/
def sharedMode (clk : Clock τ) : LimiterMode clk where
  State := RateTable τ
  start := []
  call := RateTable.call clk
  subject := Sha256.hexDigest
  charges t s := t.charges s
  latest t key := (t.charges (Sha256.hexDigest key)).max?
  start_charges _ := rfl
  allow_keeps t _ key limit _ s _ h := RateTable.allow_keeps clk t key s limit h
  allow_charges _ _ _ _ _ h := RateTable.allow_charges clk h
  refund_takes t key s e := RateTable.refund_takes clk t key s e

/-! ### Requests and their refunds -/

/-- A request the limiter let in. -/
structure Admission (τ : Type) where
  key : Text
  time : τ
  refunded : Bool
  deriving DecidableEq

/-- What may happen next: a request reads the clock and asks to be let in, or the charge of the
`i`th admitted request is to be returned. -/
inductive Visit (τ : Type) where
  | request (now : τ) (key : Text)
  | refund (i : Nat)

/-- A limiter, the requests it has let in, and the times its clock has shown. -/
structure History {clk : Clock τ} (mode : LimiterMode clk) where
  limiter : mode.State
  admitted : List (Admission τ)
  readings : List τ

section

variable {clk : Clock τ} (mode : LimiterMode clk) (limitOf : Text → Int) (window : Int)

def History.start : History mode := ⟨mode.start, [], []⟩

variable {mode}

/-- `_limit_expensive_api_requests` and `_refund_invalid_input_charge`. -/
def History.step (h : History mode) : Visit τ → History mode
  | .request now key =>
    let r := mode.call h.limiter (.allow now key (limitOf key) window)
    { limiter := r.1
      admitted := h.admitted ++ if r.2 = .decision true 0 then [⟨key, now, false⟩] else []
      readings := now :: h.readings }
  | .refund i =>
    match h.admitted[i]? with
    | some a =>
      -- the charge leaves the request with its refund
      if a.refunded then h
      else { h with
        limiter := (mode.call h.limiter (.refund a.key)).1
        admitted := h.admitted.set i { a with refunded := true } }
    | none => h

/-- How many requests of a key were let in within the window that ends at `t`, and not refunded. -/
def History.standing (h : History mode) (key : Text) (t : τ) : Nat :=
  h.admitted.countP fun a =>
    a.key = key ∧ a.refunded = false ∧ clk.cutoff t window < a.time ∧ a.time ≤ t

/-- The clock is not read out of order, and the latest charge of the key of a refunded request, if
any, is that of the request. -/
def History.Orderly (h : History mode) : Visit τ → Prop
  | .request now _ => ∀ r ∈ h.readings, r ≤ now
  | .refund i => ∀ a ∈ h.admitted[i]?, a.refunded = false →
      ∀ latest ∈ mode.latest h.limiter a.key, latest = a.time

instance History.orderlyDecidable (h : History mode) : (v : Visit τ) → Decidable (h.Orderly v)
  | .request now _ => inferInstanceAs (Decidable (∀ r ∈ h.readings, r ≤ now))
  | .refund i => inferInstanceAs (Decidable (∀ a ∈ h.admitted[i]?, a.refunded = false →
      ∀ latest ∈ mode.latest h.limiter a.key, latest = a.time))

/-! ### Every standing request has its charge -/

/-- The requests of a subject that were let in at `e` and not refunded. -/
def History.live (h : History mode) (s : Text) (e : τ) : Nat :=
  h.admitted.countP fun a => mode.subject a.key = s ∧ a.refunded = false ∧ a.time = e

structure History.Covered (h : History mode) : Prop where
  charged : ∀ s e, (∀ r ∈ h.readings, clk.cutoff r window < e) →
    h.live s e ≤ (mode.charges h.limiter s).count e
  standing : ∀ key t, (h.standing window key t : Int) ≤ max (limitOf key) 0

variable {limitOf window}

/-- The standing requests of a window that does not end before any call so far are charged. -/
lemma History.Covered.standing_le {h : History mode} (hh : h.Covered limitOf window)
    (hmono : ∀ s t, s ≤ t → clk.cutoff s window ≤ clk.cutoff t window) {now t : τ}
    (hnow : ∀ r ∈ h.readings, r ≤ now) (ht : now ≤ t) (key : Text) :
    h.standing window key t ≤
      ((mode.charges h.limiter (mode.subject key)).filter (clk.cutoff now window < ·)).length := by
  let times := (h.admitted.filter fun a =>
    a.key = key ∧ a.refunded = false ∧ clk.cutoff t window < a.time ∧ a.time ≤ t).map (·.time)
  have hlength : h.standing window key t = times.length := by
    rw [List.length_map, ← List.countP_eq_length_filter]
    rfl
  rw [hlength]
  refine List.Subperm.length_le (List.subperm_ext_iff.2 fun e he => ?_)
  obtain ⟨a, ha, rfl⟩ := List.mem_map.1 he
  have ha := (List.mem_filter.1 ha).2
  simp only [decide_eq_true_eq] at ha
  have hcut : clk.cutoff now window < a.time := (hmono now t ht).trans_lt ha.2.2.1
  have hcount : times.count a.time ≤ h.live (mode.subject key) a.time := by
    rw [List.count, List.countP_map, List.countP_filter]
    refine List.countP_mono_left fun b _ hb => ?_
    simp only [Function.comp_apply, Bool.and_eq_true, beq_iff_eq, decide_eq_true_eq] at hb ⊢
    exact ⟨congrArg mode.subject hb.2.1, hb.2.2.1, hb.1⟩
  rw [List.count_filter (by simpa using hcut)]
  refine hcount.trans (hh.charged _ _ fun r hr => ?_)
  exact (hmono r now (hnow r hr)).trans_lt hcut

omit [LinearOrder τ] in
/-- What a request adds to a count of the admitted ones. -/
lemma countP_admit (p : Admission τ → Bool) (admitted : List (Admission τ)) (now : τ) (key : Text)
    (allowed : Prop) [Decidable allowed] :
    (admitted ++ if allowed then [(⟨key, now, false⟩ : Admission τ)] else []).countP p =
      admitted.countP p + if allowed ∧ p ⟨key, now, false⟩ then 1 else 0 := by
  by_cases h : allowed <;> simp [h, List.countP_append, List.countP_singleton]

omit [LinearOrder τ] in
/-- What a refund takes from a count of requests that are not refunded. -/
lemma countP_refund {p : Admission τ → Bool} {admitted : List (Admission τ)} {i : Nat}
    {a : Admission τ} (ha : admitted[i]? = some a) (hp : p { a with refunded := true } = false) :
    (admitted.set i { a with refunded := true }).countP p + (if p a then 1 else 0) =
      admitted.countP p := by
  obtain ⟨hi, hget⟩ := List.getElem?_eq_some_iff.1 ha
  have hset : (admitted.set i { a with refunded := true }).Perm
      ({ a with refunded := true } :: admitted.eraseIdx i) := List.set_perm_cons_eraseIdx hi _
  have hold : admitted.Perm (a :: admitted.eraseIdx i) := by
    rw [← hget]
    exact (List.getElem_cons_eraseIdx_perm hi).symm
  rw [hset.countP_eq, hold.countP_eq, List.countP_cons, List.countP_cons, hp]
  simp

lemma History.live_request (h : History mode) (now : τ) (key s : Text) (e : τ) :
    (h.step limitOf window (.request now key)).live s e = h.live s e +
      if (mode.call h.limiter (.allow now key (limitOf key) window)).2 = .decision true 0 ∧
        mode.subject key = s ∧ now = e then 1 else 0 := by
  have hcount := countP_admit (fun a => mode.subject a.key = s ∧ a.refunded = false ∧ a.time = e)
    h.admitted now key ((mode.call h.limiter (.allow now key (limitOf key) window)).2 =
      .decision true 0)
  simp only [decide_eq_true_eq, true_and] at hcount
  exact hcount

lemma History.standing_request (h : History mode) (now : τ) (key other : Text) (t : τ) :
    (h.step limitOf window (.request now key)).standing window other t =
      h.standing window other t +
        if (mode.call h.limiter (.allow now key (limitOf key) window)).2 = .decision true 0 ∧
          key = other ∧ clk.cutoff t window < now ∧ now ≤ t then 1 else 0 := by
  have hcount := countP_admit (fun a => a.key = other ∧ a.refunded = false ∧
      clk.cutoff t window < a.time ∧ a.time ≤ t)
    h.admitted now key ((mode.call h.limiter (.allow now key (limitOf key) window)).2 =
      .decision true 0)
  simp only [decide_eq_true_eq, true_and] at hcount
  exact hcount

lemma History.Covered.request {h : History mode} (hh : h.Covered limitOf window)
    (hmono : ∀ s t, s ≤ t → clk.cutoff s window ≤ clk.cutoff t window) {now : τ}
    (hnow : ∀ r ∈ h.readings, r ≤ now) (key : Text) :
    (h.step limitOf window (.request now key)).Covered limitOf window := by
  constructor
  · intro s e hreadings
    have hcut : clk.cutoff now window < e := hreadings now (List.mem_cons_self ..)
    have hold := hh.charged s e fun r hr => hreadings r (List.mem_cons_of_mem _ hr)
    rw [History.live_request]
    split_ifs with hallowed
    · obtain ⟨hallowed, rfl, rfl⟩ := hallowed
      have hcharge := (mode.allow_charges h.limiter now key _ window hallowed).2 now hcut
      rw [List.count_singleton_self] at hcharge
      exact (Nat.add_le_add_right hold 1).trans hcharge
    · exact hold.trans (mode.allow_keeps h.limiter now key (limitOf key) window s e hcut)
  · intro other t
    have hold := hh.standing other t
    rw [History.standing_request]
    split_ifs with hallowed
    · obtain ⟨hallowed, rfl, -, hle⟩ := hallowed
      have hroom := (mode.allow_charges h.limiter now key _ window hallowed).1
      have hcharged := hh.standing_le hmono hnow hle key
      push_cast
      omega
    · exact hold

lemma History.Covered.refund {h : History mode} (hh : h.Covered limitOf window) {i : Nat}
    (hown : h.Orderly (.refund i)) :
    (h.step limitOf window (.refund i)).Covered limitOf window := by
  cases ha : h.admitted[i]? with
  | none => simpa [History.step, ha] using hh
  | some a =>
    cases hrefunded : a.refunded with
    | true => simpa [History.step, ha, hrefunded] using hh
    | false =>
      have hstep : h.step limitOf window (.refund i) = { h with
          limiter := (mode.call h.limiter (.refund a.key)).1
          admitted := h.admitted.set i { a with refunded := true } } := by
        simp [History.step, ha, hrefunded]
      rw [hstep]
      constructor
      · intro s e hreadings
        have hold := hh.charged s e hreadings
        have htakes := mode.refund_takes h.limiter a.key s e
        have hlive := countP_refund (p := fun a =>
          mode.subject a.key = s ∧ a.refunded = false ∧ a.time = e) ha (by simp)
        -- the charge that goes is the one of the request
        have hpopped : (if s = mode.subject a.key then
            (mode.latest h.limiter a.key).toList.count e else 0) ≤
            if mode.subject a.key = s ∧ a.refunded = false ∧ a.time = e then 1 else 0 := by
          by_cases hs : s = mode.subject a.key
          · cases hlatest : mode.latest h.limiter a.key with
            | none => simp
            | some latest =>
              obtain rfl := hown a ha hrefunded latest hlatest
              by_cases he : a.time = e <;> simp [hs, he, hrefunded]
          · simp [hs]
        simp only [decide_eq_true_eq] at hlive
        rw [History.live] at hold ⊢
        show List.countP _ (h.admitted.set i { a with refunded := true }) ≤
          (mode.charges (mode.call h.limiter (.refund a.key)).1 s).count e
        omega
      · intro key t
        have hold := hh.standing key t
        have hcount := countP_refund (p := fun a =>
          a.key = key ∧ a.refunded = false ∧ clk.cutoff t window < a.time ∧ a.time ≤ t) ha (by simp)
        rw [History.standing] at hold ⊢
        show ((List.countP _ (h.admitted.set i { a with refunded := true }) : Nat) : Int) ≤ _
        omega

end

/-! ### Runs -/

variable {clk : Clock τ} {limitOf : Text → Int} {window : Int}

/-- The visits of a history, where the charge a refund returns is the one of its request. -/
lemma History.standing_bound {mode : LimiterMode clk}
    (hmono : ∀ s t, s ≤ t → clk.cutoff s window ≤ clk.cutoff t window) {visits : List (Visit τ)}
    (hrun : Runs.Along (History.step limitOf window) History.Orderly (History.start mode) visits)
    (key : Text) (t : τ) :
    ((Runs.run (History.step limitOf window) (History.start mode) visits).standing window key t : Int)
      ≤ max (limitOf key) 0 := by
  have hstart : (History.start mode).Covered limitOf window :=
    ⟨fun s e _ => Nat.zero_le _, fun key t => by simp [History.start, History.standing]⟩
  have hcovered := Runs.run_preserves_along (I := fun h => h.Covered limitOf window)
    (fun h v hh hv => by
      cases v with
      | request now key => exact hh.request hmono hv key
      | refund i => exact hh.refund hv) hstart hrun
  exact hcovered.standing key t

/-- Where the clock is not read out of order and the latest charge of the key of a refunded request
is that of the request, no window holds more standing requests of a key than its limit. -/
theorem refunds_keep_window (clk : Clock τ) (limitOf : Text → Int) (window : Int)
    (hmono : ∀ s t, s ≤ t → clk.cutoff s window ≤ clk.cutoff t window) (visits : List (Visit τ))
    (key : Text) (t : τ) :
    (Runs.Along (History.step limitOf window) History.Orderly
        (History.start (memoryMode clk)) visits →
      ((Runs.run (History.step limitOf window) (History.start (memoryMode clk)) visits).standing
        window key t : Int) ≤ max (limitOf key) 0) ∧
    (Runs.Along (History.step limitOf window) History.Orderly
        (History.start (sharedMode clk)) visits →
      ((Runs.run (History.step limitOf window) (History.start (sharedMode clk)) visits).standing
        window key t : Int) ≤ max (limitOf key) 0) :=
  ⟨fun h => History.standing_bound hmono h key t, fun h => History.standing_bound hmono h key t⟩

/-- Two requests overlap, and the later one is the one to be refunded. -/
def laterRefunded : List (Visit Int) := [.request 0 "a", .request 10 "a", .refund 1, .request 20 "a"]

theorem refunds_keep_window_laterRefunded :
    ((Runs.run (History.step (fun _ => 2) 60) (History.start (memoryMode secondsClock))
        laterRefunded).standing 60 "a" 20 : Int) ≤ 2 ∧
    ((Runs.run (History.step (fun _ => 2) 60) (History.start (sharedMode secondsClock))
        laterRefunded).standing 60 "a" 20 : Int) ≤ 2 := by
  have hmono : ∀ s t : Int, s ≤ t → secondsClock.cutoff s 60 ≤ secondsClock.cutoff t 60 :=
    fun s t h => Int.sub_le_sub_right h 60
  have hboth := refunds_keep_window secondsClock (fun _ => 2) 60 hmono laterRefunded "a" 20
  exact ⟨hboth.1 (by decide +kernel), hboth.2 (by decide +kernel)⟩

/-- The first of two overlapping requests is refunded: the charge of the second goes, and once that
of the first has expired two more are let in. -/
theorem refund_takes_other_charge :
    ¬ ∀ visits : List (Visit Int), (visits.filterMap fun
        | .request now _ => some now
        | .refund _ => none).Pairwise (· ≤ ·) →
      ∀ t, ((Runs.run (History.step (fun _ => 2) 60) (History.start (memoryMode secondsClock))
        visits).standing 60 "a" t : Int) ≤ 2 := by
  intro h
  have hrun := h [.request 0 "a", .request 10 "a", .refund 0, .request 61 "a", .request 62 "a"]
    (by decide) 62
  revert hrun
  decide +kernel

end RentCompass.Web
