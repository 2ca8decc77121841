import RentCompass.Recency
import RentCompass.Text

/-!
# The session store

A cache of conversational state by user and conversation, bounded in size and in age. A session is
a mutable object: what matters of it here is which object a caller gets.
-/

namespace RentCompass.Web.Sessions

open Recency (Entry Event expire touch find? dropKeys Ordered Holds)

/-- A user and a conversation. -/
abbrev Key := Text × Text

/-- `_key`. -/
def key (userId conversationId : Text) : Key :=
  (if userId = [] then "default" else userId,
    if conversationId = [] then "default" else conversationId)

/-- `SessionStore`. A session object is named by the number created before it. -/
structure SessionStore where
  max : ℕ
  ttl : ℕ
  data : List (Entry Key ℕ)
  created : ℕ
  /-- What the constructor checks. -/
  max_pos : 0 < max
  ttl_pos : 0 < ttl

/-- `__init__`, which raises for a size or an age that is not positive. -/
def SessionStore.init (max ttl : ℕ) : Option SessionStore :=
  if h : 0 < max ∧ 0 < ttl then some ⟨max, ttl, [], 0, h.1, h.2⟩ else none

/-- `get`: the session and the store after. -/
def SessionStore.get (s : SessionStore) (userId conversationId : Text) (now : ℕ) :
    ℕ × SessionStore :=
  let k := key userId conversationId
  let data := expire s.ttl now s.data
  match find? data k with
  | some session => (session, { s with data := touch s.max k session now data })
  | none =>
    (s.created, { s with
      data := touch s.max k s.created now data
      created := s.created + 1 })

/-- `clear_user`. -/
def SessionStore.clearUser (s : SessionStore) (userId : Text) : SessionStore :=
  let uid := if userId = [] then Text.ofString "default" else userId
  { s with data := dropKeys (fun k => k.1 = uid) s.data }

/-- `clear`. -/
def SessionStore.clear (s : SessionStore) (userId : Text) (conversationId : Option Text) :
    SessionStore :=
  match conversationId with
  | none => s.clearUser userId
  | some conversationId =>
    { s with data := dropKeys (fun k => k = key userId conversationId) s.data }

/-- `session_slices` of `privacy_inventory`. -/
def SessionStore.sessionSlices (s : SessionStore) (userId : Text) : ℕ :=
  let uid := if userId = [] then Text.ofString "default" else userId
  s.data.countP (·.key.1 = uid)

/-- The calls a store may receive. -/
inductive Call where
  | get (userId conversationId : Text) (now : ℕ)
  /-- A deep copy of what `get` returns. -/
  | snapshot (userId conversationId : Text) (now : ℕ)
  | clear (userId : Text) (conversationId : Option Text)
  | clearUser (userId : Text)

/-- The store after a call. -/
def step (s : SessionStore) : Call → SessionStore
  | .get userId conversationId now => (s.get userId conversationId now).2
  | .snapshot userId conversationId now => (s.get userId conversationId now).2
  | .clear userId conversationId => s.clear userId conversationId
  | .clearUser userId => s.clearUser userId

/-- The key and the object a call hands out. -/
def handed (s : SessionStore) : Call → Option (Key × ℕ)
  | .get userId conversationId now =>
    some (key userId conversationId, (s.get userId conversationId now).1)
  | _ => none

/-- The objects a run hands out, in order. -/
def handedOut (s : SessionStore) : List Call → List (Key × ℕ)
  | [] => []
  | call :: calls => (handed s call).toList ++ handedOut (step s call) calls

/-! ### Calls and what they do to keys -/

/-- The key a call uses. -/
def Call.used : Call → Option Key
  | .get userId conversationId _ => some (key userId conversationId)
  | .snapshot userId conversationId _ => some (key userId conversationId)
  | _ => none

/-- The call clears the key. -/
def Call.clears : Call → Key → Bool
  | .clear userId (some conversationId), k => k = key userId conversationId
  | .clear userId none, k => k.1 = (key userId []).1
  | .clearUser userId, k => k.1 = (key userId []).1
  | _, _ => false

/-- The clock a call reads. -/
def Call.time : Call → Option ℕ
  | .get _ _ now => some now
  | .snapshot _ _ now => some now
  | _ => none

/-- The keys in use: those used, in the order of their last use, that were not cleared since. -/
def inUse (keys : List Key) (call : Call) : List Key :=
  match call.used with
  | some k => keys.filter (· ≠ k) ++ [k]
  | none => keys.filter fun k => !call.clears k

/-- A call as the cache sees it. -/
def Call.event (created : ℕ) : Call → Event Key ℕ
  | .get userId conversationId now => .use (key userId conversationId) created now
  | .snapshot userId conversationId now => .use (key userId conversationId) created now
  | call => .drop call.clears

@[simp] lemma get_max (s : SessionStore) (u c : Text) (now : ℕ) : (s.get u c now).2.max = s.max := by
  rw [SessionStore.get]
  split <;> rfl

@[simp] lemma get_ttl (s : SessionStore) (u c : Text) (now : ℕ) : (s.get u c now).2.ttl = s.ttl := by
  rw [SessionStore.get]
  split <;> rfl

lemma get_data (s : SessionStore) (u c : Text) (now : ℕ) : (s.get u c now).2.data =
    touch s.max (key u c) (s.get u c now).1 now (expire s.ttl now s.data) := by
  rw [SessionStore.get]
  split <;> rfl

lemma get_fst (s : SessionStore) (u c : Text) (now : ℕ) : (s.get u c now).1 =
    (find? (expire s.ttl now s.data) (key u c)).getD s.created := by
  rw [SessionStore.get]
  split <;> simp_all

lemma created_le_get (s : SessionStore) (u c : Text) (now : ℕ) :
    s.created ≤ (s.get u c now).2.created := by
  rw [SessionStore.get]
  split
  · exact le_rfl
  · exact Nat.le_succ _

lemma fst_lt_created {s : SessionStore} (h : ∀ e ∈ s.data, e.value < s.created) (u c : Text)
    (now : ℕ) : (s.get u c now).1 < (s.get u c now).2.created := by
  rw [SessionStore.get]
  split
  · rename_i hfind
    obtain ⟨e, he, rfl⟩ := Option.map_eq_some_iff.1 hfind
    exact h e (Recency.mem_expire.1 (List.mem_of_find?_eq_some he)).1
  · exact Nat.lt_succ_self _

@[simp] lemma step_max (s : SessionStore) (call : Call) : (step s call).max = s.max := by
  rcases call with _ | _ | ⟨_, _ | _⟩ | _ <;> simp [step, SessionStore.clear, SessionStore.clearUser]

@[simp] lemma step_ttl (s : SessionStore) (call : Call) : (step s call).ttl = s.ttl := by
  rcases call with _ | _ | ⟨_, _ | _⟩ | _ <;> simp [step, SessionStore.clear, SessionStore.clearUser]

/-- What a call does to the data is an event of the cache. -/
lemma step_data (s : SessionStore) (call : Call) :
    (step s call).data = Recency.step s.max s.ttl s.data (call.event s.created) := by
  cases call with
  | get u c now => simp only [step, get_data, get_fst, Call.event, Recency.step]
  | snapshot u c now => simp only [step, get_data, get_fst, Call.event, Recency.step]
  | clear u c =>
    cases c with
    | none => rfl
    | some c => rfl
  | clearUser u => rfl

/-- The events of a run. -/
def events (s : SessionStore) : List Call → List (Event Key ℕ)
  | [] => []
  | call :: calls => call.event s.created :: events (step s call) calls

lemma run_max (s : SessionStore) (calls : List Call) : (Runs.run step s calls).max = s.max := by
  induction calls generalizing s with
  | nil => rfl
  | cons call calls ih => rw [Runs.run_cons, ih, step_max]

lemma run_ttl (s : SessionStore) (calls : List Call) : (Runs.run step s calls).ttl = s.ttl := by
  induction calls generalizing s with
  | nil => rfl
  | cons call calls ih => rw [Runs.run_cons, ih, step_ttl]

lemma run_data (s : SessionStore) (calls : List Call) : (Runs.run step s calls).data =
    Runs.run (Recency.step s.max s.ttl) s.data (events s calls) := by
  induction calls generalizing s with
  | nil => rfl
  | cons call calls ih => rw [Runs.run_cons, ih, step_max, step_ttl, step_data, events, Runs.run_cons]

@[simp] lemma event_time (created : ℕ) (call : Call) : (call.event created).time = call.time := by
  cases call <;> rfl

lemma times_events (s : SessionStore) (calls : List Call) :
    Recency.times (events s calls) = calls.filterMap Call.time := by
  induction calls generalizing s with
  | nil => rfl
  | cons call calls ih =>
    have : Recency.times (events s (call :: calls)) =
        (call.time.toList ++ Recency.times (events (step s call) calls)) := by
      rw [events, Recency.times, List.filterMap_cons, event_time]
      cases call.time <;> rfl
    rw [this, ih, List.filterMap_cons]
    cases call.time <;> rfl

lemma newerStep_event (keys : List Key) (created : ℕ) (call : Call) :
    Recency.newerStep keys (call.event created) = inUse keys call := by
  cases call <;> rfl

lemma foldl_newerStep (s : SessionStore) (keys : List Key) (calls : List Call) (n : ℕ) :
    ((events s calls).take n).foldl Recency.newerStep keys =
      (calls.take n).foldl inUse keys := by
  induction calls generalizing s keys n with
  | nil => simp [events]
  | cons call calls ih =>
    cases n with
    | zero => rfl
    | succ n => simp only [events, List.take_succ_cons, List.foldl_cons, newerStep_event, ih]

lemma event_ne_use {call : Call} {k : Key} (h : call.used ≠ some k) (created v t : ℕ) :
    call.event created ≠ .use k v t := by
  cases call with
  | get u c now =>
    rintro ⟨⟩
    exact h rfl
  | snapshot u c now =>
    rintro ⟨⟩
    exact h rfl
  | clear u c => simp [Call.event]
  | clearUser u => simp [Call.event]

lemma forall_events {P : Event Key ℕ → Prop} {s : SessionStore} {calls : List Call}
    (h : ∀ call ∈ calls, ∀ created, P (call.event created)) : ∀ ev ∈ events s calls, P ev := by
  induction calls generalizing s with
  | nil => simp [events]
  | cons call calls ih =>
    intro ev hev
    rcases List.mem_cons.1 hev with rfl | hev
    · exact h call (by simp) _
    · exact ih (fun call' h' => h call' (by simp [h'])) ev hev

lemma exists_event {s : SessionStore} {calls : List Call} {call : Call} (h : call ∈ calls) :
    ∃ created, call.event created ∈ events s calls := by
  induction calls generalizing s with
  | nil => cases h
  | cons call' calls ih =>
    rcases List.mem_cons.1 h with rfl | h
    · exact ⟨s.created, by simp [events]⟩
    · obtain ⟨created, hmem⟩ := ih (s := step s call') h
      exact ⟨created, by simp [events, hmem]⟩

/-! ### Whose objects are handed out -/

/-- The log of what was handed out agrees with the store: keys and objects determine each other,
and there are never more than `max` sessions. -/
structure Owned (s : SessionStore) (log : List (Key × ℕ)) : Prop where
  keys : (s.data.map (·.key)).Nodup
  size : s.data.length ≤ s.max
  created : ∀ e ∈ s.data, e.value < s.created
  values : ∀ e ∈ s.data, ∀ e' ∈ s.data, e.value = e'.value → e.key = e'.key
  logged : ∀ p ∈ log, p.2 < s.created
  owner : ∀ p ∈ log, ∀ e ∈ s.data, p.2 = e.value → p.1 = e.key
  distinct : ∀ p ∈ log, ∀ q ∈ log, p.2 = q.2 → p.1 = q.1

lemma Owned.of_subset {s : SessionStore} {log : List (Key × ℕ)} (h : Owned s log)
    {s' : SessionStore} (hmax : s'.max = s.max) (hcreated : s'.created = s.created)
    (hdata : s'.data.Sublist s.data) : Owned s' log where
  keys := h.keys.sublist (hdata.map _)
  size := by
    rw [hmax]
    exact hdata.length_le.trans h.size
  created e he := by
    rw [hcreated]
    exact h.created e (hdata.subset he)
  values e he e' he' := h.values e (hdata.subset he) e' (hdata.subset he')
  logged p hp := by
    rw [hcreated]
    exact h.logged p hp
  owner p hp e he := h.owner p hp e (hdata.subset he)
  distinct := h.distinct

/-- What `get` returns is the object the key had, or a new one. -/
lemma get_cases {s : SessionStore} (hkeys : (s.data.map (·.key)).Nodup) (u c : Text) (now : ℕ) :
    (∃ e ∈ s.data, e.key = key u c ∧ now < e.touched + s.ttl ∧ (s.get u c now).1 = e.value ∧
      (s.get u c now).2.created = s.created) ∨
    ((∀ e ∈ s.data, e.key = key u c → e.touched + s.ttl ≤ now) ∧
      (s.get u c now).1 = s.created ∧ (s.get u c now).2.created = s.created + 1) := by
  rw [SessionStore.get]
  split
  · rename_i o hfind
    obtain ⟨t, ht⟩ := (Recency.find?_eq_some
      (hkeys.sublist (List.filter_sublist.map _))).1 hfind
    obtain ⟨hmem, hlive⟩ := Recency.mem_expire.1 ht
    exact Or.inl ⟨_, hmem, rfl, hlive, rfl, rfl⟩
  · rename_i hfind
    refine Or.inr ⟨fun e he hkey => ?_, rfl, rfl⟩
    by_contra hlive
    exact Recency.find?_eq_none.1 hfind e (Recency.mem_expire.2 ⟨he, by omega⟩) hkey

lemma mem_get_data {s : SessionStore} {u c : Text} {now : ℕ} {e : Entry Key ℕ}
    (h : e ∈ (s.get u c now).2.data) :
    e ∈ s.data ∧ e.key ≠ key u c ∨ e = ⟨key u c, (s.get u c now).1, now⟩ := by
  rw [get_data] at h
  rcases Recency.mem_of_mem_touch h with ⟨he, hkey⟩ | he
  · exact Or.inl ⟨(Recency.mem_expire.1 he).1, hkey⟩
  · exact Or.inr he

/-- No other key has the object that `get` returns, and nobody was handed it under another. -/
lemma Owned.get_owner {s : SessionStore} {log : List (Key × ℕ)} (h : Owned s log) (u c : Text)
    (now : ℕ) : (∀ e ∈ s.data, e.value = (s.get u c now).1 → e.key = key u c) ∧
      ∀ p ∈ log, p.2 = (s.get u c now).1 → p.1 = key u c := by
  rcases get_cases h.keys u c now with ⟨e, he, hkey, -, hget, -⟩ | ⟨-, hget, -⟩ <;> rw [hget]
  · constructor
    · intro e' he' hval
      rw [h.values e' he' e he hval, hkey]
    · intro p hp hval
      rw [h.owner p hp e he hval, hkey]
  · constructor
    · intro e he hval
      exact absurd hval (h.created e he).ne
    · intro p hp hval
      exact absurd hval (h.logged p hp).ne

lemma Owned.get {s : SessionStore} {log : List (Key × ℕ)} (h : Owned s log) (u c : Text)
    (now : ℕ) : Owned (s.get u c now).2 ((key u c, (s.get u c now).1) :: log) := by
  obtain ⟨hvalue, hlog⟩ := h.get_owner u c now
  have hle := created_le_get s u c now
  have hlt := fst_lt_created h.created u c now
  refine ⟨?_, ?_, ?_, ?_, ?_, ?_, ?_⟩
  · rw [get_data]
    have hkeys : ((expire s.ttl now s.data).map (·.key)).Nodup :=
      h.keys.sublist (List.filter_sublist.map _)
    exact Recency.nodup_touch hkeys _ _ _ _
  · rw [get_data, get_max]
    exact Recency.length_touch_le _ _ _ _ _
  · intro e he
    rcases mem_get_data he with ⟨he, -⟩ | rfl
    · exact (h.created e he).trans_le hle
    · exact hlt
  · intro e he e' he' hval
    rcases mem_get_data he with ⟨he, -⟩ | rfl <;> rcases mem_get_data he' with ⟨he', -⟩ | rfl
    · exact h.values e he e' he' hval
    · exact hvalue e he hval
    · exact (hvalue e' he' hval.symm).symm
    · rfl
  · intro p hp
    rcases List.mem_cons.1 hp with rfl | hp
    · exact hlt
    · exact (h.logged p hp).trans_le hle
  · intro p hp e he hval
    rcases List.mem_cons.1 hp with rfl | hp <;> rcases mem_get_data he with ⟨he, -⟩ | rfl
    · exact (hvalue e he hval.symm).symm
    · rfl
    · exact h.owner p hp e he hval
    · exact hlog p hp hval
  · intro p hp q hq hval
    rcases List.mem_cons.1 hp with rfl | hp <;> rcases List.mem_cons.1 hq with rfl | hq
    · rfl
    · exact (hlog q hq hval.symm).symm
    · exact hlog p hp hval
    · exact h.distinct p hp q hq hval

lemma Owned.mono {s : SessionStore} {log log' : List (Key × ℕ)} (h : Owned s log)
    (hsub : ∀ p ∈ log', p ∈ log) : Owned s log' :=
  ⟨h.keys, h.size, h.created, h.values, fun p hp => h.logged p (hsub p hp),
    fun p hp => h.owner p (hsub p hp), fun p hp q hq => h.distinct p (hsub p hp) q (hsub q hq)⟩

lemma Owned.step {s : SessionStore} {log : List (Key × ℕ)} (h : Owned s log) (call : Call) :
    Owned (Sessions.step s call) (log ++ (handed s call).toList) := by
  cases call with
  | get u c now =>
    refine (h.get u c now).mono fun p hp => ?_
    rcases List.mem_append.1 hp with hp | hp
    · exact List.mem_cons_of_mem _ hp
    · simp only [handed, Option.toList_some, List.mem_singleton] at hp
      simp [hp]
  | snapshot u c now =>
    refine (h.get u c now).mono fun p hp => ?_
    simp only [handed, Option.toList_none, List.append_nil] at hp
    exact List.mem_cons_of_mem _ hp
  | clear u c =>
    simp only [handed, Option.toList_none, List.append_nil]
    cases c with
    | none => exact h.of_subset rfl rfl List.filter_sublist
    | some c => exact h.of_subset rfl rfl List.filter_sublist
  | clearUser u =>
    simp only [handed, Option.toList_none, List.append_nil]
    exact h.of_subset rfl rfl List.filter_sublist

lemma Owned.run {s : SessionStore} {log : List (Key × ℕ)} (h : Owned s log) (calls : List Call) :
    Owned (Runs.run Sessions.step s calls) (log ++ handedOut s calls) := by
  induction calls generalizing s log with
  | nil => simpa [handedOut] using h
  | cons call calls ih =>
    rw [Runs.run_cons, handedOut, ← List.append_assoc]
    exact ih (h.step call)

/-- An object that no key has any more. -/
def Retired (o : ℕ) (s : SessionStore) : Prop := o < s.created ∧ ∀ e ∈ s.data, e.value ≠ o

lemma Retired.get {s : SessionStore} {o : ℕ} (h : Retired o s)
    (hkeys : (s.data.map (·.key)).Nodup) (u c : Text) (now : ℕ) :
    Retired o (s.get u c now).2 ∧ (s.get u c now).1 ≠ o := by
  have hne : (s.get u c now).1 ≠ o := by
    rcases get_cases hkeys u c now with ⟨e, he, -, -, hget, -⟩ | ⟨-, hget, -⟩ <;> rw [hget]
    · exact h.2 e he
    · exact h.1.ne'
  refine ⟨⟨h.1.trans_le (created_le_get s u c now), fun e he => ?_⟩, hne⟩
  rcases mem_get_data he with ⟨he, -⟩ | rfl
  · exact h.2 e he
  · exact hne

lemma Retired.step {s : SessionStore} {o : ℕ} (h : Retired o s)
    (hkeys : (s.data.map (·.key)).Nodup) (call : Call) :
    Retired o (Sessions.step s call) ∧ ∀ p ∈ handed s call, p.2 ≠ o := by
  cases call with
  | get u c now =>
    obtain ⟨hr, hne⟩ := h.get hkeys u c now
    refine ⟨hr, fun p hp => ?_⟩
    cases hp
    exact hne
  | snapshot u c now => exact ⟨(h.get hkeys u c now).1, by simp [handed]⟩
  | clear u c =>
    cases c with
    | none => exact ⟨⟨h.1, fun e he => h.2 e (List.mem_of_mem_filter he)⟩, by simp [handed]⟩
    | some c => exact ⟨⟨h.1, fun e he => h.2 e (List.mem_of_mem_filter he)⟩, by simp [handed]⟩
  | clearUser u => exact ⟨⟨h.1, fun e he => h.2 e (List.mem_of_mem_filter he)⟩, by simp [handed]⟩

lemma Retired.run {s : SessionStore} {o : ℕ} (h : Retired o s) {log : List (Key × ℕ)}
    (howned : Owned s log) (calls : List Call) : ∀ p ∈ handedOut s calls, p.2 ≠ o := by
  induction calls generalizing s log with
  | nil => simp [handedOut]
  | cons call calls ih =>
    obtain ⟨hnext, hne⟩ := h.step howned.keys call
    intro p hp
    rcases List.mem_append.1 hp with hp | hp
    · exact hne p (by simpa using hp)
    · exact ih hnext (howned.step call) p hp

/-- A call that clears a key retires what was handed out for it. -/
lemma Owned.retire {s : SessionStore} {log : List (Key × ℕ)} (h : Owned s log) {call : Call}
    {k : Key} {o : ℕ} (hclears : call.clears k = true) (ho : (k, o) ∈ log) :
    Retired o (Sessions.step s call) := by
  have hgone : ∀ {p : Key → Bool}, p k = true →
      Retired o { s with data := dropKeys p s.data } := by
    intro p hp
    refine ⟨h.logged _ ho, fun e he hval => ?_⟩
    obtain ⟨he, hkey⟩ := Recency.mem_dropKeys.1 he
    rw [← h.owner _ ho e he hval.symm] at hkey
    exact absurd hp (by simp [hkey])
  cases call with
  | get u c now => cases hclears
  | snapshot u c now => cases hclears
  | clear u c =>
    cases c with
    | none => exact hgone hclears
    | some c => exact hgone hclears
  | clearUser u => exact hgone hclears

lemma init_owned {max ttl : ℕ} {s : SessionStore} (h : SessionStore.init max ttl = some s) :
    Owned s [] := by
  rw [SessionStore.init] at h
  split_ifs at h
  cases h
  exact ⟨List.nodup_nil, Nat.zero_le _, by simp, by simp, by simp, by simp, by simp⟩

/-- Whatever calls a store receives: there are at most `max` sessions, one for a key; no session
is handed out for two keys; and once a conversation or a user is cleared, no session handed out
for them before is handed out again, to anyone. -/
theorem sessions_isolated (max ttl : ℕ) (s : SessionStore)
    (hinit : SessionStore.init max ttl = some s) :
    (∀ calls, ((Runs.run step s calls).data.map (·.key)).Nodup ∧
      (Runs.run step s calls).data.length ≤ max) ∧
    (∀ calls, ∀ p ∈ handedOut s calls, ∀ q ∈ handedOut s calls, p.2 = q.2 → p.1 = q.1) ∧
    (∀ before call after k, call.clears k = true → ∀ p ∈ handedOut s before, p.1 = k →
      ∀ q ∈ handedOut (Runs.run step s (before ++ [call])) after, q.2 ≠ p.2) ∧
    (∀ calls userId,
      ((Runs.run step s (calls ++ [.clearUser userId])).sessionSlices userId = 0)) := by
  have howned := init_owned hinit
  have hmax : s.max = max := by
    rw [SessionStore.init] at hinit
    split_ifs at hinit
    cases hinit
    rfl
  refine ⟨fun calls => ?_, fun calls => ?_, ?_, fun calls userId => ?_⟩
  · have hrun := howned.run calls
    refine ⟨hrun.keys, ?_⟩
    rw [← hmax, ← run_max s calls]
    exact hrun.size
  · simpa using (howned.run calls).distinct
  · rintro before call after k hclears ⟨k', o⟩ hp rfl q hq
    have hrun : Owned (Runs.run step s before) (handedOut s before) := by
      simpa using howned.run before
    rw [Runs.run_append, Runs.run_cons, Runs.run_nil] at hq
    exact (hrun.retire hclears hp).run (hrun.step call) after q hq
  · rw [Runs.run_append, Runs.run_cons, Runs.run_nil, SessionStore.sessionSlices,
      List.countP_eq_zero]
    intro e he
    simp only [step, SessionStore.clearUser, Recency.mem_dropKeys] at he
    simpa using he.2

/-- A store for two sessions. -/
def smallStore : SessionStore :=
  ⟨2, 10, [], 0, Nat.zero_lt_succ 1, Nat.zero_lt_succ 9⟩

/-- Ann's session is gone with Ann, whoever asks next. -/
theorem sessions_isolated_small :
    (Runs.run step smallStore [.get "ann" "c1" 0, .get "bob" "c1" 1, .get "ann" "c2" 2]).data.length
      ≤ 2 ∧
    ∀ q ∈ handedOut (Runs.run step smallStore ([.get "ann" "c1" 0] ++ [.clearUser "ann"]))
      [.get "bob" "c1" 1, .get "ann" "c1" 2], q.2 ≠ 0 := by
  obtain ⟨hsize, -, hcleared, -⟩ := sessions_isolated 2 10 smallStore rfl
  refine ⟨(hsize _).2, ?_⟩
  exact hcleared [.get "ann" "c1" 0] (.clearUser "ann") _ (Text.ofString "ann", Text.ofString "c1")
    (by decide) ((Text.ofString "ann", Text.ofString "c1"), 0) (by decide) rfl

/-! ### How long a session lives -/

lemma clears_of_spares {call : Call} {ttl created t : ℕ} {k : Key}
    (h : (call.event created).Spares ttl k t) : call.clears k = false := by
  cases call with
  | get u c now => rfl
  | snapshot u c now => rfl
  | clear u c => exact h
  | clearUser u => exact h

lemma spares_of_clears {call : Call} {ttl t : ℕ} {k : Key} (h : call.clears k = false)
    (htime : ∀ now, call.time = some now → now < t + ttl) (created : ℕ) :
    (call.event created).Spares ttl k t := by
  cases call with
  | get u c now => exact htime now rfl
  | snapshot u c now => exact htime now rfl
  | clear u c => exact h
  | clearUser u => exact h

/-- A session is handed out again if its entry survives the calls in between and is not too old
for the last one. -/
lemma handed_again_iff {s : SessionStore} {log : List (Key × ℕ)} (howned : Owned s log) {now : ℕ}
    (hordered : Ordered s.max now s.data) {u c : Text} {t₀ t₁ : ℕ} (hnow : now ≤ t₀)
    {between : List Call} (hclock : (t₀ :: between.filterMap Call.time).Pairwise (· ≤ ·))
    (hlast : ∀ t ∈ between.filterMap Call.time, t ≤ t₁)
    (hquiet : ∀ call ∈ between, call.used ≠ some (key u c)) :
    ((Runs.run step (s.get u c t₀).2 between).get u c t₁).1 = (s.get u c t₀).1 ↔
      (∀ call ∈ between, call.clears (key u c) = false) ∧ t₁ < t₀ + s.ttl ∧
        ∀ n, ((between.take n).foldl inUse []).length < s.max := by
  have hholds : Holds ⟨key u c, (s.get u c t₀).1, t₀⟩ [] (s.get u c t₀).2.data := by
    rw [get_data]
    exact Recency.holds_touch s.max_pos _ _ _ _
  have hordered' : Ordered s.max t₀ (s.get u c t₀).2.data := by
    have hstep : Ordered s.max t₀
        (Recency.step s.max s.ttl s.data ((Call.get u c t₀).event s.created)) :=
      hordered.step s.ttl hnow fun t ht => Option.some.inj ht
    rwa [← step_data] at hstep
  have howned' := (howned.get u c t₀).run between
  have hdata : (Runs.run step (s.get u c t₀).2 between).data =
      Runs.run (Recency.step s.max s.ttl) (s.get u c t₀).2.data (events (s.get u c t₀).2 between) := by
    rw [run_data, get_max, get_ttl]
  have htimes : (t₀ :: Recency.times (events (s.get u c t₀).2 between)).Pairwise (· ≤ ·) := by
    rwa [times_events]
  obtain ⟨hkept, hlost⟩ := hholds.run s.ttl hordered' htimes
    (forall_events fun call hcall created v t => event_ne_use (hquiet call hcall) created v t)
  rw [← hdata] at hkept hlost
  have hiff := Recency.survives_iff (show ([] : List Key).length < s.max from s.max_pos)
    s.ttl (key u c) t₀ (events (s.get u c t₀).2 between)
  simp only [foldl_newerStep] at hiff
  have hspares : (∀ call ∈ between, call.clears (key u c) = false) → t₁ < t₀ + s.ttl →
      ∀ ev ∈ events (s.get u c t₀).2 between, ev.Spares s.ttl (key u c) t₀ := by
    intro hclears hlt
    refine forall_events fun call hcall created => spares_of_clears (hclears call hcall) ?_ created
    intro t ht
    exact (hlast t (List.mem_filterMap.2 ⟨call, hcall, ht⟩)).trans_lt hlt
  have hnew : (s.get u c t₀).1 < (Runs.run step (s.get u c t₀).2 between).created :=
    howned'.logged (key u c, (s.get u c t₀).1) (by simp)
  have hcases := get_cases howned'.keys u c t₁
  rw [run_ttl, get_ttl] at hcases
  by_cases hsurvives : Recency.Survives s.max s.ttl (key u c) t₀ []
      (events (s.get u c t₀).2 between)
  · obtain ⟨hspared, hlen⟩ := hiff.1 hsurvives
    have hmem := hkept hsurvives
    have hclears : ∀ call ∈ between, call.clears (key u c) = false := by
      intro call hcall
      obtain ⟨created, hev⟩ := exists_event (s := (s.get u c t₀).2) hcall
      exact clears_of_spares (hspared _ hev)
    rcases hcases with ⟨e, he, hkey, hlive, hget, -⟩ | ⟨hold, hget, -⟩
    · obtain rfl := List.inj_on_of_nodup_map howned'.keys he hmem hkey
      exact ⟨fun _ => ⟨hclears, hlive, hlen⟩, fun _ => hget⟩
    · have hge := hold _ hmem rfl
      constructor
      · intro heq
        exact absurd (hget.symm.trans heq) hnew.ne'
      · rintro ⟨-, hlt, -⟩
        exact absurd hlt (not_lt.2 hge)
  · have habsent := hlost hsurvives
    rcases hcases with ⟨e, he, hkey, -⟩ | ⟨-, hget, -⟩
    · exact absurd hkey (habsent e he)
    · constructor
      · intro heq
        exact absurd (hget.symm.trans heq) hnew.ne'
      · rintro ⟨hclears, hlt, hlen⟩
        exact absurd (hiff.2 ⟨hspares hclears hlt, hlen⟩) hsurvives

/-- **How long a session lives.** As long as the clock does not turn back: when a conversation is
asked for again, with nobody asking for it in between, it has the session it had if and only if
it was not cleared, it was asked for before it grew too old, and there never were `max` others that
were used since and not cleared since. -/
theorem session_survives (max ttl : ℕ) (s : SessionStore)
    (hinit : SessionStore.init max ttl = some s) (before between : List Call)
    (userId conversationId : Text) (t₀ t₁ : ℕ)
    (hclock : ((before ++ Call.get userId conversationId t₀ :: (between ++
      [Call.get userId conversationId t₁])).filterMap Call.time).Pairwise (· ≤ ·))
    (hquiet : ∀ call ∈ between, call.used ≠ some (key userId conversationId)) :
    ((Runs.run step ((Runs.run step s before).get userId conversationId t₀).2 between).get
        userId conversationId t₁).1 =
      ((Runs.run step s before).get userId conversationId t₀).1 ↔
    (∀ call ∈ between, call.clears (key userId conversationId) = false) ∧ t₁ < t₀ + ttl ∧
      ∀ n, ((between.take n).foldl inUse []).length < max := by
  obtain ⟨hmax, httl, hdata⟩ : s.max = max ∧ s.ttl = ttl ∧ s.data = [] := by
    rw [SessionStore.init] at hinit
    split_ifs at hinit
    cases hinit
    exact ⟨rfl, rfl, rfl⟩
  -- the clock: what came before, then `t₀`, then what came between, then `t₁`
  simp only [List.filterMap_append, List.filterMap_cons, Call.time, List.filterMap_nil,
    List.pairwise_append, List.pairwise_cons] at hclock
  obtain ⟨hbefore, ⟨hfrom, hbetween, -, hto⟩, hpast⟩ := hclock
  have hordered : Ordered (Runs.run step s before).max t₀ (Runs.run step s before).data := by
    rw [run_max, run_data, hdata]
    refine (Recency.ordered_nil s.max 0).run ?_ ?_
    · rw [times_events, List.pairwise_cons]
      exact ⟨fun _ _ => Nat.zero_le _, hbefore⟩
    · rw [times_events]
      intro t ht
      rcases List.mem_cons.1 ht with rfl | ht
      · exact Nat.zero_le _
      · exact hpast t ht t₀ (by simp)
  have howned := (init_owned hinit).run before
  rw [handed_again_iff howned hordered le_rfl ?_ (fun t ht => hto t ht t₁ (by simp)) hquiet,
    run_max, run_ttl, hmax, httl]
  rw [List.pairwise_cons]
  exact ⟨fun t ht => hfrom t (by simp [ht]), hbetween⟩

/-- Bob's questions do not cost Ann her session. -/
theorem session_survives_small :
    ((Runs.run step ((Runs.run step smallStore [.get "bob" "c1" 3]).get "ann" "c1" 5).2
      [.get "bob" "c1" 6, .clear "bob" (some "c1"), .snapshot "bob" "c2" 7]).get "ann" "c1" 14).1 =
    ((Runs.run step smallStore [.get "bob" "c1" 3]).get "ann" "c1" 5).1 := by
  rw [session_survives 2 10 smallStore rfl [.get "bob" "c1" 3] _ "ann" "c1" 5 14 (by decide)
    (by decide)]
  refine ⟨by decide, by decide, fun n => ?_⟩
  rcases n with _ | _ | _ | n
  · decide
  · decide
  · decide
  · simp only [List.take_succ_cons, List.take_nil]
    decide

end RentCompass.Web.Sessions
