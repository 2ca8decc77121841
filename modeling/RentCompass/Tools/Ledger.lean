import RentCompass.Store.Schema

/-!
# The ledger of write invocations

`IdempotencyStore`: one row for each key, claimed by the first writer. Every method is one
transaction at a time `now`; a lease that ran out is noticed when its key is next looked at.
-/

namespace RentCompass.Tools

open Rows

inductive InvocationStatus where
  | running
  | complete
  | failed
  | unknown
  deriving DecidableEq

/-- A row of `tool_invocations`. -/
structure Invocation where
  key : Text
  tool : Text
  status : InvocationStatus
  result : Option Text
  updated : Instant
  error : Option Text
  leaseExpires : Option Instant
  deriving DecidableEq

abbrev Ledger := List Invocation

namespace Ledger

def leaseError : Text :=
  Text.ofString "write lease expired before completion; outcome is unknown"

def releaseError : Text := Text.ofString "write claim released without a confirmed outcome"

/-- A running row of the key whose lease ran out. -/
def Expired (key : Text) (now : Instant) (r : Invocation) : Prop :=
  r.key = key ∧ r.status = .running ∧ ∃ t ∈ r.leaseExpires, t ≤ now

instance (key : Text) (now : Instant) : DecidablePred (Expired key now) := fun r =>
  inferInstanceAs (Decidable (r.key = key ∧ r.status = .running ∧ ∃ t ∈ r.leaseExpires, t ≤ now))

/-- A row of the key whose outcome is open. -/
def Open (key : Text) (r : Invocation) : Prop :=
  r.key = key ∧ (r.status = .running ∨ r.status = .unknown)

instance (key : Text) : DecidablePred (Open key) := fun r =>
  inferInstanceAs (Decidable (r.key = key ∧ (r.status = .running ∨ r.status = .unknown)))

/-- The update `claim` and `get_record` begin with. -/
def expire (l : Ledger) (key : Text) (now : Instant) : Ledger :=
  updateWhere (Expired key now) (fun r =>
    { r with
      status := .unknown, error := some (r.error.getD leaseError)
      updated := now, leaseExpires := none }) l

/-- The row of a key. -/
def find (l : Ledger) (key : Text) : Option Invocation := selectOne (·.key = key) l

/-- `lease_seconds` as every caller leaves it. -/
def leaseSeconds : Instant := 120 * second

/-- `claim`: whether the key was free. -/
def claim (l : Ledger) (key tool : Text) (now : Instant) : Bool × Ledger :=
  match (l.expire key now).find key with
  | some _ => (false, l.expire key now)
  | none =>
    (true, l.expire key now ++
      [{ key := key, tool := tool, status := .running, result := none, updated := now,
         error := none, leaseExpires := some (now + leaseSeconds) }])

def complete (l : Ledger) (key payload : Text) (now : Instant) : Ledger :=
  updateWhere (Open key) (fun r =>
    { r with
      status := .complete, result := some payload, error := none
      updated := now, leaseExpires := none }) l

def fail (l : Ledger) (key error : Text) (payload : Option Text) (now : Instant) : Ledger :=
  updateWhere (fun r => r.key = key ∧ r.status = .running) (fun r =>
    { r with
      status := .failed, result := payload, error := some error
      updated := now, leaseExpires := none }) l

/-- `mark_unknown`: with a tool it makes the row of a key that has none. -/
def markUnknown (l : Ledger) (key error : Text) (tool : Option Text) (now : Instant) : Ledger :=
  let l := match tool, l.find key with
    | some tool, none =>
      l ++ [{ key := key, tool := tool, status := .unknown, result := none, updated := now,
              error := some error, leaseExpires := none }]
    | _, _ => l
  updateWhere (Open key) (fun r =>
    { r with status := .unknown, error := some error, updated := now, leaseExpires := none }) l

def release (l : Ledger) (key : Text) (now : Instant) : Ledger :=
  l.markUnknown key releaseError none now

/-- `get_record`. -/
def getRecord (l : Ledger) (key : Text) (now : Instant) : Option Invocation × Ledger :=
  ((l.expire key now).find key, l.expire key now)

end Ledger

/-! ### What a transaction may do -/

/-- The outcome of the row is recorded for good. -/
def Invocation.Terminal (r : Invocation) : Prop := r.status = .complete ∨ r.status = .failed

/-- What may become of a row by transactions on a key: the row of another key stays, and so does
a row with a recorded outcome. -/
structure Invocation.Follows (key : Text) (r r' : Invocation) : Prop where
  key_eq : r'.key = r.key
  tool_eq : r'.tool = r.tool
  other : r.key ≠ key → r' = r
  terminal : r.Terminal → r' = r

lemma Invocation.Follows.refl (key : Text) (r : Invocation) : r.Follows key r :=
  ⟨rfl, rfl, fun _ => rfl, fun _ => rfl⟩

/-- What a transaction on a key may do to the ledger: rows follow rows, and at most one row is
added, for a key that had none. -/
structure Ledger.Moves (key : Text) (l l' : Ledger) : Prop where
  keyed : Keyed (·.key) l → Keyed (·.key) l'
  kept : ∀ r ∈ l, ∃ r' ∈ l', r.Follows key r'
  origin : ∀ r' ∈ l', (∃ r ∈ l, r.Follows key r') ∨ r'.key = key ∧ ∀ r ∈ l, r.key ≠ key

namespace Ledger

lemma Moves.refl (key : Text) (l : Ledger) : l.Moves key l where
  keyed h := h
  kept r hr := ⟨r, hr, .refl key r⟩
  origin r hr := .inl ⟨r, hr, .refl key r⟩

/-- An update of open rows of the key. -/
lemma moves_updateWhere {key : Text} {p : Invocation → Prop} [DecidablePred p]
    {f : Invocation → Invocation} (hp : ∀ r, p r → Open key r)
    (hf : ∀ r, (f r).key = r.key ∧ (f r).tool = r.tool) (l : Ledger) :
    l.Moves key (updateWhere p f l) := by
  have hfollows : ∀ r : Invocation, r.Follows key (if p r then f r else r) := by
    intro r
    by_cases h : p r
    · obtain ⟨hkey, hopen⟩ := hp r h
      rw [if_pos h]
      refine ⟨(hf r).1, (hf r).2, fun hne => absurd hkey hne, ?_⟩
      rintro (hs | hs) <;> simp [hs] at hopen
    · rw [if_neg h]
      exact .refl key r
  refine ⟨fun h => h.updateWhere fun r _ _ => (hf r).1, fun r hr => ?_, fun r' hr' => ?_⟩
  · exact ⟨_, mem_updateWhere.2 ⟨r, hr, rfl⟩, hfollows r⟩
  · obtain ⟨r, hr, rfl⟩ := mem_updateWhere.1 hr'
    exact .inl ⟨r, hr, hfollows r⟩

lemma Expired.isOpen {key : Text} {now : Instant} {r : Invocation} (h : Expired key now r) :
    Open key r := ⟨h.1, .inl h.2.1⟩

lemma moves_expire (l : Ledger) (key : Text) (now : Instant) :
    l.Moves key (l.expire key now) := by
  unfold expire
  apply moves_updateWhere
  · exact fun _ => Expired.isOpen
  · exact fun _ => ⟨rfl, rfl⟩

lemma moves_complete (l : Ledger) (key payload : Text) (now : Instant) :
    l.Moves key (l.complete key payload now) := by
  unfold complete
  apply moves_updateWhere
  · exact fun _ h => h
  · exact fun _ => ⟨rfl, rfl⟩

lemma moves_fail (l : Ledger) (key error : Text) (payload : Option Text) (now : Instant) :
    l.Moves key (l.fail key error payload now) := by
  unfold fail
  apply moves_updateWhere
  · exact fun _ h => ⟨h.1, .inl h.2⟩
  · exact fun _ => ⟨rfl, rfl⟩

lemma find_eq_none {l : Ledger} {key : Text} : l.find key = none ↔ ∀ r ∈ l, r.key ≠ key :=
  selectOne_eq_none

/-- A row for a key that has none. -/
lemma moves_append {l : Ledger} {key : Text} {r : Invocation} (hr : r.key = key)
    (h : l.find key = none) : l.Moves key (l ++ [r]) := by
  rw [find_eq_none] at h
  refine ⟨fun hl => hl.append_one fun r' hr' => hr ▸ h r' hr', fun r' hr' => ?_, fun r' hr' => ?_⟩
  · exact ⟨r', by simp [hr'], .refl key r'⟩
  · rcases List.mem_append.1 hr' with hr' | hr'
    · exact .inl ⟨r', hr', .refl key r'⟩
    · rw [List.mem_singleton] at hr'
      exact .inr ⟨hr' ▸ hr, h⟩

end Ledger

lemma Invocation.Follows.trans {key : Text} {r r' r'' : Invocation} (h : r.Follows key r')
    (h' : r'.Follows key r'') : r.Follows key r'' where
  key_eq := h'.key_eq.trans h.key_eq
  tool_eq := h'.tool_eq.trans h.tool_eq
  other hne := (h'.other (by rw [h.key_eq]; exact hne)).trans (h.other hne)
  terminal ht := by
    have := h.terminal ht
    subst this
    exact h'.terminal ht

namespace Ledger

lemma Moves.trans {key : Text} {l l' l'' : Ledger} (h : l.Moves key l') (h' : l'.Moves key l'') :
    l.Moves key l'' where
  keyed hl := h'.keyed (h.keyed hl)
  kept r hr := by
    obtain ⟨r', hr', hf⟩ := h.kept r hr
    obtain ⟨r'', hr'', hf'⟩ := h'.kept r' hr'
    exact ⟨r'', hr'', hf.trans hf'⟩
  origin r'' hr'' := by
    rcases h'.origin r'' hr'' with ⟨r', hr', hf'⟩ | ⟨hkey, hnone⟩
    · rcases h.origin r' hr' with ⟨r, hr, hf⟩ | ⟨hkey, hnone⟩
      · exact .inl ⟨r, hr, hf.trans hf'⟩
      · exact .inr ⟨hf'.key_eq.trans hkey, hnone⟩
    · refine .inr ⟨hkey, fun r hr heq => ?_⟩
      obtain ⟨r', hr', hf⟩ := h.kept r hr
      exact hnone r' hr' (hf.key_eq.trans heq)

lemma moves_claim (l : Ledger) (key tool : Text) (now : Instant) :
    l.Moves key (l.claim key tool now).2 := by
  unfold claim
  split
  · exact moves_expire l key now
  · next h => exact (moves_expire l key now).trans (moves_append rfl h)

lemma moves_markUnknown (l : Ledger) (key error : Text) (tool : Option Text) (now : Instant) :
    l.Moves key (l.markUnknown key error tool now) := by
  have hupdate : ∀ l : Ledger, l.Moves key (updateWhere (Open key) (fun r =>
      { r with status := .unknown, error := some error, updated := now, leaseExpires := none })
      l) := by
    intro l
    apply moves_updateWhere
    · exact fun _ h => h
    · exact fun _ => ⟨rfl, rfl⟩
  unfold markUnknown
  split
  · next h =>
    refine Moves.trans ?_ (hupdate _)
    exact moves_append rfl h
  · exact hupdate l

lemma moves_getRecord (l : Ledger) (key : Text) (now : Instant) :
    l.Moves key (l.getRecord key now).2 := moves_expire l key now

/-- After a look at a key no running row of it has a lease that ran out. -/
lemma not_expired_expire (l : Ledger) (key : Text) (now : Instant) :
    ∀ r ∈ l.expire key now, ¬ Expired key now r := by
  intro r hr
  rcases mem_updateWhere_cases hr with ⟨_, hnot⟩ | ⟨r₀, _, _, rfl⟩
  · exact hnot
  · rintro ⟨_, hs, _⟩
    exact absurd hs (by simp)

end Ledger

end RentCompass.Tools
