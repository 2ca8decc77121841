import RentCompass.Datetime
import RentCompass.Runs
import RentCompass.Store.Branch
import RentCompass.Store.Lease

/-!
# Timestamps as the store writes them

The tables hold ISO texts, and leases, the order of turns and the cutoffs of branches compare
these texts; elsewhere in the model the columns hold instants. Here the comparisons are made on
the texts, as the statements make them, and shown to come out as on the instants.
-/

namespace RentCompass.Store

open Calendar

/-! ### The column -/

/-- The instant is that of a UTC date and time. -/
def Written (i : Instant) : Prop := ∃ d : Datetime, d.instant = i

/-- The text of a column that holds an instant. -/
def stamp (i : Instant) : Text := (Datetime.ofInstant i).elim [] Datetime.isoformat

@[simp] lemma stamp_instant (d : Datetime) : stamp d.instant = d.isoformat := by
  rw [stamp, Datetime.ofInstant_instant]
  rfl

lemma stamp_lt_iff {i j : Instant} (hi : Written i) (hj : Written j) :
    stamp i < stamp j ↔ i < j := by
  obtain ⟨d, rfl⟩ := hi
  obtain ⟨e, rfl⟩ := hj
  rw [stamp_instant, stamp_instant, Datetime.isoformat_lt_iff]

lemma stamp_le_iff {i j : Instant} (hi : Written i) (hj : Written j) :
    stamp i ≤ stamp j ↔ i ≤ j := by
  rw [← not_lt, ← not_lt, stamp_lt_iff hj hi]

/-- `(datetime.fromisoformat(now) + timedelta(seconds=s)).isoformat()`. -/
def laterBy (now : Text) (s : Nat) : Option Text :=
  ((Datetime.fromisoformat now).bind fun start => start.add (s * second)).map Datetime.isoformat

/-! ### The clock -/

/-- `_now_iso` when the last value was `last` and the wall clock reads `wall`: the text and the
new last value. `none` is the `OverflowError` after the end of year 9999. -/
def nowIso (last wall : Datetime) : Option (Text × Datetime) :=
  (if wall.instant ≤ last.instant then last.add 1 else some wall).bind fun now =>
    some (now.isoformat, now)

lemma nowIso_eq_some {last wall now : Datetime} {t : Text}
    (h : nowIso last wall = some (t, now)) : t = now.isoformat ∧ last.instant < now.instant := by
  obtain ⟨value, hvalue, hresult⟩ := Option.bind_eq_some_iff.1 h
  obtain ⟨rfl, rfl⟩ := Prod.mk.inj (Option.some.inj hresult)
  refine ⟨rfl, ?_⟩
  by_cases hstalled : wall.instant ≤ last.instant
  · rw [if_pos hstalled] at hvalue
    have := Datetime.instant_add hvalue
    omega
  · rw [if_neg hstalled] at hvalue
    obtain rfl := Option.some.inj hvalue
    exact not_le.1 hstalled

/-- `_LAST_NOW` and the values handed out so far. -/
structure Clock where
  last : Datetime
  values : List Text

/-- The clock of a process that has just started. -/
def Clock.start : Clock where
  last := .min
  values := []

/-- One call of `_now_iso`; a call that raises changes nothing. -/
def Clock.call (c : Clock) (wall : Datetime) : Clock :=
  (nowIso c.last wall).elim c fun r => { last := r.2, values := c.values ++ [r.1] }

/-- The values are texts of increasing instants, none of them after the last. -/
def Clock.Increasing (c : Clock) : Prop :=
  ∃ ds : List Datetime, c.values = ds.map Datetime.isoformat ∧
    ds.Pairwise (fun d e => d.instant < e.instant) ∧ ∀ d ∈ ds, d.instant ≤ c.last.instant

lemma Clock.Increasing.call {c : Clock} (h : c.Increasing) (wall : Datetime) :
    (c.call wall).Increasing := by
  obtain ⟨ds, hvalues, hpairs, hlast⟩ := h
  rw [Clock.call]
  cases hnow : nowIso c.last wall with
  | none => exact ⟨ds, hvalues, hpairs, hlast⟩
  | some result =>
    obtain ⟨t, now⟩ := result
    obtain ⟨rfl, hlt⟩ := nowIso_eq_some hnow
    refine ⟨ds ++ [now], ?_, ?_, ?_⟩
    · simp [hvalues]
    · rw [List.pairwise_append]
      refine ⟨hpairs, List.pairwise_singleton _ _, ?_⟩
      intro d hd e he
      obtain rfl := List.mem_singleton.1 he
      exact (hlast d hd).trans_lt hlt
    · intro d hd
      rcases List.mem_append.1 hd with hold | hnew
      · exact (hlast d hold).trans hlt.le
      · obtain rfl := List.mem_singleton.1 hnew
        exact le_rfl

lemma Clock.increasing_run (walls : List Datetime) :
    (Runs.run Clock.call Clock.start walls).Increasing := by
  have hstart : Clock.start.Increasing :=
    ⟨[], rfl, List.Pairwise.nil, fun d hd => absurd hd List.not_mem_nil⟩
  exact Runs.run_preserves (I := Clock.Increasing) (fun c wall h => h.call wall) hstart walls

lemma Clock.Increasing.values_pairwise {c : Clock} (h : c.Increasing) :
    c.values.Pairwise (· < ·) := by
  obtain ⟨ds, hvalues, hpairs, -⟩ := h
  rw [hvalues, List.pairwise_map]
  exact hpairs.imp fun hlt => Datetime.isoformat_lt_iff.2 hlt

/-! ### Leases -/

/-- `(datetime.fromisoformat(now) - timedelta(seconds=LEASE_OWNER_STALE_SECONDS)).isoformat()`. -/
def staleSince (now : Text) : Option Text :=
  ((Datetime.fromisoformat now).bind fun instant =>
    instant.sub (leaseOwnerStaleSeconds * second)).map Datetime.isoformat

lemma exists_staleSince {now : Datetime}
    (h : microsecondsOfDay + leaseOwnerStaleSeconds * second ≤ now.instant) :
    ∃ t, staleSince now.isoformat = some t := by
  obtain ⟨stale, hstale⟩ := Datetime.exists_sub h
  rw [staleSince, Datetime.fromisoformat_isoformat, Option.bind_some, hstale]
  exact ⟨_, rfl⟩

lemma staleSince_lt_iff {now : Datetime} {t : Text} (h : staleSince now.isoformat = some t)
    {i : Instant} (hi : Written i) :
    t < stamp i ↔ now.instant < i + leaseOwnerStaleSeconds * second := by
  rw [staleSince, Datetime.fromisoformat_isoformat, Option.bind_some] at h
  obtain ⟨stale, hstale, rfl⟩ := Option.map_eq_some_iff.1 h
  rw [← stamp_instant, stamp_lt_iff ⟨stale, rfl⟩ hi, ← Datetime.instant_sub hstale]
  exact Nat.add_lt_add_iff_right.symm

/-- `_lease_blocks`, on the texts of the columns. `none` is the `OverflowError` of a `now` in the
first seconds of year one. -/
def leaseBlocksText (p : Process) (db : Db) (lease : LeaseView) (now : Text) : Option Bool :=
  if lease.status ≠ some .running ∨ stamp lease.expiresAt ≤ now then some false
  else match lease.ownerId with
    | none => some true
    | some owner =>
      if owner = p.ownerId then some true
      else match Rows.selectOne (fun o : StoreOwner => o.ownerId = owner) db.owners with
        | none => some false
        | some row =>
          if row.host = p.host ∧ p.pidAlive row.pid = false then some false
          else (staleSince now).map fun stale => stale < stamp row.heartbeatAt

/-- The instants the lease and the heartbeats are compared by are those of written texts. -/
def LeaseWritten (db : Db) (lease : LeaseView) : Prop :=
  Written lease.expiresAt ∧ ∀ o ∈ db.owners, Written o.heartbeatAt

/-- Where the text of the stale instant exists, the texts decide as the instants do. -/
lemma leaseBlocksText_eq {db : Db} {lease : LeaseView} (hdb : LeaseWritten db lease) (p : Process)
    (now : Datetime) :
    leaseBlocksText p db lease now.isoformat = some (leaseBlocks p db lease now.instant) ∨
      staleSince now.isoformat = none ∧ leaseBlocksText p db lease now.isoformat = none := by
  have hexpiry : stamp lease.expiresAt ≤ now.isoformat ↔ lease.expiresAt ≤ now.instant := by
    rw [← stamp_instant, stamp_le_iff hdb.1 ⟨now, rfl⟩]
  unfold leaseBlocksText leaseBlocks
  by_cases hfree : lease.status ≠ some .running ∨ lease.expiresAt ≤ now.instant
  · left
    rw [if_pos (by rwa [hexpiry]), if_pos hfree]
  rw [if_neg (by rwa [hexpiry]), if_neg hfree]
  cases lease.ownerId with
  | none => exact .inl rfl
  | some owner =>
    by_cases hself : owner = p.ownerId
    · simp only [hself, if_true, true_or]
    simp only [hself, if_false]
    cases hrow : Rows.selectOne (fun o : StoreOwner => o.ownerId = owner) db.owners with
    | none => exact .inl rfl
    | some row =>
      by_cases hdead : row.host = p.host ∧ p.pidAlive row.pid = false
      · simp only [hdead, and_self, if_true, true_or]
      simp only [hdead, if_false]
      cases hstale : staleSince now.isoformat with
      | none => exact .inr ⟨rfl, rfl⟩
      | some stale =>
        have hrowWritten := hdb.2 row (Rows.selectOne_mem hrow)
        exact .inl (congrArg some (decide_eq_decide.2 (staleSince_lt_iff hstale hrowWritten)))

/-! ### Turns in order -/

/-- `ORDER BY started_at ASC`, on the texts. -/
def byStartText (ts : List Turn) : List Turn :=
  ts.insertionSort fun t t' => stamp t.startedAt ≤ stamp t'.startedAt

/-- The completed turns of a conversation whose `started_at` text meets a bound, in the order of
these texts. -/
def completedTurnsText (db : Db) (u : UserId) (cid : Id) (bound : Text → Bool) : List Turn :=
  byStartText (db.turns.filter fun t =>
    t.userId = u ∧ t.conversationId = cid ∧ t.status = .completed ∧ bound (stamp t.startedAt))

lemma byStartText_eq {ts : List Turn} (h : ∀ t ∈ ts, Written t.startedAt) :
    byStartText ts = byStart ts := by
  have hmap := List.map_insertionSort (fun t t' : Turn => stamp t.startedAt ≤ stamp t'.startedAt)
    (fun t t' => t.startedAt ≤ t'.startedAt) id ts fun t ht t' ht' =>
      stamp_le_iff (h t ht) (h t' ht')
  rwa [List.map_id, List.map_id] at hmap

lemma completedTurnsText_eq {db : Db} (h : ∀ t ∈ db.turns, Written t.startedAt) (u : UserId)
    (cid : Id) {bound : Text → Bool} {bound' : Instant → Bool}
    (hbound : ∀ i, Written i → bound (stamp i) = bound' i) :
    completedTurnsText db u cid bound = completedTurns db u cid bound' := by
  rw [completedTurnsText, byStartText_eq fun t ht => h t (List.mem_filter.1 ht).1, completedTurns]
  congr 1
  apply List.filter_congr
  intro t ht
  rw [hbound t.startedAt (h t ht)]

/-- **Texts compare as times do.** The order of the texts is that of the instants; the values of
the clock increase, whatever the wall clock does; and what leases, the order of turns and the
cutoffs of branches make of the texts is what they would make of the instants. -/
theorem timestamps_ordered_as_text :
    (∀ d e : Datetime, (d.isoformat < e.isoformat ↔ d.instant < e.instant) ∧
      (d.isoformat ≤ e.isoformat ↔ d.instant ≤ e.instant) ∧
      (d.isoformat = e.isoformat ↔ d.instant = e.instant)) ∧
    (∀ walls : List Datetime, (Runs.run Clock.call Clock.start walls).Increasing ∧
      (Runs.run Clock.call Clock.start walls).values.Pairwise (· < ·)) ∧
    (∀ (p : Process) (db : Db) (lease : LeaseView) (now : Datetime), LeaseWritten db lease →
      leaseBlocksText p db lease now.isoformat = some (leaseBlocks p db lease now.instant) ∨
        now.instant < microsecondsOfDay + leaseOwnerStaleSeconds * second ∧
          leaseBlocksText p db lease now.isoformat = none) ∧
    (∀ (db : Db) (u : UserId) (cid : Id) (cut : Instant),
      (∀ t ∈ db.turns, Written t.startedAt) → Written cut →
      completedTurnsText db u cid (· ≤ stamp cut) = completedTurns db u cid (· ≤ cut) ∧
        completedTurnsText db u cid (· < stamp cut) = completedTurns db u cid (· < cut)) := by
  refine ⟨fun d e => ?_, fun walls => ?_, fun p db lease now hdb => ?_,
    fun db u cid cut hturns hcut => ?_⟩
  · exact ⟨Datetime.isoformat_lt_iff, Datetime.isoformat_le_iff,
      Datetime.isoformat_inj.trans Datetime.instant_inj.symm⟩
  · exact ⟨Clock.increasing_run walls, (Clock.increasing_run walls).values_pairwise⟩
  · rcases leaseBlocksText_eq hdb p now with hsame | ⟨hstale, hraises⟩
    · exact .inl hsame
    · refine .inr ⟨?_, hraises⟩
      by_contra hlate
      obtain ⟨t, ht⟩ := exists_staleSince (not_lt.1 hlate)
      rw [ht] at hstale
      contradiction
  · constructor
    · exact completedTurnsText_eq hturns u cid fun i hi =>
        decide_eq_decide.2 (stamp_le_iff hi hcut)
    · exact completedTurnsText_eq hturns u cid fun i hi =>
        decide_eq_decide.2 (stamp_lt_iff hi hcut)

lemma first_pos : 1 ≤ 1 := Nat.le_refl 1

lemma january_le : 1 ≤ 12 := by decide

/-- The first second of 2026, and half a second later. -/
def newYear : Datetime where
  date := ⟨2026, 1, 1, by decide, by decide, first_pos, january_le, first_pos, by decide⟩
  time := Datetime.min.time

@[inherit_doc newYear] def newYearHalf : Datetime where
  date := newYear.date
  time := { Datetime.min.time with microsecond := 500000, microsecond_lt := by decide }

/-- A store in which another process gave its last sign of life with the new year. -/
def newYearDb : Db :=
  { Db.empty with
    owners := [{ ownerId := 7, host := "b", pid := 1, startedAt := newYear.instant,
                 heartbeatAt := newYear.instant }] }

def newYearLease (expiry : Datetime) : LeaseView where
  turnId := 1
  expiresAt := expiry.instant
  ownerId := some 7
  status := some .running

theorem timestamps_ordered_new_year :
    LeaseWritten newYearDb (newYearLease newYearHalf) ∧
      leaseBlocksText ⟨8, "a", fun _ => true⟩ newYearDb (newYearLease newYearHalf)
        newYear.isoformat = some true := by
  have hdb : LeaseWritten newYearDb (newYearLease newYearHalf) := by
    refine ⟨⟨newYearHalf, rfl⟩, ?_⟩
    intro o ho
    obtain rfl := List.mem_singleton.1 ho
    exact ⟨newYear, rfl⟩
  refine ⟨hdb, ?_⟩
  rcases timestamps_ordered_as_text.2.2.1 ⟨8, "a", fun _ => true⟩ newYearDb
    (newYearLease newYearHalf) newYear hdb with h | ⟨h, -⟩
  · rw [h]
    decide +kernel
  · exact absurd h (by decide +kernel)

end RentCompass.Store
