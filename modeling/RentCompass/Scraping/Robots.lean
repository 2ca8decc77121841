import RentCompass.Text
import RentCompass.Scraping.OtmAccess
import Mathlib.Data.List.Infix

/-!
# The robots rules of the source

The body is read line by line into groups of agents and rules; the rules of the groups with the
longest agent that is contained in the product token decide, and among those that match, the one
with the most characters that are no wildcards.
-/

namespace RentCompass.Scraping

inductive RuleKind where
  | allow
  | disallow
deriving DecidableEq

structure Rule where
  kind : RuleKind
  pattern : Text
deriving DecidableEq

/-- A line of the body with a colon. -/
inductive Record where
  | userAgent (value : Text)
  | rule (r : Rule)
  | other
deriving DecidableEq

/-- A line break of `str.splitlines`. -/
def isLineBreak (c : Nat) : Bool :=
  (10 ≤ c && c ≤ 13) || (28 ≤ c && c ≤ 30) || c == 0x85 || c == 0x2028 || c == 0x2029

/-- `str.splitlines` -/
def splitlines : Text → List Text
  | [] => []
  | 13 :: 10 :: t => [] :: splitlines t
  | c :: t =>
    if isLineBreak c then [] :: splitlines t
    else match splitlines t with
      | [] => [[c]]
      | line :: lines => (c :: line) :: lines

variable (lower : Text → Text)

/-- The record on a line, up to its comment. -/
def readRecord (raw : Text) : Option Record :=
  let line := Text.strip (raw.takeWhile (· ≠ 35))
  if 58 ∈ line then
    let key := lower (Text.strip (line.takeWhile (· ≠ 58)))
    let value := Text.strip ((line.dropWhile (· ≠ 58)).drop 1)
    if key = Text.ofString "user-agent" then some (.userAgent value)
    else if key = Text.ofString "allow" then some (.rule ⟨.allow, value⟩)
    else if key = Text.ofString "disallow" then some (.rule ⟨.disallow, value⟩)
    else some .other
  else none

def records (body : Text) : List Record := (splitlines body).filterMap (readRecord lower)

/-! ### Groups -/

structure Group where
  agents : List Text
  rules : List Rule
deriving DecidableEq

/-- The variables of `_robot_groups`. -/
structure Grouping where
  groups : List Group
  agents : List Text
  rules : List Rule
  hasDirective : Bool
deriving DecidableEq

/-- The group that is open is closed where it has a directive. -/
def Grouping.flush (s : Grouping) : Grouping :=
  if s.hasDirective then ⟨s.groups ++ [⟨s.agents, s.rules⟩], [], [], false⟩ else s

def Grouping.step (s : Grouping) : Record → Grouping
  | .userAgent value =>
    if value ≠ [] then { s.flush with agents := s.flush.agents ++ [lower value] } else s.flush
  | .rule r =>
    if s.agents ≠ [] then
      { s with hasDirective := true, rules := if r.pattern ≠ [] then s.rules ++ [r] else s.rules }
    else s
  | .other => if s.agents ≠ [] then { s with hasDirective := true } else s

/-- The loop of `_robot_groups`. -/
def grouping (rs : List Record) : Grouping := rs.foldl (Grouping.step lower) ⟨[], [], [], false⟩

/-- `_robot_groups` -/
def robotGroups (body : Text) : List Group :=
  let s := grouping lower (records lower body)
  if s.agents ≠ [] then s.groups ++ [⟨s.agents, s.rules⟩] else s.groups

/-! ### The decision -/

/-- `"*"` -/
def anyAgent : Text := [42]

/-- The agent is `"*"`, or part of the token. -/
def Contained (token agent : Text) : Prop := agent = anyAgent ∨ agent <:+: token

instance (token agent : Text) : Decidable (Contained token agent) :=
  inferInstanceAs (Decidable (_ ∨ _))

def agentScore (agent : Text) : Int := if agent = anyAgent then 0 else agent.length

/-- The score of a group: that of its best agent, or -1. -/
def groupScore (token : Text) (agents : List Text) : Int :=
  ((agents.filter (Contained token ·)).map agentScore).max?.getD (-1)

/-- The first loop of `_robots_allow`: the rules that are selected, and the score of their
groups. -/
def selectRules (token : Text) (groups : List Group) : List Rule × Int :=
  groups.foldl (fun (selected, best) g =>
    let score := groupScore token g.agents
    if score < 0 then (selected, best)
    else if best < score then (g.rules, score)
    else if score = best then (selected ++ g.rules, best)
    else (selected, best)) ([], -1)

/-- What is left of a text behind what `.*` takes. -/
def skips : Text → List Text
  | [] => [[]]
  | c :: t => (c :: t) :: if c = 10 then [] else skips t

/-- `re.match` of a pattern with `.*` for each `*`, up to the end where it is anchored; `$` matches
before a line break at the end too. -/
def regexMatch (anchored : Bool) : Text → Text → Bool
  | [], t => !anchored || t = [] || t = [10]
  | c :: p, t =>
    if c = 42 then (skips t).any (regexMatch anchored p)
    else match t with
      | [] => false
      | d :: t => c = d && regexMatch anchored p t

def endAnchor (pattern : Text) : Bool := pattern.getLast? = some 36

/-- The pattern of a rule matches the target. -/
def ruleMatches (pattern target : Text) : Bool :=
  if endAnchor pattern then regexMatch true pattern.dropLast target
  else regexMatch false pattern target

/-- `len(pattern.replace("*", "").rstrip("$"))` -/
def specificity (pattern : Text) : Nat :=
  ((pattern.filter (· ≠ 42)).rdropWhile (· = 36)).length

/-- The second loop of `_robots_allow`. -/
def bestRule (target : Text) (selected : List Rule) : Int × Bool :=
  selected.foldl (fun (best, allowed) r =>
    if ruleMatches r.pattern target then
      if best < specificity r.pattern ∨ (specificity r.pattern = best ∧ r.kind = .allow) then
        (specificity r.pattern, r.kind = .allow)
      else (best, allowed)
    else (best, allowed)) (-1, true)

def robotsInvalidResponse : OTMSourceError := ⟨.unavailable, .robotsInvalidResponse, none, none⟩

/-- The product token: the agent up to its version. -/
def productToken (userAgent : Text) : Text := lower (userAgent.takeWhile (· ≠ 47))

/-- `_robots_allow` -/
def robotsAllow (userAgent body target : Text) : Except OTMSourceError Bool :=
  let groups := robotGroups lower body
  if groups = [] then .error robotsInvalidResponse
  else .ok (bestRule target (selectRules (productToken lower userAgent) groups).1).2

/-! ### Which group a rule is in -/

def Record.isUserAgent : Record → Bool
  | .userAgent _ => true
  | _ => false

def Record.isRule : Record → Bool
  | .rule _ => true
  | _ => false

section Groups

variable (head : Record → Bool)

/-- The records end in the head of a group that has a line with the name; `head` says which
records the head goes on with. -/
def InHead (rs : List Record) (name : Text) : Prop :=
  ∃ pre value us, rs = pre ++ .userAgent value :: us ∧ value ≠ [] ∧ lower value = name ∧
    ∀ x ∈ us, head x = true

/-- The records end in a group with the name. -/
def InGroup (rs : List Record) (name : Text) : Prop :=
  ∃ pre mid, rs = pre ++ mid ∧ InHead lower head pre name ∧ ∀ x ∈ mid, x.isUserAgent = false

/-- The rule is in a group with the name; a rule without a pattern is none. -/
def Governs (rs : List Record) (name : Text) (r : Rule) : Prop :=
  r.pattern ≠ [] ∧ ∃ pre post, rs = pre ++ .rule r :: post ∧ InGroup lower head pre name

lemma append_singleton_eq_append_iff {α : Type} {l pre post : List α} {x : α} :
    l ++ [x] = pre ++ post ↔
      (post = [] ∧ pre = l ++ [x]) ∨ ∃ post', post = post' ++ [x] ∧ l = pre ++ post' := by
  constructor
  · intro h
    rcases List.eq_nil_or_concat' post with rfl | ⟨post, z, rfl⟩
    · exact .inl ⟨rfl, by simpa using h.symm⟩
    · rw [← List.append_assoc] at h
      obtain ⟨hl, hx⟩ := List.append_inj' h rfl
      exact .inr ⟨post, by rw [(List.cons.inj hx).1], hl⟩
  · rintro (⟨rfl, rfl⟩ | ⟨post, rfl, rfl⟩)
    · exact (List.append_nil _).symm
    · exact List.append_assoc _ _ _

lemma append_singleton_eq_iff {α : Type} {l pre post : List α} {x y : α} :
    l ++ [x] = pre ++ y :: post ↔
      (post = [] ∧ l = pre ∧ x = y) ∨ ∃ post', post = post' ++ [x] ∧ l = pre ++ y :: post' := by
  constructor
  · intro h
    rw [List.append_cons pre, append_singleton_eq_append_iff] at h
    rcases h with ⟨rfl, heq⟩ | ⟨post, rfl, rfl⟩
    · obtain ⟨hl, hx⟩ := List.append_inj' heq rfl
      exact .inl ⟨rfl, hl.symm, (List.cons.inj hx).1.symm⟩
    · exact .inr ⟨post, rfl, by simp⟩
  · rintro (⟨rfl, rfl, rfl⟩ | ⟨post, rfl, rfl⟩)
    · rfl
    · simp

variable {lower} {head} {rs : List Record} {x : Record} {name : Text} {r : Rule}

lemma inHead_append_singleton :
    InHead lower head (rs ++ [x]) name ↔
      (∃ value, x = .userAgent value ∧ value ≠ [] ∧ lower value = name) ∨
        head x = true ∧ InHead lower head rs name := by
  constructor
  · rintro ⟨pre, value, us, hrs, hvalue, hname, hus⟩
    rcases append_singleton_eq_iff.1 hrs with ⟨-, -, rfl⟩ | ⟨us, rfl, rfl⟩
    · exact .inl ⟨value, rfl, hvalue, hname⟩
    · exact .inr ⟨hus x (by simp), pre, value, us, rfl, hvalue, hname, fun y hy =>
        hus y (by simp [hy])⟩
  · rintro (⟨value, rfl, hvalue, hname⟩ | ⟨hx, pre, value, us, rfl, hvalue, hname, hus⟩)
    · exact ⟨rs, value, [], rfl, hvalue, hname, by simp⟩
    · refine ⟨pre, value, us ++ [x], by simp, hvalue, hname, fun y hy => ?_⟩
      rcases List.mem_append.1 hy with hy | hy
      · exact hus y hy
      · rwa [List.mem_singleton.1 hy]

lemma inGroup_append_singleton :
    InGroup lower head (rs ++ [x]) name ↔
      InHead lower head (rs ++ [x]) name ∨ x.isUserAgent = false ∧ InGroup lower head rs name := by
  constructor
  · rintro ⟨pre, mid, hrs, hhead, hmid⟩
    rcases append_singleton_eq_append_iff.1 hrs with ⟨-, rfl⟩ | ⟨mid, rfl, rfl⟩
    · exact .inl hhead
    · exact .inr ⟨hmid x (by simp), pre, mid, rfl, hhead, fun y hy => hmid y (by simp [hy])⟩
  · rintro (hhead | ⟨hx, pre, mid, rfl, hhead, hmid⟩)
    · exact ⟨rs ++ [x], [], (List.append_nil _).symm, hhead, by simp⟩
    · refine ⟨pre, mid ++ [x], List.append_assoc _ _ _, hhead, fun y hy => ?_⟩
      rcases List.mem_append.1 hy with hy | hy
      · exact hmid y hy
      · rwa [List.mem_singleton.1 hy]

lemma governs_append_singleton :
    Governs lower head (rs ++ [x]) name r ↔
      Governs lower head rs name r ∨
        x = .rule r ∧ r.pattern ≠ [] ∧ InGroup lower head rs name := by
  constructor
  · rintro ⟨hpattern, pre, post, hrs, hgroup⟩
    rcases append_singleton_eq_iff.1 hrs with ⟨-, rfl, rfl⟩ | ⟨post, rfl, rfl⟩
    · exact .inr ⟨rfl, hpattern, hgroup⟩
    · exact .inl ⟨hpattern, pre, post, rfl, hgroup⟩
  · rintro (⟨hpattern, pre, post, rfl, hgroup⟩ | ⟨rfl, hpattern, hgroup⟩)
    · exact ⟨hpattern, pre, post ++ [x], by simp, hgroup⟩
    · exact ⟨hpattern, rs, [], rfl, hgroup⟩

end Groups

/-- What the agents of the body are called. -/
def agentNames (rs : List Record) : List Text :=
  rs.filterMap fun
    | .userAgent value => if value ≠ [] then some (lower value) else none
    | _ => none

/-- The group that is open is `s.agents` with `s.rules`; it has a directive once a record follows
its head. -/
structure Grouped (rs : List Record) (s : Grouping) : Prop where
  inHead : ∀ name, InHead lower Record.isUserAgent rs name ↔
    name ∈ s.agents ∧ s.hasDirective = false
  inGroup : ∀ name, InGroup lower Record.isUserAgent rs name ↔ name ∈ s.agents
  governs : ∀ name r, Governs lower Record.isUserAgent rs name r ↔
    ∃ g ∈ s.groups ++ [⟨s.agents, s.rules⟩], name ∈ g.agents ∧ r ∈ g.rules
  names : ∀ name, name ∈ agentNames lower rs ↔
    ∃ g ∈ s.groups ++ [⟨s.agents, s.rules⟩], name ∈ g.agents
  noRules : s.hasDirective = false → s.rules = []
  directive : s.hasDirective = true → s.agents ≠ []
  agents : ∀ g ∈ s.groups, g.agents ≠ []

section Step

variable {lower} {rs : List Record} {s : Grouping} {name : Text} {r : Rule}

@[simp] lemma Grouping.flush_hasDirective (s : Grouping) : s.flush.hasDirective = false := by
  unfold Grouping.flush
  split
  · rfl
  · next h => simpa using h

lemma Grouped.flush_rules (h : Grouped lower rs s) : s.flush.rules = [] := by
  unfold Grouping.flush
  split
  · rfl
  · next hdirective => exact h.noRules (by simpa using hdirective)

lemma Grouped.mem_flush_agents (h : Grouped lower rs s) :
    name ∈ s.flush.agents ↔ InHead lower Record.isUserAgent rs name := by
  rw [h.inHead]
  unfold Grouping.flush
  split
  · next hdirective => simp [hdirective]
  · next hdirective => simp [hdirective]

lemma Grouped.governs_flush (h : Grouped lower rs s) :
    Governs lower Record.isUserAgent rs name r ↔
      ∃ g ∈ s.flush.groups, name ∈ g.agents ∧ r ∈ g.rules := by
  rw [h.governs]
  unfold Grouping.flush
  split
  · rfl
  · next hdirective => simp [h.noRules (by simpa using hdirective)]

lemma Grouped.names_flush (h : Grouped lower rs s) :
    name ∈ agentNames lower rs ↔
      (∃ g ∈ s.flush.groups, name ∈ g.agents) ∨ name ∈ s.flush.agents := by
  rw [h.names]
  unfold Grouping.flush
  split
  · simp
  · simp [or_and_right, exists_or]

lemma Grouped.flush_agents (h : Grouped lower rs s) : ∀ g ∈ s.flush.groups, g.agents ≠ [] := by
  unfold Grouping.flush
  split
  · next hdirective =>
    intro g hg
    rcases List.mem_append.1 hg with hg | hg
    · exact h.agents g hg
    · rw [List.mem_singleton.1 hg]
      exact h.directive hdirective
  · exact h.agents

lemma agentNames_append_singleton (x : Record) :
    name ∈ agentNames lower (rs ++ [x]) ↔ name ∈ agentNames lower rs ∨
      ∃ value, x = .userAgent value ∧ value ≠ [] ∧ lower value = name := by
  rw [agentNames, agentNames, List.filterMap_append, List.mem_append]
  refine or_congr_right ?_
  cases x with
  | userAgent value => by_cases hvalue : value = [] <;> simp [hvalue, eq_comm]
  | rule r => simp
  | other => simp

/-- A user-agent line goes on with the head of a group, or starts the head of the next. -/
lemma Grouped.userAgent (h : Grouped lower rs s) (value : Text) :
    Grouped lower (rs ++ [.userAgent value]) (s.step lower (.userAgent value)) := by
  obtain ⟨t, ht, hgroups, hrules, hdirective, hagents⟩ : ∃ t : Grouping,
      s.step lower (.userAgent value) = t ∧ t.groups = s.flush.groups ∧ t.rules = [] ∧
        t.hasDirective = false ∧
        ∀ name, name ∈ t.agents ↔ name ∈ s.flush.agents ∨ value ≠ [] ∧ lower value = name := by
    refine ⟨_, rfl, ?_⟩
    by_cases hvalue : value = []
    · simp [Grouping.step, hvalue, h.flush_rules]
    · simp [Grouping.step, hvalue, h.flush_rules, eq_comm]
  rw [ht]
  have hinHead (name : Text) : InHead lower Record.isUserAgent (rs ++ [.userAgent value]) name ↔
      name ∈ t.agents := by
    rw [inHead_append_singleton, hagents, h.mem_flush_agents]
    simp [Record.isUserAgent, or_comm]
  refine ⟨fun name => ?_, fun name => ?_, fun name r => ?_, fun name => ?_, fun _ => hrules,
    fun htrue => ?_, fun g hg => ?_⟩
  · rw [hinHead, and_iff_left hdirective]
  · rw [inGroup_append_singleton, hinHead]
    simp [Record.isUserAgent]
  · rw [governs_append_singleton, h.governs_flush, hgroups, hrules]
    simp
  · rw [agentNames_append_singleton, h.names_flush, hgroups]
    simp [hagents, or_assoc, or_and_right, exists_or]
  · rw [hdirective] at htrue
    cases htrue
  · exact h.flush_agents g (hgroups ▸ hg)

/-- Any other line ends the head of the group; a rule is one of the group. -/
lemma Grouped.other (h : Grouped lower rs s) {x : Record} (hx : x.isUserAgent = false) :
    Grouped lower (rs ++ [x]) (s.step lower x) := by
  have hno (value : Text) : x ≠ .userAgent value := by
    rintro rfl
    cases hx
  have hinHead (name : Text) : ¬ InHead lower Record.isUserAgent (rs ++ [x]) name := by
    simp [inHead_append_singleton, hno, hx]
  have hinGroup (name : Text) : InGroup lower Record.isUserAgent (rs ++ [x]) name ↔
      name ∈ s.agents := by
    rw [inGroup_append_singleton, h.inGroup]
    simp [hinHead, hx]
  have hnames (name : Text) : name ∈ agentNames lower (rs ++ [x]) ↔
      ∃ g ∈ s.groups ++ [⟨s.agents, s.rules⟩], name ∈ g.agents := by
    rw [agentNames_append_singleton, h.names]
    simp [hno]
  have hgoverns (name : Text) (r : Rule) : Governs lower Record.isUserAgent (rs ++ [x]) name r ↔
      (∃ g ∈ s.groups ++ [⟨s.agents, s.rules⟩], name ∈ g.agents ∧ r ∈ g.rules) ∨
        x = .rule r ∧ r.pattern ≠ [] ∧ name ∈ s.agents := by
    rw [governs_append_singleton, h.governs, h.inGroup]
  by_cases hagents : s.agents = []
  · have hstep : s.step lower x = s := by
      cases x with
      | userAgent value => exact absurd rfl (hno value)
      | rule r => simp [Grouping.step, hagents]
      | other => simp [Grouping.step, hagents]
    rw [hstep]
    refine ⟨fun name => ?_, hinGroup, fun name r => ?_, hnames, h.noRules, h.directive, h.agents⟩
    · simp [hinHead, hagents]
    · rw [hgoverns]
      simp [hagents]
  · obtain ⟨t, ht, hgroups, htagents, hdirective, hrules⟩ : ∃ t : Grouping,
        s.step lower x = t ∧ t.groups = s.groups ∧ t.agents = s.agents ∧ t.hasDirective = true ∧
          ∀ r, r ∈ t.rules ↔ r ∈ s.rules ∨ x = .rule r ∧ r.pattern ≠ [] := by
      refine ⟨_, rfl, ?_⟩
      cases x with
      | userAgent value => exact absurd rfl (hno value)
      | rule r =>
        by_cases hpattern : r.pattern = []
        · simp [Grouping.step, hagents, hpattern]
        · have hself (r' : Rule) : r = r' ∧ r'.pattern ≠ [] ↔ r' = r :=
            ⟨fun heq => heq.1.symm, fun heq => ⟨heq.symm, heq ▸ hpattern⟩⟩
          simp [Grouping.step, hagents, hpattern, hself]
      | other => simp [Grouping.step, hagents]
    rw [ht]
    refine ⟨fun name => ?_, fun name => ?_, fun name r => ?_, fun name => ?_, fun hfalse => ?_,
      fun _ => htagents ▸ hagents, fun g hg => h.agents g (hgroups ▸ hg)⟩
    · simp [hinHead, hdirective]
    · rw [hinGroup, htagents]
    · rw [hgoverns, hgroups]
      simp only [List.mem_append, List.mem_singleton, or_and_right, exists_or, exists_eq_left,
        htagents, hrules]
      grind
    · rw [hnames, hgroups]
      simp only [List.mem_append, List.mem_singleton, or_and_right, exists_or, exists_eq_left,
        htagents]
    · rw [hdirective] at hfalse
      cases hfalse

theorem grouped_grouping (rs : List Record) : Grouped lower rs (grouping lower rs) := by
  induction rs using List.reverseRecOn with
  | nil =>
    have hinHead (name : Text) : ¬ InHead lower Record.isUserAgent [] name := by
      simp [InHead]
    have hinGroup (name : Text) : ¬ InGroup lower Record.isUserAgent [] name := by
      rintro ⟨pre, mid, hnil, hhead, -⟩
      rw [(List.append_eq_nil_iff.1 hnil.symm).1] at hhead
      exact hinHead name hhead
    have hgoverns (name : Text) (r : Rule) : ¬ Governs lower Record.isUserAgent [] name r := by
      rintro ⟨-, pre, post, hnil, -⟩
      cases pre <;> cases hnil
    constructor <;> simp [grouping, agentNames, hinHead, hinGroup, hgoverns]
  | append_singleton rs x ih =>
    rw [grouping, List.foldl_append]
    cases x with
    | userAgent value => exact ih.userAgent value
    | rule r => exact ih.other rfl
    | other => exact ih.other rfl

/-- A rule is in a group of the body just if the group governs it. -/
lemma mem_robotGroups_rules {body : Text} :
    (∃ g ∈ robotGroups lower body, name ∈ g.agents ∧ r ∈ g.rules) ↔
      Governs lower Record.isUserAgent (records lower body) name r := by
  rw [(grouped_grouping _).governs, robotGroups]
  split
  · rfl
  · next h => simp [not_not.1 h]

lemma mem_robotGroups_agents {body : Text} :
    (∃ g ∈ robotGroups lower body, name ∈ g.agents) ↔
      name ∈ agentNames lower (records lower body) := by
  rw [(grouped_grouping _).names, robotGroups]
  split
  · rfl
  · next h => simp [not_not.1 h]

lemma robotGroups_eq_nil {body : Text} :
    robotGroups lower body = [] ↔ agentNames lower (records lower body) = [] := by
  constructor
  · intro hnil
    refine List.eq_nil_iff_forall_not_mem.2 fun name hname => ?_
    obtain ⟨g, hg, -⟩ := mem_robotGroups_agents.2 hname
    rw [hnil] at hg
    cases hg
  · intro hnil
    refine List.eq_nil_iff_forall_not_mem.2 fun g hg => ?_
    have hagents : g.agents ≠ [] := by
      have h : Grouped lower (records lower body) (grouping lower (records lower body)) :=
        grouped_grouping _
      simp only [robotGroups] at hg
      split at hg
      · next hne =>
        rcases List.mem_append.1 hg with hg | hg
        · exact h.agents g hg
        · rw [List.mem_singleton.1 hg]
          exact hne
      · exact h.agents g hg
    obtain ⟨name, hname⟩ := List.exists_mem_of_ne_nil _ hagents
    have hmem := mem_robotGroups_agents.1 ⟨g, hg, hname⟩
    rw [hnil] at hmem
    cases hmem

end Step

/-! ### Patterns -/

/-- The pattern is the whole text, with any text for each `*`. -/
inductive Glob : Text → Text → Prop
  | nil : Glob [] []
  | any (u : Text) {p t : Text} (h : Glob p t) : Glob (42 :: p) (u ++ t)
  | char {c : Nat} {p t : Text} (hc : c ≠ 42) (h : Glob p t) : Glob (c :: p) (c :: t)

/-- The pattern is what the target starts with, or, with `$` at its end, the whole target. -/
def Matches (pattern target : Text) : Prop :=
  if endAnchor pattern = true then Glob pattern.dropLast target
  else ∃ u v, target = u ++ v ∧ Glob pattern u

lemma Glob.of_char {c : Nat} {p t : Text} (h : Glob (c :: p) t) (hc : c ≠ 42) :
    ∃ u, t = c :: u ∧ Glob p u := by
  cases h with
  | any => exact absurd rfl hc
  | char hc h => exact ⟨_, rfl, h⟩

lemma mem_skips {t v : Text} (ht : 10 ∉ t) : v ∈ skips t ↔ ∃ u, t = u ++ v := by
  induction t with
  | nil => simp [skips, eq_comm]
  | cons c t ih =>
    have hc : c ≠ 10 := fun h => ht (by simp [h])
    have ih := ih fun h => ht (List.mem_cons_of_mem _ h)
    rw [skips, if_neg hc, List.mem_cons, ih]
    constructor
    · rintro (rfl | ⟨u, rfl⟩)
      · exact ⟨[], rfl⟩
      · exact ⟨c :: u, rfl⟩
    · rintro ⟨u, hu⟩
      cases u with
      | nil => exact .inl hu.symm
      | cons d u => exact .inr ⟨u, (List.cons.inj hu).2⟩

lemma regexMatch_star (anchored : Bool) (p t : Text) :
    regexMatch anchored (42 :: p) t = (skips t).any (regexMatch anchored p) := by
  cases t <;> rfl

lemma regexMatch_iff {anchored : Bool} {p t : Text} (ht : 10 ∉ t) :
    regexMatch anchored p t = true ↔
      ∃ u v, t = u ++ v ∧ Glob p u ∧ (anchored = true → v = []) := by
  induction p generalizing t with
  | nil =>
    have hbreak : t ≠ [10] := by
      rintro rfl
      exact ht List.mem_cons_self
    constructor
    · intro h
      refine ⟨[], t, rfl, .nil, fun hanchored => ?_⟩
      simpa [regexMatch, hanchored, hbreak] using h
    · rintro ⟨u, v, rfl, hu, hv⟩
      cases hu
      cases anchored with
      | false => rfl
      | true => simp [regexMatch, hv rfl]
  | cons c p ih =>
    by_cases hc : c = 42
    · subst hc
      rw [regexMatch_star, List.any_eq_true]
      constructor
      · rintro ⟨w, hw, hmatch⟩
        obtain ⟨x, rfl⟩ := (mem_skips ht).1 hw
        obtain ⟨u, v, rfl, hu, hv⟩ := (ih fun h => ht (List.mem_append_right _ h)).1 hmatch
        exact ⟨x ++ u, v, (List.append_assoc _ _ _).symm, .any x hu, hv⟩
      · rintro ⟨u, v, rfl, hu, hv⟩
        cases hu with
        | char hc => exact absurd rfl hc
        | @any x _ u hu =>
          have hrest : 10 ∉ u ++ v := fun h => ht (by
            rw [List.append_assoc]
            exact List.mem_append_right _ h)
          refine ⟨u ++ v, (mem_skips ht).2 ⟨x, List.append_assoc _ _ _⟩, (ih hrest).2 ?_⟩
          exact ⟨u, v, rfl, hu, hv⟩
    · cases t with
      | nil =>
        simp only [regexMatch, if_neg hc, Bool.false_eq_true, false_iff]
        rintro ⟨u, v, huv, hu, -⟩
        obtain ⟨u, rfl, -⟩ := hu.of_char hc
        cases huv
      | cons d t =>
        have ih := ih fun h => ht (List.mem_cons_of_mem _ h)
        simp only [regexMatch, if_neg hc, Bool.and_eq_true, decide_eq_true_eq, ih]
        constructor
        · rintro ⟨rfl, u, v, rfl, hu, hv⟩
          exact ⟨c :: u, v, rfl, .char hc hu, hv⟩
        · rintro ⟨u, v, huv, hu, hv⟩
          obtain ⟨u, rfl, htail⟩ := hu.of_char hc
          obtain ⟨rfl, rfl⟩ := List.cons.inj huv
          exact ⟨rfl, u, v, rfl, htail, hv⟩

lemma ruleMatches_iff {pattern target : Text} (ht : 10 ∉ target) :
    ruleMatches pattern target = true ↔ Matches pattern target := by
  unfold ruleMatches Matches
  split
  · rw [regexMatch_iff ht]
    constructor
    · rintro ⟨u, v, rfl, hu, hv⟩
      rwa [hv rfl, List.append_nil]
    · intro h
      exact ⟨target, [], (List.append_nil _).symm, h, fun _ => rfl⟩
  · rw [regexMatch_iff ht]
    simp

/-! ### Selection -/

section Selection

variable {token : Text}

lemma agentScore_nonneg (agent : Text) : 0 ≤ agentScore agent := by
  unfold agentScore
  split
  · rfl
  · exact Int.natCast_nonneg _

/-- The score of a group is the best of its agents that are contained in the token. -/
lemma groupScore_spec (token : Text) (agents : List Text) :
    (groupScore token agents = -1 ∧ ∀ a ∈ agents, ¬ Contained token a) ∨
      (∃ a ∈ agents, Contained token a ∧ agentScore a = groupScore token agents) ∧
        ∀ a ∈ agents, Contained token a → agentScore a ≤ groupScore token agents := by
  cases hmax : ((agents.filter (Contained token ·)).map agentScore).max? with
  | none =>
    left
    have hnil := List.max?_eq_none_iff.1 hmax
    simp only [List.map_eq_nil_iff, List.filter_eq_nil_iff, decide_eq_true_eq] at hnil
    exact ⟨by rw [groupScore, hmax]; rfl, hnil⟩
  | some best =>
    right
    have hscore : groupScore token agents = best := by rw [groupScore, hmax]; rfl
    obtain ⟨hmem, hle⟩ := List.max?_eq_some_iff.1 hmax
    rw [hscore]
    constructor
    · obtain ⟨a, ha, rfl⟩ := List.mem_map.1 hmem
      obtain ⟨ha, hc⟩ := List.mem_filter.1 ha
      exact ⟨a, ha, of_decide_eq_true hc, rfl⟩
    · intro a ha hc
      exact hle _ (List.mem_map_of_mem (List.mem_filter.2 ⟨ha, decide_eq_true hc⟩))

lemma agentScore_le_groupScore {agents : List Text} {a : Text} (ha : a ∈ agents)
    (hc : Contained token a) : agentScore a ≤ groupScore token agents := by
  rcases groupScore_spec token agents with ⟨-, hnone⟩ | ⟨-, hle⟩
  · exact absurd hc (hnone a ha)
  · exact hle a ha hc

lemma exists_agent_of_groupScore {agents : List Text} (h : 0 ≤ groupScore token agents) :
    ∃ a ∈ agents, Contained token a ∧ agentScore a = groupScore token agents := by
  rcases groupScore_spec token agents with ⟨hscore, -⟩ | ⟨hexists, -⟩
  · rw [hscore] at h
    exact absurd h (by decide)
  · exact hexists

/-- The selected rules are those of the groups of the best score. -/
structure Selected (token : Text) (groups : List Group) (p : List Rule × Int) : Prop where
  le : ∀ g ∈ groups, groupScore token g.agents ≤ p.2
  attained : p.2 = -1 ∨ ∃ g ∈ groups, groupScore token g.agents = p.2
  lower : -1 ≤ p.2
  mem : ∀ r, r ∈ p.1 ↔
    ∃ g ∈ groups, 0 ≤ groupScore token g.agents ∧ groupScore token g.agents = p.2 ∧ r ∈ g.rules

/-- A group of no selected rules changes nothing. -/
lemma Selected.skip {groups : List Group} {p : List Rule × Int} (h : Selected token groups p)
    {g : Group} (hle : groupScore token g.agents ≤ p.2)
    (hnone : groupScore token g.agents < 0 ∨ groupScore token g.agents ≠ p.2) :
    Selected token (groups ++ [g]) p := by
  refine ⟨fun g' hg' => ?_, ?_, h.lower, fun r => ?_⟩
  · rcases List.mem_append.1 hg' with hg' | hg'
    · exact h.le g' hg'
    · rwa [List.mem_singleton.1 hg']
  · rcases h.attained with hnone | ⟨g', hg', heq⟩
    · exact .inl hnone
    · exact .inr ⟨g', List.mem_append_left _ hg', heq⟩
  · rw [h.mem]
    constructor
    · rintro ⟨g', hg', hrest⟩
      exact ⟨g', List.mem_append_left _ hg', hrest⟩
    · rintro ⟨g', hg', hnonneg, heq, hr⟩
      rcases List.mem_append.1 hg' with hg' | hg'
      · exact ⟨g', hg', hnonneg, heq, hr⟩
      · rw [List.mem_singleton.1 hg'] at hnonneg heq
        rcases hnone with hneg | hne
        · omega
        · exact absurd heq hne

lemma selected_selectRules (token : Text) (groups : List Group) :
    Selected token groups (selectRules token groups) := by
  induction groups using List.reverseRecOn with
  | nil => constructor <;> simp [selectRules]
  | append_singleton groups g ih =>
    obtain ⟨⟨selected, best⟩, hp⟩ : ∃ p, selectRules token groups = p := ⟨_, rfl⟩
    rw [hp] at ih
    rw [selectRules, List.foldl_append]
    simp only [List.foldl_cons, List.foldl_nil]
    rw [← selectRules, hp]
    have hlower : -1 ≤ best := ih.lower
    by_cases hneg : groupScore token g.agents < 0
    · simp only [hneg, if_true]
      have hle : groupScore token g.agents ≤ best := by omega
      exact ih.skip hle (.inl hneg)
    simp only [hneg, if_false]
    rcases lt_trichotomy best (groupScore token g.agents) with hlt | heq | hgt
    · -- a better group replaces what is selected
      simp only [hlt, if_true]
      refine ⟨fun g' hg' => ?_, .inr ⟨g, by simp, rfl⟩, by omega, fun r => ?_⟩
      · rcases List.mem_append.1 hg' with hg' | hg'
        · exact (ih.le g' hg').trans hlt.le
        · rw [List.mem_singleton.1 hg']
      · constructor
        · intro hr
          exact ⟨g, by simp, not_lt.1 hneg, rfl, hr⟩
        · rintro ⟨g', hg', -, heq, hr⟩
          rcases List.mem_append.1 hg' with hg' | hg'
          · have heq : groupScore token g'.agents = groupScore token g.agents := heq
            exact absurd (heq.symm.le.trans (ih.le g' hg')) (not_le.2 hlt)
          · rwa [List.mem_singleton.1 hg'] at hr
    · -- an equal one is added
      simp only [heq, lt_irrefl, if_false, if_true]
      rw [← heq]
      refine ⟨fun g' hg' => ?_, .inr ⟨g, by simp, heq.symm⟩, hlower, fun r => ?_⟩
      · rcases List.mem_append.1 hg' with hg' | hg'
        · exact ih.le g' hg'
        · rw [List.mem_singleton.1 hg']
          exact heq.ge
      · rw [List.mem_append, ih.mem]
        constructor
        · rintro (⟨g', hg', hrest⟩ | hr)
          · exact ⟨g', List.mem_append_left _ hg', hrest⟩
          · exact ⟨g, by simp, not_lt.1 hneg, heq.symm, hr⟩
        · rintro ⟨g', hg', hnonneg, hscore, hr⟩
          rcases List.mem_append.1 hg' with hg' | hg'
          · exact .inl ⟨g', hg', hnonneg, hscore, hr⟩
          · rw [List.mem_singleton.1 hg'] at hr
            exact .inr hr
    · simp only [not_lt.2 hgt.le, hgt.ne, if_false]
      exact ih.skip hgt.le (.inr hgt.ne)

end Selection

/-! ### Precedence -/

/-- The rules decide by weight: none of them matches, or an `allow` is among the matching ones of
the greatest weight. -/
def Permits (uses : Rule → Prop) (weight : Text → Nat) (target : Text) : Prop :=
  (∀ r, uses r → ¬ Matches r.pattern target) ∨
    ∃ r, uses r ∧ Matches r.pattern target ∧ r.kind = .allow ∧
      ∀ r', uses r' → Matches r'.pattern target → weight r'.pattern ≤ weight r.pattern

section Precedence

variable {target : Text}

/-- The best of the rules so far, and what it says. -/
structure Best (target : Text) (rules : List Rule) (p : Int × Bool) : Prop where
  le : ∀ r ∈ rules, ruleMatches r.pattern target = true → (specificity r.pattern : Int) ≤ p.1
  attained : (p = (-1, true) ∧ ∀ r ∈ rules, ruleMatches r.pattern target = false) ∨
    ∃ r ∈ rules, ruleMatches r.pattern target = true ∧ (specificity r.pattern : Int) = p.1
  allowed : 0 ≤ p.1 → (p.2 = true ↔ ∃ r ∈ rules, ruleMatches r.pattern target = true ∧
    (specificity r.pattern : Int) = p.1 ∧ r.kind = .allow)

/-- A rule that is not better changes nothing. -/
lemma Best.skip {rules : List Rule} {p : Int × Bool} (h : Best target rules p) {r : Rule}
    (hr : ruleMatches r.pattern target = true →
      (specificity r.pattern : Int) ≤ p.1 ∧ ¬ ((specificity r.pattern : Int) = p.1 ∧
        r.kind = .allow)) : Best target (rules ++ [r]) p := by
  refine ⟨fun r' hr' hmatch => ?_, ?_, fun hbest => (h.allowed hbest).trans ⟨?_, ?_⟩⟩
  · rcases List.mem_append.1 hr' with hr' | hr'
    · exact h.le r' hr' hmatch
    · rw [List.mem_singleton.1 hr'] at hmatch ⊢
      exact (hr hmatch).1
  · rcases h.attained with ⟨hp, hnone⟩ | ⟨r', hr', hrest⟩
    · refine .inl ⟨hp, fun r' hr' => ?_⟩
      rcases List.mem_append.1 hr' with hr' | hr'
      · exact hnone r' hr'
      · rw [List.mem_singleton.1 hr']
        refine Bool.eq_false_iff.2 fun hmatch => ?_
        have hle := (hr hmatch).1
        rw [hp] at hle
        have : (0 : Int) ≤ specificity r.pattern := Int.natCast_nonneg _
        omega
    · exact .inr ⟨r', List.mem_append_left _ hr', hrest⟩
  · rintro ⟨r', hr', hrest⟩
    exact ⟨r', List.mem_append_left _ hr', hrest⟩
  · rintro ⟨r', hr', hmatch, hscore, hkind⟩
    rcases List.mem_append.1 hr' with hr' | hr'
    · exact ⟨r', hr', hmatch, hscore, hkind⟩
    · rw [List.mem_singleton.1 hr'] at hmatch hscore hkind
      exact absurd ⟨hscore, hkind⟩ (hr hmatch).2

/-- A rule that is better is the best. -/
lemma Best.take {rules : List Rule} {p : Int × Bool} (h : Best target rules p) {r : Rule}
    (hmatch : ruleMatches r.pattern target = true)
    (hr : p.1 < specificity r.pattern ∨ (specificity r.pattern : Int) = p.1 ∧ r.kind = .allow) :
    Best target (rules ++ [r]) (specificity r.pattern, r.kind = .allow) := by
  have hle : p.1 ≤ specificity r.pattern := hr.elim le_of_lt fun heq => heq.1.ge
  refine ⟨fun r' hr' hmatch' => ?_, .inr ⟨r, by simp, hmatch, rfl⟩, fun _ => ⟨fun hkind => ?_, ?_⟩⟩
  · rcases List.mem_append.1 hr' with hr' | hr'
    · exact (h.le r' hr' hmatch').trans hle
    · rw [List.mem_singleton.1 hr']
  · exact ⟨r, by simp, hmatch, rfl, of_decide_eq_true hkind⟩
  · rintro ⟨r', hr', hmatch', hscore, hkind⟩
    rcases List.mem_append.1 hr' with hr' | hr'
    · have hle' := h.le r' hr' hmatch'
      rcases hr with hlt | ⟨-, hallow⟩
      · simp only at hscore
        omega
      · exact decide_eq_true hallow
    · rw [List.mem_singleton.1 hr'] at hkind
      exact decide_eq_true hkind

lemma best_bestRule (target : Text) (rules : List Rule) :
    Best target rules (bestRule target rules) := by
  induction rules using List.reverseRecOn with
  | nil => constructor <;> simp [bestRule]
  | append_singleton rules r ih =>
    obtain ⟨⟨best, allowed⟩, hp⟩ : ∃ p, bestRule target rules = p := ⟨_, rfl⟩
    rw [hp] at ih
    rw [bestRule, List.foldl_append]
    simp only [List.foldl_cons, List.foldl_nil]
    rw [← bestRule, hp]
    split
    · next hmatch =>
      split
      · next hbetter => exact ih.take hmatch hbetter
      · next hworse =>
        obtain ⟨hle, hnot⟩ := not_or.1 hworse
        exact ih.skip fun _ => ⟨not_lt.1 hle, hnot⟩
    · next hmatch => exact ih.skip fun h => absurd h hmatch

/-- The loop decides by specificity. -/
lemma bestRule_iff {rules : List Rule} (ht : 10 ∉ target) :
    (bestRule target rules).2 = true ↔ Permits (· ∈ rules) specificity target := by
  have h := best_bestRule target rules
  rcases h.attained with ⟨hp, hnone⟩ | ⟨r, hr, hmatch, hbest⟩
  · rw [hp]
    refine iff_of_true rfl (.inl fun r hr => ?_)
    rw [← ruleMatches_iff ht, hnone r hr]
    decide
  · rw [h.allowed (hbest ▸ Int.natCast_nonneg _)]
    constructor
    · rintro ⟨r', hr', hmatch', hscore, hkind⟩
      refine .inr ⟨r', hr', (ruleMatches_iff ht).1 hmatch', hkind, fun r'' hr'' hmatch'' => ?_⟩
      have hle := h.le r'' hr'' ((ruleMatches_iff ht).2 hmatch'')
      omega
    · rintro (hnone | ⟨r', hr', hmatch', hkind, hmax⟩)
      · exact absurd ((ruleMatches_iff ht).1 hmatch) (hnone r hr)
      · have hmatch' := (ruleMatches_iff ht).2 hmatch'
        have hle := h.le r' hr' hmatch'
        have hge := hmax r hr ((ruleMatches_iff ht).1 hmatch)
        exact ⟨r', hr', hmatch', by omega, hkind⟩

end Precedence

/-! ### The decision -/

/-- The name is contained in the token, and none of the names that are has a higher score. -/
def BestName (token : Text) (names : List Text) (name : Text) : Prop :=
  name ∈ names ∧ Contained token name ∧
    ∀ m ∈ names, Contained token m → agentScore m ≤ agentScore name

/-- The head of a group in the standard: it goes on up to the first rule. -/
def beforeRules (x : Record) : Bool := !x.isRule

/-- No other record stands between the user-agent lines of a group. -/
def Unbroken (rs : List Record) : Prop :=
  ∀ pre value us next post, rs = pre ++ .userAgent value :: (us ++ .userAgent next :: post) →
    value ≠ [] → (∀ x ∈ us, beforeRules x = true) → ∀ x ∈ us, x.isUserAgent = true

/-- The rules that decide for the token: those of the groups with the best names. -/
def DecidingRule (token : Text) (rs : List Record) (r : Rule) : Prop :=
  ∃ name, BestName token (agentNames lower rs) name ∧ Governs lower beforeRules rs name r

/-- The rules of the standard: those of the groups that name the token, or of the `*` groups where
none does. -/
def StandardRule (token : Text) (rs : List Record) (r : Rule) : Prop :=
  Governs lower beforeRules rs (if token ∈ agentNames lower rs then token else anyAgent) r

variable {lower}

/-- The rules that are selected are those of the best names. -/
lemma mem_selectRules_iff {token body : Text} {r : Rule} :
    r ∈ (selectRules token (robotGroups lower body)).1 ↔
      ∃ name, BestName token (agentNames lower (records lower body)) name ∧
        Governs lower Record.isUserAgent (records lower body) name r := by
  have h := selected_selectRules token (robotGroups lower body)
  have hbound (m : Text) (hm : m ∈ agentNames lower (records lower body))
      (hc : Contained token m) :
      agentScore m ≤ (selectRules token (robotGroups lower body)).2 := by
    obtain ⟨g, hg, hmem⟩ := mem_robotGroups_agents.2 hm
    exact (agentScore_le_groupScore hmem hc).trans (h.le g hg)
  rw [h.mem]
  constructor
  · rintro ⟨g, hg, hnonneg, hbest, hr⟩
    obtain ⟨name, hname, hc, hscore⟩ := exists_agent_of_groupScore hnonneg
    refine ⟨name, ⟨mem_robotGroups_agents.1 ⟨g, hg, hname⟩, hc, fun m hm hcm => ?_⟩,
      mem_robotGroups_rules.1 ⟨g, hg, hname, hr⟩⟩
    rw [hscore, hbest]
    exact hbound m hm hcm
  · rintro ⟨name, ⟨hmem, hc, hmax⟩, hgoverns⟩
    obtain ⟨g, hg, hname, hr⟩ := mem_robotGroups_rules.2 hgoverns
    have hle := agentScore_le_groupScore hname hc
    have hnonneg := agentScore_nonneg name
    have hgle := h.le g hg
    refine ⟨g, hg, by omega, ?_, hr⟩
    rcases h.attained with hnone | ⟨g', hg', heq⟩
    · omega
    · have hscored : 0 ≤ groupScore token g'.agents := by omega
      obtain ⟨m, hm, hcm, hscore⟩ := exists_agent_of_groupScore hscored
      have := hmax m (mem_robotGroups_agents.1 ⟨g', hg', hm⟩) hcm
      omega

/-- Records are some up to a last user-agent line, and then others. -/
lemma exists_last_userAgent (us : List Record) :
    ∃ vs ws, us = vs ++ ws ∧ (∀ x ∈ ws, x.isUserAgent = false) ∧
      (vs = [] ∨ ∃ vs' value, vs = vs' ++ [.userAgent value]) := by
  induction us using List.reverseRecOn with
  | nil => exact ⟨[], [], rfl, by simp, .inl rfl⟩
  | append_singleton us x ih =>
    cases hx : x.isUserAgent with
    | true =>
      cases x with
      | userAgent value =>
        exact ⟨us ++ [.userAgent value], [], by simp, by simp, .inr ⟨us, value, rfl⟩⟩
      | rule r => cases hx
      | other => cases hx
    | false =>
      obtain ⟨vs, ws, rfl, hws, hvs⟩ := ih
      refine ⟨vs, ws ++ [x], List.append_assoc _ _ _, fun y hy => ?_, hvs⟩
      rcases List.mem_append.1 hy with hy | hy
      · exact hws y hy
      · rwa [List.mem_singleton.1 hy]

/-- Where no head is broken, the groups are those of the standard. -/
lemma governs_iff_of_unbroken {rs : List Record} (h : Unbroken rs) {name : Text} {r : Rule} :
    Governs lower Record.isUserAgent rs name r ↔ Governs lower beforeRules rs name r := by
  constructor
  · rintro ⟨hpattern, pre, post, hrs, front, mid, hpre, ⟨p, value, us, hfront, hvalue, hname, hus⟩,
      hmid⟩
    refine ⟨hpattern, pre, post, hrs, front, mid, hpre,
      ⟨p, value, us, hfront, hvalue, hname, fun x hx => ?_⟩, hmid⟩
    have hagent := hus x hx
    cases x with
    | userAgent value => rfl
    | rule r => cases hagent
    | other => rfl
  · rintro ⟨hpattern, pre, post, rfl, front, mid, rfl, ⟨p, value, us, rfl, hvalue, hname, hus⟩,
      hmid⟩
    obtain ⟨vs, ws, rfl, hws, hvs⟩ := exists_last_userAgent us
    have hbehind : ∀ x ∈ ws ++ mid, x.isUserAgent = false := fun x hx =>
      (List.mem_append.1 hx).elim (hws x) (hmid x)
    refine ⟨hpattern, _, post, rfl, p ++ .userAgent value :: vs, ws ++ mid, by simp,
      ⟨p, value, vs, rfl, hvalue, hname, ?_⟩, hbehind⟩
    rcases hvs with rfl | ⟨vs, next, rfl⟩
    · simp
    · have hall := h p value vs next (ws ++ (mid ++ .rule r :: post)) (by simp) hvalue
        fun x hx => hus x (by simp [hx])
      intro x hx
      rcases List.mem_append.1 hx with hx | hx
      · exact hall x hx
      · rw [List.mem_singleton.1 hx]
        rfl

/-- The most specific of the rules that match decides, in the groups of the best names. -/
lemma robotsAllow_eq_ok {userAgent body target : Text} (ht : 10 ∉ target)
    (hunbroken : Unbroken (records lower body))
    (hsome : agentNames lower (records lower body) ≠ []) :
    ∃ allowed, robotsAllow lower userAgent body target = .ok allowed ∧
      (allowed = true ↔ Permits
        (DecidingRule lower (productToken lower userAgent) (records lower body))
        specificity target) := by
  refine ⟨_, if_neg fun hnil => hsome (robotGroups_eq_nil.1 hnil), ?_⟩
  rw [bestRule_iff ht]
  have huses : (fun r => r ∈ (selectRules (productToken lower userAgent)
      (robotGroups lower body)).1) = DecidingRule lower (productToken lower userAgent)
        (records lower body) := by
    funext r
    refine propext (mem_selectRules_iff.trans (exists_congr fun name => ?_))
    exact and_congr_right fun _ => governs_iff_of_unbroken hunbroken
  rw [huses]

/-- A body that names no agent is refused; any other is decided by the most specific of the rules
that match, in the groups of the longest names that the token contains. -/
theorem robots_allow_decides {userAgent body target : Text} (ht : 10 ∉ target)
    (hunbroken : Unbroken (records lower body)) :
    (agentNames lower (records lower body) = [] →
      robotsAllow lower userAgent body target = .error robotsInvalidResponse) ∧
    (agentNames lower (records lower body) ≠ [] →
      ∃ allowed, robotsAllow lower userAgent body target = .ok allowed ∧
        (allowed = true ↔ Permits
          (DecidingRule lower (productToken lower userAgent) (records lower body))
          specificity target)) := by
  constructor
  · intro hnone
    rw [robotsAllow, if_pos (robotGroups_eq_nil.2 hnone)]
  · exact robotsAllow_eq_ok ht hunbroken

/-- A head without other records is not broken. -/
lemma unbroken_of_notMem {rs : List Record} (h : .other ∉ rs) : Unbroken rs := by
  rintro pre value us next post rfl - hus x hx
  cases x with
  | userAgent value => rfl
  | rule r => cases hus _ hx
  | other => exact absurd (by simp [hx]) h

/-- `str.lower` of ASCII. -/
def lowerAscii (t : Text) : Text := t.map fun c => if 65 ≤ c ∧ c ≤ 90 then c + 32 else c

/-- The agent of the program. -/
def rentCompassBot : Text := Text.ofString "RentCompassBot/1.0"

def detailsBody : Text := Text.ofString
  "User-agent: *\nDisallow: /\nUser-agent: RentCompassBot\nDisallow: /details/\nAllow: /details/1/$"

theorem details_page_decided :
    ∃ allowed, robotsAllow lowerAscii rentCompassBot detailsBody (Text.ofString "/details/1/") =
        .ok allowed ∧
      (allowed = true ↔ Permits
        (DecidingRule lowerAscii (productToken lowerAscii rentCompassBot)
          (records lowerAscii detailsBody))
        specificity (Text.ofString "/details/1/")) := by
  have hother : .other ∉ records lowerAscii detailsBody := by decide +kernel
  exact (robots_allow_decides (by decide) (unbroken_of_notMem hother)).2 (by decide +kernel)

def partialNameBody : Text := Text.ofString
  "User-agent: bot\nDisallow: /\nUser-agent: *\nAllow: /"

/-- The standard lets the program in, which is not called `bot`; and no rule at all forbids
nothing. -/
theorem standard_permits_refused_pages :
    (Permits (StandardRule lowerAscii (productToken lowerAscii rentCompassBot)
        (records lowerAscii partialNameBody)) List.length (Text.ofString "/to-rent/") ∧
      robotsAllow lowerAscii rentCompassBot partialNameBody (Text.ofString "/to-rent/") =
        .ok false) ∧
    Permits (StandardRule lowerAscii (productToken lowerAscii rentCompassBot)
        (records lowerAscii [])) List.length (Text.ofString "/to-rent/") ∧
      robotsAllow lowerAscii rentCompassBot [] (Text.ofString "/to-rent/") =
        .error robotsInvalidResponse := by
  have hrules (r : Rule) : StandardRule lowerAscii (productToken lowerAscii rentCompassBot)
      (records lowerAscii partialNameBody) r ↔ r = ⟨.allow, Text.ofString "/"⟩ := by
    have hother : .other ∉ records lowerAscii partialNameBody := by decide +kernel
    have hgroups : robotGroups lowerAscii partialNameBody =
        [⟨[Text.ofString "bot"], [⟨.disallow, Text.ofString "/"⟩]⟩,
          ⟨[anyAgent], [⟨.allow, Text.ofString "/"⟩]⟩] := by decide +kernel
    have hnot : productToken lowerAscii rentCompassBot ∉
        agentNames lowerAscii (records lowerAscii partialNameBody) := by decide +kernel
    have hbot : anyAgent ≠ Text.ofString "bot" := by decide
    rw [StandardRule, if_neg hnot, ← governs_iff_of_unbroken (unbroken_of_notMem hother),
      ← mem_robotGroups_rules, hgroups]
    simp [hbot]
  refine ⟨⟨.inr ⟨⟨.allow, Text.ofString "/"⟩, (hrules _).2 rfl, ?_, rfl, fun r hr _ => ?_⟩,
    by decide +kernel⟩, .inl fun r hr => ?_, by decide +kernel⟩
  · rw [← ruleMatches_iff (by decide)]
    decide
  · rw [(hrules r).1 hr]
  · obtain ⟨-, pre, post, hnil, -⟩ := hr
    cases pre <;> cases hnil

/-- Where no other name is part of the token, the best name is the token, or `*`. -/
lemma bestName_iff {token : Text} {names : List Text} (htoken : token ≠ [])
    (hnames : ∀ m ∈ names, m <:+: token → m = token) {name : Text} (hname : name ∈ names) :
    BestName token names name ↔ name = if token ∈ names then token else anyAgent := by
  have hpositive : token ≠ anyAgent → 0 < agentScore token := fun hne => by
    rw [agentScore, if_neg hne]
    exact Int.natCast_pos.2 (List.length_pos_of_ne_nil htoken)
  have hcontained {m : Text} (hm : m ∈ names) (hc : Contained token m) : m = anyAgent ∨ m = token :=
    hc.imp_right (hnames m hm)
  have hany : agentScore anyAgent = 0 := if_pos rfl
  split
  · next hmem =>
    constructor
    · rintro ⟨-, hc, hmax⟩
      rcases hcontained hname hc with rfl | rfl
      · have hle := hmax token hmem (.inr List.infix_rfl)
        by_contra hne
        have := hpositive fun heq => hne heq.symm
        omega
      · rfl
    · rintro rfl
      refine ⟨hname, .inr List.infix_rfl, fun m hm hc => ?_⟩
      rcases hcontained hm hc with rfl | rfl
      · rw [hany]
        exact agentScore_nonneg _
      · exact le_rfl
  · next hmem =>
    have honly {m : Text} (hm : m ∈ names) (hc : Contained token m) : m = anyAgent :=
      (hcontained hm hc).resolve_right fun heq => hmem (heq ▸ hm)
    constructor
    · rintro ⟨-, hc, -⟩
      exact honly hname hc
    · rintro rfl
      exact ⟨hname, .inl rfl, fun m hm hc => by rw [honly hm hc]⟩

lemma InHead.mem_agentNames {head : Record → Bool} {rs : List Record} {name : Text}
    (h : InHead lower head rs name) : name ∈ agentNames lower rs := by
  obtain ⟨pre, value, us, rfl, hvalue, rfl, -⟩ := h
  exact List.mem_filterMap.2 ⟨.userAgent value, by simp, by simp [hvalue]⟩

lemma Governs.mem_agentNames {head : Record → Bool} {rs : List Record} {name : Text} {r : Rule}
    (h : Governs lower head rs name r) : name ∈ agentNames lower rs := by
  obtain ⟨-, pre, post, rfl, front, mid, rfl, hhead, -⟩ := h
  have hmem := hhead.mem_agentNames
  rw [agentNames, List.append_assoc, List.filterMap_append]
  exact List.mem_append_left _ hmem

/-- Where moreover the matching rules are ordered by their literal characters as by all of theirs,
the decision is that of the standard. -/
theorem robotsAllow_standard {userAgent body target : Text} (ht : 10 ∉ target)
    (hunbroken : Unbroken (records lower body))
    (hsome : agentNames lower (records lower body) ≠ [])
    (htoken : productToken lower userAgent ≠ [])
    (hnames : ∀ m ∈ agentNames lower (records lower body),
      m <:+: productToken lower userAgent → m = productToken lower userAgent)
    (hweights : ∀ r r', StandardRule lower (productToken lower userAgent) (records lower body) r →
      StandardRule lower (productToken lower userAgent) (records lower body) r' →
      Matches r.pattern target → Matches r'.pattern target →
      (specificity r.pattern ≤ specificity r'.pattern ↔ r.pattern.length ≤ r'.pattern.length)) :
    ∃ allowed, robotsAllow lower userAgent body target = .ok allowed ∧
      (allowed = true ↔ Permits
        (StandardRule lower (productToken lower userAgent) (records lower body))
        List.length target) := by
  have hdeciding : DecidingRule lower (productToken lower userAgent) (records lower body) =
      StandardRule lower (productToken lower userAgent) (records lower body) := by
    funext r
    refine propext ⟨?_, fun h => ?_⟩
    · rintro ⟨name, hbest, hgoverns⟩
      rw [StandardRule, ← (bestName_iff htoken hnames hbest.1).1 hbest]
      exact hgoverns
    · exact ⟨_, (bestName_iff htoken hnames h.mem_agentNames).2 rfl, h⟩
  obtain ⟨allowed, hallow, hiff⟩ := robotsAllow_eq_ok ht hunbroken hsome
  refine ⟨allowed, hallow, hiff.trans ?_⟩
  rw [hdeciding]
  refine or_congr_right (exists_congr fun r => and_congr_right fun hr => and_congr_right fun hm =>
    and_congr_right fun _ => ?_)
  exact forall_congr' fun r' => forall_congr' fun hr' => forall_congr' fun hm' =>
    hweights r' r hr' hr hm' hm

end RentCompass.Scraping
