import RentCompass.Json.RoundTrip

/-!
# The line of a direct search

A search from the form is written down as one readable line: the area, and then the criteria that
are set, each as a part behind `" | "`. The area and the destination are free texts, so two lines
may be equal because a free text of one spells out parts of the other.
-/

namespace RentCompass.Web

open JsonValue

/-- The text of a `float` with a fraction, which is how a budget with pennies is kept. -/
abbrev Digits := {t : Text // ∀ c ∈ t, isDigit c}

/-- A budget: an `int`, or a `float` as it is written. -/
inductive Amount where
  | whole (n : Nat)
  | fraction (n : Nat) (digits : Digits)
deriving DecidableEq

def Amount.text : Amount → Text
  | .whole n => decimal n
  | .fraction n digits => decimal n ++ 46 :: digits.1

/-- What a part says, its free text left out. -/
inductive Key where
  | budget (amount : Amount) (weekly : Bool)
  | bedrooms (n : Nat)
  | noCommute
  | within (minutes : Nat)
  | destination
  | moveIn
deriving DecidableEq

/-- `reply_language` -/
inductive Language where
  | en
  | zh
deriving DecidableEq

/-- The words of the line in one language. -/
structure Phrases where
  opening : Text
  week : Text
  month : Text
  bedrooms : Text
  noCommute : Text
  minutesTo : Text
  destination : Text
  moveIn : Text

def Language.phrases : Language → Phrases
  | .en => ⟨Text.ofString "Search: ", Text.ofString "wk", Text.ofString "mo",
      Text.ofString " bed", Text.ofString "no commute", Text.ofString "min to ",
      Text.ofString "to ", Text.ofString "move-in ≥"⟩
  | .zh => ⟨Text.ofString "搜索：", Text.ofString "周", Text.ofString "月",
      Text.ofString " 室", Text.ofString "不通勤", Text.ofString "分钟到",
      Text.ofString "通勤至", Text.ofString "入住 ≥"⟩

/-- `≤` -/
def atMost : Nat := 0x2264

/-- `£` -/
def poundSign : Nat := 0xA3

def Key.text (l : Language) : Key → Text
  | .budget amount weekly => atMost :: poundSign :: (amount.text ++
      47 :: if weekly then l.phrases.week else l.phrases.month)
  | .bedrooms n => decimal n ++ l.phrases.bedrooms
  | .noCommute => l.phrases.noCommute
  | .within minutes => atMost :: (decimal minutes ++ l.phrases.minutesTo)
  | .destination => l.phrases.destination
  | .moveIn => l.phrases.moveIn

/-- A part of the line: what it says, and its free text. -/
abbrev Part := Key × Text

/-- `" | "` -/
def separator : Text := [32, 124, 32]

/-- The parts, each behind a separator. -/
def partsText (l : Language) (parts : List Part) : Text :=
  parts.flatMap fun p => separator ++ p.1.text l ++ p.2

def budgetParts (maxBudget : Option Amount) (weekly : Bool) : List Part :=
  (maxBudget.map fun amount => (.budget amount weekly, [])).toList

def bedroomParts (bedrooms : Option Nat) : List Part :=
  (bedrooms.map fun n => (.bedrooms n, [])).toList

def commuteParts (noCommute : Bool) (commuteDestination : Option Text)
    (maxCommuteTime : Option Nat) : List Part :=
  if noCommute then [(.noCommute, [])]
  else ((commuteDestination.filter (· ≠ [])).map fun destination =>
    (maxCommuteTime.elim .destination .within, destination)).toList

def moveInParts (moveInDate : Option Text) : List Part :=
  ((moveInDate.filter (· ≠ [])).map fun date => (.moveIn, date)).toList

/-- The parts of a line: a criterion that is none or empty has none. -/
def searchParts (maxBudget : Option Amount) (weekly : Bool) (bedrooms : Option Nat)
    (noCommute : Bool) (commuteDestination : Option Text) (maxCommuteTime : Option Nat)
    (moveInDate : Option Text) : List Part :=
  budgetParts maxBudget weekly ++ (bedroomParts bedrooms ++
    (commuteParts noCommute commuteDestination maxCommuteTime ++ moveInParts moveInDate))

/-- `_compose_search_line` -/
def composeSearchLine (area : Text) (parts : List Part) (l : Language) : Text :=
  l.phrases.opening ++ (area ++ partsText l parts)

/-! ### Keys are read back -/

/-- What stands before the first occurrence of a character is determined. -/
lemma append_cons_inj {c : Nat} {x y u v : Text} (hx : c ∉ x) (hy : c ∉ y)
    (h : x ++ c :: u = y ++ c :: v) : x = y ∧ u = v := by
  induction x generalizing y with
  | nil =>
    cases y with
    | nil => exact ⟨rfl, (List.cons.inj h).2⟩
    | cons d y => exact absurd (List.cons.inj h).1 fun heq => hy (heq ▸ List.mem_cons_self)
  | cons d x ih =>
    cases y with
    | nil => exact absurd (List.cons.inj h).1 fun heq => hx (heq ▸ List.mem_cons_self)
    | cons e y =>
      obtain ⟨rfl, htail⟩ := List.cons.inj h
      obtain ⟨rfl, rfl⟩ := ih (fun hmem => hx (List.mem_cons_of_mem _ hmem))
        (fun hmem => hy (List.mem_cons_of_mem _ hmem)) htail
      exact ⟨rfl, rfl⟩

lemma isDigit_decimal (n : Nat) : ∀ c ∈ decimal n, isDigit c :=
  (decimal_isInt n).isDigits.2

lemma decimal_inj {m n : Nat} (h : decimal m = decimal n) : m = n := by
  rw [← digitsValue_decimal m, h, digitsValue_decimal]

/-- A number is read up to the first character that is no digit. -/
lemma decimal_append_inj {m n : Nat} {u v : Text} (hu : ∀ c ∈ u.head?, isDigit c = false)
    (hv : ∀ c ∈ v.head?, isDigit c = false) (h : decimal m ++ u = decimal n ++ v) :
    m = n ∧ u = v := by
  have hm := digitsOf_append (isDigit_decimal m) hu
  have hn := digitsOf_append (isDigit_decimal n) hv
  rw [h, hn] at hm
  obtain ⟨hdecimal, rfl⟩ := Prod.mk.inj hm
  exact ⟨(decimal_inj hdecimal).symm, rfl⟩

lemma slash_notMem_text (a : Amount) : 47 ∉ a.text := by
  intro hmem
  have hdigit {t : Text} (ht : ∀ c ∈ t, isDigit c) : 47 ∉ t := fun h => by
    have := ht 47 h
    revert this
    decide
  cases a with
  | whole n => exact hdigit (isDigit_decimal n) hmem
  | fraction n digits =>
    rcases List.mem_append.1 hmem with hmem | hmem
    · exact hdigit (isDigit_decimal n) hmem
    · rcases List.mem_cons.1 hmem with heq | hmem
      · cases heq
      · exact hdigit digits.2 hmem

lemma Amount.text_inj {a b : Amount} (h : a.text = b.text) : a = b := by
  have hpoint {m n : Nat} {ds : Digits} (heq : decimal m = decimal n ++ 46 :: ds.1) : False := by
    have hmem : 46 ∈ decimal m := heq ▸ List.mem_append_right _ List.mem_cons_self
    have := isDigit_decimal m 46 hmem
    revert this
    decide
  cases a with
  | whole m =>
    cases b with
    | whole n => rw [decimal_inj h]
    | fraction n ds => exact (hpoint h).elim
  | fraction m ds =>
    cases b with
    | whole n => exact (hpoint h.symm).elim
    | fraction n es =>
      obtain ⟨rfl, htail⟩ := decimal_append_inj (by simp; decide) (by simp; decide) h
      rw [Subtype.ext (List.cons.inj htail).2]

/-- What kind of key a text starts with: its first character, a digit being any digit, and whether
the second is a pound sign. -/
def mark : Text → Nat × Bool
  | c :: d :: _ => (if isDigit c then 0 else c, d = poundSign)
  | _ => (0, true)

inductive KeyKind where
  | budget
  | bedrooms
  | noCommute
  | within
  | destination
  | moveIn
deriving DecidableEq

def Key.kind : Key → KeyKind
  | .budget _ _ => .budget
  | .bedrooms _ => .bedrooms
  | .noCommute => .noCommute
  | .within _ => .within
  | .destination => .destination
  | .moveIn => .moveIn

def KeyKind.mark (l : Language) : KeyKind → Nat × Bool
  | .budget => (atMost, true)
  | .bedrooms => (0, false)
  | .noCommute => Web.mark l.phrases.noCommute
  | .within => (atMost, false)
  | .destination => Web.mark l.phrases.destination
  | .moveIn => Web.mark l.phrases.moveIn

lemma KeyKind.mark_inj {l : Language} {k k' : KeyKind} (h : k.mark l = k'.mark l) : k = k' := by
  cases l <;> cases k <;> cases k' <;> revert h <;> decide

lemma isDigit_ne_poundSign {c : Nat} (h : isDigit c) : c ≠ poundSign := by
  rintro rfl
  revert h
  decide

lemma mark_text (l : Language) (k : Key) (u : Text) : mark (k.text l ++ u) = k.kind.mark l := by
  have hdecimal (n : Nat) : ∃ c cs, decimal n = c :: cs ∧ isDigit c ∧ ∀ d ∈ cs, isDigit d := by
    obtain ⟨c, cs, hn, hc⟩ := (decimal_isInt n).isDigits.head
    exact ⟨c, cs, hn, hc, fun d hd => isDigit_decimal n d (hn ▸ List.mem_cons_of_mem _ hd)⟩
  cases k with
  | budget amount weekly => cases l <;> rfl
  | bedrooms n =>
    obtain ⟨c, cs, hn, hc, hcs⟩ := hdecimal n
    rw [Key.text, hn]
    cases cs with
    | nil =>
      cases l <;>
        simp [mark, Key.kind, KeyKind.mark, hc, Language.phrases, Text.ofString, poundSign]
    | cons d cs =>
      have hd := isDigit_ne_poundSign (hcs d List.mem_cons_self)
      simp [mark, Key.kind, KeyKind.mark, hc, hd]
  | noCommute => cases l <;> rfl
  | within minutes =>
    obtain ⟨c, cs, hn, hc, -⟩ := hdecimal minutes
    have hpound := isDigit_ne_poundSign hc
    rw [Key.text, hn]
    simp [mark, Key.kind, KeyKind.mark, hpound, atMost, isDigit]
  | destination => cases l <;> rfl
  | moveIn => cases l <;> rfl

/-- The words after a number do not go on with it. -/
lemma words_head (l : Language) (u : Text) :
    (∀ c ∈ (l.phrases.bedrooms ++ u).head?, isDigit c = false) ∧
      ∀ c ∈ (l.phrases.minutesTo ++ u).head?, isDigit c = false := by
  constructor
  · rintro c hc
    cases l <;> (cases hc; decide)
  · rintro c hc
    cases l <;> (cases hc; decide)

lemma period_inj {l : Language} {weekly weekly' : Bool} {u v : Text}
    (h : (if weekly then l.phrases.week else l.phrases.month) ++ u =
      (if weekly' then l.phrases.week else l.phrases.month) ++ v) : weekly = weekly' ∧ u = v := by
  have hhead := congrArg List.head? h
  cases weekly <;> cases weekly'
  · exact ⟨rfl, List.append_cancel_left h⟩
  · exact absurd hhead (by cases l <;> simp [Language.phrases, Text.ofString])
  · exact absurd hhead (by cases l <;> simp [Language.phrases, Text.ofString])
  · exact ⟨rfl, List.append_cancel_left h⟩

/-- A key is read back, whatever comes after it. -/
lemma Key.text_append_inj {l : Language} {k k' : Key} {u v : Text}
    (h : k.text l ++ u = k'.text l ++ v) : k = k' ∧ u = v := by
  have hkind : k.kind = k'.kind := by
    refine KeyKind.mark_inj (l := l) ?_
    rw [← mark_text l k u, h, mark_text]
  cases k <;> cases k' <;> cases hkind
  case budget.budget.refl a weekly b weekly' =>
    simp only [Key.text, List.cons_append, List.append_assoc, List.cons.injEq, true_and] at h
    obtain ⟨htext, hperiod⟩ := append_cons_inj (slash_notMem_text a) (slash_notMem_text b) h
    obtain ⟨rfl, rfl⟩ := period_inj hperiod
    rw [Amount.text_inj htext]
    exact ⟨rfl, rfl⟩
  case bedrooms.bedrooms.refl m n =>
    rw [Key.text, Key.text, List.append_assoc, List.append_assoc] at h
    obtain ⟨rfl, htail⟩ := decimal_append_inj (words_head l u).1 (words_head l v).1 h
    exact ⟨rfl, List.append_cancel_left htail⟩
  case within.within.refl m n =>
    simp only [Key.text, List.cons_append, List.append_assoc, List.cons.injEq, true_and] at h
    obtain ⟨rfl, htail⟩ := decimal_append_inj (words_head l u).2 (words_head l v).2 h
    exact ⟨rfl, List.append_cancel_left htail⟩
  case noCommute.noCommute.refl => exact ⟨rfl, List.append_cancel_left h⟩
  case destination.destination.refl => exact ⟨rfl, List.append_cancel_left h⟩
  case moveIn.moveIn.refl => exact ⟨rfl, List.append_cancel_left h⟩

/-! ### Lines that read alike -/

/-- Two free texts and the parts behind them read alike: they agree part by part, up to a free text
of one that goes on with what are parts of the other. -/
inductive Alike (l : Language) : Text → List Part → Text → List Part → Prop
  | nil (x : Text) : Alike l x [] x []
  | part (x : Text) (k : Key) {y y' : Text} {ps ps' : List Part} (h : Alike l y ps y' ps') :
    Alike l x ((k, y) :: ps) x ((k, y') :: ps')
  | longer {x w : Text} {ps ps' : List Part} (hw : w ≠ [])
    (h : partsText l ps' = w ++ partsText l ps) : Alike l (x ++ w) ps x ps'
  | shorter {x w : Text} {ps ps' : List Part} (hw : w ≠ [])
    (h : partsText l ps = w ++ partsText l ps') : Alike l x ps (x ++ w) ps'

lemma partsText_cons (l : Language) (p : Part) (ps : List Part) :
    partsText l (p :: ps) = separator ++ (p.1.text l ++ (p.2 ++ partsText l ps)) := by
  simp [partsText, List.append_assoc]

lemma Alike.text_eq {l : Language} {x y : Text} {ps qs : List Part} (h : Alike l x ps y qs) :
    x ++ partsText l ps = y ++ partsText l qs := by
  induction h with
  | nil x => rfl
  | part x k h ih => rw [partsText_cons, partsText_cons, ih]
  | longer hw h => rw [h, List.append_assoc]
  | shorter hw h => rw [h, List.append_assoc]

/-- Of two equal texts of a free text and parts, the free texts are the same or one is longer. -/
lemma alike_or_eq {l : Language} {x y : Text} {ps qs : List Part}
    (h : x ++ partsText l ps = y ++ partsText l qs) :
    Alike l x ps y qs ∨ x = y ∧ partsText l ps = partsText l qs := by
  rcases List.append_eq_append_iff.1 h with ⟨w, rfl, hparts⟩ | ⟨w, rfl, hparts⟩
  · by_cases hw : w = []
    · subst hw
      exact .inr ⟨(List.append_nil x).symm, hparts⟩
    · exact .inl (.shorter hw hparts)
  · by_cases hw : w = []
    · subst hw
      exact .inr ⟨List.append_nil y, hparts.symm⟩
    · exact .inl (.longer hw hparts)

lemma alike_of_text_eq {l : Language} {x y : Text} {ps qs : List Part}
    (h : x ++ partsText l ps = y ++ partsText l qs) : Alike l x ps y qs := by
  induction ps generalizing x y qs with
  | nil =>
    rcases alike_or_eq h with halike | ⟨rfl, hparts⟩
    · exact halike
    · cases qs with
      | nil => exact .nil x
      | cons q qs =>
        rw [partsText_cons] at hparts
        cases hparts
  | cons p ps ih =>
    rcases alike_or_eq h with halike | ⟨rfl, hparts⟩
    · exact halike
    · cases qs with
      | nil =>
        rw [partsText_cons] at hparts
        cases hparts
      | cons q qs =>
        obtain ⟨k, y⟩ := p
        obtain ⟨k', y'⟩ := q
        rw [partsText_cons, partsText_cons] at hparts
        obtain ⟨rfl, htail⟩ := Key.text_append_inj (List.append_cancel_left hparts)
        exact .part x k (ih htail)

/-- Two lines are equal just if they are of one language and read alike. -/
theorem composeSearchLine_eq_iff {l l' : Language} {x y : Text} {ps qs : List Part} :
    composeSearchLine x ps l = composeSearchLine y qs l' ↔ l = l' ∧ Alike l x ps y qs := by
  constructor
  · intro h
    have hhead := congrArg List.head? h
    have hl : l = l' := by
      cases l <;> cases l'
      · rfl
      · exact absurd hhead (by simp [composeSearchLine, Language.phrases, Text.ofString])
      · exact absurd hhead (by simp [composeSearchLine, Language.phrases, Text.ofString])
      · rfl
    subst hl
    exact ⟨rfl, alike_of_text_eq (List.append_cancel_left h)⟩
  · rintro ⟨rfl, halike⟩
    rw [composeSearchLine, composeSearchLine, halike.text_eq]

end RentCompass.Web
