import Mathlib.Tactic.Lemma
import Mathlib.Data.List.Basic

/-!
# Regular expressions

Expressions as a backtracking engine reads them: over single characters, with tests on the
characters beside a position, and repetitions of one class of characters.
-/

/-- A regular expression over some characters. -/
inductive Regex (α : Type) where
  | empty
  /-- One character of a class. -/
  | char (p : α → Bool)
  /-- `[..]*` -/
  | star (p : α → Bool)
  /-- `[..]{0,n}` -/
  | upTo (n : Nat) (p : α → Bool)
  /-- A test on the characters before and after. -/
  | beside (test : Option α → Option α → Bool)
  | seq (r s : Regex α)
  | alt (r s : Regex α)

namespace Regex

variable {α : Type}

/-- A position in a text: the character before it, and the text after it. -/
abbrev Pos (α : Type) := Option α × List α

/-- The positions up to which the longest, the next shorter and so on of the repetitions go. -/
def repeats (p : α → Bool) : Option α → List α → List (Pos α)
  | prev, [] => [(prev, [])]
  | prev, c :: t => if p c then repeats p (some c) t ++ [(prev, c :: t)] else [(prev, c :: t)]

/-- Those of at most so many repetitions. -/
def repeatsUpTo (p : α → Bool) : Nat → Pos α → List (Pos α)
  | 0, pos => [pos]
  | _ + 1, (prev, []) => [(prev, [])]
  | n + 1, (prev, c :: t) =>
    if p c then repeatsUpTo p n (some c, t) ++ [(prev, c :: t)] else [(prev, c :: t)]

/-- The positions where a match from a position may end, in the order they are tried in. -/
def ends : Regex α → Pos α → List (Pos α)
  | empty, pos => [pos]
  | char _, (_, []) => []
  | char p, (_, c :: t) => if p c then [(some c, t)] else []
  | star p, (prev, t) => repeats p prev t
  | upTo n p, pos => repeatsUpTo p n pos
  | beside test, (prev, t) => if test prev t.head? then [(prev, t)] else []
  | seq r s, pos => (r.ends pos).flatMap s.ends
  | alt r s, pos => r.ends pos ++ s.ends pos

/-- `r?` -/
def opt (r : Regex α) : Regex α := r.alt empty

/-- `[..]+` -/
def plus (p : α → Bool) : Regex α := (char p).seq (star p)

/-- One expression after the other. -/
def concat (rs : List (Regex α)) : Regex α := rs.foldr seq empty

/-- One of the expressions. -/
def oneOf : List (Regex α) → Regex α
  | [] => char fun _ => false
  | [r] => r
  | r :: rs => r.alt (oneOf rs)

/-- A match starts at a position or behind it. -/
def searchFrom (r : Regex α) : Option α → List α → Bool
  | prev, [] => !(r.ends (prev, [])).isEmpty
  | prev, c :: t => !(r.ends (prev, c :: t)).isEmpty || r.searchFrom (some c) t

/-- `r.search(t)` finds a match. -/
def search (r : Regex α) (t : List α) : Bool := r.searchFrom none t

/-- An expression that starts with a character of a class is not found where there is none. -/
lemma search_char_seq {p : α → Bool} (r : Regex α) {t : List α} (h : ∀ c ∈ t, p c = false) :
    ((char p).seq r).search t = false := by
  suffices ∀ prev, ((char p).seq r).searchFrom prev t = false from this none
  induction t with
  | nil =>
    intro prev
    simp [searchFrom, ends]
  | cons c t ih =>
    intro prev
    simp [searchFrom, ends, h c (by simp), ih fun d hd => h d (by simp [hd])]

end Regex
