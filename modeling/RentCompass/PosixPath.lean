import RentCompass.FileTree

/-!
# Path texts

`PurePosixPath`: a path as a text and as names, and what a file system makes of it.
-/

/-- A path text taken apart: the empty names and the `.` of the text are gone. -/
structure PurePosixPath where
  absolute : Bool
  names : List Text
  deriving DecidableEq

namespace PurePosixPath

/-- `/` -/
abbrev slash : Nat := 47

/-- `.` -/
abbrev dot : Text := [46]

/-- `..` -/
abbrev dotDot : Text := [46, 46]

/-- The names of one segment. -/
def namesOf (segment : Text) : List Text :=
  (segment.splitOn slash).filter fun name => name ≠ [] ∧ name ≠ dot

/-- `path / segment`: an absolute segment starts over. -/
def joinSegment (path : PurePosixPath) (segment : Text) : PurePosixPath :=
  if segment.head? = some slash then ⟨true, namesOf segment⟩
  else ⟨path.absolute, path.names ++ namesOf segment⟩

/-- `PurePosixPath(*segments)`. -/
def ofSegments (segments : List Text) : PurePosixPath := segments.foldl joinSegment ⟨false, []⟩

/-- `path.parts`. -/
def parts (path : PurePosixPath) : List Text :=
  if path.absolute then [slash] :: path.names else path.names

/-- `"/".join(names)`. -/
def joinNames (names : List Text) : Text := [slash].intercalate names

/-- `path.as_posix()`. -/
def asPosix (path : PurePosixPath) : Text :=
  if path.absolute then slash :: joinNames path.names
  else if path.names = [] then dot
  else joinNames path.names

/-- What the file system makes of a name: `..` is the directory above. -/
def follow (p : FileTree.Path) (name : Text) : FileTree.Path :=
  if name = dotDot then p.dropLast else p ++ [name]

/-- `base.joinpath(*segments)`, resolved; no directory below `base` is a link. -/
def joinpath (base : FileTree.Path) (segments : List Text) : FileTree.Path :=
  let path := ofSegments segments
  path.names.foldl follow (if path.absolute then [] else base)

/-! ### Names that stand for themselves -/

/-- A name of one entry. -/
structure IsName (name : Text) : Prop where
  ne_nil : name ≠ []
  ne_dot : name ≠ dot
  ne_dotDot : name ≠ dotDot
  slash_notMem : slash ∉ name

instance (name : Text) : Decidable (IsName name) :=
  decidable_of_iff (name ≠ [] ∧ name ≠ dot ∧ name ≠ dotDot ∧ slash ∉ name)
    ⟨fun h => ⟨h.1, h.2.1, h.2.2.1, h.2.2.2⟩, fun h => ⟨h.1, h.2, h.3, h.4⟩⟩

lemma IsName.namesOf {name : Text} (h : IsName name) : namesOf name = [name] := by
  rw [PurePosixPath.namesOf, List.splitOn_eq_singleton h.slash_notMem]
  simp [h.ne_nil, h.ne_dot]

lemma IsName.head {name : Text} (h : IsName name) : name.head? ≠ some slash := by
  intro hhead
  cases name with
  | nil => cases hhead
  | cons c name =>
    simp only [List.head?_cons, Option.some.injEq] at hhead
    exact h.slash_notMem (hhead ▸ List.mem_cons_self)

lemma ofSegments_of_names {names : List Text} (h : ∀ n ∈ names, IsName n) :
    ofSegments names = ⟨false, names⟩ := by
  have key : ∀ (done names : List Text), (∀ n ∈ names, IsName n) →
      names.foldl joinSegment ⟨false, done⟩ = ⟨false, done ++ names⟩ := by
    intro done names
    induction names generalizing done with
    | nil => simp
    | cons n names ih =>
      intro h
      have hn := h n (by simp)
      rw [List.foldl_cons, joinSegment, if_neg hn.head, hn.namesOf,
        ih _ fun m hm => h m (by simp [hm])]
      simp
  simpa [ofSegments] using key [] names h

lemma joinpath_of_names (base : FileTree.Path) {names : List Text} (h : ∀ n ∈ names, IsName n) :
    joinpath base names = base ++ names := by
  have key : ∀ (p : FileTree.Path) (names : List Text), (∀ n ∈ names, IsName n) →
      names.foldl follow p = p ++ names := by
    intro p names
    induction names generalizing p with
    | nil => simp
    | cons n names ih =>
      intro h
      rw [List.foldl_cons, follow, if_neg (h n (by simp)).ne_dotDot,
        ih _ fun m hm => h m (by simp [hm])]
      simp
  simpa [joinpath, ofSegments_of_names h] using key base names h

lemma joinNames_inj {names names' : List Text} (h : ∀ n ∈ names, slash ∉ n)
    (h' : ∀ n ∈ names', slash ∉ n) (hne : names ≠ []) (hne' : names' ≠ [])
    (heq : joinNames names = joinNames names') : names = names' := by
  rw [← List.splitOn_intercalate slash h hne, ← List.splitOn_intercalate slash h' hne']
  exact congrArg _ heq

/-- No name between two slashes has a slash. -/
lemma slash_notMem_splitOn {t name : Text} (h : name ∈ t.splitOn slash) : slash ∉ name := by
  induction t generalizing name with
  | nil =>
    simp only [List.splitOn_nil, List.mem_singleton] at h
    simp [h]
  | cons c t ih =>
    rw [List.splitOn_cons_eq_if_modifyHead] at h
    obtain ⟨first, rest, hsplit⟩ := List.exists_cons_of_ne_nil (List.splitOn_ne_nil slash t)
    rw [hsplit] at h ih
    by_cases hc : c = slash
    · simp only [hc, beq_self_eq_true, if_true, List.mem_cons] at h
      rcases h with rfl | h
      · simp
      · exact ih (List.mem_cons.2 h)
    · have hne : (c == slash) = false := by simpa using hc
      simp only [hne, Bool.false_eq_true, if_false, List.modifyHead_cons, List.mem_cons] at h
      rcases h with rfl | h
      · have : slash ∉ first := ih (by simp)
        simpa [Ne.symm hc] using this
      · exact ih (List.mem_cons_of_mem _ h)

end PurePosixPath
