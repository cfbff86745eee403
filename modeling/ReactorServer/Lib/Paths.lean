import Mathlib.Data.List.Basic
import Mathlib.Data.Nat.Notation
import Mathlib.Tactic.SplitIfs
import Mathlib.Tactic.TypeStar

/-!
# Paths and their normal form

A path is a list of symbols whose segments are separated by `sep`.  Its segments are resolved from
the left on a stack of names: an empty segment and `.` change nothing, `..` takes the last name
away, where there is one, and every other segment is a name.  What remains, each name with a `sep`
before it, is the normal form (`normalize`).

Whether the normal form is under a name is read off the segments by counting
(`normalize_under_iff`): the name is a segment, those before it resolve to nothing, and those after
it never take more names away than they have brought.
-/

namespace ReactorServer.Lib.Paths

variable {α : Type*} [DecidableEq α] {sep dot : α} {name s p : List α}
  {segs names st pre post : List (List α)} {n : ℕ}

/-! ### Resolving segments -/

/-- What a segment does. -/
inductive Kind
  | skip
  | up
  | name
  deriving DecidableEq

def kind (dot : α) (s : List α) : Kind :=
  if s = [] ∨ s = [dot] then .skip else if s = [dot, dot] then .up else .name

/-- The stack after one more segment; the last name is on top. -/
def push (dot : α) (st : List (List α)) (s : List α) : List (List α) :=
  match kind dot s with
  | .skip => st
  | .up => st.tail
  | .name => s :: st

/-- The names that are left of the segments. -/
def resolve (dot : α) (segs : List (List α)) : List (List α) := (segs.foldl (push dot) []).reverse

def render (sep : α) (names : List (List α)) : List α :=
  if names = [] then [sep] else names.flatMap (sep :: ·)

/-- The normal form. -/
def normalize (sep dot : α) (p : List α) : List α := render sep (resolve dot (p.splitOn sep))

/-- The path is `/name`, or begins with `/name/`. -/
def Under (sep : α) (name p : List α) : Prop :=
  p = sep :: name ∨ sep :: (name ++ [sep]) <+: p

/-! ### Counting -/

/-- The number of names after one more segment. -/
def move : Kind → ℕ → ℕ
  | .skip, n => n
  | .up, n => n - 1
  | .name, n => n + 1

/-- The number of names that are left. -/
def depth (dot : α) (n : ℕ) (segs : List (List α)) : ℕ :=
  segs.foldl (fun n s => move (kind dot s) n) n

/-- With `n` names to begin with, no segment takes a name away where there is none. -/
def Within (dot : α) : ℕ → List (List α) → Prop
  | _, [] => True
  | n, s :: segs => (kind dot s = .up → 0 < n) ∧ Within dot (move (kind dot s) n) segs

instance decidableWithin (dot : α) : ∀ n segs, Decidable (Within dot n segs)
  | _, [] => inferInstanceAs (Decidable True)
  | n, s :: segs =>
    have := decidableWithin dot (move (kind dot s) n) segs
    inferInstanceAs (Decidable (_ ∧ _))

theorem kind_name (h : kind dot s = .name) : s ≠ [] := by
  rintro rfl
  cases h

/-- **The name at the bottom of the stack**: it has been there and stays, or it is a segment that
comes where nothing is left, and stays. -/
theorem getLast?_foldl_push (hname : kind dot name = .name) (segs st : List (List α)) :
    (segs.foldl (push dot) st).getLast? = some name ↔
      (st.getLast? = some name ∧ Within dot (st.length - 1) segs) ∨
      ∃ pre post, segs = pre ++ name :: post ∧ depth dot st.length pre = 0 ∧ Within dot 0 post := by
  induction segs generalizing st with
  | nil => simp [Within]
  | cons s segs ih =>
    have hsplit : (∃ pre post, s :: segs = pre ++ name :: post ∧
        depth dot st.length pre = 0 ∧ Within dot 0 post) ↔
        (s = name ∧ st = [] ∧ Within dot 0 segs) ∨
        ∃ pre post, segs = pre ++ name :: post ∧
          depth dot (move (kind dot s) st.length) pre = 0 ∧ Within dot 0 post := by
      constructor
      · rintro ⟨_ | ⟨a, pre⟩, post, heq, hd, hw⟩
        · obtain ⟨rfl, rfl⟩ := List.cons.inj heq
          exact Or.inl ⟨rfl, List.eq_nil_of_length_eq_zero hd, hw⟩
        · obtain ⟨rfl, rfl⟩ := List.cons.inj heq
          exact Or.inr ⟨pre, post, rfl, hd, hw⟩
      · rintro (⟨rfl, rfl, hw⟩ | ⟨pre, post, rfl, hd, hw⟩)
        · exact ⟨[], segs, rfl, rfl, hw⟩
        · exact ⟨s :: pre, post, rfl, hd, hw⟩
    rw [List.foldl_cons, ih, hsplit]
    unfold push
    rw [Within]
    cases hk : kind dot s with
    | skip =>
      have hne : s ≠ name := by
        rintro rfl
        rw [hk] at hname
        cases hname
      simp [hne, move]
    | up =>
      have hne : s ≠ name := by
        rintro rfl
        rw [hk] at hname
        cases hname
      have hlast : ∀ st : List (List α), st.tail.getLast? = some name ↔
          st.getLast? = some name ∧ 0 < st.length - 1 := by
        intro st
        rcases st with _ | ⟨a, _ | ⟨b, st⟩⟩
        · simp
        · simp
        · simp
      simp [hne, move, hlast, and_assoc]
    | name =>
      rcases st with _ | ⟨a, st⟩
      · simp [move]
      · simp [move]

/-- Without names to begin with. -/
theorem head?_resolve (hname : kind dot name = .name) (segs : List (List α)) :
    (resolve dot segs).head? = some name ↔
      ∃ pre post, segs = pre ++ name :: post ∧ depth dot 0 pre = 0 ∧ Within dot 0 post := by
  rw [resolve, List.head?_reverse, getLast?_foldl_push hname]
  simp

/-! ### The text of the normal form -/

theorem takeWhile_sep (hs : sep ∉ s) (rest : List α) :
    (s ++ sep :: rest).takeWhile (· ≠ sep) = s := by
  induction s with
  | nil => simp
  | cons a s ih =>
    have h1 : a ≠ sep := fun h => hs (h ▸ List.mem_cons_self)
    have h2 : sep ∉ s := fun h => hs (List.mem_cons_of_mem _ h)
    rw [List.cons_append, List.takeWhile_cons_of_pos (by simpa using h1), ih h2]

/-- The first segment is read off the text. -/
theorem segment_inj {s' rest rest' : List α} (hs : sep ∉ s) (hs' : sep ∉ s')
    (h : s ++ sep :: rest = s' ++ sep :: rest') : s = s' := by
  rw [← takeWhile_sep hs rest, h, takeWhile_sep hs']

theorem under_render (hne : name ≠ []) (hname : sep ∉ name) (hnames : ∀ s ∈ names, sep ∉ s) :
    Under sep name (render sep names) ↔ names.head? = some name := by
  rcases names with _ | ⟨s, names⟩
  · have hnot : ¬Under sep name [sep] := by
      rintro (h | ⟨rest, h⟩)
      · exact hne (List.cons.inj h).2.symm
      · simp at h
    simpa [render] using hnot
  have hs := hnames s List.mem_cons_self
  have hrender : render sep (s :: names) = sep :: (s ++ names.flatMap (sep :: ·)) := by
    rw [render, if_neg (List.cons_ne_nil _ _)]
    simp
  rw [hrender, List.head?_cons, Option.some_inj, Under]
  constructor
  · rcases names with _ | ⟨s', names⟩
    · rintro (h | ⟨rest, h⟩)
      · simpa using (List.cons.inj h).2
      · refine absurd ?_ hs
        have h' := (List.cons.inj h).2
        rw [List.flatMap_nil, List.append_nil] at h'
        rw [← h']
        simp
    · rintro (h | ⟨rest, h⟩)
      · refine absurd ?_ hname
        rw [← (List.cons.inj h).2]
        simp
      · have h' : name ++ sep :: rest = s ++ sep :: (s' ++ names.flatMap (sep :: ·)) := by
          simpa using (List.cons.inj h).2
        rw [segment_inj hname hs h']
  · rintro rfl
    rcases names with _ | ⟨s', names⟩
    · exact Or.inl (by simp)
    · exact Or.inr ⟨s' ++ names.flatMap (sep :: ·), by simp⟩

theorem not_mem_splitOn (p : List α) : ∀ s ∈ p.splitOn sep, sep ∉ s := by
  induction p with
  | nil => simp
  | cons a p ih =>
    rw [List.splitOn_cons_eq_if_modifyHead]
    split_ifs with h
    · intro s hs
      rcases List.mem_cons.mp hs with rfl | hs
      · exact List.not_mem_nil
      · exact ih s hs
    · obtain ⟨x, xs, hx⟩ := List.exists_cons_of_ne_nil (List.splitOn_ne_nil sep p)
      rw [hx] at ih ⊢
      intro s hs
      rw [List.modifyHead_cons] at hs
      rcases List.mem_cons.mp hs with rfl | hs
      · have hne : sep ≠ a := fun h' => h (by simp [h'])
        exact fun hm => (List.mem_cons.mp hm).elim hne (ih x List.mem_cons_self)
      · exact ih s (List.mem_cons_of_mem _ hs)

theorem mem_foldl_push (segs st : List (List α)) :
    ∀ s ∈ segs.foldl (push dot) st, s ∈ st ∨ s ∈ segs := by
  induction segs generalizing st with
  | nil => exact fun s hs => Or.inl hs
  | cons a segs ih =>
    intro s hs
    rcases ih (push dot st a) s hs with h | h
    · unfold push at h
      split at h
      · exact Or.inl h
      · exact Or.inl (List.mem_of_mem_tail h)
      · rcases List.mem_cons.mp h with rfl | h
        · exact Or.inr List.mem_cons_self
        · exact Or.inl h
    · exact Or.inr (List.mem_cons_of_mem _ h)

/-- **Which paths are under a name**: the name is a segment, nothing is left of the segments before
it, and those after it take no name away but their own. -/
theorem normalize_under_iff (hname : kind dot name = .name) (hsep : sep ∉ name) (p : List α) :
    Under sep name (normalize sep dot p) ↔
      ∃ pre post, p.splitOn sep = pre ++ name :: post ∧ depth dot 0 pre = 0 ∧ Within dot 0 post := by
  have hsegs : ∀ s ∈ resolve dot (p.splitOn sep), sep ∉ s := by
    intro s hs
    rcases mem_foldl_push _ _ s (List.mem_reverse.mp hs) with h | h
    · cases h
    · exact not_mem_splitOn p s h
  rw [normalize, under_render (kind_name hname) hsep hsegs, head?_resolve hname]

end ReactorServer.Lib.Paths
