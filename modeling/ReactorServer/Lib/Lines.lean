import Mathlib.Data.List.Basic

/-!
# Lines ended by a pair of symbols

A line is a run of symbols other than `cr` and `lf`, ended by `cr lf`.  `scan` looks for the first
line: it finds one and the rest (`line`), or reaches the end first (`opn`, possibly after a last
`cr`), or meets a `cr` or an `lf` that is not part of a pair (`bad`).

A `block` is the text of several lines.  Where none of them is empty (`Solid`), the first empty line
of the text is the one after the block, and lines and body are read off the text (`block_inj`).
-/

namespace ReactorServer.Lib.Lines

variable {α : Type*} [DecidableEq α]

/-- What the search for the first line finds. -/
inductive Scan (α : Type*)
  | line (l rest : List α)
  | bad
  | opn
  deriving DecidableEq

/-- Add a symbol to the line found. -/
def Scan.cons (a : α) : Scan α → Scan α
  | .line l rest => .line (a :: l) rest
  | .bad => .bad
  | .opn => .opn

/-- What follows a `cr` decides. -/
def afterCr (lf : α) : List α → Scan α
  | [] => .opn
  | b :: v => if b = lf then .line [] v else .bad

/-- The search for the first line. -/
def scan (cr lf : α) : List α → Scan α
  | [] => .opn
  | a :: u => if a = cr then afterCr lf u else if a = lf then .bad else (scan cr lf u).cons a

/-- No line end inside. -/
def Clean (cr lf : α) (l : List α) : Prop := cr ∉ l ∧ lf ∉ l

variable {cr lf : α} {l rest u : List α}

omit [DecidableEq α] in
theorem drop_length_takeWhile (p : α → Bool) (v : List α) :
    v.drop (v.takeWhile p).length = v.dropWhile p := by
  have h : (v.takeWhile p ++ v.dropWhile p).drop (v.takeWhile p).length = v.dropWhile p :=
    List.drop_left
  rwa [List.takeWhile_append_dropWhile] at h

omit [DecidableEq α] in
theorem clean_cons {a : α} : Clean cr lf (a :: l) ↔ a ≠ cr ∧ a ≠ lf ∧ Clean cr lf l := by
  simp only [Clean, List.mem_cons, not_or]
  constructor
  · rintro ⟨⟨h1, h2⟩, h3, h4⟩; exact ⟨Ne.symm h1, Ne.symm h3, h2, h4⟩
  · rintro ⟨h1, h3, h2, h4⟩; exact ⟨⟨Ne.symm h1, h2⟩, Ne.symm h3, h4⟩

omit [DecidableEq α] in
theorem clean_append {l' : List α} : Clean cr lf (l ++ l') ↔ Clean cr lf l ∧ Clean cr lf l' := by
  simp only [Clean, List.mem_append, not_or]
  tauto

theorem scan_line (hl : Clean cr lf l) (rest : List α) :
    scan cr lf (l ++ cr :: lf :: rest) = .line l rest := by
  induction l with
  | nil => simp [scan, afterCr]
  | cons a l ih =>
    obtain ⟨h1, h2, hl⟩ := clean_cons.mp hl
    simp [scan, h1, h2, ih hl, Scan.cons]

/-- **What is found is there**: the line is clean and its end follows. -/
theorem scan_eq_line : scan cr lf u = .line l rest ↔
    u = l ++ cr :: lf :: rest ∧ Clean cr lf l := by
  refine ⟨fun h => ?_, fun ⟨h, hl⟩ => h ▸ scan_line hl rest⟩
  induction u generalizing l with
  | nil => cases h
  | cons a u ih =>
    rw [scan] at h
    split_ifs at h with h1 h2
    · cases u with
      | nil => cases h
      | cons b v =>
        simp only [afterCr] at h
        split_ifs at h with h3
        cases h
        exact ⟨by rw [h1, h3]; rfl, by simp [Clean]⟩
    · cases hs : scan cr lf u with
      | line l' r =>
        rw [hs] at h
        cases h
        obtain ⟨hu, hl⟩ := ih hs
        exact ⟨by rw [hu]; rfl, clean_cons.mpr ⟨h1, h2, hl⟩⟩
      | bad => rw [hs] at h; cases h
      | opn => rw [hs] at h; cases h

/-! ### Blocks of lines -/

/-- The lines, each with its end. -/
def block (cr lf : α) (ls : List (List α)) : List α := ls.flatMap fun l => l ++ [cr, lf]

/-- Lines with something in them, and no line end inside. -/
def Solid (cr lf : α) (ls : List (List α)) : Prop := ∀ l ∈ ls, l ≠ [] ∧ Clean cr lf l

variable {ls ls' : List (List α)} {body body' : List α}

omit [DecidableEq α] in
theorem block_cons (cr lf : α) (l : List α) (ls : List (List α)) (u : List α) :
    block cr lf (l :: ls) ++ u = l ++ cr :: lf :: (block cr lf ls ++ u) := by
  simp [block]

omit [DecidableEq α] in
theorem block_append (cr lf : α) (ls ls' : List (List α)) :
    block cr lf (ls ++ ls') = block cr lf ls ++ block cr lf ls' := List.flatMap_append

omit [DecidableEq α] in
theorem Solid.tail (h : Solid cr lf (l :: ls)) : Solid cr lf ls :=
  fun l' hl => h l' (List.mem_cons_of_mem _ hl)

omit [DecidableEq α] in
theorem Solid.right (h : Solid cr lf (ls ++ ls')) : Solid cr lf ls' :=
  fun l hl => h l (List.mem_append_right _ hl)

/-- **Two readings of one text agree** as far as the shorter one goes. -/
theorem block_eq_block {v v' : List α} (h : Solid cr lf ls) (h' : Solid cr lf ls')
    (heq : block cr lf ls ++ v = block cr lf ls' ++ v') :
    (∃ m, ls' = ls ++ m ∧ v = block cr lf m ++ v') ∨
      ∃ m, ls = ls' ++ m ∧ v' = block cr lf m ++ v := by
  induction ls generalizing ls' with
  | nil => exact Or.inl ⟨ls', rfl, heq⟩
  | cons l ls ih =>
    rcases ls' with _ | ⟨l', ls'⟩
    · exact Or.inr ⟨l :: ls, rfl, heq.symm⟩
    · rw [block_cons, block_cons] at heq
      have h1 := scan_line (h l List.mem_cons_self).2 (block cr lf ls ++ v)
      have h2 := scan_line (h' l' List.mem_cons_self).2 (block cr lf ls' ++ v')
      rw [heq, h2] at h1
      obtain ⟨rfl, hrest⟩ := Scan.line.inj h1
      rcases ih h.tail h'.tail hrest.symm with ⟨m, hm, hv⟩ | ⟨m, hm, hv⟩
      · exact Or.inl ⟨m, by rw [hm]; rfl, hv⟩
      · exact Or.inr ⟨m, by rw [hm]; rfl, hv⟩

omit [DecidableEq α] in
theorem block_ne_emptyLine {m : List (List α)} {v : List α} (h : Solid cr lf m)
    (heq : cr :: lf :: body = block cr lf m ++ v) : m = [] := by
  rcases m with _ | ⟨l, m⟩
  · rfl
  · obtain ⟨hne, hl⟩ := h l List.mem_cons_self
    obtain ⟨a, l, rfl⟩ := List.exists_cons_of_ne_nil hne
    rw [block_cons] at heq
    exact absurd (List.cons.inj heq).1.symm (clean_cons.mp hl).1

/-- **Solid lines, an empty line and a body** are read off their text. -/
theorem block_inj (h : Solid cr lf ls) (h' : Solid cr lf ls')
    (heq : block cr lf ls ++ cr :: lf :: body = block cr lf ls' ++ cr :: lf :: body') :
    ls = ls' ∧ body = body' := by
  rcases block_eq_block h h' heq with ⟨m, hm, hv⟩ | ⟨m, hm, hv⟩
  · obtain rfl := block_ne_emptyLine (hm ▸ h').right hv
    rw [List.append_nil] at hm
    exact ⟨hm.symm, (List.cons.inj (List.cons.inj hv).2).2⟩
  · obtain rfl := block_ne_emptyLine (hm ▸ h).right hv
    rw [List.append_nil] at hm
    exact ⟨hm, (List.cons.inj (List.cons.inj hv).2).2.symm⟩

omit [DecidableEq α] in
/-- **No empty line comes before the end of solid lines.** -/
theorem length_block_le {pre post : List α} (hne : cr ≠ lf) (h : Solid cr lf ls)
    (heq : block cr lf ls ++ cr :: lf :: body = pre ++ cr :: lf :: cr :: lf :: post) :
    (block cr lf ls).length ≤ pre.length + 2 := by
  induction ls generalizing pre with
  | nil => exact Nat.zero_le _
  | cons l ls ih =>
    have hl := (h l List.mem_cons_self).2
    rw [block_cons] at heq
    have hlen : (block cr lf (l :: ls)).length = l.length + 2 + (block cr lf ls).length := by
      simp only [block, List.flatMap_cons, List.length_append, List.length_cons, List.length_nil]
    rcases List.append_eq_append_iff.mp heq with ⟨a, hpre, ha⟩ | ⟨b, rfl, hb⟩
    · rcases a with _ | ⟨x, _ | ⟨y, a⟩⟩
      · -- the pair ends the line `l`: a second one would be an empty line
        have hrest := (List.cons.inj (List.cons.inj ha).2).2
        rcases ls with _ | ⟨l', ls⟩
        · rw [hlen, hpre]
          simp [block]
        · have hsolid : Solid cr lf (l' :: ls) := h.tail
          have := block_ne_emptyLine hsolid hrest.symm
          cases this
      · exact absurd (List.cons.inj (List.cons.inj ha).2).1.symm hne
      · have hrest := (List.cons.inj (List.cons.inj ha).2).2
        have := ih h.tail hrest
        rw [hlen, hpre]
        simp only [List.length_append, List.length_cons]
        omega
    · rcases b with _ | ⟨x, b⟩
      · have hrest := (List.cons.inj (List.cons.inj hb).2).2
        rcases ls with _ | ⟨l', ls⟩
        · rw [hlen]
          simp [block]
        · have := block_ne_emptyLine h.tail hrest
          cases this
      · refine absurd ?_ hl.1
        rw [(List.cons.inj hb).1]
        simp

omit [DecidableEq α] in
/-- **The first empty line of a text of solid lines is the one after them.** -/
theorem first_emptyLine (hne : cr ≠ lf) (hls : ls ≠ []) (h : Solid cr lf ls) :
    ∃ pre, block cr lf ls = pre ++ [cr, lf] ∧ ∀ body pre' post,
      block cr lf ls ++ cr :: lf :: body = pre' ++ cr :: lf :: cr :: lf :: post →
        pre.length ≤ pre'.length := by
  obtain ⟨init, l, rfl⟩ : ∃ init l, ls = init ++ [l] :=
    ⟨ls.dropLast, ls.getLast hls, (List.dropLast_append_getLast hls).symm⟩
  have hblock : block cr lf (init ++ [l]) = block cr lf init ++ l ++ [cr, lf] := by
    rw [block_append]
    simp [block]
  refine ⟨_, hblock, fun body pre' post heq => ?_⟩
  have hlen := length_block_le hne h heq
  rw [hblock, List.length_append] at hlen
  simp only [List.length_cons, List.length_nil] at hlen
  omega

end ReactorServer.Lib.Lines
