import ReactorServer.Lib.Runs
import Mathlib.Data.List.Induction

/-!
# The last write

`f a = some b` says that the operation `a` writes `b` to a cell, `f a = none` that it leaves the
cell alone.  `lastWrite f as` is what the last of the operations `as` that writes has written; where
every step of a machine does to the cell what `f` says, that is what the cell holds after a run
(`run_lastWrite`).

`lastWrite_merge` compares two accounts of the same cell, of which the second knows of more writes:
they agree unless one of the further writes comes last.
-/

namespace ReactorServer.Lib.LastWrite

open ReactorServer.Lib.Runs

variable {σ α β ε : Type*} {f g : α → Option β} {as pre post : List α} {a : α} {b : β}

/-- What the last operation that writes has written. -/
def lastWrite (f : α → Option β) (as : List α) : Option β := (as.filterMap f).getLast?

@[simp] theorem lastWrite_nil : lastWrite f [] = none := rfl

@[simp] theorem lastWrite_concat : lastWrite f (as ++ [a]) = (f a).or (lastWrite f as) := by
  unfold lastWrite
  rw [List.filterMap_append, List.getLast?_append]
  congr 1
  cases h : f a with
  | none => simp [h]
  | some b => simp [h]

theorem lastWrite_append (f : α → Option β) (pre post : List α) :
    lastWrite f (pre ++ post) = (lastWrite f post).or (lastWrite f pre) := by
  unfold lastWrite
  rw [List.filterMap_append, List.getLast?_append]

theorem lastWrite_eq_none : lastWrite f as = none ↔ ∀ a ∈ as, f a = none := by
  unfold lastWrite
  rw [List.getLast?_eq_none_iff, List.filterMap_eq_nil_iff]

theorem lastWrite_of_split (ha : f a = some b) (hpost : ∀ c ∈ post, f c = none) :
    lastWrite f (pre ++ a :: post) = some b := by
  rw [List.append_cons, lastWrite_append, lastWrite_eq_none.mpr hpost, Option.none_or,
    lastWrite_concat, ha, Option.some_or]

theorem lastWrite_eq_some : lastWrite f as = some b ↔
    ∃ pre a post, as = pre ++ a :: post ∧ f a = some b ∧ ∀ c ∈ post, f c = none := by
  constructor
  · intro h
    induction as using List.reverseRecOn with
    | nil => cases h
    | append_singleton as a ih =>
      rw [lastWrite_concat] at h
      cases hfa : f a with
      | some b' =>
        rw [hfa, Option.some_or] at h
        exact ⟨as, a, [], rfl, hfa.trans h, fun c hc => absurd hc List.not_mem_nil⟩
      | none =>
        rw [hfa, Option.none_or] at h
        obtain ⟨pre, c, post, rfl, hc, hpost⟩ := ih h
        refine ⟨pre, c, post ++ [a], by simp, hc, fun d hd => ?_⟩
        rcases List.mem_append.mp hd with hd | hd
        · exact hpost d hd
        · rw [List.mem_singleton.mp hd, hfa]
  · rintro ⟨pre, a, post, rfl, ha, hpost⟩
    exact lastWrite_of_split ha hpost

/-- **A cell holds what was written last.** -/
theorem run_lastWrite {M : Machine σ α ε} (cell : σ → β) {s t : σ}
    (hstep : ∀ s a t, M.enabled s a → M.step s a = .ok t → cell t = (f a).getD (cell s))
    (h : Run M s as t) : cell t = (lastWrite f as).getD (cell s) := by
  refine Run.history (I := fun as t => cell t = (lastWrite f as).getD (cell s)) h rfl
    fun as t a u hI he hs => ?_
  rw [hstep t a u he hs, hI, lastWrite_concat]
  cases f a with
  | none => rfl
  | some b => rfl

section Merge
variable {x : α} [DecidableEq α] {d : β}

omit [DecidableEq α] in
theorem split_concat (h : as ++ [a] = pre ++ x :: post) (ha : a ≠ x) :
    ∃ post', post = post' ++ [a] := by
  rcases List.eq_nil_or_concat post with rfl | ⟨post', c, rfl⟩
  · exact absurd (List.append_inj_right' h rfl) (by simpa using ha)
  · rw [List.concat_eq_append, ← List.cons_append, ← List.append_assoc] at h
    have hc := List.append_inj_right' h rfl
    exact ⟨post', by rw [List.concat_eq_append, hc]⟩

omit [DecidableEq α] in
theorem lastWrite_quiet (ha : f a = none) (hpost : ∀ c ∈ post, f c = none) :
    lastWrite f (pre ++ a :: post) = lastWrite f pre := by
  have h : lastWrite f (a :: post) = none :=
    lastWrite_eq_none.mpr (List.forall_mem_cons.mpr ⟨ha, hpost⟩)
  rw [lastWrite_append, h, Option.none_or]

/-- **Two accounts of one cell.**  Let `g` know of the writes of `f` and, besides, of `x`, which
writes `b`.  The accounts agree if and only if every `x` finds the cell at `b` or is followed by a
write of `f`. -/
theorem lastWrite_merge (hg : ∀ a, g a = if a = x then some b else f a) (hx : f x = none) :
    (lastWrite g as).getD d = (lastWrite f as).getD d ↔
      ∀ pre post, as = pre ++ x :: post →
        (lastWrite f pre).getD d = b ∨ ∃ c ∈ post, f c ≠ none := by
  induction as using List.reverseRecOn with
  | nil =>
    refine iff_of_true rfl fun pre post h => ?_
    simp at h
  | append_singleton as a ih =>
    rw [lastWrite_concat, lastWrite_concat, hg]
    split_ifs with ha
    · -- the operation that only `g` knows of comes last
      subst ha
      rw [hx, Option.some_or, Option.none_or, Option.getD_some]
      constructor
      · intro hb pre post hsplit
        by_cases hpost : ∃ c ∈ post, f c ≠ none
        · exact Or.inr hpost
        · left
          have hquiet : ∀ c ∈ post, f c = none := fun c hc =>
            Classical.not_not.mp fun h => hpost ⟨c, hc, h⟩
          rw [← lastWrite_quiet hx hquiet, ← hsplit, lastWrite_concat, hx, Option.none_or, ← hb]
      · intro h
        rcases h as [] rfl with h | ⟨c, hc, -⟩
        · exact h.symm
        · exact absurd hc List.not_mem_nil
    · cases hfa : f a with
      | some v =>
        -- a write of `f` comes last
        refine iff_of_true rfl fun pre post hsplit => Or.inr ⟨a, ?_, by simp [hfa]⟩
        obtain ⟨post', rfl⟩ := split_concat hsplit ha
        simp
      | none =>
        rw [Option.none_or, Option.none_or, ih]
        constructor
        · intro h pre post hsplit
          obtain ⟨post', rfl⟩ := split_concat hsplit ha
          rw [← List.cons_append, ← List.append_assoc] at hsplit
          rcases h pre post' (List.append_inj_left' hsplit rfl) with h | ⟨c, hc, h⟩
          · exact Or.inl h
          · exact Or.inr ⟨c, List.mem_append_left _ hc, h⟩
        · rintro h pre post rfl
          rcases h pre (post ++ [a]) (by simp) with h | ⟨c, hc, h⟩
          · exact Or.inl h
          · rcases List.mem_append.mp hc with hc | hc
            · exact Or.inr ⟨c, hc, h⟩
            · exact absurd (List.mem_singleton.mp hc ▸ hfa) h

end Merge

end ReactorServer.Lib.LastWrite
