import ReactorServer.Lib.Runs

/-!
# Machines that refine machines, and machines that finish

`Simulates M N R`: what `R` relates it goes on relating, whatever step `M` takes; `N` takes none, one
or several steps for it.  So every run of `M` is a run of `N` seen from outside
(`Simulates.run`), and what holds of the runs of `N` can be read off `R`.  `Echoes` says besides what
is heard of the steps on both sides.

`Completes M P s`: however `M` goes on from `s`, it comes to a state with `P`.  A measure that every
step lowers gives this where there is always a step to take (`completes_of_measure`).
-/

namespace ReactorServer.Lib.Refinement

open ReactorServer.Lib.Runs

variable {σ τ α β γ ε ε' : Type*} {M : Machine σ α ε} {N : Machine τ β ε'} {R : σ → τ → Prop}
  {P I : σ → Prop} {s t : σ} {x : τ} {as : List α}

/-! ### Simulation -/

/-- For each step of `M` there are steps of `N` that lead to a related state. -/
def Simulates (M : Machine σ α ε) (N : Machine τ β ε') (R : σ → τ → Prop) : Prop :=
  ∀ s x a t, R s x → M.enabled s a → M.step s a = .ok t → ∃ bs y, Run N x bs y ∧ R t y

theorem run_one {b : β} {y : τ} (he : N.enabled x b) (hs : N.step x b = .ok y) :
    Run N x [b] y := .cons he hs (.nil y)

theorem Simulates.run (h : Simulates M N R) (hrun : Run M s as t) (hR : R s x) :
    ∃ bs y, Run N x bs y ∧ R t y := by
  induction hrun generalizing x with
  | nil s => exact ⟨[], x, .nil x, hR⟩
  | cons he hs _ ih =>
    obtain ⟨bs, y, hrun, hy⟩ := h _ _ _ _ hR he hs
    obtain ⟨cs, z, hrun', hz⟩ := ih hy
    exact ⟨bs ++ cs, z, hrun.append hrun', hz⟩

/-- A simulation in which as much is heard of the steps of `N` as of the step of `M`. -/
def Echoes (M : Machine σ α ε) (N : Machine τ β ε') (R : σ → τ → Prop) (f : α → List γ)
    (g : β → List γ) : Prop :=
  ∀ s x a t, R s x → M.enabled s a → M.step s a = .ok t →
    ∃ bs y, Run N x bs y ∧ R t y ∧ bs.flatMap g = f a

theorem Echoes.run {f : α → List γ} {g : β → List γ} (h : Echoes M N R f g) (hrun : Run M s as t)
    (hR : R s x) : ∃ bs y, Run N x bs y ∧ R t y ∧ bs.flatMap g = as.flatMap f := by
  induction hrun generalizing x with
  | nil s => exact ⟨[], x, .nil x, hR, rfl⟩
  | cons he hs _ ih =>
    obtain ⟨bs, y, hrun, hy, hheard⟩ := h _ _ _ _ hR he hs
    obtain ⟨cs, z, hrun', hz, hheard'⟩ := ih hy
    refine ⟨bs ++ cs, z, hrun.append hrun', hz, ?_⟩
    rw [List.flatMap_append, hheard, hheard', List.flatMap_cons]

/-! ### Completion -/

/-- There is a step to take, and none fails. -/
structure Moves (M : Machine σ α ε) (s : σ) : Prop where
  enabled : ∃ a, M.enabled s a
  returns : ∀ a, M.enabled s a → ∃ t, M.step s a = .ok t

/-- However `M` goes on from `s`, it ends in a state with `P`: its runs are bounded, and each leads to
such a state or can be continued. -/
structure Completes (M : Machine σ α ε) (P : σ → Prop) (s : σ) : Prop where
  bounded : ∃ n, ∀ as t, Run M s as t → as.length ≤ n
  ends : ∀ as t, Run M s as t → P t ∨ Moves M t

/-- **Completion by a measure.** -/
theorem completes_of_measure (f : σ → ℕ)
    (hstep : ∀ s a t, I s → M.enabled s a → M.step s a = .ok t → I t ∧ f t < f s)
    (hmoves : ∀ s, I s → P s ∨ Moves M s) (h0 : I s) : Completes M P s := by
  have hrun : ∀ {s as t}, Run M s as t → I s → as.length + f t ≤ f s ∧ I t := by
    intro s as t h
    induction h with
    | nil s => exact fun hs => ⟨Nat.le_of_eq (Nat.zero_add _), hs⟩
    | cons he hs _ ih =>
      intro h0
      obtain ⟨ht, hlt⟩ := hstep _ _ _ h0 he hs
      obtain ⟨hle, hu⟩ := ih ht
      refine ⟨?_, hu⟩
      rw [List.length_cons]
      omega
  refine ⟨⟨f s, fun as t h => ?_⟩, fun as t h => hmoves t (hrun h h0).2⟩
  have := (hrun h h0).1
  omega

theorem Completes.exists_run (h : Completes M P s) : ∃ as t, Run M s as t ∧ P t := by
  obtain ⟨n, hn⟩ := h.bounded
  have key : ∀ k as t, Run M s as t → n ≤ as.length + k → ∃ as t, Run M s as t ∧ P t := by
    intro k
    induction k with
    | zero =>
      intro as t hrun hle
      rcases h.ends as t hrun with hP | ⟨⟨a, he⟩, hreturns⟩
      · exact ⟨as, t, hrun, hP⟩
      · obtain ⟨u, hu⟩ := hreturns a he
        have := hn _ u (hrun.append (run_one he hu))
        rw [List.length_append, List.length_singleton] at this
        omega
    | succ k ih =>
      intro as t hrun hle
      rcases h.ends as t hrun with hP | ⟨⟨a, he⟩, hreturns⟩
      · exact ⟨as, t, hrun, hP⟩
      · obtain ⟨u, hu⟩ := hreturns a he
        refine ih _ u (hrun.append (run_one he hu)) ?_
        rw [List.length_append, List.length_singleton]
        omega
  exact key n [] s (.nil s) (Nat.le_add_left _ _)

end ReactorServer.Lib.Refinement
