import Mathlib.Data.Nat.Notation
import Mathlib.Tactic.SplitIfs
import Mathlib.Tactic.TypeStar

/-!
# Guarded machines and their runs

A `Machine` takes labelled steps: a label may be taken where it is `enabled`, and taking it either
gives the next state or fails.  `Run s as t` says that the labels `as`, each enabled where it is
taken and none of them failing, lead from `s` to `t`.  An invariant is proved once for one step
(`Run.invariant`).

`restrict P` takes only the steps that meet `P`, so that "every run whose steps all meet `P`" is
"every run of `restrict P`".
-/

namespace ReactorServer.Lib.Runs

universe v

variable {σ α ε : Type*}

/-! ### Fallible values -/

section Fallible
variable {β γ : Type v}

theorem bind_eq_ok {x : Except ε β} {f : β → Except ε γ} {c : γ} :
    (x >>= f) = .ok c ↔ ∃ b, x = .ok b ∧ f b = .ok c := by
  cases x with
  | error e =>
    constructor
    · intro h; cases h
    · rintro ⟨_, h, _⟩; cases h
  | ok b =>
    constructor
    · intro h; exact ⟨b, rfl, h⟩
    · rintro ⟨_, h, h'⟩; cases h; exact h'

@[simp] theorem ok_bind (b : β) (f : β → Except ε γ) :
    ((Except.ok b : Except ε β) >>= f) = f b := rfl

@[simp] theorem error_bind (e : ε) (f : β → Except ε γ) :
    ((Except.error e : Except ε β) >>= f) = .error e := rfl

@[simp] theorem pure_eq_ok (b : β) : (pure b : Except ε β) = .ok b := rfl

theorem mapError_eq_ok {ε' : Type*} {x : Except ε β} {f : ε → ε'} {b : β} :
    x.mapError f = .ok b ↔ x = .ok b := by
  cases x with
  | error e =>
    constructor
    · intro h; cases h
    · intro h; cases h
  | ok c => exact ⟨fun h => congrArg Except.ok (Except.ok.inj h), fun h => congrArg _ h⟩

end Fallible

/-! ### Machines -/

/-- A system of guarded, labelled steps, each of which may fail. -/
structure Machine (σ α ε : Type*) where
  enabled : σ → α → Prop
  step : σ → α → Except ε σ

/-- The enabled labels `as` lead from one state to another, and none of the steps fails. -/
inductive Run (M : Machine σ α ε) : σ → List α → σ → Prop
  | nil (s : σ) : Run M s [] s
  | cons {s t u : σ} {a : α} {as : List α} (he : M.enabled s a) (hs : M.step s a = .ok t)
      (h : Run M t as u) : Run M s (a :: as) u

/-- The machine that takes only the steps that meet `P`. -/
def restrict (M : Machine σ α ε) (P : σ → α → Prop) : Machine σ α ε :=
  { M with enabled := fun s a => M.enabled s a ∧ P s a }

instance (M : Machine σ α ε) (P : σ → α → Prop) [∀ s a, Decidable (M.enabled s a)]
    [∀ s a, Decidable (P s a)] (s : σ) (a : α) : Decidable ((restrict M P).enabled s a) :=
  inferInstanceAs (Decidable (_ ∧ _))

variable {M : Machine σ α ε} {P : σ → α → Prop} {s t u : σ} {as bs : List α} {a : α}

theorem Run.append (h : Run M s as t) (h' : Run M t bs u) : Run M s (as ++ bs) u := by
  induction h with
  | nil => exact h'
  | cons he hs _ ih => exact .cons he hs (ih h')

theorem run_append : Run M s (as ++ bs) u ↔ ∃ t, Run M s as t ∧ Run M t bs u := by
  refine ⟨fun h => ?_, fun ⟨_, h, h'⟩ => h.append h'⟩
  induction as generalizing s with
  | nil => exact ⟨s, .nil s, h⟩
  | cons a as ih =>
    cases h with
    | cons he hs h =>
      obtain ⟨t, h1, h2⟩ := ih h
      exact ⟨t, .cons he hs h1, h2⟩

/-- **The induction on runs**: what one step preserves, a run preserves. -/
theorem Run.invariant {I : σ → Prop}
    (hI : ∀ s a t, I s → M.enabled s a → M.step s a = .ok t → I t) (h : Run M s as t)
    (h0 : I s) : I t := by
  induction h with
  | nil => exact h0
  | cons he hs _ ih => exact ih (hI _ _ _ h0 he hs)

/-- The same induction for what may also depend on the labels taken so far. -/
theorem Run.history {I : List α → σ → Prop} (h : Run M s as t) (h0 : I [] s)
    (hI : ∀ as t a u, I as t → M.enabled t a → M.step t a = .ok u → I (as ++ [a]) u) :
    I as t := by
  have key : ∀ {s' as' t'}, Run M s' as' t' → ∀ pre, I pre s' → I (pre ++ as') t' := by
    intro s' as' t' h'
    induction h' with
    | nil => intro pre hpre; simpa using hpre
    | cons he hs _ ih =>
      intro pre hpre
      simpa using ih _ (hI _ _ _ _ hpre he hs)
  exact key h [] h0

theorem Run.of_restrict (h : Run (restrict M P) s as t) : Run M s as t := by
  induction h with
  | nil s => exact .nil s
  | cons he hs _ ih => exact .cons he.1 hs ih

theorem Run.weaken {Q : σ → α → Prop} (hPQ : ∀ s a, P s a → Q s a) (h : Run (restrict M P) s as t) :
    Run (restrict M Q) s as t := by
  induction h with
  | nil s => exact .nil s
  | cons he hs _ ih => exact .cons ⟨he.1, hPQ _ _ he.2⟩ hs ih

/-- Take the labels one after another, where that can be computed. -/
def Machine.exec (M : Machine σ α ε) [∀ s a, Decidable (M.enabled s a)] : σ → List α → Option σ
  | s, [] => some s
  | s, a :: as =>
    if M.enabled s a then
      match M.step s a with
      | .ok t => M.exec t as
      | .error _ => none
    else none

theorem run_iff_exec [∀ s a, Decidable (M.enabled s a)] :
    Run M s as t ↔ M.exec s as = some t := by
  refine ⟨fun h => ?_, fun h => ?_⟩
  · induction h with
    | nil => rfl
    | cons he hs _ ih => rw [Machine.exec, if_pos he, hs]; exact ih
  · induction as generalizing s with
    | nil => cases h; exact .nil _
    | cons a as ih =>
      rw [Machine.exec] at h
      split_ifs at h with he
      cases hs : M.step s a with
      | ok t' => rw [hs] at h; exact .cons he hs (ih h)
      | error e => rw [hs] at h; cases h

theorem run_cons : Run M s (a :: as) u ↔
    M.enabled s a ∧ ∃ t, M.step s a = .ok t ∧ Run M t as u := by
  constructor
  · intro h
    cases h with
    | cons he hs h => exact ⟨he, _, hs, h⟩
  · rintro ⟨he, t, hs, h⟩
    exact .cons he hs h

/-- **Counting the steps outside `P`.**  A measure that such a step increases, and that every other
step leaves alone, is unchanged over a run if and only if the run has no such step. -/
theorem Run.measure_eq_iff {I : σ → Prop} {f : σ → ℕ}
    (hI : ∀ s a t, I s → M.enabled s a → M.step s a = .ok t →
      I t ∧ (P s a → f t = f s) ∧ (¬P s a → f s < f t))
    (h : Run M s as t) (h0 : I s) : f s ≤ f t ∧ (f t = f s ↔ Run (restrict M P) s as t) := by
  induction h with
  | nil s => exact ⟨Nat.le_refl _, iff_of_true rfl (.nil s)⟩
  | @cons s t u a as he hs h ih =>
    obtain ⟨ht, hin, hout⟩ := hI s a t h0 he hs
    obtain ⟨hle, hiff⟩ := ih ht
    by_cases hP : P s a
    · have heq := hin hP
      rw [heq] at hle hiff
      refine ⟨hle, hiff.trans ⟨fun hrun => .cons ⟨he, hP⟩ hs hrun, fun hrun => ?_⟩⟩
      obtain ⟨-, t', hs', hrun'⟩ := run_cons.mp hrun
      have hs'' : M.step s a = .ok t' := hs'
      rw [hs] at hs''
      cases hs''
      exact hrun'
    · have hlt := hout hP
      refine ⟨by omega, iff_of_false (by omega) fun hrun => ?_⟩
      exact hP (run_cons.mp hrun).1.2

end ReactorServer.Lib.Runs
