import ReactorServer.Lib.Runs
import Mathlib.Data.List.Basic

/-!
# Calls that follow a run

A machine `M` says which labels may be taken and what they mean; the calls `g` take the same labels
in a state of their own.  `Follows M g R s x as` says that the calls keep up with the run of `M`
over `as`: after each label they have returned, in a state related by `R` to the machine's.

`follows_iff` reduces this to one step: where a call keeps an invariant if and only if its label
meets a condition, the calls keep up with a run if and only if all its labels meet it.
-/

namespace ReactorServer.Lib.Follow

open ReactorServer.Lib.Runs

universe v

variable {σ α ε ε' : Type*} {τ : Type v} {M : Machine σ α ε} {g : τ → α → Except ε' τ}
  {R I : σ → τ → Prop} {C : σ → α → Prop} {s t : σ} {x : τ} {a : α} {as : List α}

/-- After each of the labels `as` the calls have returned, and what they returned is related to the
state of the machine. -/
def Follows (M : Machine σ α ε) (g : τ → α → Except ε' τ) (R : σ → τ → Prop) (s : σ) (x : τ)
    (as : List α) : Prop :=
  ∀ bs cs u, as = bs ++ cs → Run M s bs u → ∃ y, bs.foldlM g x = .ok y ∧ R u y

theorem follows_nil : Follows M g R s x [] ↔ R s x := by
  constructor
  · intro h
    obtain ⟨y, hy, hR⟩ := h [] [] s rfl (.nil s)
    obtain rfl := Except.ok.inj hy
    exact hR
  · rintro hR bs cs u hsplit hrun
    obtain ⟨rfl, rfl⟩ := List.append_eq_nil_iff.mp hsplit.symm
    cases hrun
    exact ⟨x, rfl, hR⟩

theorem follows_cons (he : M.enabled s a) (hs : M.step s a = .ok t) :
    Follows M g R s x (a :: as) ↔ R s x ∧ ∃ y, g x a = .ok y ∧ Follows M g R t y as := by
  constructor
  · intro h
    obtain ⟨y, hy, -⟩ := h [a] as t rfl (.cons he hs (.nil t))
    rw [List.foldlM_cons, bind_eq_ok] at hy
    obtain ⟨z, hz, -⟩ := hy
    refine ⟨?_, z, hz, fun bs cs u hsplit hrun => ?_⟩
    · obtain ⟨y, hy, hR⟩ := h [] _ s rfl (.nil s)
      obtain rfl := Except.ok.inj hy
      exact hR
    · obtain ⟨y, hy, hR⟩ := h (a :: bs) cs u (by rw [hsplit]; rfl) (.cons he hs hrun)
      rw [List.foldlM_cons, hz] at hy
      exact ⟨y, hy, hR⟩
  · rintro ⟨hR, z, hz, h⟩ bs cs u hsplit hrun
    cases bs with
    | nil =>
      cases hrun
      exact ⟨x, rfl, hR⟩
    | cons b bs =>
      obtain ⟨rfl, rfl⟩ := List.cons.inj hsplit
      obtain ⟨-, t', hs', hrun'⟩ := run_cons.mp hrun
      rw [hs] at hs'
      cases hs'
      obtain ⟨y, hy, hR'⟩ := h bs cs u rfl hrun'
      exact ⟨y, by rw [List.foldlM_cons, hz]; exact hy, hR'⟩

/-- **Following step by step.**  Let the calls whose label meets `C` keep `I`, and let no other call
end in `R`.  Then the calls keep up with a run if and only if its labels meet `C`. -/
theorem follows_iff (hI : ∀ s x, I s x → R s x)
    (hin : ∀ s x a t, I s x → M.enabled s a → M.step s a = .ok t → C s a →
      ∃ y, g x a = .ok y ∧ I t y)
    (hout : ∀ s x a t, I s x → M.enabled s a → M.step s a = .ok t → ¬C s a →
      ∀ y, g x a = .ok y → ¬R t y)
    (h : Run M s as t) (h0 : I s x) : Follows M g R s x as ↔ Run (restrict M C) s as t := by
  induction h generalizing x with
  | nil s => exact iff_of_true (follows_nil.mpr (hI s x h0)) (.nil s)
  | @cons s t u a as he hs h ih =>
    rw [follows_cons he hs]
    constructor
    · rintro ⟨-, y, hy, hf⟩
      have hRy : R t y := by
        obtain ⟨z, hz, hR⟩ := hf [] as t rfl (.nil t)
        obtain rfl := Except.ok.inj hz
        exact hR
      have hC : C s a := by
        by_contra hC
        exact hout s x a t h0 he hs hC y hy hRy
      obtain ⟨z, hz, hIz⟩ := hin s x a t h0 he hs hC
      rw [hy] at hz
      cases hz
      exact .cons ⟨he, hC⟩ hs ((ih hIz).mp hf)
    · intro hrun
      obtain ⟨⟨-, hC⟩, t', hs', hrun'⟩ := run_cons.mp hrun
      have hst : M.step s a = .ok t' := hs'
      rw [hs] at hst
      cases hst
      obtain ⟨y, hy, hIy⟩ := hin s x a t h0 he hs hC
      exact ⟨hI s x h0, y, hy, (ih hIy).mpr hrun'⟩

theorem Follows.of_step (hI : ∀ s x, I s x → R s x)
    (hstep : ∀ s x a t, I s x → M.enabled s a → M.step s a = .ok t → ∃ y, g x a = .ok y ∧ I t y)
    (h : Run M s as t) (h0 : I s x) : Follows M g R s x as := by
  induction h generalizing x with
  | nil s => exact follows_nil.mpr (hI s x h0)
  | @cons s t u a as he hs h ih =>
    obtain ⟨y, hy, hIy⟩ := hstep s x a t h0 he hs
    exact (follows_cons he hs).mpr ⟨hI s x h0, y, hy, ih hIy⟩

/-! ### A property of every state -/

variable {P J : σ → Prop}

/-- `P` holds in every state of the run over `as`. -/
def Throughout (M : Machine σ α ε) (P : σ → Prop) (s : σ) (as : List α) : Prop :=
  ∀ bs cs u, as = bs ++ cs → Run M s bs u → P u

/-- Calls that do nothing follow a run where `P` holds throughout. -/
theorem throughout_iff_follows : Throughout M P s as ↔
    Follows M (fun (_ : Unit) _ => (.ok () : Except ε Unit)) (fun s _ => P s) s () as := by
  have hfold : ∀ bs : List α,
      bs.foldlM (fun (_ : Unit) _ => (.ok () : Except ε Unit)) () = .ok () := by
    intro bs
    induction bs with
    | nil => rfl
    | cons b bs ih => exact ih
  constructor
  · intro h bs cs u hsplit hrun
    exact ⟨(), hfold bs, h bs cs u hsplit hrun⟩
  · intro h bs cs u hsplit hrun
    exact (h bs cs u hsplit hrun).choose_spec.2

/-- **A property throughout a run, step by step.**  Let the steps that meet `C` keep `J`, and let no
other step end in `P`. -/
theorem throughout_iff (hJ : ∀ s, J s → P s)
    (hin : ∀ s a t, J s → M.enabled s a → M.step s a = .ok t → C s a → J t)
    (hout : ∀ s a t, J s → M.enabled s a → M.step s a = .ok t → ¬C s a → ¬P t)
    (h : Run M s as t) (h0 : J s) : Throughout M P s as ↔ Run (restrict M C) s as t := by
  rw [throughout_iff_follows]
  refine follows_iff (I := fun s _ => J s) (fun s _ => hJ s) ?_ ?_ h h0
  · intro s _ a t hs he hstep hC
    exact ⟨(), rfl, hin s a t hs he hstep hC⟩
  · intro s _ a t hs he hstep hC _ _
    exact hout s a t hs he hstep hC

end ReactorServer.Lib.Follow
