import ReactorServer.Lib.Runs

/-!
# Postconditions of fallible calls

`Ends E Q x`: the call `x` returns a value with `Q`, or fails with an error in `E`.  The
precondition is the context the triple is proved in.  With everything in `E` this is partial
correctness; with `E` empty the call returns.
-/

namespace ReactorServer.Lib.Triples

open ReactorServer.Lib.Runs

variable {ε : Type*} {β γ : Type*} {E E' : ε → Prop} {Q Q' : β → Prop} {R : γ → Prop}

/-- `x` returns a value with `Q` or fails with an error in `E`. -/
def Ends (E : ε → Prop) (Q : β → Prop) : Except ε β → Prop
  | .ok b => Q b
  | .error e => E e

@[simp] theorem ends_ok {b : β} : Ends E Q (.ok b) ↔ Q b := Iff.rfl

@[simp] theorem ends_error {e : ε} : Ends E Q (.error e) ↔ E e := Iff.rfl

theorem Ends.of_ok {x : Except ε β} {b : β} (h : Ends E Q x) (hx : x = .ok b) : Q b := by
  rwa [hx] at h

theorem Ends.of_error {x : Except ε β} {e : ε} (h : Ends E Q x) (hx : x = .error e) : E e := by
  rwa [hx] at h

/-- The rule of consequence. -/
theorem Ends.mono {x : Except ε β} (h : Ends E Q x) (hE : ∀ e, E e → E' e) (hQ : ∀ b, Q b → Q' b) :
    Ends E' Q' x := by
  cases x with
  | ok b => exact hQ b h
  | error e => exact hE e h

theorem Ends.imp {x : Except ε β} (h : Ends E Q x) (hQ : ∀ b, Q b → Q' b) : Ends E Q' x :=
  h.mono (fun _ => id) hQ

theorem Ends.returns {x : Except ε β} (h : Ends E Q x) (h' : Ends (fun e => ¬E e) Q' x) :
    ∃ b, x = .ok b ∧ Q b := by
  cases x with
  | ok b => exact ⟨b, rfl, h⟩
  | error e => exact absurd h h'

section Bind
universe v
variable {β γ : Type v} {Q : β → Prop} {R : γ → Prop}

/-- The rule of composition. -/
theorem Ends.bind {x : Except ε β} {f : β → Except ε γ} (h : Ends E Q x)
    (hf : ∀ b, Q b → Ends E R (f b)) : Ends E R (x >>= f) := by
  cases x with
  | ok b => exact hf b h
  | error e => exact h

end Bind

/-- A machine whose enabled steps keep `I`, or fail inside `E`, keeps it over runs. -/
theorem run_ends {σ α : Type*} {M : Machine σ α ε} {I : σ → Prop}
    (hI : ∀ s a, I s → M.enabled s a → Ends E I (M.step s a)) {s t : σ} {as : List α}
    (h : Run M s as t) (h0 : I s) : I t :=
  h.invariant (fun s a _ hs he hstep => (hI s a hs he).of_ok hstep) h0

end ReactorServer.Lib.Triples
