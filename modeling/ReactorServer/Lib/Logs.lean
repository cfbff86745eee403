import ReactorServer.Lib.Triples

/-!
# Fallible calls that keep a log

A call that puts entries into a log and then returns a value or fails; what it has logged before it
fails stays.  Without the log it is a fallible call (`result_bind`).  `Writes P E Q x`: every entry
of the log of `x` has `P`, and its result is as `Ends E Q` says.
-/

namespace ReactorServer.Lib.Logs

open ReactorServer.Lib.Triples

universe v

/-- A fallible value, with the entries that were logged on the way. -/
structure Logged (ε ω : Type*) (β : Type v) where
  log : List ω
  result : Except ε β

variable {ε ω : Type*} {β γ : Type v} {P : ω → Prop} {E : ε → Prop} {Q : β → Prop} {R : γ → Prop}

instance : Monad (Logged ε ω) where
  pure b := ⟨[], .ok b⟩
  bind x f :=
    match x.result with
    | .error e => ⟨x.log, .error e⟩
    | .ok b => ⟨x.log ++ (f b).log, (f b).result⟩

/-- A call that logs nothing. -/
instance : MonadLift (Except ε) (Logged ε ω) := ⟨fun x => ⟨[], x⟩⟩

/-! ### Without the log -/

@[simp] theorem result_pure (b : β) : (pure b : Logged ε ω β).result = .ok b := rfl

@[simp] theorem result_lift (x : Except ε β) : (liftM x : Logged ε ω β).result = x := rfl

@[simp] theorem result_bind (x : Logged ε ω β) (f : β → Logged ε ω γ) :
    (x >>= f).result = x.result >>= fun b => (f b).result := by
  obtain ⟨log, result⟩ := x
  cases result <;> rfl

@[simp] theorem result_ite {p : Prop} [Decidable p] (x y : Logged ε ω β) :
    (if p then x else y).result = if p then x.result else y.result := by
  split_ifs <;> rfl

/-! ### Entries and result -/

/-- Every entry has `P`, and the result is a value with `Q` or an error in `E`. -/
def Writes (P : ω → Prop) (E : ε → Prop) (Q : β → Prop) (x : Logged ε ω β) : Prop :=
  (∀ w ∈ x.log, P w) ∧ Ends E Q x.result

theorem Writes.pure {b : β} (h : Q b) : Writes P E Q (Pure.pure b : Logged ε ω β) :=
  ⟨List.forall_mem_nil _, h⟩

theorem Writes.lift {x : Except ε β} (h : Ends E Q x) : Writes P E Q (liftM x : Logged ε ω β) :=
  ⟨List.forall_mem_nil _, h⟩

theorem Writes.imp {x : Logged ε ω β} {Q' : β → Prop} (h : Writes P E Q x)
    (hQ : ∀ b, Q b → Q' b) : Writes P E Q' x :=
  ⟨h.1, h.2.imp hQ⟩

/-- The rule of composition. -/
theorem Writes.bind {x : Logged ε ω β} {f : β → Logged ε ω γ} (h : Writes P E Q x)
    (hf : ∀ b, Q b → Writes P E R (f b)) : Writes P E R (x >>= f) := by
  obtain ⟨log, result⟩ := x
  obtain ⟨hlog, hresult⟩ := h
  cases result with
  | error e => exact ⟨hlog, hresult⟩
  | ok b =>
    obtain ⟨hlog', hresult'⟩ := hf b hresult
    exact ⟨List.forall_mem_append.mpr ⟨hlog, hlog'⟩, hresult'⟩

end ReactorServer.Lib.Logs
