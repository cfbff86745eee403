import ReactorServer.Cpp
import ReactorServer.Lib.Runs
import Mathlib.Logic.Function.Basic

/-!
# Logging

`slog` takes the write lock of its level, opens the file of the level, writes and unlocks.  What goes
wrong on the way it reports by calling itself at the error level, with the lock still held where the
file does not open or the unlock fails.  A thread that holds the lock of the error log cannot take it
again, and the failure of that is reported at the error level: `slog` does not return (`error_held`).
`slog_iff` says when it returns with its locks released.
-/

namespace ReactorServer.Log.Slog

open ReactorServer.Cpp ReactorServer.Lib.Runs

/-! ### The model -/

def SLOG_LEVEL_DEBUG : ℤ := 20
def SLOG_LEVEL_INFO : ℤ := 40
def SLOG_LEVEL_ERROR : ℤ := 60

/-- The locks of the three files. -/
inductive Lock
  | lock_debug
  | lock_info
  | lock_error
  deriving DecidableEq, Repr

/-- Whether the system calls made in one call of `slog` succeed.  Each of them is made once at
most. -/
structure Outcome where
  wrlock : Bool
  fopen : Bool
  unlock : Bool
  deriving DecidableEq, Repr

/-- The locks the thread holds, those it has failed to unlock, and how often `slog` has been
called. -/
structure State where
  held : Lock → Bool
  failed : Lock → Bool
  calls : ℕ

/-- The branch of `slog` for the level with the lock `l`, where `slog_error` is the call at the error
level; `held l` makes `pthread_rwlock_wrlock` fail with `EDEADLK`. -/
def write (l : Lock) (o : Outcome) (slog_error : State → Except Fault State) (s : State) :
    Except Fault (ℤ × State) := do
  if s.held l = true ∨ o.wrlock = false then
    let s ← slog_error s
    pure (-1, s)
  else
    let s := { s with held := Function.update s.held l true }
    if o.fopen = false then
      let s ← slog_error s
      pure (-1, s)
    else if o.unlock = false then
      let s ← slog_error { s with failed := Function.update s.failed l true }
      pure (0, s)
    else pure (0, { s with held := Function.update s.held l false })

/-- `slog`, with at most `fuel` calls nested; `o n` is how the system calls of the `n`-th call end. -/
def slog (o : ℕ → Outcome) : ℕ → ℤ → State → Except Fault (ℤ × State)
  | 0, _, _ => throw .hang
  | fuel + 1, level, s => do
    let out := o s.calls
    let s := { s with calls := s.calls + 1 }
    let slog_error (s : State) : Except Fault State := do
      let (_, s) ← slog o fuel SLOG_LEVEL_ERROR s
      pure s
    if level = SLOG_LEVEL_DEBUG then write .lock_debug out slog_error s
    else if level = SLOG_LEVEL_INFO then write .lock_info out slog_error s
    else if level = SLOG_LEVEL_ERROR then write .lock_error out slog_error s
    else do
      let s ← slog_error s
      pure (0, s)

/-- A thread that holds no lock. -/
def start : State := ⟨fun _ => false, fun _ => false, 0⟩

variable {o : ℕ → Outcome} {s t : State} {fuel n : ℕ} {level ret : ℤ} {l : Lock}

/-! ### The error level -/

/-- All three calls succeed. -/
def Outcome.Clean (o : Outcome) : Prop := o.wrlock = true ∧ o.fopen = true ∧ o.unlock = true

instance : DecidablePred Outcome.Clean := fun o =>
  inferInstanceAs (Decidable (o.wrlock = true ∧ o.fopen = true ∧ o.unlock = true))

/-- From the `n`-th call on, the write lock is refused some times, and then all goes well. -/
def Ends (o : ℕ → Outcome) (n : ℕ) : Prop :=
  ∃ k, (∀ i, i < k → (o (n + i)).wrlock = false) ∧ (o (n + k)).Clean

theorem ends_of_refused (h : (o n).wrlock = false) : Ends o n ↔ Ends o (n + 1) := by
  constructor
  · rintro ⟨k, hk, hclean⟩
    cases k with
    | zero =>
      rw [Nat.add_zero] at hclean
      exact absurd (h.symm.trans hclean.1) (by decide)
    | succ k =>
      refine ⟨k, fun i hi => ?_, ?_⟩
      · have := hk (i + 1) (by omega)
        rwa [Nat.add_assoc, Nat.add_comm 1 i]
      · rwa [Nat.add_assoc, Nat.add_comm 1 k]
  · rintro ⟨k, hk, hclean⟩
    refine ⟨k + 1, fun i hi => ?_, ?_⟩
    · cases i with
      | zero => exact h
      | succ i =>
        have := hk i (by omega)
        rwa [Nat.add_assoc, Nat.add_comm 1 i] at this
    · rwa [Nat.add_assoc, Nat.add_comm 1 k] at hclean

theorem ends_of_granted (h : (o n).wrlock = true) : Ends o n ↔ (o n).Clean := by
  constructor
  · rintro ⟨k, hk, hclean⟩
    cases k with
    | zero => exact hclean
    | succ k =>
      have := hk 0 (by omega)
      exact absurd (h.symm.trans this) (by decide)
  · intro hclean
    exact ⟨0, fun i hi => absurd hi (Nat.not_lt_zero i), hclean⟩

/-- One call more. -/
def State.count (s : State) : State := { s with calls := s.calls + 1 }

/-- The call at the error level, for its effect. -/
def slogError (o : ℕ → Outcome) (fuel : ℕ) (s : State) : Except Fault State := do
  let (_, s) ← slog o fuel SLOG_LEVEL_ERROR s
  pure s

theorem slog_error_succ : slog o (fuel + 1) SLOG_LEVEL_ERROR s =
    write .lock_error (o s.calls) (slogError o fuel) s.count := rfl

/-- **The error log is locked**, and the thread never comes back. -/
theorem error_held (h : s.held .lock_error = true) :
    slog o fuel SLOG_LEVEL_ERROR s = .error .hang := by
  induction fuel generalizing s with
  | zero => rfl
  | succ fuel ih =>
    have hnext : slogError o fuel s.count = .error .hang := by
      unfold slogError
      rw [ih (s := s.count) h]
      rfl
    have hheld : s.count.held .lock_error = true ∨ (o s.calls).wrlock = false := Or.inl h
    rw [slog_error_succ, write, if_pos hheld, hnext]
    rfl

theorem error_refused (h : (o s.calls).wrlock = false) :
    slog o (fuel + 1) SLOG_LEVEL_ERROR s = slogError o fuel s.count >>= fun t => .ok (-1, t) := by
  rw [slog_error_succ, write, if_pos (Or.inr h)]
  rfl

theorem error_granted (hfree : s.held .lock_error = false) (h : (o s.calls).wrlock = true) :
    slog o (fuel + 1) SLOG_LEVEL_ERROR s =
      if (o s.calls).Clean then .ok (0, s.count) else .error .hang := by
  have hno : ¬(s.count.held .lock_error = true ∨ (o s.calls).wrlock = false) := by
    rw [h, show s.count.held .lock_error = false from hfree]
    decide
  have hlocked : ∀ failed calls,
      slogError o fuel ⟨Function.update s.held .lock_error true, failed, calls⟩ = .error .hang := by
    intro failed calls
    have hheld : (⟨Function.update s.held .lock_error true, failed, calls⟩ : State).held
        .lock_error = true := Function.update_self .lock_error true s.held
    unfold slogError
    rw [error_held hheld]
    rfl
  rw [slog_error_succ, write, if_neg hno]
  by_cases hopen : (o s.calls).fopen = true
  · by_cases hunlock : (o s.calls).unlock = true
    · have hback : Function.update (Function.update s.held .lock_error true) .lock_error false =
          s.held := by
        rw [Function.update_idem, ← hfree, Function.update_eq_self]
      rw [if_pos (show (o s.calls).Clean from ⟨h, hopen, hunlock⟩), if_neg (by simp [hopen]),
        if_neg (by simp [hunlock])]
      exact congrArg (fun held => Except.ok ((0 : ℤ), (⟨held, s.failed, s.calls + 1⟩ : State)))
        hback
    · rw [if_neg (fun hc : (o s.calls).Clean => hunlock hc.2.2), if_neg (by simp [hopen]),
        if_pos (by simpa using hunlock)]
      exact congrArg (· >>= _) (hlocked _ _)
  · rw [if_neg (fun hc : (o s.calls).Clean => hopen hc.2.1), if_pos (by simpa using hopen)]
    exact congrArg (· >>= _) (hlocked _ _)

/-- A call at the error level that returns has left the locks as they were.  Induction on the calls
nested. -/
theorem ends_of_error (hfree : s.held .lock_error = false)
    (h : slog o fuel SLOG_LEVEL_ERROR s = .ok (ret, t)) :
    Ends o s.calls ∧ t.held = s.held ∧ t.failed = s.failed := by
  induction fuel generalizing s ret with
  | zero => cases h
  | succ fuel ih =>
    by_cases hlock : (o s.calls).wrlock = true
    · rw [error_granted hfree hlock] at h
      rw [ends_of_granted hlock]
      split_ifs at h with hclean
      cases h
      exact ⟨hclean, rfl, rfl⟩
    · have hrefused : (o s.calls).wrlock = false := by simpa using hlock
      rw [error_refused hrefused] at h
      obtain ⟨t', h, ht'⟩ := bind_eq_ok.mp h
      obtain ⟨⟨ret', t''⟩, h, ht''⟩ := bind_eq_ok.mp h
      cases ht'
      cases ht''
      obtain ⟨hends, hheld, hfailed⟩ := ih (s := s.count) hfree h
      exact ⟨(ends_of_refused hrefused).mpr hends, hheld, hfailed⟩

theorem error_of_ends (hfree : s.held .lock_error = false) (h : Ends o s.calls) :
    ∃ fuel ret t, slog o fuel SLOG_LEVEL_ERROR s = .ok (ret, t) := by
  obtain ⟨k, hk⟩ := h
  induction k generalizing s with
  | zero =>
    have hclean : (o s.calls).Clean := hk.2
    refine ⟨1, 0, s.count, ?_⟩
    rw [error_granted hfree hclean.1, if_pos hclean]
  | succ k ih =>
    have hrefused : (o s.calls).wrlock = false := hk.1 0 (by omega)
    obtain ⟨fuel, ret, t, hnext⟩ := ih (s := s.count) hfree (by
      refine ⟨fun i hi => ?_, ?_⟩
      · have := hk.1 (i + 1) (by omega)
        rwa [Nat.add_comm i, ← Nat.add_assoc] at this
      · have := hk.2
        rwa [Nat.add_comm k, ← Nat.add_assoc] at this)
    refine ⟨fuel + 1, -1, t, ?_⟩
    rw [error_refused hrefused, slogError, hnext]
    rfl

/-! ### All levels -/

/-- The call returns, and the thread holds no lock but those it has failed to unlock. -/
def Released (o : ℕ → Outcome) (level : ℤ) : Prop :=
  ∃ fuel ret t, slog o fuel level start = .ok (ret, t) ∧
    ∀ l, t.held l = true → t.failed l = true

/-- A file is written, or its lock is refused or not given back and this can be reported; no file
fails to open with its lock held. -/
def Writes (o : ℕ → Outcome) : Prop :=
  (o 0).Clean ∨ ((o 0).wrlock = true → (o 0).fopen = true) ∧ Ends o 1

theorem slogError_iff (hfree : s.held .lock_error = false) :
    (∃ fuel t, slogError o fuel s = .ok t) ↔ Ends o s.calls := by
  constructor
  · rintro ⟨fuel, t, h⟩
    obtain ⟨⟨ret, t'⟩, h, -⟩ := bind_eq_ok.mp h
    exact (ends_of_error hfree h).1
  · intro h
    obtain ⟨fuel, ret, t, h⟩ := error_of_ends hfree h
    exact ⟨fuel, t, by rw [slogError, h]; rfl⟩

theorem slogError_held (hfree : s.held .lock_error = false) (h : slogError o fuel s = .ok t) :
    t.held = s.held ∧ t.failed = s.failed := by
  obtain ⟨⟨ret, t'⟩, h, ht⟩ := bind_eq_ok.mp h
  cases ht
  exact (ends_of_error hfree h).2

/-- The locks that are held could not be unlocked. -/
def Excused (s : State) : Prop := ∀ l, s.held l = true → s.failed l = true

theorem report_iff (hfree : s.held .lock_error = false) (r : ℤ) :
    (∃ fuel ret t, (slogError o fuel s >>= fun t => .ok (r, t)) = .ok (ret, t) ∧ Excused t) ↔
      Ends o s.calls ∧ Excused s := by
  have hsame : ∀ {fuel t}, slogError o fuel s = .ok t → (Excused t ↔ Excused s) := by
    intro fuel t h
    obtain ⟨hheld, hfailed⟩ := slogError_held hfree h
    unfold Excused
    rw [hheld, hfailed]
  rw [← slogError_iff hfree]
  constructor
  · rintro ⟨fuel, ret, t, h, ht⟩
    obtain ⟨t', h, ht'⟩ := bind_eq_ok.mp h
    cases ht'
    exact ⟨⟨fuel, t, h⟩, (hsame h).mp ht⟩
  · rintro ⟨⟨fuel, t, h⟩, hs⟩
    exact ⟨fuel, r, t, congrArg (· >>= _) h, (hsame h).mpr hs⟩

theorem excused_start : Excused start.count := fun _ => nofun

theorem excused_held {failed : Lock → Bool} {n : ℕ} :
    Excused ⟨Function.update start.held l true, failed, n⟩ ↔ failed l = true := by
  constructor
  · exact fun h => h l (Function.update_self l true start.held)
  · intro hfailed k hk
    by_cases hkl : k = l
    · rw [hkl]
      exact hfailed
    · have hk' : Function.update start.held l true k = true := hk
      rw [Function.update_of_ne hkl] at hk'
      cases hk'

theorem write_iff (hl : l ≠ .lock_error) :
    (∃ fuel ret t, write l (o 0) (slogError o fuel) start.count = .ok (ret, t) ∧ Excused t) ↔
      Writes o := by
  have hfree : Function.update start.held l true .lock_error = false :=
    Function.update_of_ne (Ne.symm hl) _ _
  unfold Writes write
  by_cases hlock : (o 0).wrlock = true
  · have hno : ¬(start.count.held l = true ∨ (o 0).wrlock = false) := by
      rw [hlock]
      exact fun h => h.elim nofun nofun
    simp only [if_neg hno]
    by_cases hopen : (o 0).fopen = true
    · simp only [hopen, Bool.true_eq_false, if_false, implies_true, true_and]
      by_cases hunlock : (o 0).unlock = true
      · -- all goes well
        simp only [hunlock, Bool.true_eq_false, if_false]
        refine iff_of_true ⟨0, 0, _, rfl, fun k hk => ?_⟩ (Or.inl ⟨hlock, hopen, hunlock⟩)
        have hk' : Function.update (Function.update start.held l true) l false k = true := hk
        have hback : Function.update start.held l false = start.held :=
          Function.update_eq_self l start.held
        rw [Function.update_idem, hback] at hk'
        cases hk'
      · -- the unlock fails, and this is reported
        have hfail : (o 0).unlock = false := by simpa using hunlock
        have hclean : ¬(o 0).Clean := fun h => hunlock h.2.2
        simp only [hfail, if_true, hclean, false_or]
        refine (report_iff (s := ⟨_, Function.update start.failed l true, 1⟩) hfree 0).trans ?_
        exact and_iff_left (excused_held.mpr (Function.update_self _ _ _))
    · -- the file does not open: the lock stays
      have hclosed : (o 0).fopen = false := by simpa using hopen
      have hclean : ¬(o 0).Clean := fun h => hopen h.2.1
      simp only [hclosed, if_true, hclean, false_or]
      refine (report_iff (s := ⟨_, start.failed, 1⟩) hfree (-1)).trans ?_
      exact iff_of_false (fun h => nomatch excused_held.mp h.2) fun h => nomatch h.1 hlock
  · -- the lock is refused, and this is reported
    have hrefused : (o 0).wrlock = false := by simpa using hlock
    have hclean : ¬(o 0).Clean := fun h => hlock h.1
    simp only [hrefused, or_true, if_true, hclean, false_or, Bool.false_eq_true, false_implies,
      true_and]
    exact (report_iff (s := start.count) rfl (-1)).trans (and_iff_left excused_start)

/-- When the locks are released, by the level. -/
def Condition (o : ℕ → Outcome) (level : ℤ) : Prop :=
  if level = SLOG_LEVEL_DEBUG ∨ level = SLOG_LEVEL_INFO then Writes o
  else if level = SLOG_LEVEL_ERROR then Ends o 0
  else Ends o 1

theorem other_iff : (∃ fuel ret t, (slogError o fuel start.count >>= fun t => .ok ((0 : ℤ), t)) =
      .ok (ret, t) ∧ ∀ l, t.held l = true → t.failed l = true) ↔ Ends o 1 :=
  (report_iff (s := start.count) rfl 0).trans (and_iff_left excused_start)

theorem released_succ : Released o level ↔ ∃ fuel ret t,
    slog o (fuel + 1) level start = .ok (ret, t) ∧ ∀ l, t.held l = true → t.failed l = true := by
  constructor
  · rintro ⟨fuel, ret, t, h, hreleased⟩
    cases fuel with
    | zero => cases h
    | succ fuel => exact ⟨fuel, ret, t, h, hreleased⟩
  · rintro ⟨fuel, ret, t, h, hreleased⟩
    exact ⟨fuel + 1, ret, t, h, hreleased⟩

theorem error_iff : (∃ fuel ret t, slog o (fuel + 1) SLOG_LEVEL_ERROR start = .ok (ret, t) ∧
    ∀ l, t.held l = true → t.failed l = true) ↔ Ends o 0 := by
  have hfree : start.held .lock_error = false := rfl
  constructor
  · rintro ⟨fuel, ret, t, h, -⟩
    exact (ends_of_error hfree h).1
  · intro h
    obtain ⟨fuel, ret, t, h⟩ := error_of_ends (s := start) hfree h
    obtain ⟨-, hheld, -⟩ := ends_of_error hfree h
    cases fuel with
    | zero => cases h
    | succ fuel =>
      refine ⟨fuel, ret, t, h, fun k hk => ?_⟩
      rw [hheld] at hk
      cases hk

/-- **Logging returns with its locks released**, exactly where this is so at its level. -/
theorem slog_iff (o : ℕ → Outcome) (level : ℤ) : Released o level ↔ Condition o level := by
  rw [released_succ, Condition]
  by_cases hdebug : level = SLOG_LEVEL_DEBUG
  · subst hdebug
    rw [if_pos (Or.inl rfl)]
    exact write_iff (by decide)
  · by_cases hinfo : level = SLOG_LEVEL_INFO
    · subst hinfo
      rw [if_pos (Or.inr rfl)]
      exact write_iff (by decide)
    · rw [if_neg (fun h => h.elim hdebug hinfo)]
      by_cases herror : level = SLOG_LEVEL_ERROR
      · subst herror
        rw [if_pos rfl]
        exact error_iff
      · rw [if_neg herror, ← other_iff]
        simp only [slog, if_neg hdebug, if_neg hinfo, if_neg herror]
        rfl

/-- The file of the debug level does not open, and the call returns with its lock held; the one of
the error level does not open, and the call does not return. -/
theorem not_released :
    (∃ fuel ret t, slog (fun n => ⟨true, n ≠ 0, true⟩) fuel SLOG_LEVEL_DEBUG start = .ok (ret, t) ∧
      t.held .lock_debug = true ∧ t.failed .lock_debug = false) ∧
    (∀ fuel, slog (fun _ => ⟨true, false, true⟩) fuel SLOG_LEVEL_ERROR start = .error .hang) ∧
    ¬∀ o level, Released o level := by
  have hhang : ∀ fuel,
      slog (fun _ => ⟨true, false, true⟩) fuel SLOG_LEVEL_ERROR start = .error .hang := by
    intro fuel
    cases fuel with
    | zero => rfl
    | succ fuel =>
      rw [error_granted rfl rfl, if_neg]
      exact fun h => nomatch h.2.1
  refine ⟨⟨2, -1, _, rfl, rfl, rfl⟩, hhang, fun h => ?_⟩
  obtain ⟨fuel, ret, t, h, -⟩ := h (fun _ => ⟨true, false, true⟩) SLOG_LEVEL_ERROR
  rw [hhang fuel] at h
  cases h

end ReactorServer.Log.Slog
