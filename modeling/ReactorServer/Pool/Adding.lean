import ReactorServer.Pool.Reactor

/-!
# Adding a handler

`add_eh` with any argument, on the table and the epoll instance.  An argument it finds invalid is
reported, and then treated like any other; and its test allows one handler more than the table has
slots.  So it does all or nothing for valid handlers while there is a slot, and for no other call
(`add_eh_iff`).
-/

namespace ReactorServer.Pool.Adding

open ReactorServer.Cpp ReactorServer.Lib.Runs ReactorServer.Pool.Reactor

variable {A : Type} [DecidableEq A]

/-! ### The model -/

/-- A `reactor_t`: its core, and the descriptors in the interest list of `epoll_fd`. -/
structure reactor_t (A : Type) where
  core : reactor_core_t A
  interest : List ℤ

/-- What `epoll_ctl(epollFd, EPOLL_CTL_ADD, fd, &ee)` makes of the interest list, where the kernel has
no other reason to refuse the descriptor (`granted`). -/
def addFd (fd : ℤ) (granted : Bool) (interest : List ℤ) : List ℤ :=
  if granted = true ∧ 0 ≤ fd ∧ fd ∉ interest then interest ++ [fd] else interest

/-- The result and the reactor. -/
def add_eh (eh : Option A) (granted : Bool) (reactor : reactor_t A) :
    Except Fault (ℤ × reactor_t A) := do
  let core := reactor.core
  let invalid ← match eh with
    | none => pure true
    | some p => do
      let h ← deref core.memory p
      pure (decide (h.fd < 0) || !h.handle_event)
  if core.current_idx < MAX_USER then
    -- `eh->fd`, whether the pointer is null or not
    match eh with
    | none => throw .outOfBounds
    | some p => do
      let h ← deref core.memory p
      let interest := addFd h.fd granted reactor.interest
      let core ← store core.current_idx (.pointer (some p)) core
      pure (if invalid then -1 else 0,
        { core := { core with current_idx := core.current_idx + 1 }, interest := interest })
  else pure (-1, reactor)

omit [DecidableEq A] in
/-- On the table this is `Reactor.add_eh`. -/
theorem add_eh_core (eh : Option A) (granted : Bool) (reactor : reactor_t A) :
    (add_eh eh granted reactor >>= fun x => .ok (x.1, x.2.core)) =
      Reactor.add_eh eh reactor.core := by
  unfold add_eh Reactor.add_eh
  cases eh with
  | none =>
    simp only [pure_eq_ok, ok_bind]
    split_ifs <;> rfl
  | some p =>
    cases hp : deref reactor.core.memory p with
    | error f => simp only [hp, error_bind]
    | ok h =>
      simp only [pure_eq_ok, ok_bind, hp]
      by_cases hroom : reactor.core.current_idx < MAX_USER
      · simp only [if_pos hroom]
        cases store reactor.core.current_idx (.pointer (some p)) reactor.core with
        | error f => rfl
        | ok core => rfl
      · simp only [if_neg hroom]
        rfl

/-- An argument of `add_eh`: the null pointer, or one to a handler that has just been made. -/
abbrev Argument (A : Type) := Option (A × event_handler_t)

/-- The argument is in memory. -/
def place (arg : Argument A) (reactor : reactor_t A) : reactor_t A :=
  match arg with
  | none => reactor
  | some (p, eh) => { reactor with
      core := { reactor.core with memory := Function.update reactor.core.memory p (some eh) } }

/-- A call of `add_eh`. -/
structure Call (A : Type) where
  arg : Argument A
  granted : Bool

def call (c : Call A) (reactor : reactor_t A) : Except Fault (ℤ × reactor_t A) :=
  add_eh (c.arg.map Prod.fst) c.granted (place c.arg reactor)

/-- Any calls of `add_eh`, one after another. -/
def addMachine (A : Type) [DecidableEq A] : Machine (reactor_t A) (Call A) Fault where
  enabled := fun _ _ => True
  step reactor c := do
    let (_, reactor) ← call c reactor
    pure reactor

/-- `create_reactor`. -/
def create : reactor_t A := ⟨create_reactor, []⟩

/-! ### All or nothing -/

/-- The call stores the handler and counts it, or it reports an error and does nothing. -/
def AllOrNothing (c : Call A) (reactor : reactor_t A) : Prop :=
  ∃ result reactor', call c reactor = .ok (result, reactor') ∧
    (result = 0 ∧ reactor'.core.current_idx = reactor.core.current_idx + 1 ∧
        (∃ i, i < SLOTS ∧ reactor'.core.ehs i = .pointer (c.arg.map Prod.fst)) ∨
      result = -1 ∧ reactor'.core.current_idx = reactor.core.current_idx ∧
        reactor'.core.ehs = reactor.core.ehs ∧ reactor'.interest = reactor.interest)

/-- A handler that `add_eh` should take. -/
def Acceptable (arg : Argument A) : Prop :=
  ∃ p eh, arg = some (p, eh) ∧ 0 ≤ eh.fd ∧ eh.handle_event = true

variable {c : Call A} {reactor reactor' : reactor_t A} {as : List (Call A)}

theorem lt_max_of_le {n : ℕ} (h : n ≤ SLOTS) : n < MAX_USER :=
  Nat.lt_of_le_of_lt h (by decide)

theorem call_null (h : c.arg = none) (hroom : reactor.core.current_idx < MAX_USER) :
    call c reactor = .error .outOfBounds := by
  unfold call add_eh place
  rw [h]
  exact if_pos hroom

theorem call_handler {p : A} {eh : event_handler_t} (h : c.arg = some (p, eh))
    (hroom : reactor.core.current_idx < MAX_USER) :
    call c reactor = if reactor.core.current_idx < SLOTS then
      .ok (if eh.fd < 0 ∨ eh.handle_event = false then -1 else 0,
        { core := {
            current_idx := reactor.core.current_idx + 1
            ehs := Function.update reactor.core.ehs reactor.core.current_idx (.pointer (some p))
            memory := Function.update reactor.core.memory p (some eh) }
          interest := addFd eh.fd c.granted reactor.interest })
    else .error .outOfBounds := by
  have hderef : deref (Function.update reactor.core.memory p (some eh)) p = .ok eh := by
    rw [deref, Function.update_self]
  have hinvalid : (decide (eh.fd < 0) || !eh.handle_event) = true ↔
      eh.fd < 0 ∨ eh.handle_event = false := by simp
  let core : reactor_core_t A :=
    { reactor.core with memory := Function.update reactor.core.memory p (some eh) }
  unfold call add_eh
  rw [h]
  simp only [Option.map_some, place, hderef, ok_bind, pure_eq_ok, if_pos hroom, hinvalid]
  by_cases hslot : reactor.core.current_idx < SLOTS
  · have hstore : store reactor.core.current_idx (.pointer (some p)) core = .ok _ := if_pos hslot
    rw [if_pos hslot, hstore, ok_bind]
  · have hstore : store reactor.core.current_idx (.pointer (some p)) core = .error _ :=
      if_neg hslot
    rw [if_neg hslot, hstore, error_bind]

theorem step_room {t : reactor_t A} (hroom : reactor.core.current_idx ≤ SLOTS)
    (h : (addMachine A).step reactor c = .ok t) : t.core.current_idx ≤ SLOTS := by
  obtain ⟨⟨result, reactor'⟩, hcall, h⟩ := bind_eq_ok.mp h
  cases h
  have hmax := lt_max_of_le hroom
  cases harg : c.arg with
  | none =>
    rw [call_null harg hmax] at hcall
    cases hcall
  | some x =>
    obtain ⟨p, eh⟩ := x
    rw [call_handler harg hmax] at hcall
    by_cases hslot : reactor.core.current_idx < SLOTS
    · rw [if_pos hslot] at hcall
      cases hcall
      exact hslot
    · rw [if_neg hslot] at hcall
      cases hcall

/-- **`add_eh` does all or nothing** if and only if the handler is not null, its descriptor is not
negative, it has a function, and there is a slot for it. -/
theorem add_eh_iff (hrun : Run (addMachine A) create as reactor) (c : Call A) :
    AllOrNothing c reactor ↔ Acceptable c.arg ∧ reactor.core.current_idx < SLOTS := by
  have hroom : reactor.core.current_idx ≤ SLOTS :=
    hrun.invariant (I := fun reactor => reactor.core.current_idx ≤ SLOTS)
      (fun _ _ _ h _ hs => step_room h hs) (Nat.zero_le _)
  have hmax := lt_max_of_le hroom
  unfold AllOrNothing
  cases harg : c.arg with
  | none =>
    rw [call_null harg hmax]
    refine iff_of_false ?_ ?_
    · rintro ⟨_, _, h, -⟩
      cases h
    · rintro ⟨⟨_, _, h, -⟩, -⟩
      cases h
  | some x =>
    obtain ⟨p, eh⟩ := x
    rw [call_handler harg hmax]
    by_cases hslot : reactor.core.current_idx < SLOTS
    · rw [if_pos hslot]
      by_cases hbad : eh.fd < 0 ∨ eh.handle_event = false
      · -- it is stored all the same
        rw [if_pos hbad]
        refine iff_of_false ?_ ?_
        · rintro ⟨_, _, h, ⟨hzero, -⟩ | ⟨-, hidx, -⟩⟩
          · cases h
            cases hzero
          · cases h
            dsimp only at hidx
            omega
        · rintro ⟨⟨_, _, h, hfd, hev⟩, -⟩
          cases h
          rcases hbad with hbad | hbad
          · omega
          · rw [hbad] at hev
            cases hev
      · rw [if_neg hbad]
        have hbad' := not_or.mp hbad
        refine iff_of_true ⟨_, _, rfl, Or.inl ⟨rfl, rfl, _, hslot, Function.update_self _ _ _⟩⟩
          ⟨⟨p, eh, rfl, by omega, by simpa using hbad'.2⟩, hslot⟩
    · rw [if_neg hslot]
      refine iff_of_false ?_ fun h => hslot h.2
      rintro ⟨_, _, h, -⟩
      cases h

theorem add_eh_iff_second : ∃ reactor : reactor_t ℕ,
    Run (addMachine ℕ) create [⟨some (0, ⟨3, true⟩), true⟩] reactor ∧
    (AllOrNothing ⟨some (1, ⟨4, true⟩), true⟩ reactor ↔
      Acceptable (some (1, (⟨4, true⟩ : event_handler_t))) ∧ reactor.core.current_idx < SLOTS) := by
  have hrun : Run (addMachine ℕ) create [⟨some (0, ⟨3, true⟩), true⟩] _ :=
    .cons trivial rfl (.nil _)
  exact ⟨_, hrun, add_eh_iff hrun _⟩

/-- **Something after all**: a handler without a function is reported as invalid and stored, and a null
pointer is dereferenced. -/
theorem not_all_or_nothing :
    (∃ reactor' : reactor_t ℕ, call ⟨some (0, ⟨3, false⟩), true⟩ create = .ok (-1, reactor') ∧
      reactor'.core.current_idx = 1 ∧ reactor'.interest = [3]) ∧
    ¬AllOrNothing ⟨some (0, ⟨3, false⟩), true⟩ (create : reactor_t ℕ) ∧
    call ⟨none, true⟩ (create : reactor_t ℕ) = .error .outOfBounds := by
  have hcall : call ⟨some (0, ⟨3, false⟩), true⟩ (create : reactor_t ℕ) = .ok (-1, _) := rfl
  refine ⟨⟨_, hcall, rfl, rfl⟩, ?_, rfl⟩
  rintro ⟨_, _, h, hzero | hsame⟩
  · rw [hcall] at h
    cases h
    cases hzero.1
  · rw [hcall] at h
    cases h
    cases hsame.2.1

end ReactorServer.Pool.Adding
