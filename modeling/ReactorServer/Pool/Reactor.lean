import ReactorServer.Cpp
import ReactorServer.Lib.Follow
import Mathlib.Data.List.Perm.Basic
import Mathlib.Data.List.Nodup
import Mathlib.Data.List.Range

/-!
# The handler table of a reactor

`find_eh`, `add_eh` and `rm_eh` on the array `ehs` of a `reactor_core_t`, against the list of the
handlers added and not removed since (`tableMachine`).

`rm_eh` fills the hole it makes from the slot behind the last one (`current_idx--` for
`--current_idx`), so it works for the handler added last and for no other (`table_follows`).
-/

namespace ReactorServer.Pool.Reactor

open ReactorServer.Cpp ReactorServer.Lib.Runs ReactorServer.Lib.Follow

/-! ### The model -/

def MAX_USER : ℕ := 65530

/-- The length of `ehs`. -/
def SLOTS : ℕ := MAX_USER - 1

/-- A slot of `ehs`; `malloc` gives the array as it comes. -/
inductive Slot (A : Type)
  | uninitialized
  | pointer (p : Option A)
  deriving DecidableEq, Repr

/-- What the table uses of a handler; `handle_event` is whether the pointer is set. -/
structure event_handler_t where
  fd : ℤ
  handle_event : Bool
  deriving DecidableEq, Repr

/-- A `reactor_core_t`, and the handlers in memory. -/
structure reactor_core_t (A : Type) where
  current_idx : ℕ
  ehs : ℕ → Slot A
  memory : A → Option event_handler_t

variable {A : Type} [DecidableEq A]

/-- `create_reactor`, with no handler made yet. -/
def create_reactor : reactor_core_t A :=
  ⟨0, Function.update (fun _ => .uninitialized) 0 (.pointer none), fun _ => none⟩

def deref (memory : A → Option event_handler_t) (p : A) : Except Fault event_handler_t :=
  match memory p with
  | some eh => .ok eh
  | none => .error .outOfBounds

/-- `ehs[i]`. -/
def load (core : reactor_core_t A) (i : ℕ) : Except Fault (Slot A) :=
  if i < SLOTS then .ok (core.ehs i) else .error .outOfBounds

/-- `ehs[i] = slot`. -/
def store (i : ℕ) (slot : Slot A) (core : reactor_core_t A) : Except Fault (reactor_core_t A) :=
  if i < SLOTS then .ok { core with ehs := Function.update core.ehs i slot }
  else .error .outOfBounds

/-- The loop of `find_eh` from `i` on, with `n` rounds to go: the handler and its index. -/
def findFrom (core : reactor_core_t A) (fd : ℤ) (i : ℕ) : ℕ → Except Fault (Option (A × ℕ))
  | 0 => .ok none
  | n + 1 => do
    match ← load core i with
    | .uninitialized => .error .outOfBounds
    | .pointer none => findFrom core fd (i + 1) n
    | .pointer (some p) =>
      let eh ← deref core.memory p
      if eh.fd = fd then pure (some (p, i)) else findFrom core fd (i + 1) n

def find_eh (core : reactor_core_t A) (fd : ℤ) : Except Fault (Option (A × ℕ)) :=
  findFrom core fd 0 core.current_idx

/-- The result and the table; an invalid handler is added all the same. -/
def add_eh (eh : Option A) (core : reactor_core_t A) :
    Except Fault (ℤ × reactor_core_t A) := do
  let invalid ← match eh with
    | none => pure true
    | some p => do
      let h ← deref core.memory p
      pure (decide (h.fd < 0) || !h.handle_event)
  if core.current_idx < MAX_USER then
    -- `addFd` is given `eh->fd`
    match eh with
    | none => .error .outOfBounds
    | some p => do
      let _ ← deref core.memory p
      let core ← store core.current_idx (.pointer (some p)) core
      pure (if invalid then -1 else 0, { core with current_idx := core.current_idx + 1 })
  else pure (-1, core)

/-- The result and the table; where a handler is removed the function returns nothing. -/
def rm_eh (fd : ℤ) (core : reactor_core_t A) :
    Except Fault (Option ℤ × reactor_core_t A) := do
  match ← find_eh core fd with
  | none => pure (some (-1), core)
  | some (eh, position) =>
    if core.current_idx ≤ position then pure (some (-2), core)
    else do
      let last ← load core core.current_idx
      let core ← store position last core
      pure (none, { core with
        current_idx := core.current_idx - 1
        memory := Function.update core.memory eh none })

/-- A call on the reactor; the handler of `add_eh` has just been made. -/
inductive Call (A : Type)
  | add (p : A) (eh : event_handler_t)
  | rm (fd : ℤ)
  deriving DecidableEq, Repr

def call (core : reactor_core_t A) : Call A → Except Fault (reactor_core_t A)
  | .add p eh => do
    let (_, core) ← add_eh (some p) { core with memory := Function.update core.memory p (some eh) }
    pure core
  | .rm fd => do
    let (_, core) ← rm_eh fd core
    pure core

/-! ### The live handlers -/

/-- A handler and where it is. -/
abbrev Handler (A : Type) := A × event_handler_t

/-- What the calls may ask for: valid handlers on distinct descriptors, fewer than the table
holds. -/
def allowed (l : List (Handler A)) : Call A → Prop
  | .add p eh => 0 ≤ eh.fd ∧ eh.handle_event = true ∧ p ∉ l.map Prod.fst ∧
      eh.fd ∉ l.map (fun h => h.2.fd) ∧ l.length < SLOTS
  | .rm _ => True

instance (l : List (Handler A)) : ∀ c, Decidable (allowed l c)
  | .add _ _ => inferInstanceAs (Decidable (_ ∧ _ ∧ _ ∧ _ ∧ _))
  | .rm _ => inferInstanceAs (Decidable True)

/-- The handlers added and not removed since, in the order in which they were added. -/
def tableMachine (A : Type) [DecidableEq A] : Machine (List (Handler A)) (Call A) Fault where
  enabled := allowed
  step l
    | .add p eh => .ok (l ++ [(p, eh)])
    | .rm fd => .ok (l.filter fun h => h.2.fd ≠ fd)

instance (l : List (Handler A)) (c : Call A) : Decidable ((tableMachine A).enabled l c) :=
  inferInstanceAs (Decidable (allowed l c))

/-- The table holds the handlers `l`. -/
structure Table (l : List (Handler A)) (core : reactor_core_t A) : Prop where
  size : core.current_idx = l.length
  slots : ((List.range core.current_idx).map core.ehs).Perm (l.map fun h => .pointer (some h.1))
  found : ∀ fd, ∃ r, find_eh core fd = .ok r ∧
    ∀ p, (∃ i, r = some (p, i)) ↔ ∃ eh, (p, eh) ∈ l ∧ eh.fd = fd

/-- The call removes no handler, or the one added last, and this from a table that is not full. -/
def Careful (l : List (Handler A)) : Call A → Prop
  | .add _ _ => True
  | .rm fd => (∀ h ∈ l, h.2.fd ≠ fd) ∨
      (∃ h, l.getLast? = some h ∧ h.2.fd = fd) ∧ l.length < SLOTS

instance (l : List (Handler A)) : ∀ c, Decidable (Careful l c)
  | .add _ _ => inferInstanceAs (Decidable True)
  | .rm fd =>
    haveI : Decidable (∃ h, l.getLast? = some h ∧ h.2.fd = fd) :=
      decidable_of_iff (l.getLast?.any fun h => h.2.fd = fd) (by cases l.getLast? <;> simp)
    inferInstanceAs (Decidable (_ ∨ _ ∧ _))

/-! ### What careful calls keep -/

/-- The slots hold the handlers in the order in which they were added, and behind them there is no
handler. -/
structure Kept (l : List (Handler A)) (core : reactor_core_t A) : Prop where
  size : core.current_idx = l.length
  room : l.length ≤ SLOTS
  slot : ∀ i (hi : i < l.length), core.ehs i = .pointer (some l[i].1)
  behind : ∀ i p, l.length ≤ i → core.ehs i ≠ .pointer (some p)
  memory : ∀ h ∈ l, core.memory h.1 = some h.2
  addresses : (l.map Prod.fst).Nodup
  fds : (l.map fun h => h.2.fd).Nodup

variable {l : List (Handler A)} {core : reactor_core_t A} {fd : ℤ}

omit [DecidableEq A] in
theorem kept_new : Kept ([] : List (Handler A)) create_reactor := by
  refine ⟨rfl, Nat.zero_le _, nofun, fun i p _ => ?_, nofun, List.nodup_nil, List.nodup_nil⟩
  by_cases hi : i = 0
  · subst hi; simp [create_reactor]
  · simp [create_reactor, Function.update_of_ne hi]

omit [DecidableEq A] in
theorem findFrom_spec (hk : Kept l core) (fd : ℤ) : ∀ n i, i + n = l.length →
    (findFrom core fd i n = .ok none ∧ ∀ h ∈ l.drop i, h.2.fd ≠ fd) ∨
    ∃ j, ∃ hj : j < l.length, findFrom core fd i n = .ok (some (l[j].1, j)) ∧ l[j].2.fd = fd := by
  intro n
  induction n with
  | zero =>
    intro i hi
    left
    refine ⟨rfl, ?_⟩
    rw [List.drop_of_length_le (by omega)]
    nofun
  | succ n ih =>
    intro i hi
    have hlt : i < l.length := by omega
    have hroom := hk.room
    have hload : load core i = .ok (.pointer (some l[i].1)) := by
      rw [load, if_pos (by omega), hk.slot i hlt]
    have hderef : deref core.memory l[i].1 = .ok l[i].2 := by
      rw [deref, hk.memory l[i] (List.getElem_mem hlt)]
    have hround : findFrom core fd i (n + 1) =
        if l[i].2.fd = fd then .ok (some (l[i].1, i)) else findFrom core fd (i + 1) n := by
      rw [findFrom, hload]
      simp only [ok_bind, hderef, pure_eq_ok]
    rw [hround]
    by_cases hfd : l[i].2.fd = fd
    · right
      exact ⟨i, hlt, if_pos hfd, hfd⟩
    · rw [if_neg hfd]
      rcases ih (i + 1) (by omega) with ⟨h1, h2⟩ | h
      · left
        refine ⟨h1, fun h hmem => ?_⟩
        rw [List.drop_eq_getElem_cons hlt] at hmem
        rcases List.mem_cons.mp hmem with rfl | hmem
        · exact hfd
        · exact h2 h hmem
      · right; exact h

omit [DecidableEq A] in
theorem find_eh_spec (hk : Kept l core) (fd : ℤ) :
    (find_eh core fd = .ok none ∧ ∀ h ∈ l, h.2.fd ≠ fd) ∨
    ∃ j, ∃ hj : j < l.length, find_eh core fd = .ok (some (l[j].1, j)) ∧ l[j].2.fd = fd := by
  have h := findFrom_spec hk fd core.current_idx 0 (by rw [hk.size, Nat.zero_add])
  rwa [List.drop_zero] at h

omit [DecidableEq A] in
theorem eq_of_fd (hk : Kept l core) {h h' : Handler A} (hmem : h ∈ l) (hmem' : h' ∈ l)
    (heq : h.2.fd = h'.2.fd) : h = h' :=
  List.inj_on_of_nodup_map hk.fds hmem hmem' heq

omit [DecidableEq A] in
/-- **The table is right.** -/
theorem Kept.table (hk : Kept l core) : Table l core := by
  refine ⟨hk.size, ?_, fun fd => ?_⟩
  · have heq : (List.range core.current_idx).map core.ehs =
        l.map fun h => Slot.pointer (some h.1) := by
      refine List.ext_getElem (by simp [hk.size]) fun i h1 h2 => ?_
      rw [List.length_map] at h2
      simp [hk.slot i h2]
    rw [heq]
  · rcases find_eh_spec hk fd with ⟨h1, h2⟩ | ⟨j, hj, h1, h2⟩
    · refine ⟨none, h1, fun p => ⟨?_, ?_⟩⟩
      · rintro ⟨i, hi⟩
        cases hi
      · rintro ⟨eh, hmem, hfd⟩
        exact absurd hfd (h2 _ hmem)
    · refine ⟨_, h1, fun p => ⟨?_, ?_⟩⟩
      · rintro ⟨i, hi⟩
        obtain ⟨rfl, rfl⟩ := Prod.mk.inj (Option.some.inj hi)
        exact ⟨l[j].2, List.getElem_mem hj, h2⟩
      · rintro ⟨eh, hmem, hfd⟩
        have h3 := eq_of_fd hk hmem (List.getElem_mem hj) (hfd.trans h2.symm)
        exact ⟨j, by rw [← h3]⟩

theorem add_spec (hk : Kept l core) {p : A} {eh : event_handler_t}
    (ha : allowed l (.add p eh)) :
    ∃ y, call core (.add p eh) = .ok y ∧ Kept (l ++ [(p, eh)]) y := by
  obtain ⟨hfd, hev, haddr, hfresh, hroom⟩ := ha
  have hidx : core.current_idx < SLOTS := by rw [hk.size]; exact hroom
  have hderef : deref (Function.update core.memory p (some eh)) p = .ok eh := by
    rw [deref, Function.update_self]
  refine ⟨⟨core.current_idx + 1, Function.update core.ehs core.current_idx (.pointer (some p)),
    Function.update core.memory p (some eh)⟩, ?_, ?_⟩
  · have hmax : core.current_idx < MAX_USER := by unfold SLOTS at hidx; omega
    simp only [call, add_eh, hderef, ok_bind, pure_eq_ok, if_pos hmax, store, if_pos hidx]
  · have hlen : (l ++ [(p, eh)]).length = l.length + 1 := by simp
    refine ⟨?_, ?_, fun i hi => ?_, fun i q hi => ?_, fun h hmem => ?_, ?_, ?_⟩
    · rw [hlen, ← hk.size]
    · omega
    · show Function.update core.ehs core.current_idx _ i = _
      rw [hk.size]
      by_cases heq : i = l.length
      · subst heq; simp
      · have hlt : i < l.length := by omega
        rw [Function.update_of_ne heq, hk.slot i hlt, List.getElem_append_left hlt]
    · show Function.update core.ehs core.current_idx _ i ≠ _
      rw [hk.size, Function.update_of_ne (by omega)]
      exact hk.behind i q (by omega)
    · show Function.update core.memory p (some eh) h.1 = _
      rcases List.mem_append.mp hmem with hmem | hmem
      · have hne : h.1 ≠ p := fun heq => haddr (heq ▸ List.mem_map_of_mem hmem)
        rw [Function.update_of_ne hne, hk.memory h hmem]
      · obtain rfl := List.mem_singleton.mp hmem
        simp
    · rw [List.map_append, List.nodup_append]
      refine ⟨hk.addresses, List.nodup_singleton _, fun a ha b hb heq => ?_⟩
      obtain rfl := List.mem_singleton.mp hb
      exact haddr (heq ▸ ha)
    · rw [List.map_append, List.nodup_append]
      refine ⟨hk.fds, List.nodup_singleton _, fun a ha b hb heq => ?_⟩
      obtain rfl := List.mem_singleton.mp hb
      have hsame : a = eh.fd := heq
      exact hfresh (hsame ▸ ha)

theorem rm_none (hk : Kept l core) (hnone : ∀ h ∈ l, h.2.fd ≠ fd) :
    call core (.rm fd) = .ok core := by
  have hfind : find_eh core fd = .ok none := by
    rcases find_eh_spec hk fd with ⟨h, -⟩ | ⟨j, hj, -, h⟩
    · exact h
    · exact absurd h (hnone _ (List.getElem_mem hj))
  simp only [call, rm_eh, hfind, ok_bind, pure_eq_ok]

theorem rm_some (hk : Kept l core) {j : ℕ} (hj : j < l.length) (hfd : l[j].2.fd = fd) :
    call core (.rm fd) = if l.length < SLOTS then
      .ok ⟨l.length - 1, Function.update core.ehs j (core.ehs l.length),
        Function.update core.memory l[j].1 none⟩
    else .error .outOfBounds := by
  have hfind : find_eh core fd = .ok (some (l[j].1, j)) := by
    rcases find_eh_spec hk fd with ⟨-, h⟩ | ⟨i, hi, h1, h2⟩
    · exact absurd hfd (h _ (List.getElem_mem hj))
    · have heq : i = j := by
        have h3 := (List.nodup_iff_injective_get.mp hk.fds)
        have h4 := @h3 ⟨i, by simpa using hi⟩ ⟨j, by simpa using hj⟩ (by simp [h2, hfd])
        exact congrArg Fin.val h4
      subst heq
      exact h1
  have hroom := hk.room
  simp only [call, rm_eh, hfind, ok_bind, hk.size, if_neg (Nat.not_le.mpr hj), load, store]
  by_cases hfull : l.length < SLOTS
  · rw [if_pos hfull]
    have hjs : j < SLOTS := by omega
    simp only [ok_bind, if_pos hjs, if_pos hfull, pure_eq_ok]
  · rw [if_neg hfull]
    simp only [error_bind, if_neg hfull]

theorem rm_last {h : Handler A} (hk : Kept (l ++ [h]) core) (hfull : l.length + 1 < SLOTS) :
    ∃ y, call core (.rm h.2.fd) = .ok y ∧ Kept l y := by
  have hlen : (l ++ [h]).length = l.length + 1 := by simp
  have hj : l.length < (l ++ [h]).length := by omega
  have hget : (l ++ [h])[l.length] = h := List.getElem_concat_length rfl _
  have hcall := rm_some hk hj (by rw [hget])
  rw [if_pos (by omega), hget] at hcall
  refine ⟨_, hcall, ?_⟩
  have haddr := hk.addresses
  have hfds := hk.fds
  rw [List.map_append, List.nodup_append] at haddr hfds
  refine ⟨?_, by omega, fun i hi => ?_, fun i p hi => ?_, fun x hx => ?_, haddr.1, hfds.1⟩
  · show (l ++ [h]).length - 1 = _
    omega
  · show Function.update core.ehs l.length _ i = _
    rw [Function.update_of_ne (by omega), hk.slot i (by omega), List.getElem_append_left hi]
  · show Function.update core.ehs l.length _ i ≠ _
    by_cases heq : i = l.length
    · subst heq
      rw [Function.update_self]
      exact hk.behind _ p (Nat.le_refl _)
    · rw [Function.update_of_ne heq]
      exact hk.behind i p (by omega)
  · show Function.update core.memory h.1 none x.1 = _
    have hne : x.1 ≠ h.1 := haddr.2.2 _ (List.mem_map_of_mem hx) _ (List.mem_singleton.mpr rfl)
    rw [Function.update_of_ne hne]
    exact hk.memory x (List.mem_append_left _ hx)

/-- A removal that is not careful takes a live handler with it. -/
theorem rm_careless (hk : Kept l core) (hc : ¬Careful l (.rm fd)) {y : reactor_core_t A}
    (hy : call core (.rm fd) = .ok y) : ¬Table (l.filter fun h => h.2.fd ≠ fd) y := by
  simp only [Careful, not_or, not_and, not_forall, not_not] at hc
  obtain ⟨⟨h, hmem, hfd⟩, hlast⟩ := hc
  obtain ⟨j, hj, rfl⟩ := List.getElem_of_mem hmem
  rw [rm_some hk hj hfd] at hy
  split_ifs at hy with hfull
  obtain rfl := Except.ok.inj hy
  -- the hole is in front of the last slot, and it is filled with no handler
  have hne : j ≠ l.length - 1 := by
    rintro rfl
    refine hlast ⟨_, ?_, hfd⟩ hfull
    rw [List.getLast?_eq_getElem?, List.getElem?_eq_getElem hj]
  intro ht
  have hslot : core.ehs l.length ∈
      (List.range (l.length - 1)).map (Function.update core.ehs j (core.ehs l.length)) := by
    refine List.mem_map.mpr ⟨j, List.mem_range.mpr (by omega), ?_⟩
    rw [Function.update_self]
  obtain ⟨x, -, hx⟩ := List.mem_map.mp (ht.slots.mem_iff.mp hslot)
  exact hk.behind l.length x.1 (Nat.le_refl _) hx.symm

theorem call_careful (hk : Kept l core) {c : Call A} {l' : List (Handler A)}
    (ha : allowed l c) (hs : (tableMachine A).step l c = .ok l') (hc : Careful l c) :
    ∃ y, call core c = .ok y ∧ Kept l' y := by
  cases c with
  | add p eh =>
    obtain rfl := Except.ok.inj hs
    exact add_spec hk ha
  | rm fd =>
    obtain rfl := Except.ok.inj hs
    rcases hc with hnone | ⟨⟨h, hlast, hfd⟩, hfull⟩
    · have hsame : (l.filter fun h => h.2.fd ≠ fd) = l :=
        List.filter_eq_self.mpr fun h hmem => by simpa using hnone h hmem
      rw [hsame]
      exact ⟨core, rm_none hk hnone, hk⟩
    · obtain ⟨init, rfl⟩ : ∃ init, l = init ++ [h] :=
        ⟨l.dropLast, (List.dropLast_append_getLast? h (by simpa using hlast)).symm⟩
      subst hfd
      have hrest : ((init ++ [h]).filter fun x => x.2.fd ≠ h.2.fd) = init := by
        have hfds := hk.fds
        rw [List.map_append, List.nodup_append] at hfds
        have hinit : (init.filter fun x => x.2.fd ≠ h.2.fd) = init :=
          List.filter_eq_self.mpr fun x hx => by
            simpa using hfds.2.2 _ (List.mem_map_of_mem hx) _ (List.mem_singleton.mpr rfl)
        rw [List.filter_append, hinit]
        simp
      rw [hrest]
      exact rm_last hk (by simpa using hfull)

/-- **When the table holds the live handlers.**  For every sequence of calls that may be asked for:
after each call the table holds the handlers added and not removed since, if and only if every
`rm_eh` is for a descriptor without a handler, or for the handler added last among them while the
table is not full. -/
theorem table_follows {as : List (Call A)} (h : Run (tableMachine A) [] as l) :
    Follows (tableMachine A) call Table [] create_reactor as ↔
      Run (restrict (tableMachine A) Careful) [] as l := by
  refine follows_iff (I := Kept) (fun _ _ hk => hk.table) ?_ ?_ h kept_new
  · exact fun l core c l' hk he hs hc => call_careful hk he hs hc
  · intro l core c l' hk he hs hc y hy
    cases c with
    | add p eh => exact absurd trivial hc
    | rm fd =>
      obtain rfl := Except.ok.inj hs
      exact rm_careless hk hc hy

theorem table_follows_lifo : Follows (tableMachine ℕ) call Table [] create_reactor
    [.add 0 ⟨3, true⟩, .add 1 ⟨4, true⟩, .rm 5, .rm 4, .rm 3] :=
  (table_follows (l := []) (run_iff_exec.mpr rfl)).mpr (run_iff_exec.mpr rfl)

/-- **A handler is lost**: the first of two is removed, and the other one goes with it. -/
theorem table_loses : Run (tableMachine ℕ) [] [.add 0 ⟨3, true⟩, .add 1 ⟨4, true⟩, .rm 3]
      [(1, ⟨4, true⟩)] ∧
    ¬Follows (tableMachine ℕ) call Table [] create_reactor
      [.add 0 ⟨3, true⟩, .add 1 ⟨4, true⟩, .rm 3] := by
  have hrun : Run (tableMachine ℕ) [] [.add 0 ⟨3, true⟩, .add 1 ⟨4, true⟩, .rm 3]
      [(1, ⟨4, true⟩)] := run_iff_exec.mpr rfl
  refine ⟨hrun, fun h => ?_⟩
  obtain ⟨y, hy, ht⟩ := h _ [] _ (List.append_nil _).symm hrun
  obtain rfl := Except.ok.inj hy
  obtain ⟨r, hr, -⟩ := ht.found 4
  cases hr

end ReactorServer.Pool.Reactor
