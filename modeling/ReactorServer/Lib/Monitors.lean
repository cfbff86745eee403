import ReactorServer.Lib.Runs
import Mathlib.Logic.Function.Basic

/-!
# Monitors

A `Monitor` is a mutex with the conditions that are waited for under it: the thread that owns it, and
for each thread the condition it is blocked on.  A thread that waits gives the mutex up; when a
notification, or nothing at all, has woken it, it locks the mutex again.

A `Gate` is the use that is made of a monitor where something becomes true once: a thread tests it
under the mutex and waits while it is false, and the thread that makes it true notifies all before it
unlocks.  Then nobody passes before it is true (`Sound.isOpen`), and nobody is blocked after it is
true but while the notification is still to come (`Sound.not_lost`).
-/

namespace ReactorServer.Lib.Monitors

open ReactorServer.Lib.Runs

variable {ι κ : Type*}

/-- A mutex and its conditions. -/
structure Monitor (ι κ : Type*) where
  owner : Option ι
  blocked : ι → Option κ

namespace Monitor

/-- Nobody has used it. -/
def fresh : Monitor ι κ := ⟨none, fun _ => none⟩

def lock (m : Monitor ι κ) (i : ι) : Monitor ι κ := { m with owner := some i }

def unlock (m : Monitor ι κ) : Monitor ι κ := { m with owner := none }

/-- A notification of `c` may wake `w`, and nobody only where nobody is blocked on `c`. -/
def Notifies (m : Monitor ι κ) (c : κ) : Option ι → Prop
  | some i => m.blocked i = some c
  | none => ∀ i, m.blocked i ≠ some c

/-- A notification that wakes all the threads blocked on `c`. -/
def notifyAll [DecidableEq κ] (m : Monitor ι κ) (c : κ) : Monitor ι κ :=
  { m with blocked := fun i => if m.blocked i = some c then none else m.blocked i }

section
variable {m : Monitor ι κ} {i j : ι}

@[simp] theorem lock_owner : (m.lock i).owner = some i := rfl
@[simp] theorem lock_blocked : (m.lock i).blocked = m.blocked := rfl
@[simp] theorem unlock_owner : m.unlock.owner = none := rfl
@[simp] theorem unlock_blocked : m.unlock.blocked = m.blocked := rfl

variable [DecidableEq κ] {c : κ}

@[simp] theorem notifyAll_owner : (m.notifyAll c).owner = m.owner := rfl

@[simp] theorem notifyAll_blocked :
    (m.notifyAll c).blocked j = if m.blocked j = some c then none else m.blocked j := rfl

end

variable [DecidableEq ι]

/-- The owner gives the mutex up and blocks. -/
def wait (m : Monitor ι κ) (i : ι) (c : κ) : Monitor ι κ :=
  ⟨none, Function.update m.blocked i (some c)⟩

/-- A blocked thread is woken. -/
def wake (m : Monitor ι κ) (i : ι) : Monitor ι κ :=
  { m with blocked := Function.update m.blocked i none }

/-- A notification that wakes one thread, where one is blocked. -/
def notify (m : Monitor ι κ) : Option ι → Monitor ι κ
  | some i => m.wake i
  | none => m

variable {m : Monitor ι κ} {i j : ι} {c : κ} {w : Option ι}

@[simp] theorem wait_owner : (m.wait i c).owner = none := rfl
@[simp] theorem wake_owner : (m.wake i).owner = m.owner := rfl

@[simp] theorem notify_owner : (m.notify w).owner = m.owner := by
  cases w <;> rfl

@[simp] theorem wait_blocked :
    (m.wait i c).blocked j = if j = i then some c else m.blocked j :=
  Function.update_apply m.blocked i (some c) j

@[simp] theorem wake_blocked : (m.wake i).blocked j = if j = i then none else m.blocked j :=
  Function.update_apply m.blocked i none j

theorem notify_eq_notifyAll [DecidableEq κ] (honly : ∀ j, m.blocked j = some c → j = i)
    (h : m.Notifies c w) : m.notify w = m.notifyAll c := by
  have hblocked : (m.notify w).blocked = (m.notifyAll c).blocked := by
    funext j
    rw [notifyAll_blocked]
    cases w with
    | none => exact (if_neg (h j)).symm
    | some k =>
      have hk : m.blocked k = some c := h
      rw [notify, wake_blocked, honly k hk]
      by_cases hj : m.blocked j = some c
      · rw [if_pos (honly j hj), if_pos hj]
      · rw [if_neg hj, if_neg]
        rintro rfl
        exact hj (honly k hk ▸ hk)
  cases w <;> exact congrArg (Monitor.mk m.owner) hblocked

end Monitor

/-! ### Gates -/

/-- Where a thread stands with a gate. -/
inductive Place
  /-- outside the mutex -/
  | away
  /-- inside, before the test -/
  | testing
  /-- in the wait -/
  | waiting
  /-- inside, before it makes the gate open -/
  | opening
  /-- inside, before it notifies -/
  | announcing
  /-- inside, before it unlocks -/
  | leaving
  deriving DecidableEq, Repr

/-- Inside the mutex. -/
def Place.inside : Place → Bool
  | .away | .waiting => false
  | _ => true

theorem Place.ne_waiting {p : Place} (h : p.inside = true) : p ≠ .waiting := by
  rintro rfl
  cases h

structure Gate (ι : Type*) where
  monitor : Monitor ι Unit
  isOpen : Bool
  place : ι → Place

inductive Gate.Act (ι : Type*)
  /-- lock, to test -/
  | enter (i : ι)
  /-- the test, and the beginning of the wait where it fails -/
  | test (i : ι)
  /-- wake up for no reason -/
  | wake (i : ι)
  /-- lock again, to end the wait -/
  | resume (i : ι)
  /-- lock, to open -/
  | come (i : ι)
  | unbar (i : ι)
  | announce (i : ι)
  | leave (i : ι)

/-- Nobody has come yet. -/
def shut : Gate ι := ⟨.fresh, false, fun _ => .away⟩

/-- What holds whatever the threads do. -/
structure Sound (g : Gate ι) : Prop where
  /-- the threads inside own the mutex -/
  owner : ∀ i, (g.place i).inside = true ↔ g.monitor.owner = some i
  /-- the threads blocked are in the wait -/
  waiting : ∀ i, g.monitor.blocked i = some () → g.place i = .waiting
  /-- a thread leaves an open gate, and announces one -/
  isOpen : ∀ i, g.place i = .leaving ∨ g.place i = .announcing → g.isOpen = true
  /-- while some thread is blocked before an open gate, another has not notified yet -/
  announced : ∀ i, g.isOpen = true → g.monitor.blocked i = some () → ∃ j, g.place j = .announcing

theorem Sound.shut : Sound (shut : Gate ι) where
  owner i := iff_of_false (by simp [Monitors.shut, Place.inside]) (by
    simp [Monitors.shut, Monitor.fresh])
  waiting i h := by cases h
  isOpen i h := by rcases h with h | h <;> cases h
  announced i h := by cases h


variable [DecidableEq ι]

/-- Thread `i` goes on to `p`. -/
def Gate.goto (g : Gate ι) (i : ι) (p : Place) : Gate ι :=
  { g with place := Function.update g.place i p }

/-- The steps; none fails. -/
def gateMachine : Machine (Gate ι) (Gate.Act ι) Empty where
  enabled g
    | .enter i => g.place i = .away ∧ g.monitor.owner = none
    | .test i => g.place i = .testing
    | .wake i => g.monitor.blocked i = some ()
    | .resume i => g.place i = .waiting ∧ g.monitor.blocked i = none ∧ g.monitor.owner = none
    | .come i => g.place i = .away ∧ g.monitor.owner = none
    | .unbar i => g.place i = .opening
    | .announce i => g.place i = .announcing
    | .leave i => g.place i = .leaving
  step g
    | .enter i => .ok { g.goto i .testing with monitor := g.monitor.lock i }
    | .test i =>
      if g.isOpen = true then .ok (g.goto i .leaving)
      else .ok { g.goto i .waiting with monitor := g.monitor.wait i () }
    | .wake i => .ok { g with monitor := g.monitor.wake i }
    | .resume i => .ok { g.goto i .testing with monitor := g.monitor.lock i }
    | .come i => .ok { g.goto i .opening with monitor := g.monitor.lock i }
    | .unbar i => .ok { g.goto i .announcing with isOpen := true }
    | .announce i => .ok { g.goto i .leaving with monitor := g.monitor.notifyAll () }
    | .leave i => .ok { g.goto i .away with monitor := g.monitor.unlock }

variable {g g' : Gate ι} {a : Gate.Act ι} {i : ι}

theorem goto_place {p : Place} {j : ι} :
    (g.goto i p).place j = if j = i then p else g.place j :=
  Function.update_apply g.place i p j

/-- Locking, to test or to open. -/
theorem Sound.lock (h : Sound g) (hfree : g.monitor.owner = none)
    (hout : g.monitor.blocked i = none) {p : Place} (hp : p = .testing ∨ p = .opening) :
    Sound { g.goto i p with monitor := g.monitor.lock i } := by
  have hnone : ∀ j, (g.place j).inside = false := by
    intro j
    have := h.owner j
    rw [hfree] at this
    simpa using this
  have hp' : p.inside = true := by rcases hp with rfl | rfl <;> rfl
  constructor <;> simp only [goto_place, Monitor.lock_owner, Monitor.lock_blocked]
  · intro j
    by_cases hj : j = i
    · simp [hj, hp']
    · simp [hj, hnone j, Ne.symm hj]
  · intro j hj
    have := h.waiting j hj
    grind
  · intro j hj
    have := h.isOpen j
    show g.isOpen = true
    grind
  · intro j hopen hj
    obtain ⟨k, hk⟩ := h.announced j hopen hj
    have := hnone k
    rw [hk] at this
    cases this

omit [DecidableEq ι] in
theorem Sound.unique (h : Sound g) {j : ι} (hi : (g.place i).inside = true)
    (hj : (g.place j).inside = true) : j = i := by
  have := (h.owner i).mp hi
  rw [(h.owner j).mp hj] at this
  exact Option.some.inj this

omit [DecidableEq ι] in
theorem Sound.awake (h : Sound g) (hi : g.place i ≠ .waiting) : g.monitor.blocked i = none := by
  cases hb : g.monitor.blocked i with
  | none => rfl
  | some c => exact absurd (h.waiting i hb) hi

/-- Going on inside the mutex, past an open gate: who is still blocked will be notified. -/
theorem Sound.go (h : Sound g) (hi : (g.place i).inside = true) {p : Place} {m : Monitor ι Unit}
    (hp : p.inside = true) (howner : m.owner = g.monitor.owner)
    (hblocked : ∀ j, m.blocked j = some () → g.monitor.blocked j = some () ∧ p = .announcing) :
    Sound { g.goto i p with isOpen := true, monitor := m } := by
  constructor <;> simp only [goto_place, howner]
  · intro j
    by_cases hj : j = i
    · rw [if_pos hj, hj, ← h.owner i]
      exact iff_of_true hp hi
    · rw [if_neg hj]
      exact h.owner j
  · intro j hj
    have hb := (hblocked j hj).1
    rw [if_neg]
    · exact h.waiting j hb
    · rintro rfl
      rw [h.awake (Place.ne_waiting hi)] at hb
      cases hb
  · intro j _
    trivial
  · intro j _ hj
    exact ⟨i, (if_pos rfl).trans (hblocked j hj).2⟩

/-- Giving the mutex up, to wait before a closed gate or for good. -/
theorem Sound.release (h : Sound g) (hi : (g.place i).inside = true) {p : Place}
    {m : Monitor ι Unit} (howner : m.owner = none)
    (hblocked : ∀ j, m.blocked j = some () → g.monitor.blocked j = some () ∨ j = i ∧ p = .waiting)
    (hp : p = .away ∧ g.place i = .leaving ∧ m.blocked = g.monitor.blocked ∨
      p = .waiting ∧ g.isOpen = false) :
    Sound { g.goto i p with monitor := m } := by
  have hp' : p.inside = false := by rcases hp with ⟨rfl, -⟩ | ⟨rfl, -⟩ <;> rfl
  constructor <;> simp only [goto_place, howner]
  · intro j
    by_cases hj : j = i
    · simp [hj, hp']
    · have : (g.place j).inside ≠ true := fun h' => hj (h.unique hi h')
      simp [hj, this]
  · intro j hj
    rcases hblocked j hj with hb | ⟨rfl, rfl⟩
    · rw [if_neg]
      · exact h.waiting j hb
      · rintro rfl
        rw [h.awake (Place.ne_waiting hi)] at hb
        cases hb
    · rw [if_pos rfl]
  · intro j hj
    by_cases hji : j = i
    · rw [if_pos hji] at hj
      rcases hj with rfl | rfl <;> cases hp'
    · rw [if_neg hji] at hj
      exact h.isOpen j hj
  · intro j hopen hj
    have hopen' : g.isOpen = true := hopen
    rcases hp with ⟨rfl, hplace, hm⟩ | ⟨-, hclosed⟩
    · rw [hm] at hj
      obtain ⟨k, hk⟩ := h.announced j hopen' hj
      have : k = i := h.unique hi (by rw [hk]; rfl)
      rw [this, hplace] at hk
      cases hk
    · rw [hclosed] at hopen'
      cases hopen'

/-- **One step keeps the gate sound.** -/
theorem Sound.step (h : Sound g) (he : gateMachine.enabled g a) (hs : gateMachine.step g a = .ok g') :
    Sound g' := by
  cases a with
  | enter i =>
    obtain rfl := Except.ok.inj hs
    exact h.lock he.2 (h.awake (by rw [he.1]; nofun)) (Or.inl rfl)
  | test i =>
    have hi : (g.place i).inside = true := by
      rw [show g.place i = .testing from he]
      rfl
    simp only [gateMachine] at hs
    split at hs
    · rename_i hopen
      obtain rfl := Except.ok.inj hs
      have := h.go hi (p := .leaving) (m := g.monitor) rfl rfl (by
        intro j hj
        obtain ⟨k, hk⟩ := h.announced j hopen hj
        have : k = i := h.unique hi (by rw [hk]; rfl)
        rw [this, show g.place i = .testing from he] at hk
        cases hk)
      rwa [← hopen] at this
    · rename_i hclosed
      obtain rfl := Except.ok.inj hs
      refine h.release hi rfl ?_ (Or.inr ⟨rfl, by simpa using hclosed⟩)
      intro j hj
      rw [Monitor.wait_blocked] at hj
      grind
  | wake i =>
    obtain rfl := Except.ok.inj hs
    have hblocked : ∀ j, (g.monitor.wake i).blocked j = some () →
        g.monitor.blocked j = some () := by
      intro j hj
      rw [Monitor.wake_blocked] at hj
      grind
    exact ⟨h.owner, fun j hj => h.waiting j (hblocked j hj), h.isOpen,
      fun j hopen hj => h.announced j hopen (hblocked j hj)⟩
  | resume i =>
    obtain rfl := Except.ok.inj hs
    exact h.lock he.2.2 he.2.1 (Or.inl rfl)
  | come i =>
    obtain rfl := Except.ok.inj hs
    exact h.lock he.2 (h.awake (by rw [he.1]; nofun)) (Or.inr rfl)
  | unbar i =>
    obtain rfl := Except.ok.inj hs
    have hi : (g.place i).inside = true := by
      rw [show g.place i = .opening from he]
      rfl
    exact h.go hi rfl rfl fun j hj => ⟨hj, rfl⟩
  | announce i =>
    obtain rfl := Except.ok.inj hs
    have hplace : g.place i = .announcing := he
    have hi : (g.place i).inside = true := by
      rw [hplace]
      rfl
    have hopen := h.isOpen i (Or.inr hplace)
    have := h.go hi (p := .leaving) (m := g.monitor.notifyAll ()) rfl rfl (by
      intro j hj
      rw [Monitor.notifyAll_blocked] at hj
      grind)
    rwa [← hopen] at this
  | leave i =>
    obtain rfl := Except.ok.inj hs
    have hplace : g.place i = .leaving := he
    exact h.release (by rw [hplace]; rfl) rfl (fun j hj => Or.inl hj) (Or.inl ⟨rfl, hplace, rfl⟩)

omit [DecidableEq ι] in
theorem Sound.shutAgain (h : Sound g) (haway : ∀ i, g.place i ≠ .leaving ∧ g.place i ≠ .announcing) :
    Sound { g with isOpen := false } where
  owner := h.owner
  waiting := h.waiting
  isOpen i hi := (hi.elim (haway i).1 (haway i).2).elim
  announced i hopen := by cases hopen

/-- A step of the gate, or none. -/
def Gate.Steps (g g' : Gate ι) : Prop :=
  g' = g ∨ ∃ a, gateMachine.enabled g a ∧ gateMachine.step g a = .ok g'

theorem Sound.steps (h : Sound g) (hs : g.Steps g') : Sound g' := by
  rcases hs with rfl | ⟨a, he, hs⟩
  · exact h
  · exact h.step he hs

omit [DecidableEq ι] in
/-- **No notification is lost**: while a thread is blocked before an open gate, the thread that has
opened it is inside and has not notified yet. -/
theorem Sound.not_lost (h : Sound g) (hopen : g.isOpen = true)
    (hblocked : g.monitor.blocked i = some ()) :
    ∃ j, g.monitor.owner = some j ∧ g.place j = .announcing := by
  obtain ⟨j, hj⟩ := h.announced i hopen hblocked
  exact ⟨j, (h.owner j).mp (by rw [hj]; rfl), hj⟩

end ReactorServer.Lib.Monitors
