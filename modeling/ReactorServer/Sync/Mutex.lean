import ReactorServer.Cpp
import ReactorServer.Lib.Follow
import ReactorServer.Lib.Monitors
import Mathlib.Data.PNat.Basic

/-!
# A mutex that knows its holder

Any number of threads use one `MutexLock` through `lock` and `unlock`, which is all that a
`MutexLockGuard` does, and through the `Condition`s made for it.  `lock` and `unlock` are cut at their
assignment to `holder_`.

`Condition::wait` has `pthread_cond_wait` unlock the mutex and lock it again, past `holder_`: it keeps
the id of a thread that waits, and it is zero under a thread that has waited while others came and
went.  `holder_iff`: without a `wait`, and only so, `holder_` is right all the time.
-/

namespace ReactorServer.Sync.Mutex

open ReactorServer.Cpp ReactorServer.Lib.Runs ReactorServer.Lib.Follow ReactorServer.Lib.Monitors

/-! ### The model -/

/-- A thread is its `pid_t`, which is positive. -/
abbrev Tid := ℕ+

/-- Where a thread stands with the mutex. -/
inductive Place
  | outside
  /-- in `lock`, before `holder_ = gettid()` -/
  | locking
  | inside
  /-- in `unlock`, behind `holder_ = 0` -/
  | unlocking
  /-- in `wait` -/
  | waiting
  deriving DecidableEq, Repr

/-- `κ` are the `Condition`s. -/
structure MutexLock (κ : Type*) where
  holder_ : ℕ
  mutex : Monitor Tid κ
  place : Tid → Place

inductive Act (κ : Type*)
  /-- `pthread_mutex_lock` returns in `lock` -/
  | pthreadLock (i : Tid)
  /-- `holder_ = gettid()` -/
  | hold (i : Tid)
  /-- `holder_ = 0` -/
  | release (i : Tid)
  /-- `pthread_mutex_unlock` in `unlock` -/
  | pthreadUnlock (i : Tid)
  /-- `pthread_cond_wait` unlocks and blocks -/
  | wait (i : Tid) (c : κ)
  /-- a blocked thread wakes up for no reason -/
  | spurious (i : Tid)
  /-- `pthread_cond_wait` has locked again and returns -/
  | resume (i : Tid)
  /-- `c.notify()`, which wakes `w` -/
  | notify (i : Tid) (c : κ) (w : Option Tid)
  | notifyAll (i : Tid) (c : κ)

variable {κ : Type*}

/-- Thread `i` goes on to `p`. -/
def MutexLock.goto (s : MutexLock κ) (i : Tid) (p : Place) : MutexLock κ :=
  { s with place := Function.update s.place i p }

/-- What the threads may do.  A thread that owns the mutex does not lock it, and one that does not own
it neither unlocks it nor waits; anybody else may notify. -/
def machine [DecidableEq κ] : Machine (MutexLock κ) (Act κ) Fault where
  enabled s
    | .pthreadLock i => s.place i = .outside ∧ s.mutex.owner = none
    | .hold i => s.place i = .locking
    | .release i => s.place i = .inside
    | .pthreadUnlock i => s.place i = .unlocking
    | .wait i _ => s.place i = .inside
    | .spurious i => s.mutex.blocked i ≠ none
    | .resume i => s.place i = .waiting ∧ s.mutex.blocked i = none ∧ s.mutex.owner = none
    | .notify i c w => (s.place i = .outside ∨ s.place i = .inside) ∧ s.mutex.Notifies c w
    | .notifyAll i _ => s.place i = .outside ∨ s.place i = .inside
  step s
    | .pthreadLock i => .ok { s.goto i .locking with mutex := s.mutex.lock i }
    | .hold i => .ok { s.goto i .inside with holder_ := i }
    | .release i => .ok { s.goto i .unlocking with holder_ := 0 }
    | .pthreadUnlock i => .ok { s.goto i .outside with mutex := s.mutex.unlock }
    | .wait i c => .ok { s.goto i .waiting with mutex := s.mutex.wait i c }
    | .spurious i => .ok { s with mutex := s.mutex.wake i }
    | .resume i => .ok { s.goto i .inside with mutex := s.mutex.lock i }
    | .notify _ _ w => .ok { s with mutex := s.mutex.notify w }
    | .notifyAll _ c => .ok { s with mutex := s.mutex.notifyAll c }

/-- The constructor. -/
def start : MutexLock κ := ⟨0, .fresh, fun _ => .outside⟩

/-- `isLockedByThisThread()` in the thread `i`. -/
def MutexLock.isLockedByThisThread (s : MutexLock κ) (i : Tid) : Bool := s.holder_ = i

/-- `assertLocked()` in the thread `i`. -/
def MutexLock.assertLocked (s : MutexLock κ) (i : Tid) : Except Fault Unit :=
  assert .assertLocked (s.isLockedByThisThread i = true)

variable {s t : MutexLock κ} {a : Act κ} {as : List (Act κ)} {i : Tid} {c : κ}

theorem goto_place {p : Place} {j : Tid} :
    (s.goto i p).place j = if j = i then p else s.place j :=
  Function.update_apply s.place i p j

/-! ### What `holder_` should be -/

/-- The id of the owner, and zero without one. -/
def ownerId : Option Tid → ℕ
  | some i => i
  | none => 0

/-- No thread is between the pthread call and the assignment. -/
def Settled (s : MutexLock κ) : Prop := ∀ i, s.place i ≠ .locking ∧ s.place i ≠ .unlocking

/-- `holder_` is the id of the owner, so that `isLockedByThisThread` is exact and `assertLocked` does
not fail for the owner. -/
structure Exact (s : MutexLock κ) : Prop where
  holder_ : s.holder_ = ownerId s.mutex.owner
  isLockedByThisThread : ∀ i, s.isLockedByThisThread i = true ↔ s.mutex.owner = some i
  assertLocked : ∀ i, s.mutex.owner = some i → s.assertLocked i = .ok ()

theorem exact_of_holder (h : s.holder_ = ownerId s.mutex.owner) : Exact s := by
  have hlocked : ∀ i, s.isLockedByThisThread i = true ↔ s.mutex.owner = some i := by
    intro i
    rw [MutexLock.isLockedByThisThread, decide_eq_true_iff, h]
    cases howner : s.mutex.owner with
    | none => exact iff_of_false (Ne.symm i.ne_zero) nofun
    | some j => exact PNat.coe_inj.trans (Option.some_inj (a := j) (b := i)).symm
  refine ⟨h, hlocked, fun i hi => ?_⟩
  rw [MutexLock.assertLocked, assert, if_pos ((hlocked i).mpr hi)]

/-- What `MutexLock` promises of every state. -/
def Knows (s : MutexLock κ) : Prop := Settled s → Exact s

/-! ### Without a wait -/

/-- The act is no `wait`. -/
def NoWait (_ : MutexLock κ) : Act κ → Prop
  | .wait _ _ => False
  | _ => True

/-- A thread at this place owns the mutex. -/
def Place.owns : Place → Bool
  | .outside | .waiting => false
  | _ => true

/-- What holds as long as nobody has waited. -/
structure Held (s : MutexLock κ) : Prop where
  owner : ∀ i, (s.place i).owns = true ↔ s.mutex.owner = some i
  active : ∀ i, s.place i ≠ .waiting
  awake : ∀ i, s.mutex.blocked i = none
  inside : ∀ i, s.place i = .inside → s.holder_ = i
  zero : (∀ i, s.place i ≠ .inside) → s.holder_ = 0

theorem Held.start : Held (start : MutexLock κ) where
  owner i := iff_of_false (by simp [Mutex.start, Place.owns]) (by
    simp [Mutex.start, Monitor.fresh])
  active i := nofun
  awake i := rfl
  inside i h := by cases h
  zero h := rfl

theorem Held.unique (h : Held s) {j : Tid} (hi : (s.place i).owns = true)
    (hj : (s.place j).owns = true) : j = i := by
  have := (h.owner i).mp hi
  rw [(h.owner j).mp hj] at this
  exact Option.some.inj this

theorem Held.knows (h : Held s) : Knows s := by
  intro hsettled
  apply exact_of_holder
  cases howner : s.mutex.owner with
  | none =>
    refine h.zero fun i hi => ?_
    have := (h.owner i).mp (by rw [hi]; rfl)
    rw [howner] at this
    cases this
  | some i =>
    refine h.inside i ?_
    have hi := (h.owner i).mpr howner
    obtain ⟨hlocking, hunlocking⟩ := hsettled i
    cases hplace : s.place i with
    | inside => rfl
    | locking => exact absurd hplace hlocking
    | unlocking => exact absurd hplace hunlocking
    | outside | waiting =>
      rw [hplace] at hi
      cases hi

/-- A thread goes on, into the mutex, in it or out of it: it owns the mutex there, or nobody does. -/
theorem Held.goto (h : Held s) {p : Place} {holder : ℕ} {m : Monitor Tid κ} (hp : p ≠ .waiting)
    (hi : (s.place i).owns = true ∨ s.mutex.owner = none)
    (howner : m.owner = if p.owns = true then some i else none)
    (hblocked : m.blocked = s.mutex.blocked) (hholder : holder = if p = .inside then (i : ℕ) else 0) :
    Held { s.goto i p with holder_ := holder, mutex := m } := by
  -- no other thread owns the mutex
  have hother : ∀ j, j ≠ i → (s.place j).owns = false := by
    intro j hj
    rw [Bool.eq_false_iff]
    intro howns
    rcases hi with hi | hfree
    · exact hj (h.unique hi howns)
    · rw [(h.owner j).mp howns] at hfree
      cases hfree
  constructor <;> simp only [goto_place, howner, hblocked, hholder]
  · intro j
    by_cases hj : j = i
    · rw [if_pos hj, hj]
      cases p.owns <;> simp
    · rw [if_neg hj, hother j hj]
      refine iff_of_false (by simp) fun h' => ?_
      split at h'
      · exact hj (Option.some.inj h').symm
      · cases h'
  · intro j
    split
    · exact hp
    · exact h.active j
  · exact h.awake
  · intro j hj
    by_cases hji : j = i
    · rw [if_pos hji] at hj
      rw [if_pos hj, hji]
    · rw [if_neg hji] at hj
      have := hother j hji
      rw [hj] at this
      cases this
  · intro hnone
    have := hnone i
    rw [if_pos rfl] at this
    exact if_neg this

variable [DecidableEq κ]

/-- **Without a wait** every step keeps it so. -/
theorem Held.step (h : Held s) (he : machine.enabled s a) (hs : machine.step s a = .ok t)
    (ha : NoWait s a) : Held t := by
  cases a with
  | pthreadLock i =>
    obtain rfl := Except.ok.inj hs
    have hzero : s.holder_ = 0 := by
      refine h.zero fun j hj => ?_
      have := (h.owner j).mp (by rw [hj]; rfl)
      rw [he.2] at this
      cases this
    exact h.goto nofun (Or.inr he.2) rfl rfl hzero
  | hold i =>
    obtain rfl := Except.ok.inj hs
    have hplace : s.place i = .locking := he
    have howns : (s.place i).owns = true := by
      rw [hplace]
      rfl
    exact h.goto nofun (Or.inl howns) ((h.owner i).mp howns) rfl rfl
  | release i =>
    obtain rfl := Except.ok.inj hs
    have hplace : s.place i = .inside := he
    have howns : (s.place i).owns = true := by
      rw [hplace]
      rfl
    exact h.goto nofun (Or.inl howns) ((h.owner i).mp howns) rfl rfl
  | pthreadUnlock i =>
    obtain rfl := Except.ok.inj hs
    have hplace : s.place i = .unlocking := he
    have howns : (s.place i).owns = true := by
      rw [hplace]
      rfl
    have hzero : s.holder_ = 0 := by
      refine h.zero fun j hj => ?_
      have hji : j = i := h.unique howns (by rw [hj]; rfl)
      rw [hji, hplace] at hj
      cases hj
    exact h.goto nofun (Or.inl howns) rfl rfl hzero
  | wait i c => exact ha.elim
  | spurious i => exact absurd (h.awake i) he
  | resume i => exact absurd he.1 (h.active i)
  | notify i c w =>
    obtain rfl := Except.ok.inj hs
    refine ⟨?_, h.active, fun j => ?_, h.inside, h.zero⟩
    · simpa using h.owner
    · cases w with
      | none => exact h.awake j
      | some k =>
        have := he.2
        rw [Monitor.Notifies, h.awake k] at this
        cases this
  | notifyAll i c =>
    obtain rfl := Except.ok.inj hs
    refine ⟨h.owner, h.active, fun j => ?_, h.inside, h.zero⟩
    simp [h.awake j]

/-- **A wait** leaves the id of the thread that waits in a free mutex. -/
theorem Held.wait (h : Held s) (he : machine.enabled s (.wait i c))
    (hs : machine.step s (.wait i c) = .ok t) : ¬Knows t := by
  obtain rfl := Except.ok.inj hs
  have hplace : s.place i = .inside := he
  intro hknows
  have hsettled : Settled { s.goto i .waiting with mutex := s.mutex.wait i c } := by
    intro j
    simp only [goto_place]
    split
    · exact ⟨nofun, nofun⟩
    · rename_i hj
      have hother : (s.place j).owns = false := by
        rw [Bool.eq_false_iff]
        exact fun h' => hj (h.unique (by rw [hplace]; rfl) h')
      constructor <;> intro h' <;> rw [h'] at hother <;> cases hother
  have hzero : s.holder_ = 0 := (hknows hsettled).holder_
  rw [h.inside i hplace] at hzero
  exact i.ne_zero hzero

/-- **The mutex knows its holder** in every state of a run if and only if no thread waits in it. -/
theorem holder_iff (h : Run machine start as t) :
    Throughout machine Knows start as ↔ Run (restrict machine NoWait) start as t := by
  refine throughout_iff (J := Held) (fun s => Held.knows) ?_ ?_ h Held.start
  · intro s a t hheld he hs ha
    exact hheld.step he hs ha
  · intro s a t hheld he hs ha
    cases a with
    | wait i c => exact hheld.wait he hs
    | _ => exact absurd trivial ha

/-- Two threads and one condition: the first locks the mutex, waits, and has it again after the second
has notified it, which has locked and unlocked the mutex itself. -/
def visit : List (Act Unit) :=
  [.pthreadLock 1, .hold 1, .wait 1 (), .pthreadLock 2, .hold 2, .notify 2 () (some 1),
    .release 2, .pthreadUnlock 2, .resume 1]

/-- While the first thread waits the mutex is free and has its id; then it owns the mutex, and
`assertLocked` fails. -/
theorem not_knows : (∃ s, Run machine start (visit.take 3) s ∧ Settled s ∧ s.mutex.owner = none ∧
      s.isLockedByThisThread 1 = true) ∧
    ∃ s, Run machine start visit s ∧ Settled s ∧ s.mutex.owner = some 1 ∧
      s.holder_ = 0 ∧ s.assertLocked 1 = .error (.assertion .assertLocked) ∧ ¬Knows s := by
  constructor
  · refine ⟨_, .cons ⟨rfl, rfl⟩ rfl (.cons rfl rfl (.cons rfl rfl (.nil _))), fun i => ?_, rfl, rfl⟩
    by_cases hi : i = 1 <;> simp [goto_place, start, hi]
  · have hrun : ∃ s, Run machine start visit s ∧ s.mutex.owner = some 1 ∧ s.holder_ = 0 ∧
        ∀ i, s.place i = if i = 1 then .inside else .outside := by
      refine ⟨_, .cons ⟨rfl, rfl⟩ rfl (.cons rfl rfl (.cons rfl rfl (.cons ⟨rfl, rfl⟩ rfl
        (.cons rfl rfl (.cons ⟨Or.inr rfl, rfl⟩ rfl (.cons rfl rfl (.cons rfl rfl
        (.cons ⟨rfl, rfl, rfl⟩ rfl (.nil _))))))))), rfl, rfl, fun i => ?_⟩
      by_cases h1 : i = 1
      · simp [goto_place, h1]
      · by_cases h2 : i = 2 <;> simp [goto_place, start, h1, h2]
    obtain ⟨s, hrun, howner, hzero, hplace⟩ := hrun
    have hsettled : Settled s := by
      intro i
      rw [hplace i]
      split <;> exact ⟨nofun, nofun⟩
    refine ⟨s, hrun, hsettled, howner, hzero, ?_, fun hknows => ?_⟩
    · rw [MutexLock.assertLocked, MutexLock.isLockedByThisThread, hzero]
      rfl
    · have hholder := (hknows hsettled).holder_
      rw [howner, hzero] at hholder
      cases hholder

/-- A mutex that the first thread has locked. -/
def locked : MutexLock Unit :=
  { ((start : MutexLock Unit).goto 1 .locking).goto 1 .inside with
    holder_ := 1
    mutex := Monitor.fresh.lock 1 }

theorem holder_iff_lock : Throughout (machine (κ := Unit)) Knows start [.pthreadLock 1, .hold 1] ↔
    Run (restrict machine NoWait) start [.pthreadLock 1, .hold 1] locked :=
  holder_iff (.cons ⟨rfl, rfl⟩ rfl (.cons rfl rfl (.nil _)))

end ReactorServer.Sync.Mutex
