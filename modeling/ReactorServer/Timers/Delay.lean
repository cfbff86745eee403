import ReactorServer.Timers.Rearming

/-!
# When a timer fires

`Timer(delay)` sets `expire` to the delay, while `tick` compares it with the clock, which counts from
the epoch.  So a timer fires in the first tick at a clock time of `delay` or later (`fires_iff`), and
not `delay` after it was added.
-/

namespace ReactorServer.Timers

open ReactorServer.Cpp ReactorServer.Lib.Runs
open TimerHeap

/-- A timer heap and the clock. -/
structure Clocked where
  heap : TimerHeap
  clock : ℤ

/-- What is called, and the time on the clock. -/
inductive Event
  | add_timer (time delay : ℤ) (address args : ℕ) (cb_func : Option ℕ)
  | tick (time : ℤ)

def Event.time : Event → ℤ
  | .add_timer time _ _ _ _ => time
  | .tick time => time

/-- A new timer, with what its owner writes into it. -/
def setUp (address : ℕ) (delay : ℤ) (args : ℕ) (cb_func : Option ℕ) : Timer :=
  { Timer.new address delay with args := args, cb_func := cb_func }

section Clock
variable (cb : Callbacks) (fuel : ℕ)

def Clocked.step (s : Clocked) : Event → Except Fault Clocked
  | .add_timer time delay address args cb_func => do
    let heap ← s.heap.add_timer (some (setUp address delay args cb_func))
    pure ⟨heap, time⟩
  | .tick time => do
    let heap ← s.heap.tick cb time fuel
    pure ⟨heap, time⟩

/-- The timers a tick adds through callbacks are new ones. -/
def New (s : TimerHeap) : Except Fault TimerHeap → Prop
  | .ok t =>
    ((rearmed cb s.fired (newly s t)).reduceOption ++ (timers s ++ s.deleted)).Nodup
  | .error _ => True

/-- The clock never goes back, delays are `int`s that are not negative, and every timer added is a
new one. -/
def Clocked.enabled (s : Clocked) : Event → Prop
  | .add_timer time delay address args cb_func => s.clock ≤ time ∧ 0 ≤ delay ∧ delay ≤ INT_MAX ∧
    setUp address delay args cb_func ∉ timers s.heap ++ s.heap.deleted
  | .tick time => s.clock ≤ time ∧ New cb s.heap (s.heap.tick cb time fuel)

/-- Timers are added and ticks are made, each of at most `fuel` rounds. -/
def clockMachine : Machine Clocked Event Fault where
  enabled := Clocked.enabled cb fuel
  step := Clocked.step cb fuel

instance (s : TimerHeap) : ∀ x, Decidable (New cb s x)
  | .ok _ => inferInstanceAs (Decidable (List.Nodup _))
  | .error _ => inferInstanceAs (Decidable True)

instance (s : Clocked) : ∀ a, Decidable ((clockMachine cb fuel).enabled s a)
  | .add_timer _ _ _ _ _ => inferInstanceAs (Decidable (_ ∧ _))
  | .tick _ => inferInstanceAs (Decidable (_ ∧ New _ _ _))

/-- A heap of capacity `cap`, at the epoch. -/
def epoch (cap : ℕ) : Clocked := ⟨TimerHeap.new cap, 0⟩

end Clock

variable {cb : Callbacks} {fuel cap : ℕ} {s t : Clocked} {a : Event} {as : List Event} {u : Timer}
  {cur : ℤ}

/-! ### One step -/

theorem tick_step (h : Valid s.heap) (he : (clockMachine cb fuel).enabled s (.tick cur))
    (hs : (clockMachine cb fuel).step s (.tick cur) = .ok t) :
    t.clock = cur ∧ ∃ ins outs, Swept cur ins outs (newly s.heap t.heap) s.heap t.heap := by
  obtain ⟨heap, htick, hs⟩ := bind_eq_ok.mp hs
  obtain rfl := Except.ok.inj hs
  have hnew : New cb s.heap (s.heap.tick cb cur fuel) := he.2
  rw [htick] at hnew
  exact ⟨rfl, _, tick_swept h htick hnew⟩

theorem add_step {time delay : ℤ} {address args : ℕ} {f : Option ℕ} (h : Valid s.heap)
    (he : (clockMachine cb fuel).enabled s (.add_timer time delay address args f))
    (hs : (clockMachine cb fuel).step s (.add_timer time delay address args f) = .ok t) :
    t.clock = time ∧ Effect [setUp address delay args f] [] [] s.heap t.heap := by
  obtain ⟨heap, hadd, hs⟩ := bind_eq_ok.mp hs
  obtain rfl := Except.ok.inj hs
  exact ⟨rfl, (add_timer_effect h he.2.2.2 hadd).1⟩

theorem valid_step (h : Valid s.heap) (he : (clockMachine cb fuel).enabled s a)
    (hs : (clockMachine cb fuel).step s a = .ok t) :
    Valid t.heap ∧ s.clock ≤ t.clock ∧ t.clock = a.time := by
  cases a with
  | add_timer time delay address args f =>
    obtain ⟨hclock, heff⟩ := add_step h he hs
    exact ⟨heff.valid, hclock ▸ he.1, hclock⟩
  | tick cur =>
    obtain ⟨hclock, ins, outs, hswept⟩ := tick_step h he hs
    exact ⟨hswept.effect.valid, hclock ▸ he.1, hclock⟩

/-- A timer in the heap stays there until a tick at which it is due. -/
theorem wait_step (h : Valid s.heap) (he : (clockMachine cb fuel).enabled s a)
    (hs : (clockMachine cb fuel).step s a = .ok t) (hu : u ∈ timers s.heap)
    (hlate : ∀ cur, a = .tick cur → cur < u.expire) : u ∈ timers t.heap := by
  cases a with
  | add_timer time delay address args f =>
    have hmem := (add_step h he hs).2.timers.mem_iff.mpr (List.mem_append_right _ hu)
    rwa [List.append_nil] at hmem
  | tick cur =>
    obtain ⟨-, ins, outs, hswept⟩ := tick_step h he hs
    have hmem := hswept.effect.timers.mem_iff.mpr (List.mem_append_right ins hu)
    refine (List.mem_append.mp hmem).resolve_right fun hout => ?_
    have := hswept.past u hout
    have := hlate cur rfl
    omega

theorem gone_step (h : Valid s.heap) (he : (clockMachine cb fuel).enabled s a)
    (hs : (clockMachine cb fuel).step s a = .ok t) (hu : u ∈ s.heap.deleted) :
    u ∈ t.heap.deleted := by
  cases a with
  | add_timer time delay address args f =>
    rw [(add_step h he hs).2.deleted]
    exact List.mem_append_left _ hu
  | tick cur =>
    obtain ⟨-, ins, outs, hswept⟩ := tick_step h he hs
    rw [hswept.effect.deleted]
    exact List.mem_append_left _ hu

theorem newly_iff (h : Valid s.heap) (he : (clockMachine cb fuel).enabled s (.tick cur))
    (hs : (clockMachine cb fuel).step s (.tick cur) = .ok t)
    (hu : u ∈ timers s.heap ∨ u ∈ s.heap.deleted) (hcalls : calls u) :
    u ∈ newly s.heap t.heap ↔ u ∈ timers s.heap ∧ u.expire ≤ cur := by
  obtain ⟨-, ins, outs, hswept⟩ := tick_step h he hs
  constructor
  · intro hcalled
    have hout := hswept.out u hcalled
    refine ⟨hu.resolve_right fun hdel => ?_, hswept.past u hout⟩
    have hnodup := (List.nodup_append.mp hswept.effect.valid.nodup).2.1
    rw [hswept.effect.deleted] at hnodup
    exact (List.nodup_append.mp hnodup).2.2 u hdel u hout rfl
  · rintro ⟨hmem, hdue⟩
    have hsplit := hswept.effect.timers.mem_iff.mpr (List.mem_append_right ins hmem)
    refine hswept.invoked u hmem ((List.mem_append.mp hsplit).resolve_left fun hleft => ?_) hcalls
    have := hswept.future u hleft
    omega

/-! ### Runs -/

theorem valid_run (hrun : Run (clockMachine cb fuel) s as t) (h : Valid s.heap) : Valid t.heap :=
  hrun.invariant (I := fun s => Valid s.heap) (fun _ _ _ h he hs => (valid_step h he hs).1) h

theorem clock_le (hrun : Run (clockMachine cb fuel) s as t) (h : Valid s.heap) :
    ∀ a ∈ as, s.clock ≤ a.time := by
  induction hrun with
  | nil => exact List.forall_mem_nil _
  | cons he hs _ ih =>
    obtain ⟨hvalid, hle, htime⟩ := valid_step h he hs
    intro b hb
    rcases List.mem_cons.mp hb with rfl | hb
    · exact htime ▸ hle
    · exact hle.trans (ih hvalid b hb)

theorem wait_run (hrun : Run (clockMachine cb fuel) s as t) (h : Valid s.heap)
    (hu : u ∈ timers s.heap) :
    (∀ cur, .tick cur ∈ as → cur < u.expire) ∧ u ∈ timers t.heap ∨
      (∃ cur, .tick cur ∈ as ∧ u.expire ≤ cur) ∧ u ∈ t.heap.deleted := by
  refine (hrun.history (I := fun as t => Valid t.heap ∧
    ((∀ cur, .tick cur ∈ as → cur < u.expire) ∧ u ∈ timers t.heap ∨
      (∃ cur, .tick cur ∈ as ∧ u.expire ≤ cur) ∧ u ∈ t.heap.deleted))
    ⟨h, Or.inl ⟨fun _ hmem => absurd hmem List.not_mem_nil, hu⟩⟩ ?_).2
  rintro as s a t ⟨h, hI⟩ he hs
  refine ⟨(valid_step h he hs).1, ?_⟩
  rcases hI with ⟨hlate, hmem⟩ | ⟨⟨cur, hcur, hle⟩, hdel⟩
  · by_cases hdue : ∃ cur, a = .tick cur ∧ u.expire ≤ cur
    · obtain ⟨cur, rfl, hle⟩ := hdue
      right
      refine ⟨⟨cur, by simp, hle⟩, ?_⟩
      obtain ⟨-, ins, outs, hswept⟩ := tick_step h he hs
      have hsplit := hswept.effect.timers.mem_iff.mpr (List.mem_append_right ins hmem)
      rw [hswept.effect.deleted]
      refine List.mem_append_right _ ((List.mem_append.mp hsplit).resolve_left fun hleft => ?_)
      have := hswept.future u hleft
      omega
    · have hlate' : ∀ cur, a = .tick cur → cur < u.expire :=
        fun cur ha => not_le.mp fun hle => hdue ⟨cur, ha, hle⟩
      left
      refine ⟨fun cur hcur => ?_, wait_step h he hs hmem hlate'⟩
      rcases List.mem_append.mp hcur with hcur | hcur
      · exact hlate cur hcur
      · exact hlate' cur (List.mem_singleton.mp hcur).symm
  · right
    exact ⟨⟨cur, List.mem_append_left _ hcur, hle⟩, gone_step h he hs hdel⟩

/-- **The law of the timers.**  A tick calls a timer that was in the heap at `s` if the timer is due
and was not at any tick before. -/
theorem fires_iff {r : Clocked} (h : Valid s.heap) (hu : u ∈ timers s.heap) (hcalls : calls u)
    (hrun : Run (clockMachine cb fuel) s as t) (htick : Run (clockMachine cb fuel) t [.tick cur] r) :
    u ∈ newly t.heap r.heap ↔ (∀ cur', .tick cur' ∈ as → cur' < u.expire) ∧ u.expire ≤ cur := by
  have hvalid := valid_run hrun h
  obtain ⟨he, r', hs, hr⟩ := run_cons.mp htick
  cases hr
  rcases wait_run hrun h hu with ⟨hlate, hmem⟩ | ⟨⟨cur', hcur, hle⟩, hdel⟩
  · rw [newly_iff hvalid he hs (Or.inl hmem) hcalls]
    exact and_congr_left fun _ => iff_of_true hmem hlate
  · rw [newly_iff hvalid he hs (Or.inr hdel) hcalls]
    refine iff_of_false (fun hmem => ?_) fun hlate => ?_
    · exact (List.nodup_append.mp hvalid.nodup).2.2 u hmem.1 u hdel rfl
    · have := hlate.1 cur' hcur
      omega

/-- In the calls `as` from `s`, the timer is called by the first tick at a clock time `due` or
later, and by no tick before. -/
def OnTime (cb : Callbacks) (fuel : ℕ) (s : Clocked) (u : Timer) (due : ℤ) (as : List Event) :
    Prop :=
  ∀ bs cs cur t r, as = bs ++ .tick cur :: cs → Run (clockMachine cb fuel) s bs t →
    Run (clockMachine cb fuel) t [.tick cur] r → (∀ cur', .tick cur' ∈ bs → cur' < due) →
    (u ∈ newly t.heap r.heap ↔ due ≤ cur)

theorem exists_first {d : ℤ} (hmem : .tick cur ∈ as) (hd : d ≤ cur) :
    ∃ bs cs c, as = bs ++ .tick c :: cs ∧ d ≤ c ∧ (∀ c', .tick c' ∈ bs → c' < d) ∧
      (cur = c ∨ .tick cur ∈ cs) := by
  induction as with
  | nil => exact absurd hmem List.not_mem_nil
  | cons a as ih =>
    by_cases ha : ∃ c, a = .tick c ∧ d ≤ c
    · obtain ⟨c, rfl, hc⟩ := ha
      refine ⟨[], as, c, rfl, hc, fun _ h => absurd h List.not_mem_nil, ?_⟩
      rcases List.mem_cons.mp hmem with h | h
      · left
        injection h
      · right
        exact h
    · have hmem' : .tick cur ∈ as := by
        refine (List.mem_cons.mp hmem).resolve_left fun h => ha ⟨cur, h.symm, hd⟩
      obtain ⟨bs, cs, c, rfl, hc, hfirst, hcur⟩ := ih hmem'
      refine ⟨a :: bs, cs, c, rfl, hc, fun c' h => ?_, hcur⟩
      rcases List.mem_cons.mp h with h | h
      · exact not_le.mp fun hle => ha ⟨c', h.symm, hle⟩
      · exact hfirst c' h

/-- **When a timer fires on time**: no tick comes, after it was added, at a clock time between its
delay alone and the time at which it should fire. -/
theorem on_time_iff {pre post : List Event} {r : Clocked} {time delay : ℤ} {address args f : ℕ}
    (hpre : Run (clockMachine cb fuel) (epoch cap) pre r)
    (hadd : Run (clockMachine cb fuel) r [.add_timer time delay address args (some f)] s)
    (hpost : Run (clockMachine cb fuel) s post t) :
    OnTime cb fuel s (setUp address delay args (some f)) (time + delay) post ↔
      ∀ cur, .tick cur ∈ post → ¬(delay ≤ cur ∧ cur < time + delay) := by
  have hr : Valid r.heap := valid_run hpre valid_new
  have htime : 0 ≤ time := clock_le (hpre.append hadd) valid_new _
    (List.mem_append_right _ (List.mem_singleton_self _))
  have hs : Valid s.heap := valid_run hadd hr
  have hu : setUp address delay args (some f) ∈ timers s.heap := by
    obtain ⟨he, s', hstep, hs'⟩ := run_cons.mp hadd
    cases hs'
    have hmem := (add_step hr he hstep).2.timers.mem_iff.mpr
      (List.mem_append_left _ (List.mem_singleton_self _))
    rwa [List.append_nil] at hmem
  have hcalls : calls (setUp address delay args (some f)) := rfl
  constructor
  · rintro hont cur hcur ⟨hd, hwindow⟩
    obtain ⟨bs, cs, c, hsplit, hc, hfirst, hlater⟩ := exists_first hcur hd
    rw [hsplit] at hpost
    obtain ⟨t1, h1, h2⟩ := run_append.mp hpost
    obtain ⟨he, t2, hstep, h3⟩ := run_cons.mp h2
    have htick := Run.cons he hstep (.nil t2)
    have hcalled := (fires_iff hs hu hcalls h1 htick).mpr ⟨hfirst, hc⟩
    have hdue := (hont bs cs c t1 t2 hsplit h1 htick fun c' h => by
      have := hfirst c' h
      omega).mp hcalled
    have hle : c ≤ cur := by
      rcases hlater with rfl | hlater
      · exact le_rfl
      · obtain ⟨hvalid, -, hclock⟩ := valid_step (valid_run h1 hs) he hstep
        have := clock_le h3 hvalid _ hlater
        rwa [hclock] at this
    omega
  · intro hclear bs cs cur t1 t2 hsplit h1 htick hearlier
    have hcur := hclear cur (by rw [hsplit]; simp)
    rw [fires_iff hs hu hcalls h1 htick]
    constructor
    · rintro ⟨-, hle⟩
      have hle' : delay ≤ cur := hle
      omega
    · intro hle
      refine ⟨fun c' h => ?_, show delay ≤ cur by omega⟩
      have hc' := hclear c' (by rw [hsplit]; exact List.mem_append_left _ h)
      have := hearlier c' h
      show c' < delay
      omega

theorem on_time_late : ∃ s t,
    Run (clockMachine (fun fired _ => [some ⟨fired.length + 1, 0, 100, some 1⟩]) 3) (epoch 1)
      [.add_timer 5 10 0 7 (some 1)] s ∧
    Run (clockMachine (fun fired _ => [some ⟨fired.length + 1, 0, 100, some 1⟩]) 3) s
      [.tick 7, .tick 15] t ∧
    OnTime (fun fired _ => [some ⟨fired.length + 1, 0, 100, some 1⟩]) 3 s ⟨0, 7, 10, some 1⟩ 15
      [.tick 7, .tick 15] ∧
    t.heap.fired = [⟨0, 7, 10, some 1⟩] := by
  let cb : Callbacks := fun fired _ => [some ⟨fired.length + 1, 0, 100, some 1⟩]
  have hrun : ∃ s t, Run (clockMachine cb 3) (epoch 1) [.add_timer 5 10 0 7 (some 1)] s ∧
      Run (clockMachine cb 3) s [.tick 7, .tick 15] t ∧ t.heap.fired = [⟨0, 7, 10, some 1⟩] :=
    ⟨_, _, run_iff_exec.mpr rfl, run_iff_exec.mpr rfl, rfl⟩
  obtain ⟨s, t, hadd, hticks, hfired⟩ := hrun
  have hclear : ∀ cur, .tick cur ∈ [Event.tick 7, .tick 15] → ¬(10 ≤ cur ∧ cur < 5 + 10) := by
    intro cur hcur
    simp only [List.mem_cons, Event.tick.injEq, List.not_mem_nil, or_false] at hcur
    omega
  exact ⟨s, t, hadd, hticks, (on_time_iff (.nil _) hadd hticks).mpr hclear, hfired⟩

/-- Today the epoch is long past: the timer fires in the next tick. -/
theorem not_on_time : ∃ s t, Run (clockMachine idle 2) (epoch 1) [.add_timer 100 10 0 7 (some 1)] s ∧
    Run (clockMachine idle 2) s [.tick 100] t ∧
    ¬OnTime idle 2 s ⟨0, 7, 10, some 1⟩ (100 + 10) [.tick 100] := by
  refine ⟨_, _, run_iff_exec.mpr rfl, run_iff_exec.mpr rfl, fun h => ?_⟩
  have hcalled := h [] [] 100 _ _ rfl (.nil _) (run_iff_exec.mpr rfl)
    fun _ hmem => absurd hmem List.not_mem_nil
  exact absurd (hcalled.mp (by decide)) (by decide)

end ReactorServer.Timers
