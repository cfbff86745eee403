import ReactorServer.Pool.Shutdown

/-!
# The end of the thread pool

What comes of a call of `threadPool_destroy`.  Every step that is not a producer's lowers `weight`,
and until the pool is freed somebody can take one: the caller, or the worker it is about to join.  So
the pool is freed whatever the order of the steps (`shutdown_completes`), and the jobs that are in
the queue by then are freed with it: a worker takes one more at most (`takes_no_more`).
-/

namespace ReactorServer.Pool.Draining

open ReactorServer.Cpp ReactorServer.Lib.Runs ReactorServer.Lib.Triples ReactorServer.Lib.Refinement
open ReactorServer.Pool.Shutdown

variable {A J : Type} [DecidableEq A] {n : ℕ} {s t : threadPool_t A J n}
  {x : ThreadPool.threadPool_t A J (Fin n)} {w : Fin n}

/-! ### The way to the end -/

/-- The steps a worker has before it when the flag is down. -/
def phaseWeight : Phase A J → ℕ
  | .testing => 1
  | .waiting => 3
  | .woken => 2
  | .entered => 4
  | .holding _ _ => 3
  | .finished _ => 2
  | .returned => 0

/-- The steps the caller of `threadPool_destroy` has before it. -/
def stageWeight (n : ℕ) : Stage → ℕ
  | .notCalled => n + n + 3
  | .posting left => n + 1 + left
  | .joining i => n + 1 - i
  | .freed => 0

def weight (s : threadPool_t A J n) : ℕ := total phaseWeight s.worker + stageWeight n s.stage

omit [DecidableEq A] in
theorem weight_worker {p : Phase A J} (hworker : t.worker = Function.update s.worker w p)
    (hstage : t.stage = s.stage) (hp : phaseWeight p < phaseWeight (s.worker w)) :
    weight t < weight s := by
  have htotal := total_update phaseWeight s.worker w p
  unfold weight
  rw [hworker, hstage]
  omega

omit [DecidableEq A] in
theorem weight_stage (hworker : t.worker = s.worker)
    (hstage : stageWeight n t.stage < stageWeight n s.stage) : weight t < weight s := by
  unfold weight
  rw [hworker]
  omega

/-- The steps of the producers. -/
def adds : Act A J n → Bool
  | .malloc _ _ _ _ => true
  | .add _ => true
  | _ => false

/-- No producer goes on. -/
def draining (A J : Type) [DecidableEq A] (n : ℕ) : Machine (threadPool_t A J n) (Act A J n) Fault :=
  restrict (shutdownMachine A J n) fun _ act => adds act = false

/-- `threadPool_destroy` has been called, and nobody is adding a job. -/
structure Closing (s : threadPool_t A J n) : Prop where
  called : s.stage ≠ .notCalled
  made : s.made = []

omit [DecidableEq A] in
theorem Closing.worker (hc : Closing s) {p : Phase A J}
    (hworker : t.worker = Function.update s.worker w p) (hstage : t.stage = s.stage)
    (hmade : t.made = s.made) (hp : phaseWeight p < phaseWeight (s.worker w)) :
    weight t < weight s ∧ Closing t :=
  ⟨weight_worker hworker hstage hp, ⟨hstage ▸ hc.called, hmade.trans hc.made⟩⟩

theorem call_lowers (hc : Closing s) (hact : enabled s (.call w)) (hs : step s (.call w) = .ok t) :
    weight t < weight s ∧ Closing t := by
  have hholding : (s.worker w).isHolding = true := hact
  cases hw : s.worker w with
  | holding a job =>
    simp only [step, hw] at hs
    obtain rfl := Except.ok.inj hs
    refine hc.worker (w := w) rfl rfl rfl ?_
    rw [hw]
    exact Nat.lt_succ_self 2
  | _ => rw [hw] at hholding; cases hholding

theorem free_lowers (h : Sound s x) (hc : Closing s) (hact : enabled s (.free w))
    (hs : step s (.free w) = .ok t) : weight t < weight s ∧ Closing t := by
  have hfinished : (s.worker w).isFinished = true := hact
  cases hw : s.worker w with
  | finished a =>
    simp only [step, hw, (free_follows h hw).1, if_true] at hs
    obtain rfl := Except.ok.inj hs
    refine hc.worker (w := w) rfl rfl rfl ?_
    rw [hw]
    exact Nat.lt_succ_self 1
  | _ => rw [hw] at hfinished; cases hfinished

theorem post_lowers (hc : Closing s) (hact : enabled s .post) (hs : step s .post = .ok t) :
    weight t < weight s ∧ Closing t := by
  have hleft : 0 < s.stage.left := hact
  have hposted : ∀ k, stageWeight n (.posted k) < stageWeight n (.posting (k + 1)) ∧
      Stage.posted k ≠ .notCalled := by
    intro k
    unfold Stage.posted
    split_ifs with hk
    · exact ⟨by simp only [stageWeight]; omega, by simp⟩
    · exact ⟨by simp only [stageWeight]; omega, by simp⟩
  cases hstage : s.stage with
  | posting left =>
    rw [hstage] at hleft
    obtain ⟨k, rfl⟩ := Nat.exists_eq_succ_of_ne_zero (Nat.ne_of_gt hleft)
    simp only [step, hstage] at hs
    obtain rfl := Except.ok.inj hs
    refine ⟨weight_stage rfl ?_, (hposted k).2, hc.made⟩
    rw [hstage]
    exact (hposted k).1
  | _ => rw [hstage] at hleft; cases hleft

theorem join_lowers (hc : Closing s) (hact : enabled s .join) (hs : step s .join = .ok t) :
    weight t < weight s ∧ Closing t := by
  obtain ⟨w, hstage, -⟩ := hact
  simp only [step, hstage] at hs
  obtain rfl := Except.ok.inj hs
  refine ⟨weight_stage rfl ?_, by simp, hc.made⟩
  have hlt := w.isLt
  rw [hstage]
  show n + 1 - (w + 1) < n + 1 - w
  omega

theorem empty_lowers (h : Sound s x) (hact : enabled s .empty) (hs : step s .empty = .ok t) :
    weight t < weight s ∧ Closing t := by
  obtain ⟨t', ht', hfreed⟩ := empty_freed h hact.1 hact.2
  obtain rfl := Except.ok.inj (ht'.symm.trans hs)
  have hworker : t'.worker = s.worker := by
    obtain ⟨r, -, hr⟩ := bind_eq_ok.mp hs
    obtain rfl := Except.ok.inj hr
    rfl
  refine ⟨weight_stage hworker ?_, by simp [hfreed.stage], hfreed.made⟩
  rw [hfreed.stage, hact.1]
  show 0 < n + 1 - n
  omega

theorem step_lowers (h : Sound s x) (hc : Closing s) {act : Act A J n} (hact : enabled s act)
    (hadds : adds act = false) (hs : step s act = .ok t) : weight t < weight s ∧ Closing t := by
  have hdown := h.down hc.called
  cases act with
  | malloc a job prev next => cases hadds
  | add a => cases hadds
  | test w =>
    obtain rfl := Except.ok.inj hs
    have hw : s.worker w = .testing := hact
    refine hc.worker (w := w) rfl rfl rfl ?_
    rw [hdown, hw]
    exact Nat.lt_succ_self 0
  | wait w =>
    obtain rfl := Except.ok.inj hs
    refine hc.worker (w := w) rfl rfl rfl ?_
    rw [hact.1]
    exact Nat.lt_succ_self 2
  | enter w =>
    obtain rfl := Except.ok.inj hs
    have hw : s.worker w = .woken := hact
    refine hc.worker (w := w) rfl rfl rfl ?_
    rw [hdown, hw]
    exact Nat.lt_succ_self 1
  | take w =>
    obtain ⟨a, job, q, htake, -⟩ := take_follows h hact
    obtain rfl := Except.ok.inj (htake.symm.trans hs)
    have hw : s.worker w = .entered := hact
    refine hc.worker (w := w) rfl rfl rfl ?_
    rw [hw]
    exact Nat.lt_succ_self 3
  | call w => exact call_lowers hc hact hs
  | free w => exact free_lowers h hc hact hs
  | destroy => exact absurd hact hc.called
  | post => exact post_lowers hc hact hs
  | join => exact join_lowers hc hact hs
  | empty => exact empty_lowers h hact hs

/-- A worker that has not returned can go on, once all posts have been made. -/
theorem worker_moves (h : Sound s x) (hc : Closing s) (hleft : s.stage.left = 0)
    (hw : s.worker w ≠ .returned) : ∃ act, (draining A J n).enabled s act := by
  have hcount := (h.granted.down (h.down hc.called)).2
  cases hphase : s.worker w with
  | testing => exact ⟨.test w, hphase, rfl⟩
  | waiting => exact ⟨.wait w, ⟨hphase, by omega⟩, rfl⟩
  | woken => exact ⟨.enter w, hphase, rfl⟩
  | entered => exact ⟨.take w, hphase, rfl⟩
  | holding a job =>
    have hholding : (s.worker w).isHolding = true := by rw [hphase]; rfl
    exact ⟨.call w, hholding, rfl⟩
  | finished a =>
    have hfinished : (s.worker w).isFinished = true := by rw [hphase]; rfl
    exact ⟨.free w, hfinished, rfl⟩
  | returned => exact absurd hphase hw

/-- Somebody can go on until the pool is freed: the caller of `threadPool_destroy`, or the worker it
is waiting for. -/
theorem somebody_moves (h : Sound s x) (hc : Closing s) :
    ∃ act, (draining A J n).enabled s act := by
  cases hs : s.stage with
  | notCalled => exact absurd hs hc.called
  | posting left =>
    have hpos : left ≠ 0 := fun heq => h.posting (heq ▸ hs)
    have hleft : 0 < s.stage.left := by
      rw [hs]
      exact Nat.pos_of_ne_zero hpos
    exact ⟨.post, hleft, rfl⟩
  | joining i =>
    obtain ⟨hle, -⟩ := h.joined i hs
    rcases Nat.lt_or_eq_of_le hle with hlt | rfl
    · by_cases hw : s.worker ⟨i, hlt⟩ = .returned
      · exact ⟨.join, ⟨⟨i, hlt⟩, hs, hw⟩, rfl⟩
      · exact worker_moves h hc (by rw [hs]; rfl) hw
    · exact ⟨.empty, ⟨hs, hc.made⟩, rfl⟩
  | freed => exact absurd hs h.unfreed

/-- **`threadPool_destroy` comes to its end.**  When it has been called and no job is being added, the
workers and its caller cannot wait for each other for ever, whatever the order of their steps: after
finitely many of them, none of which fails, every worker has returned, no node is left in memory, and
every job that was ever added has been called once or was in the queue that was freed. -/
theorem shutdown_completes {s : threadPool_t A J (poolSize number)}
    (h : Run (shutdownMachine A J (poolSize number)) (threadPool_init number) as s)
    (hc : Closing s) : Completes (draining A J (poolSize number)) Freed s := by
  have hn := poolSize_le number
  refine completes_of_measure (I := fun s => (∃ x, Sound s x) ∧ Closing s ∨ Freed s) weight
    ?_ ?_ ?_
  · rintro s act t (⟨⟨x, hx⟩, hc⟩ | hfreed) he hs
    · obtain ⟨hlt, hclosing⟩ := step_lowers hx hc he.1 he.2 hs
      rcases (step_sound hn hx he.1).of_ok hs with hy | hfreed
      · exact ⟨.inl ⟨hy, hclosing⟩, hlt⟩
      · exact ⟨.inr hfreed, hlt⟩
    · exact absurd he.1 (hfreed.not_enabled act)
  · rintro s (⟨⟨x, hx⟩, hc⟩ | hfreed)
    · refine .inr ⟨somebody_moves hx hc, fun act he => ?_⟩
      have hstep := step_sound hn hx he.1
      cases hs : step s act with
      | ok t => exact ⟨t, hs⟩
      | error f =>
        obtain ⟨-, -, a, rfl⟩ := hstep.of_error hs
        cases he.2
    · exact .inl hfreed
  · rcases run_sound h with hx | hfreed
    · exact .inl ⟨hx, hc⟩
    · exact .inr hfreed

theorem shutdown_completes_one :
    ∃ s, Run (shutdownMachine ℕ ℕ (poolSize 1)) (threadPool_init 1)
        [.malloc 0 7 none none, .add 0, .test ⟨0, by decide⟩, .wait ⟨0, by decide⟩, .destroy] s ∧
      s.worker ⟨0, by decide⟩ = .woken ∧ s.jobQueue.number = 1 ∧
      Completes (draining ℕ ℕ (poolSize 1)) Freed s := by
  have hexec : ∃ s, (shutdownMachine ℕ ℕ (poolSize 1)).exec (threadPool_init 1)
      [.malloc 0 7 none none, .add 0, .test ⟨0, by decide⟩, .wait ⟨0, by decide⟩, .destroy] = some s ∧
      s.worker ⟨0, by decide⟩ = .woken ∧ s.jobQueue.number = 1 ∧ s.stage = .posting 2 ∧ s.made = [] :=
    ⟨_, rfl, rfl, rfl, rfl, rfl⟩
  obtain ⟨s, hs, hw, hnumber, hstage, hmade⟩ := hexec
  have hrun := run_iff_exec.mpr hs
  exact ⟨s, hrun, hw, hnumber, shutdown_completes hrun ⟨by rw [hstage]; nofun, hmade⟩⟩

/-! ### The jobs that are left -/

def isEntered : Phase A J → Bool
  | .entered => true
  | _ => false

/-- What a worker may still take, and has taken since `s`. -/
def Owes (s t : threadPool_t A J n) (more : List (Fin n × J)) : Prop :=
  t.took = s.took ++ more ∧ ∀ w, (ThreadPool.doneBy w more).length + (isEntered (t.worker w)).toNat ≤
    (isEntered (s.worker w)).toNat

omit [DecidableEq A] in
theorem owes_worker {p : Phase A J} (hworker : t.worker = Function.update s.worker w p)
    (htook : t.took = s.took) (hp : isEntered p = false) : Owes s t [] := by
  refine ⟨by rw [htook, List.append_nil], fun v => ?_⟩
  rw [hworker]
  by_cases hv : v = w
  · rw [hv, Function.update_self, hp]
    exact Nat.zero_le _
  · rw [Function.update_of_ne hv]
    exact (Nat.zero_add _).le

omit [DecidableEq A] in
theorem owes_same (hworker : t.worker = s.worker) (htook : t.took = s.took) : Owes s t [] := by
  refine ⟨by rw [htook, List.append_nil], fun v => ?_⟩
  rw [hworker]
  exact (Nat.zero_add _).le

/-- A worker that has seen the flag up takes a job, and is then past the test. -/
theorem take_owes (hk : s.keepAlive = false) (hw : s.worker w = .entered)
    (hs : step s (.take w) = .ok t) : t.keepAlive = false ∧ ∃ more, Owes s t more := by
  obtain ⟨⟨a, node⟩, -, hs⟩ := bind_eq_ok.mp hs
  obtain ⟨⟨ret, q⟩, -, hs⟩ := bind_eq_ok.mp hs
  dsimp only at hs
  split_ifs at hs with hret
  · obtain rfl := Except.ok.inj hs
    exact ⟨hk, [], owes_worker (w := w) rfl rfl rfl⟩
  · obtain rfl := Except.ok.inj hs
    refine ⟨hk, [(w, node.job)], rfl, fun v => ?_⟩
    show (ThreadPool.doneBy v [(w, node.job)]).length +
      (isEntered (Function.update s.worker w (.holding a node.job) v)).toNat ≤ _
    by_cases hv : v = w
    · rw [hv, Function.update_self, hw]
      simp [ThreadPool.doneBy, isEntered]
    · rw [Function.update_of_ne hv]
      simp [ThreadPool.doneBy, Ne.symm hv]

theorem step_owes (hk : s.keepAlive = false) {act : Act A J n} (hact : enabled s act)
    (hs : step s act = .ok t) : t.keepAlive = false ∧ ∃ more, Owes s t more := by
  cases act with
  | malloc a job prev next =>
    obtain rfl := Except.ok.inj hs
    exact ⟨hk, [], owes_same rfl rfl⟩
  | add a =>
    obtain ⟨q, -, hq⟩ := bind_eq_ok.mp hs
    obtain rfl := Except.ok.inj hq
    exact ⟨hk, [], owes_same rfl rfl⟩
  | test w =>
    obtain rfl := Except.ok.inj hs
    refine ⟨hk, [], owes_worker (w := w) rfl rfl ?_⟩
    rw [hk]
    rfl
  | wait w =>
    obtain rfl := Except.ok.inj hs
    exact ⟨hk, [], owes_worker (w := w) rfl rfl rfl⟩
  | enter w =>
    obtain rfl := Except.ok.inj hs
    refine ⟨hk, [], owes_worker (w := w) rfl rfl ?_⟩
    rw [hk]
    rfl
  | take w => exact take_owes hk hact hs
  | call w =>
    simp only [step] at hs
    split at hs
    · obtain rfl := Except.ok.inj hs
      exact ⟨hk, [], owes_worker (w := w) rfl rfl rfl⟩
    · cases hs
  | free w =>
    simp only [step] at hs
    split at hs
    · split_ifs at hs
      obtain rfl := Except.ok.inj hs
      exact ⟨hk, [], owes_worker (w := w) rfl rfl rfl⟩
    · cases hs
  | destroy =>
    obtain rfl := Except.ok.inj hs
    exact ⟨rfl, [], owes_same rfl rfl⟩
  | post =>
    simp only [step] at hs
    split at hs
    · obtain rfl := Except.ok.inj hs
      exact ⟨hk, [], owes_same rfl rfl⟩
    · cases hs
  | join =>
    simp only [step] at hs
    split at hs
    · obtain rfl := Except.ok.inj hs
      exact ⟨hk, [], owes_same rfl rfl⟩
    · cases hs
  | empty =>
    obtain ⟨⟨jobs, q⟩, -, hq⟩ := bind_eq_ok.mp hs
    obtain rfl := Except.ok.inj hq
    exact ⟨hk, [], owes_same rfl rfl⟩

omit [DecidableEq A] in
theorem Owes.trans {u : threadPool_t A J n} {more more' : List (Fin n × J)} (h : Owes s t more)
    (h' : Owes t u more') : Owes s u (more ++ more') := by
  refine ⟨by rw [h'.1, h.1, List.append_assoc], fun w => ?_⟩
  have hsplit : (ThreadPool.doneBy w (more ++ more')).length =
      (ThreadPool.doneBy w more).length + (ThreadPool.doneBy w more').length := by
    simp [ThreadPool.doneBy]
  have h1 := h.2 w
  have h2 := h'.2 w
  omega

/-- **`threadPool_destroy` does not wait for the queue to be worked off.**  Once the flag is down, a
worker that had seen it up takes one more job at most, and no other worker takes any. -/
theorem takes_no_more {as : List (Act A J n)} (h : Run (shutdownMachine A J n) s as t)
    (hk : s.keepAlive = false) :
    ∃ more, t.took = s.took ++ more ∧
      ∀ w, (ThreadPool.doneBy w more).length ≤ (isEntered (s.worker w)).toNat := by
  have hrun := h.invariant (I := fun t => t.keepAlive = false ∧ ∃ more, Owes s t more)
    (fun u act v ⟨hu, more, hmore⟩ he hs => by
      obtain ⟨hv, more', hmore'⟩ := step_owes hu he hs
      exact ⟨hv, more ++ more', hmore.trans hmore'⟩) ⟨hk, [], owes_same rfl rfl⟩
  obtain ⟨-, more, htook, howes⟩ := hrun
  exact ⟨more, htook, fun w => (Nat.le_add_right _ _).trans (howes w)⟩

/-- Of two jobs one is taken after the flag has gone down. -/
theorem takes_no_more_two :
    ∃ s t, Run (shutdownMachine ℕ ℕ (poolSize 1)) s
        [.take ⟨0, by decide⟩, .call ⟨0, by decide⟩, .free ⟨0, by decide⟩, .test ⟨0, by decide⟩] t ∧
      s.jobQueue.number = 2 ∧ isEntered (s.worker ⟨0, by decide⟩) = true ∧
      (∃ more, t.took = s.took ++ more ∧
        ∀ w, (ThreadPool.doneBy w more).length ≤ (isEntered (s.worker w)).toNat) ∧
      t.took = [(⟨0, by decide⟩, 7)] := by
  have hexec : ∃ s t, (shutdownMachine ℕ ℕ (poolSize 1)).exec (threadPool_init 1)
      [.malloc 0 7 none none, .malloc 1 8 none none, .add 0, .add 1, .test ⟨0, by decide⟩,
        .wait ⟨0, by decide⟩, .enter ⟨0, by decide⟩, .destroy] = some s ∧
      (shutdownMachine ℕ ℕ (poolSize 1)).exec s [.take ⟨0, by decide⟩, .call ⟨0, by decide⟩,
        .free ⟨0, by decide⟩, .test ⟨0, by decide⟩] = some t ∧
      s.keepAlive = false ∧ s.jobQueue.number = 2 ∧ isEntered (s.worker ⟨0, by decide⟩) = true ∧
      t.took = [(⟨0, by decide⟩, 7)] :=
    ⟨_, _, rfl, rfl, rfl, rfl, rfl, rfl⟩
  obtain ⟨s, t, -, ht, hk, hnumber, hw, htook⟩ := hexec
  have hrun := run_iff_exec.mpr ht
  exact ⟨s, t, hrun, hnumber, hw, takes_no_more hrun hk, htook⟩

end ReactorServer.Pool.Draining
