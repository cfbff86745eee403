import ReactorServer.Lib.Follow
import ReactorServer.Timers.Firing

/-!
# Deleting a timer

`del_timer` puts the heap in order and leaves the timer in it, with its callback.  What this does to
a run is seen beside the run without the timer (`twin`): the other timers are fired and kept as in
that one, and the timer is not fired, as long as every step is `Harmless` (`deletion_iff`).
-/

namespace ReactorServer.Timers

open ReactorServer.Cpp ReactorServer.Lib.Runs ReactorServer.Lib.Follow
open TimerHeap

/-! ### A run with a timer, and without it -/

section Twin
variable (t : Timer)

/-- The steps of a heap, and beside it those of a heap that `t` is never added to. -/
def twin : Machine (TimerHeap × TimerHeap) Act Fault where
  enabled s
    | .add_timer u => u ∉ timers s.1 ++ s.1.deleted
    | _ => True
  step s a := do
    let x ← step s.1 a
    let y ← if a = .add_timer t ∨ a = .del_timer (some t) then pure s.2 else step s.2 a
    pure (x, y)

/-- What is left when `t` is left out. -/
def others (us : List Timer) : List Timer := us.filter fun u => u ≠ t

/-- `t` has not been fired, and the other timers are fired and kept as in the heap without it. -/
structure Undisturbed (s : TimerHeap × TimerHeap) : Prop where
  quiet : t ∉ s.1.fired
  fired : (others t s.1.fired).Perm s.2.fired
  kept : (others t (timers s.1)).Perm (timers s.2)

/-- The invariant of the two runs. -/
structure Twins (s : TimerHeap × TimerHeap) : Prop extends Undisturbed t s where
  valid : Valid s.1
  valid' : Valid s.2
  deleted : (others t s.1.deleted).Perm s.2.deleted

/-- The steps that do not tell the runs apart: no tick at which `t` is due and has a callback, and no
`pop` that finds another first timer than in the heap without `t`, but for `t` alone in its heap. -/
def Harmless (s : TimerHeap × TimerHeap) : Act → Prop
  | .tick cur => t ∈ timers s.1 → t.expire ≤ cur → t.cb_func = none
  | .pop => s.1.top = s.2.top ∨ s.1.top = .ok (some t) ∧ s.2.cur_size = 0
  | _ => True

end Twin

variable {s r : TimerHeap × TimerHeap} {x y : TimerHeap} {t u : Timer} {a : Act} {cur : ℤ}

/-! ### What one step does -/

theorem del_inv (h : Valid x) {p : Option Timer} (hx : x.del_timer p = .ok y) :
    Effect [] [] [] x y := by
  rcases del_timer_effect h p with ⟨y', h1, h2, -⟩ | ⟨h1, -⟩
  · rw [hx] at h1
    rwa [Except.ok.inj h1]
  · rw [hx] at h1
    cases h1

theorem top_eq (h : Valid x) :
    x.cur_size = 0 ∧ x.top = .ok none ∨
      ∃ u, 0 < x.cur_size ∧ x.array.cell 0 = some u ∧ x.top = .ok (some u) := by
  have hlen := h.live.length
  unfold TimerHeap.top TimerHeap.empty
  rcases Nat.eq_zero_or_pos x.cur_size with h0 | h0
  · left
    rw [if_pos (by simpa using h0)]
    exact ⟨h0, rfl⟩
  · right
    obtain ⟨u, hu⟩ := h.cell 0 h0
    rw [if_neg (by simpa using h0.ne'), load_of_lt (by omega), hu]
    exact ⟨u, h0, rfl, rfl⟩

/-- `pop` takes out what `top` finds. -/
theorem pop_inv (h : Valid x) (hx : x.pop = .ok y) :
    x.cur_size = 0 ∧ x.top = .ok none ∧ y = x ∨
      ∃ u, u ∈ timers x ∧ x.top = .ok (some u) ∧ Effect [] [u] [] x y := by
  rcases top_eq h with ⟨h0, htop⟩ | ⟨u, h0, hu, htop⟩
  · rw [pop_empty h0] at hx
    exact Or.inl ⟨h0, htop, (Except.ok.inj hx).symm⟩
  · rcases pop_effect h hu h0 with ⟨y', h1, h2, -⟩ | ⟨h1, -⟩
    · rw [hx] at h1
      rw [Except.ok.inj h1]
      exact Or.inr ⟨u, mem_timers.mpr ⟨0, h0, hu⟩, htop, h2⟩
    · rw [hx] at h1
      cases h1

theorem tick_inv (h : Valid x) (hx : step x (.tick cur) = .ok y) : ∃ due, Ticked cur due x y := by
  have hpos := capacity_of_tick h.length hx
  rcases tick_ticked cur (Nat.lt_succ_self _) h hpos with ⟨y', due, h1, h2⟩ | ⟨h1, -⟩
  · obtain rfl := Except.ok.inj (h1.symm.trans hx)
    exact ⟨due, h2⟩
  · obtain ⟨⟩ := h1.symm.trans hx

/-! ### The two runs -/

theorem others_append (us vs : List Timer) : others t (us ++ vs) = others t us ++ others t vs :=
  List.filter_append us vs

theorem others_self : others t [t] = [] := by simp [others]

theorem others_of_ne (hu : u ≠ t) : others t [u] = [u] := by simp [others, hu]

theorem mem_others {us : List Timer} : u ∈ others t us ↔ u ∈ us ∧ u ≠ t := by simp [others]

/-- Effects that differ in `t` at most keep the heaps twins. -/
theorem Twins.effects {ins ins' outs outs' called called' : List Timer} (h : Twins t s)
    (hx : Effect ins outs called s.1 x) (hy : Effect ins' outs' called' s.2 y)
    (hins : (others t ins).Perm ins') (houts : (others t outs).Perm outs')
    (hcalled : (others t called).Perm called') (hquiet : t ∉ called) : Twins t (x, y) where
  quiet := by
    show t ∉ x.fired
    rw [hx.fired]
    exact fun hmem => (List.mem_append.mp hmem).elim h.quiet hquiet
  fired := by
    show (others t x.fired).Perm y.fired
    rw [hx.fired, hy.fired, others_append]
    exact h.fired.append hcalled
  kept := by
    have hfirst : (others t (timers x) ++ others t outs).Perm
        (others t ins ++ others t (timers s.1)) := by
      rw [← others_append, ← others_append]
      exact hx.timers.filter _
    have hsecond : (ins' ++ timers s.2).Perm (timers y ++ others t outs) :=
      hy.timers.symm.trans (houts.symm.append_left _)
    exact (List.perm_append_right_iff _).mp (hfirst.trans ((hins.append h.kept).trans hsecond))
  valid := hx.valid
  valid' := hy.valid
  deleted := by
    show (others t x.deleted).Perm y.deleted
    rw [hx.deleted, hy.deleted, others_append]
    exact h.deleted.append houts

/-- A step of both heaps, or of the first alone. -/
theorem twin_step (hs : (twin t).step s a = .ok r) :
    step s.1 a = .ok r.1 ∧
      ((a = .add_timer t ∨ a = .del_timer (some t)) ∧ r.2 = s.2 ∨
        ¬(a = .add_timer t ∨ a = .del_timer (some t)) ∧ step s.2 a = .ok r.2) := by
  obtain ⟨x, hx, hs⟩ := bind_eq_ok.mp hs
  split_ifs at hs with ha
  · obtain rfl := Except.ok.inj hs
    exact ⟨hx, Or.inl ⟨ha, rfl⟩⟩
  · obtain ⟨y, hy, hs⟩ := bind_eq_ok.mp hs
    obtain rfl := Except.ok.inj hs
    exact ⟨hx, Or.inr ⟨ha, hy⟩⟩

theorem Twins.mem_iff (h : Twins t s) : u ∈ timers s.2 ↔ u ∈ timers s.1 ∧ u ≠ t := by
  rw [← h.kept.mem_iff, mem_others]

theorem Twins.mem_deleted_iff (h : Twins t s) :
    u ∈ s.2.deleted ↔ u ∈ s.1.deleted ∧ u ≠ t := by
  rw [← h.deleted.mem_iff, mem_others]

theorem twins_add (h : Twins t s) (he : (twin t).enabled s (.add_timer u))
    (hs : (twin t).step s (.add_timer u) = .ok r) : Twins t r := by
  obtain ⟨hx, ⟨hu, hy⟩ | ⟨hu, hy⟩⟩ := twin_step hs
  · have hut : u = t := by
      rcases hu with hu | hu
      · exact Act.add_timer.inj hu
      · cases hu
    obtain ⟨heff, -⟩ := add_timer_effect h.valid he hx
    rw [hut] at heff
    have := h.effects heff h.valid'.effect (by rw [others_self]) .nil .nil List.not_mem_nil
    rwa [← hy] at this
  · have hut : u ≠ t := fun hut => hu (Or.inl (congrArg Act.add_timer hut))
    have he' : u ∉ timers s.1 ++ s.1.deleted := he
    have hnew : u ∉ timers s.2 ++ s.2.deleted := by
      rw [List.mem_append, not_or] at he' ⊢
      exact ⟨fun hmem => he'.1 (h.mem_iff.mp hmem).1, fun hmem => he'.2 (h.mem_deleted_iff.mp hmem).1⟩
    obtain ⟨heff, -⟩ := add_timer_effect h.valid he hx
    obtain ⟨heff', -⟩ := add_timer_effect h.valid' hnew hy
    exact h.effects heff heff' (by rw [others_of_ne hut]) .nil .nil List.not_mem_nil

theorem twins_del {p : Option Timer} (h : Twins t s)
    (hs : (twin t).step s (.del_timer p) = .ok r) : Twins t r := by
  obtain ⟨hx, ⟨-, hy⟩ | ⟨-, hy⟩⟩ := twin_step hs
  · have := h.effects (del_inv h.valid hx) h.valid'.effect .nil .nil .nil List.not_mem_nil
    rwa [← hy] at this
  · exact h.effects (del_inv h.valid hx) (del_inv h.valid' hy) .nil .nil .nil List.not_mem_nil

/-- A step that does not concern `t` by name is one of both heaps. -/
theorem twin_both (hs : (twin t).step s a = .ok r) (hadd : ∀ u, a ≠ .add_timer u)
    (hdel : ∀ p, a ≠ .del_timer p) : step s.1 a = .ok r.1 ∧ step s.2 a = .ok r.2 := by
  obtain ⟨hx, ⟨ha | ha, -⟩ | ⟨-, hy⟩⟩ := twin_step hs
  · exact absurd ha (hadd t)
  · exact absurd ha (hdel _)
  · exact ⟨hx, hy⟩

theorem cur_size_pos (hu : u ∈ timers x) : 0 < x.cur_size := by
  obtain ⟨i, hi, -⟩ := mem_timers.mp hu
  omega

theorem twins_pop (h : Twins t s) (hs : (twin t).step s .pop = .ok r) (hsame : Harmless t s .pop) :
    Twins t r := by
  obtain ⟨hx, hy⟩ := twin_both hs nofun nofun
  rcases pop_inv h.valid hx with ⟨-, htop, h3⟩ | ⟨u, hu, htop, heff⟩
  · rcases pop_inv h.valid' hy with ⟨-, -, h6⟩ | ⟨v, -, htop', -⟩
    · have hrefl := h.effects h.valid.effect h.valid'.effect .nil .nil .nil List.not_mem_nil
      rwa [← h3, ← h6] at hrefl
    · rcases hsame with hsame | ⟨hsame, -⟩
      · obtain ⟨⟩ := htop.symm.trans (hsame.trans htop')
      · obtain ⟨⟩ := htop.symm.trans hsame
  · rcases pop_inv h.valid' hy with ⟨-, htop', h6⟩ | ⟨v, hv, htop', heff'⟩
    · rcases hsame with hsame | ⟨hsame, -⟩
      · obtain ⟨⟩ := htop.symm.trans (hsame.trans htop')
      · obtain ⟨⟩ := htop.symm.trans hsame
        have halone := h.effects heff h.valid'.effect .nil (by rw [others_self]) .nil
          List.not_mem_nil
        rwa [← h6] at halone
    · rcases hsame with hsame | ⟨-, hempty⟩
      · obtain ⟨⟩ := htop.symm.trans (hsame.trans htop')
        have hut := (h.mem_iff.mp hv).2
        exact h.effects heff heff' .nil (by rw [others_of_ne hut]) .nil List.not_mem_nil
      · exact absurd hempty (cur_size_pos hv).ne'

/-- What has been taken out is not in the heap. -/
theorem Effect.gone {ins called : List Timer} (h : Effect ins [u] called x y) :
    u ∉ Timers.timers y := by
  intro hmem
  refine (List.nodup_append.mp h.valid.nodup).2.2 u hmem u ?_ rfl
  rw [h.deleted]
  exact List.mem_append_right _ (List.mem_singleton_self u)

/-- A `pop` that takes out `t` alone, or different timers, is seen in the heaps. -/
theorem disturbed_pop (h : Twins t s) (hs : (twin t).step s .pop = .ok r)
    (hsame : ¬Harmless t s .pop) : ¬Undisturbed t r := by
  obtain ⟨hx, hy⟩ := twin_both hs nofun nofun
  have hdiff : s.1.top ≠ s.2.top := fun htop => hsame (Or.inl htop)
  intro hr
  rcases pop_inv h.valid hx with ⟨hempty, htop, -⟩ | ⟨u, hu, htop, heff⟩
  · rcases pop_inv h.valid' hy with ⟨-, htop', -⟩ | ⟨v, hv, -, -⟩
    · exact hdiff (htop.trans htop'.symm)
    · exact absurd hempty (cur_size_pos (h.mem_iff.mp hv).1).ne'
  · by_cases hut : u = t
    · rw [hut] at htop heff
      rcases pop_inv h.valid' hy with ⟨hempty, -, -⟩ | ⟨v, hv, -, heff'⟩
      · exact hsame (Or.inr ⟨htop, hempty⟩)
      · obtain ⟨hv1, hvt⟩ := h.mem_iff.mp hv
        have hmem : v ∈ timers r.1 ++ [t] := heff.timers.mem_iff.mpr hv1
        have hkept : v ∈ timers r.1 :=
          (List.mem_append.mp hmem).resolve_right fun hvt' => hvt (List.mem_singleton.mp hvt')
        exact heff'.gone (hr.kept.mem_iff.mp (mem_others.mpr ⟨hkept, hvt⟩))
    · have hu' : u ∈ timers s.2 := h.mem_iff.mpr ⟨hu, hut⟩
      rcases pop_inv h.valid' hy with ⟨hempty, -, -⟩ | ⟨v, -, htop', heff'⟩
      · exact absurd hempty (cur_size_pos hu').ne'
      · have hmem : u ∈ timers r.2 ++ [v] := heff'.timers.mem_iff.mpr hu'
        rcases List.mem_append.mp hmem with hmem | hmem
        · exact heff.gone (mem_others.mp (hr.kept.mem_iff.mpr hmem)).1
        · obtain rfl := List.mem_singleton.mp hmem
          exact hdiff (htop.trans htop'.symm)

/-- The same other timers are due in both heaps. -/
theorem Twins.due (h : Twins t s) {due due' : List Timer} (hx : Ticked cur due s.1 x)
    (hy : Ticked cur due' s.2 y) : (others t due).Perm due' := by
  have hfirst : (others t due).Perm ((others t (timers s.1)).filter fun u => u.expire ≤ cur) := by
    unfold others
    rw [List.filter_comm]
    exact hx.due_perm.filter _
  exact hfirst.trans ((h.kept.filter _).trans hy.due_perm.symm)

theorem twins_tick (h : Twins t s) (hs : (twin t).step s (.tick cur) = .ok r)
    (hsafe : Harmless t s (.tick cur)) : Twins t r := by
  obtain ⟨hx, hy⟩ := twin_both hs nofun nofun
  obtain ⟨due, hdue⟩ := tick_inv h.valid hx
  obtain ⟨due', hdue'⟩ := tick_inv h.valid' hy
  have hperm := h.due hdue hdue'
  refine h.effects hdue.effect hdue'.effect .nil hperm ?_ ?_
  · unfold others
    rw [List.filter_comm]
    exact hperm.filter _
  · intro hmem
    obtain ⟨hmem, hcalls⟩ := List.mem_filter.mp hmem
    have htimer : t ∈ timers s.1 := hdue.effect.timers.mem_iff.mp (List.mem_append_right _ hmem)
    have hnone := hsafe htimer (hdue.past t hmem)
    simp [calls, hnone] at hcalls

theorem disturbed_tick (h : Twins t s) (hs : (twin t).step s (.tick cur) = .ok r)
    (hsafe : ¬Harmless t s (.tick cur)) : ¬Undisturbed t r := by
  obtain ⟨hx, -⟩ := twin_both hs nofun nofun
  obtain ⟨due, hdue⟩ := tick_inv h.valid hx
  intro hr
  refine hsafe fun htimer hle => ?_
  by_contra hcb
  refine hr.quiet ?_
  rw [hdue.effect.fired]
  refine List.mem_append_right _ (List.mem_filter.mpr ⟨?_, ?_⟩)
  · exact hdue.due_perm.mem_iff.mpr (List.mem_filter.mpr ⟨htimer, by simpa using hle⟩)
  · exact Option.isSome_iff_ne_none.mpr hcb

theorem twins_step (h : Twins t s) (he : (twin t).enabled s a) (hs : (twin t).step s a = .ok r)
    (hsafe : Harmless t s a) : Twins t r := by
  cases a with
  | add_timer u => exact twins_add h he hs
  | del_timer p => exact twins_del h hs
  | pop => exact twins_pop h hs hsafe
  | tick cur => exact twins_tick h hs hsafe

theorem disturbed_step (h : Twins t s) (hs : (twin t).step s a = .ok r) (hsafe : ¬Harmless t s a) :
    ¬Undisturbed t r := by
  cases a with
  | add_timer u => exact absurd trivial hsafe
  | del_timer p => exact absurd trivial hsafe
  | pop => exact disturbed_pop h hs hsafe
  | tick cur => exact disturbed_tick h hs hsafe

theorem twins_self (hx : Valid x) (hnew : t ∉ timers x ++ x.deleted) (hquiet : t ∉ x.fired) :
    Twins t (x, x) := by
  have hsame : ∀ us : List Timer, t ∉ us → (others t us).Perm us := by
    intro us hus
    unfold others
    rw [List.filter_eq_self.mpr fun u hu => by simpa using fun hut : u = t => hus (hut ▸ hu)]
  rw [List.mem_append, not_or] at hnew
  exact ⟨⟨hquiet, hsame _ hquiet, hsame _ hnew.1⟩, hx, hx, hsame _ hnew.2⟩

/-- **A deleted timer stays quiet, and the others undisturbed**, after `del_timer` if and only if
every step is harmless, where the steps before it were. -/
theorem deletion_iff {pre post : List Act} {q : TimerHeap × TimerHeap} (hx : Valid x)
    (hnew : t ∉ timers x ++ x.deleted) (hquiet : t ∉ x.fired)
    (hpre : Run (restrict (twin t) (Harmless t)) (x, x) pre q)
    (hdel : Run (twin t) q [.del_timer (some t)] s) (hpost : Run (twin t) s post r) :
    Throughout (twin t) (Undisturbed t) s post ↔ Run (restrict (twin t) (Harmless t)) s post r := by
  have hq : Twins t q := by
    refine hpre.invariant (I := Twins t) ?_ (twins_self hx hnew hquiet)
    rintro s a s' h ⟨he, hsafe⟩ hs
    exact twins_step h he hs hsafe
  obtain ⟨-, s', hstep, hs'⟩ := run_cons.mp hdel
  cases hs'
  exact throughout_iff (fun _ h => h.toUndisturbed) (fun _ _ _ h => twins_step h)
    (fun _ _ _ h _ => disturbed_step h) hpost (twins_del hq hstep)

instance (t : Timer) (s : TimerHeap × TimerHeap) : ∀ a, Decidable ((twin t).enabled s a)
  | .add_timer _ => inferInstanceAs (Decidable (_ ∉ _))
  | .del_timer _ => inferInstanceAs (Decidable True)
  | .pop => inferInstanceAs (Decidable True)
  | .tick _ => inferInstanceAs (Decidable True)

instance (t : Timer) (s : TimerHeap × TimerHeap) : ∀ a, Decidable (Harmless t s a)
  | .add_timer _ => inferInstanceAs (Decidable True)
  | .del_timer _ => inferInstanceAs (Decidable True)
  | .pop => inferInstanceAs (Decidable (_ ∨ _ ∧ _))
  | .tick _ => inferInstanceAs (Decidable (_ → _ → _))

/-- The timer is deleted, is alone in its heap when it is popped, and the clock passes its `expire`
only then. -/
theorem deletion_harmless : ∃ q s r,
    Run (restrict (twin ⟨1, 0, 9, some 2⟩) (Harmless ⟨1, 0, 9, some 2⟩))
      (TimerHeap.new 4, TimerHeap.new 4)
      [.add_timer ⟨0, 0, 5, some 1⟩, .add_timer ⟨1, 0, 9, some 2⟩] q ∧
    ⟨1, 0, 9, some 2⟩ ∈ timers q.1 ∧
    Run (twin ⟨1, 0, 9, some 2⟩) q [.del_timer (some ⟨1, 0, 9, some 2⟩)] s ∧
    Run (twin ⟨1, 0, 9, some 2⟩) s [.tick 6, .pop, .tick 10] r ∧
    Throughout (twin ⟨1, 0, 9, some 2⟩) (Undisturbed ⟨1, 0, 9, some 2⟩) s
      [.tick 6, .pop, .tick 10] ∧
    r.1.fired = [⟨0, 0, 5, some 1⟩] := by
  have hrun : ∃ q s r,
      Run (restrict (twin ⟨1, 0, 9, some 2⟩) (Harmless ⟨1, 0, 9, some 2⟩))
        (TimerHeap.new 4, TimerHeap.new 4)
        [.add_timer ⟨0, 0, 5, some 1⟩, .add_timer ⟨1, 0, 9, some 2⟩] q ∧
      ⟨1, 0, 9, some 2⟩ ∈ timers q.1 ∧
      Run (twin ⟨1, 0, 9, some 2⟩) q [.del_timer (some ⟨1, 0, 9, some 2⟩)] s ∧
      Run (restrict (twin ⟨1, 0, 9, some 2⟩) (Harmless ⟨1, 0, 9, some 2⟩)) s
        [.tick 6, .pop, .tick 10] r ∧
      Run (twin ⟨1, 0, 9, some 2⟩) s [.tick 6, .pop, .tick 10] r ∧
      r.1.fired = [⟨0, 0, 5, some 1⟩] :=
    ⟨_, _, _, run_iff_exec.mpr rfl, by decide, run_iff_exec.mpr rfl, run_iff_exec.mpr rfl,
      run_iff_exec.mpr rfl, rfl⟩
  obtain ⟨q, s, r, hpre, hmem, hdel, hsafe, hpost, hfired⟩ := hrun
  exact ⟨q, s, r, hpre, hmem, hdel, hpost, (deletion_iff valid_new (by decide) List.not_mem_nil
    hpre hdel hpost).mpr hsafe, hfired⟩

/-- The clock passes the `expire` of a deleted timer, and it fires. -/
theorem deletion_fires : ∃ q s r,
    Run (twin ⟨1, 0, 9, some 2⟩) (TimerHeap.new 4, TimerHeap.new 4)
      [.add_timer ⟨0, 0, 5, some 1⟩, .add_timer ⟨1, 0, 9, some 2⟩] q ∧
    ⟨1, 0, 9, some 2⟩ ∈ timers q.1 ∧
    Run (twin ⟨1, 0, 9, some 2⟩) q [.del_timer (some ⟨1, 0, 9, some 2⟩)] s ∧
    Run (twin ⟨1, 0, 9, some 2⟩) s [.tick 9] r ∧
    ¬Throughout (twin ⟨1, 0, 9, some 2⟩) (Undisturbed ⟨1, 0, 9, some 2⟩) s [.tick 9] := by
  refine ⟨_, _, _, run_iff_exec.mpr rfl, by decide, run_iff_exec.mpr rfl, run_iff_exec.mpr rfl, ?_⟩
  intro h
  have hquiet := (h [.tick 9] [] _ rfl (run_iff_exec.mpr rfl)).quiet
  exact hquiet (by decide)

end ReactorServer.Timers
