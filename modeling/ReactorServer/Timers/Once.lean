import ReactorServer.Timers.Rearming

/-!
# Timers that are fired once

`tick` calls the callback of the first timer and takes out the timer that is first when the callback
has returned.  Each round does so once (`rounds`).  As long as no callback adds a timer that is due
before its own, the two are the same timer; otherwise a timer is deleted that was not fired, or the
one that was fired is fired again (`fired_once_iff`).
-/

namespace ReactorServer.Timers

open ReactorServer.Cpp ReactorServer.Lib.Runs ReactorServer.Lib.BinaryHeap
open TimerHeap

variable {s t : TimerHeap} {u v w : Timer} {i j fuel : ℕ} {p : Option Timer} {cb : Callbacks}
  {cur : ℤ} {as : List Unit}

/-! ### A timer that is not added before the root -/

theorem expireAt_eq_ok {e : ℤ} (h : s.expireAt i = .ok e) (hu : s.array.cell i = some u) :
    e = u.expire := by
  obtain ⟨q, hq, h⟩ := bind_eq_ok.mp h
  obtain ⟨v, hv, h⟩ := bind_eq_ok.mp h
  rw [load_eq_ok hq, hu] at hv
  rw [← Except.ok.inj h, deref_eq_ok hv]

theorem hole_pos {e : ℤ} (h : s.hole e fuel i = .ok (j, t)) (hi : 0 < i)
    (hu : s.array.cell 0 = some u) (hle : u.expire ≤ e) : 0 < j := by
  induction fuel generalizing s i with
  | zero => cases h
  | succ fuel ih =>
    rw [TimerHeap.hole, if_pos hi] at h
    obtain ⟨e', he', h⟩ := bind_eq_ok.mp h
    split_ifs at h with hlater
    · rw [← (Prod.mk.inj (Except.ok.inj h)).1]
      exact hi
    · obtain ⟨q, -, h⟩ := bind_eq_ok.mp h
      obtain ⟨s1, hs, h⟩ := bind_eq_ok.mp h
      rw [store_eq_ok hs] at h
      refine ih h (Nat.pos_of_ne_zero fun h0 => hlater ?_) ((Function.update_of_ne hi.ne _ _).trans hu)
      rw [h0] at he'
      rw [expireAt_eq_ok he' hu]
      exact hle

theorem root_add_late (hs : Valid s) (h0 : 0 < s.cur_size) (hu : s.array.cell 0 = some u)
    (hle : u.expire ≤ v.expire) (h : s.add_timer (some v) = .ok t) : t.array.cell 0 = some u := by
  obtain ⟨s1, j, s2, hresize, hj, rfl⟩ := add_timer_inv h
  obtain ⟨hroot, hsize⟩ := resize_root hs h0 hresize
  have hpos : 0 < j := by
    refine hole_pos hj ?_ (hroot.trans hu) hle
    show 0 < s1.cur_size
    omega
  show Function.update s2.array.cell j (some v) 0 = some u
  rw [Function.update_of_ne hpos.ne, (fired_hole hj).2]
  exact hroot.trans hu

theorem root_addAll_late {ps : List (Option Timer)} (hs : Valid s) (h0 : 0 < s.cur_size)
    (hu : s.array.cell 0 = some u) (hle : ∀ v ∈ ps.reduceOption, u.expire ≤ v.expire)
    (hnew : (ps.reduceOption ++ (timers s ++ s.deleted)).Nodup)
    (h : ps.foldlM (fun s p => s.add_timer p) s = .ok t) : t.array.cell 0 = some u := by
  induction ps generalizing s with
  | nil =>
    rw [← Except.ok.inj h]
    exact hu
  | cons p ps ih =>
    rw [List.foldlM_cons] at h
    obtain ⟨s1, hadd, hrest⟩ := bind_eq_ok.mp h
    cases p with
    | none =>
      rw [Except.ok.inj hadd] at hs h0 hu hnew
      exact ih hs h0 hu hle hnew hrest
    | some v =>
      rw [List.reduceOption_cons_of_some] at hle hnew
      obtain ⟨heff, -⟩ := add_timer_effect hs
        (fun hv => (List.nodup_cons.mp hnew).1 (List.mem_append_right _ hv)) hadd
      refine ih heff.valid (h0.trans_le (heff.size_le hs))
        (root_add_late hs h0 hu (hle v List.mem_cons_self) hadd)
        (fun w hw => hle w (List.mem_cons_of_mem _ hw)) ?_ hrest
      rw [(heff.account.append_left _).nodup_iff]
      exact List.perm_middle.nodup_iff.mpr hnew

/-! ### Patience -/

/-- The callback of the first timer adds none that is due before it. -/
def Patient (cb : Callbacks) (s : TimerHeap) (_ : Unit) : Prop :=
  ∀ u ∈ s.array.cell 0, ∀ v ∈ additions cb s, u.expire ≤ v.expire

instance (cb : Callbacks) (s : TimerHeap) (a : Unit) : Decidable (Patient cb s a) :=
  inferInstanceAs (Decidable (∀ u ∈ s.array.cell 0, _))

/-- The timers that have been deleted since. -/
def gone (s t : TimerHeap) : List Timer := t.deleted.drop s.deleted.length

/-- **Every timer that has been deleted was fired once**, if it has a callback, and none was fired
twice. -/
structure FiredOnce (s t : TimerHeap) : Prop where
  gone : ∀ u ∈ gone s t, calls u → (newly s t).count u = 1
  once : ∀ u, (newly s t).count u ≤ 1

/-! ### One round -/

theorem call_root_late {s' : TimerHeap} (h : Valid s) (h0 : 0 < s.cur_size)
    (hu : s.array.cell 0 = some u)
    (hle : ∀ v ∈ (rearmed cb s.fired ([u].filter calls)).reduceOption, u.expire ≤ v.expire)
    (hnew : ((rearmed cb s.fired ([u].filter calls)).reduceOption ++
      (timers s ++ s.deleted)).Nodup) (ht : s.call cb u = .ok s') : s'.array.cell 0 = some u := by
  unfold TimerHeap.call at ht
  by_cases hcb : u.cb_func = none
  · rw [if_pos hcb] at ht
    rw [← Except.ok.inj ht]
    exact hu
  · have hsome : [u].filter calls = [u] := by simp [calls, Option.isSome_iff_ne_none, hcb]
    have hcb' : rearmed cb s.fired [u] = cb s.fired u := List.append_nil _
    rw [hsome, hcb'] at hle hnew
    rw [if_neg hcb] at ht
    exact root_addAll_late (h.fired (s.fired ++ [u])) h0 hu hle hnew ht

/-- A patient callback leaves its timer at the root, and this is the one taken out. -/
theorem Round.patient (h : Valid s) (he : (rounds cb cur).enabled s ()) (hr : Round cb cur u w s t)
    (hp : Patient cb s ()) : w = u := by
  obtain ⟨s', hcall, hw⟩ := hr.called
  have hadd := additions_eq cb hr.root
  have hlate := hp u hr.root
  have hnew := he.2
  rw [hadd] at hlate hnew
  have hroot := call_root_late h hr.pos hr.root hlate hnew hcall
  rw [hw] at hroot
  exact Option.some.inj hroot

/-- What an impatient callback leaves at the root is due before its timer, and new. -/
theorem Round.impatient (hr : Round cb cur u w s t) (hp : ¬Patient cb s ()) :
    calls u ∧ w ≠ u ∧ w ∈ additions cb s := by
  simp only [Patient, not_forall, not_le] at hp
  obtain ⟨u', hu', v, hv, hlt⟩ := hp
  obtain rfl := Option.some.inj (hr.root.symm.trans hu')
  have hfirst := hr.first v (List.mem_append_left _ hv)
  have hne : w ≠ u := by
    rintro rfl
    omega
  refine ⟨?_, hne, hr.out.resolve_right hne⟩
  by_contra hcalls
  rw [additions_eq cb hr.root, List.filter_cons_of_neg hcalls] at hv
  exact List.not_mem_nil hv

/-! ### The whole tick -/

theorem gone_eq {ins outs called : List Timer} (h : Effect ins outs called s t) :
    gone s t = outs := by
  unfold gone
  rw [h.deleted, List.drop_left]

theorem patient_run (h : Valid s) (hrun : Run (restrict (rounds cb cur) (Patient cb)) s as t) :
    ∃ ins outs, Effect ins outs (outs.filter calls) s t := by
  refine hrun.invariant (I := fun t => ∃ ins outs, Effect ins outs (outs.filter calls) s t) ?_
    ⟨[], [], h.effect⟩
  rintro t ⟨⟩ t' ⟨ins, outs, heff⟩ ⟨he, hp⟩ hs
  obtain ⟨u, w, hr⟩ := round_spec heff.valid he hs
  obtain rfl := hr.patient heff.valid he hp
  have htrans := heff.trans hr.effect
  rw [← List.filter_append] at htrans
  exact ⟨_, _, htrans⟩

theorem FiredOnce.of_effect {ins outs : List Timer} (h : Effect ins outs (outs.filter calls) s t) :
    FiredOnce s t := by
  have hnodup : outs.Nodup := by
    have hall := h.valid.nodup
    rw [h.deleted] at hall
    exact (List.nodup_append.mp (List.nodup_append.mp hall).2.1).2.1
  refine ⟨fun u hu hcalls => ?_, fun u => ?_⟩
  · rw [gone_eq h] at hu
    rw [newly_eq h]
    exact List.count_eq_one_of_mem (hnodup.filter _) (List.mem_filter.mpr ⟨hu, hcalls⟩)
  · rw [newly_eq h]
    exact List.nodup_iff_count_le_one.mp (hnodup.filter _) u

/-- A round that is not patient leaves a timer unfired, or fires one again before the tick ends. -/
theorem not_firedOnce {s1 : TimerHeap} {ins outs called : List Timer}
    (hr : Round cb cur u w s s1) (hp : ¬Patient cb s ()) (hrest : Swept cur ins outs called s1 t) : ¬FiredOnce s t := by
  obtain ⟨hcalls, hne, hw⟩ := hr.impatient hp
  have heff := hr.effect.trans hrest.effect
  have hnewly : newly s t = u :: called := by
    rw [newly_eq heff, List.filter_cons_of_pos hcalls]
    rfl
  intro honce
  by_cases hwc : calls w = true
  · -- the timer taken out has a callback, and nobody called it
    have hgone : w ∈ gone s t := by
      rw [gone_eq heff]
      exact List.mem_append_left _ (List.mem_singleton_self w)
    have hcount := honce.gone w hgone hwc
    rw [hnewly, List.count_cons_of_ne (Ne.symm hne)] at hcount
    have hmem : w ∈ called := List.count_pos_iff.mp (by omega)
    have hdel : w ∈ s1.deleted := by
      rw [hr.effect.deleted]
      exact List.mem_append_right _ (List.mem_singleton_self w)
    have hall := hrest.effect.valid.nodup
    rw [hrest.effect.deleted] at hall
    exact (List.nodup_append.mp (List.nodup_append.mp hall).2.1).2.2 w hdel w (hrest.out w hmem) rfl
  · -- the timer that was called is in the heap, and is called once more
    have hmem : u ∈ timers s1 := by
      have hall : u ∈ timers s1 ++ [w] := by
        rw [hr.effect.timers.mem_iff]
        exact List.mem_append_right _ (mem_timers.mpr ⟨0, hr.pos, hr.root⟩)
      exact (List.mem_append.mp hall).resolve_right fun h' => hne (List.mem_singleton.mp h').symm
    have hout : u ∈ outs := by
      have hall : u ∈ timers t ++ outs := by
        rw [hrest.effect.timers.mem_iff]
        exact List.mem_append_right _ hmem
      refine (List.mem_append.mp hall).resolve_left fun hleft => ?_
      have h1 := hrest.future u hleft
      have h2 := hr.due
      omega
    have hcount := honce.once u
    have hpos := List.count_pos_iff.mpr (hrest.invoked u hmem hout hcalls)
    rw [hnewly, List.count_cons_self] at hcount
    omega

theorem FiredOnce.tail {s1 : TimerHeap} {ins outs called : List Timer} (h : FiredOnce s t)
    (hr : Round cb cur u u s s1) (hrest : Effect ins outs called s1 t) : FiredOnce s1 t := by
  have heff := hr.effect.trans hrest
  have hnewly := newly_eq heff
  constructor
  · intro v hv hcalls
    rw [gone_eq hrest] at hv
    have hvu : v ≠ u := by
      rintro rfl
      have hdel : v ∈ s1.deleted := by
        rw [hr.effect.deleted]
        exact List.mem_append_right _ (List.mem_singleton_self v)
      have hall := hrest.valid.nodup
      rw [hrest.deleted] at hall
      exact (List.nodup_append.mp (List.nodup_append.mp hall).2.1).2.2 v hdel v hv rfl
    have hcount := h.gone v (by rw [gone_eq heff]; exact List.mem_append_right _ hv) hcalls
    have hnone : ([u].filter calls).count v = 0 :=
      List.count_eq_zero.mpr fun h' => hvu (List.mem_singleton.mp (List.mem_filter.mp h').1)
    rw [hnewly, List.count_append, hnone, Nat.zero_add] at hcount
    rw [newly_eq hrest]
    exact hcount
  · intro v
    have hcount := h.once v
    rw [hnewly, List.count_append] at hcount
    rw [newly_eq hrest]
    omega

theorem patient_of_firedOnce (h : Valid s) (hrun : Run (rounds cb cur) s as t)
    (hdone : ¬Due cur t) (honce : FiredOnce s t) :
    Run (restrict (rounds cb cur) (Patient cb)) s as t := by
  induction hrun with
  | nil s => exact .nil s
  | @cons s s1 t a as he hs hrun ih =>
    obtain ⟨u, w, hr⟩ := round_spec h he hs
    obtain ⟨outs, called, hrest⟩ := swept_rounds hr.effect.valid hrun hdone
    have hp : Patient cb s () := by
      by_contra hp
      exact not_firedOnce hr hp hrest honce
    obtain rfl := hr.patient h he hp
    exact .cons ⟨he, hp⟩ hs (ih hr.effect.valid hdone (honce.tail hr hrest.effect))

/-- **When a tick fires every timer once.**  As long as no callback adds a timer that is due before
its own, every timer that has been deleted was fired once, in each state of the tick.  In a tick that
ends, it was not if one did. -/
theorem fired_once_iff (h : Valid s) :
    (∀ as t, Run (restrict (rounds cb cur) (Patient cb)) s as t → FiredOnce s t) ∧
    ∀ fuel t, s.tick cb cur fuel = .ok t →
      ((rearmed cb s.fired (newly s t)).reduceOption ++ (timers s ++ s.deleted)).Nodup →
      (FiredOnce s t ↔ ∃ as, Run (restrict (rounds cb cur) (Patient cb)) s as t) := by
  have hpatient : ∀ as t, Run (restrict (rounds cb cur) (Patient cb)) s as t → FiredOnce s t := by
    intro as t hrun
    obtain ⟨ins, outs, heff⟩ := patient_run h hrun
    exact .of_effect heff
  refine ⟨hpatient, fun fuel t ht hnew => ⟨fun honce => ?_, fun ⟨as, hrun⟩ => hpatient as t hrun⟩⟩
  obtain ⟨as, hrun, hdone⟩ := tick_rounds h ht hnew
  exact ⟨as, patient_of_firedOnce h hrun hdone honce⟩

/-- A callback adds a timer that is due at the same time as its own, and one that is due later. -/
def later : Callbacks := fun fired _ =>
  if fired = [] then [some ⟨1, 0, 5, some 1⟩, some ⟨2, 0, 9, none⟩] else []

theorem fired_once_later : ∃ s t, (TimerHeap.new 1).add_timer (some ⟨0, 0, 5, some 1⟩) = .ok s ∧
    s.tick later 7 3 = .ok t ∧ t.fired = [⟨0, 0, 5, some 1⟩, ⟨1, 0, 5, some 1⟩] ∧
    (timers t).length = 1 ∧ FiredOnce s t := by
  obtain ⟨s, hs, t, ht, hfired, hlen, hnew, hrun⟩ : ∃ s,
      (TimerHeap.new 1).add_timer (some ⟨0, 0, 5, some 1⟩) = .ok s ∧ ∃ t, s.tick later 7 3 = .ok t ∧
        t.fired = [⟨0, 0, 5, some 1⟩, ⟨1, 0, 5, some 1⟩] ∧ (timers t).length = 1 ∧
        ((rearmed later s.fired (newly s t)).reduceOption ++ (timers s ++ s.deleted)).Nodup ∧
        Run (restrict (rounds later 7) (Patient later)) s [(), ()] t :=
    ⟨_, rfl, _, rfl, rfl, rfl, by decide, run_iff_exec.mpr rfl⟩
  have hvalid : Valid s := (add_timer_effect valid_new List.not_mem_nil hs).1.valid
  exact ⟨s, t, hs, ht, hfired, hlen, ((fired_once_iff hvalid).2 3 t ht hnew).mpr ⟨_, hrun⟩⟩

/-- A callback adds a timer that is due before its own. -/
def earlier : Callbacks := fun fired _ => if fired = [] then [some ⟨1, 0, 3, some 1⟩] else []

/-- The new timer is deleted, and the other one is fired again. -/
theorem not_fired_once : ∃ s t, (TimerHeap.new 1).add_timer (some ⟨0, 0, 5, some 1⟩) = .ok s ∧
    Valid s ∧ s.tick earlier 7 3 = .ok t ∧
    ((rearmed earlier s.fired (newly s t)).reduceOption ++ (timers s ++ s.deleted)).Nodup ∧
    t.fired = [⟨0, 0, 5, some 1⟩, ⟨0, 0, 5, some 1⟩] ∧
    t.deleted = [⟨1, 0, 3, some 1⟩, ⟨0, 0, 5, some 1⟩] ∧ ¬FiredOnce s t := by
  obtain ⟨s, hs, t, ht, hnew, hfired, hdeleted, hcount⟩ : ∃ s,
      (TimerHeap.new 1).add_timer (some ⟨0, 0, 5, some 1⟩) = .ok s ∧ ∃ t, s.tick earlier 7 3 = .ok t ∧
        ((rearmed earlier s.fired (newly s t)).reduceOption ++ (timers s ++ s.deleted)).Nodup ∧
        t.fired = [⟨0, 0, 5, some 1⟩, ⟨0, 0, 5, some 1⟩] ∧
        t.deleted = [⟨1, 0, 3, some 1⟩, ⟨0, 0, 5, some 1⟩] ∧
        (newly s t).count ⟨0, 0, 5, some 1⟩ = 2 :=
    ⟨_, rfl, _, rfl, by decide, rfl, rfl, rfl⟩
  have hvalid : Valid s := (add_timer_effect valid_new List.not_mem_nil hs).1.valid
  refine ⟨s, t, hs, hvalid, ht, hnew, hfired, hdeleted, fun honce => ?_⟩
  have := honce.once ⟨0, 0, 5, some 1⟩
  omega

end ReactorServer.Timers
