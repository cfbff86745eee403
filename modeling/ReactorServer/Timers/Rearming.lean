import ReactorServer.Timers.Representation
import Mathlib.Data.List.ReduceOption

/-!
# Ticks whose callbacks add timers

A callback may add timers to the heap it is called from, and one that is due earlier than the timer
being fired becomes the root: `pop` then takes it out in place of that timer.  What holds of such a
tick all the same, if it ends, is `Swept`: every timer that was in the heap when it began, and is
due, is called and taken out, and no timer is that is not due.
-/

namespace ReactorServer.Timers

open ReactorServer.Cpp ReactorServer.Lib.Runs ReactorServer.Lib.BinaryHeap
open TimerHeap

variable {s t : TimerHeap} {u v : Timer} {i j hole fuel : ℕ} {p : Option Timer} {cb : Callbacks}
  {cur : ℤ}

/-! ### Which operations call nothing -/

theorem store_eq_ok (h : s.store i p = .ok t) : t = put i p s := by
  by_cases hi : i < s.array.length
  · exact Except.ok.inj (h.symm.trans (store_of_lt hi))
  · rw [store_of_ge (not_lt.mp hi)] at h
    cases h

theorem load_eq_ok {a : Cells} (h : a.load i = .ok p) : p = a.cell i := by
  unfold Cells.load at h
  split_ifs at h
  exact (Except.ok.inj h).symm

theorem deref_eq_ok (h : s.deref (some u) = .ok v) : v = u := by
  have h' : (if u ∈ s.deleted then Except.error Fault.outOfBounds else .ok u) = .ok v := h
  split_ifs at h'
  exact (Except.ok.inj h').symm

theorem fired_store (h : s.store i p = .ok t) : t.fired = s.fired := by
  rw [store_eq_ok h]
  rfl

theorem fired_swap (h : s.swap i j = .ok t) : t.fired = s.fired := by
  obtain ⟨p, -, h⟩ := bind_eq_ok.mp h
  obtain ⟨q, -, h⟩ := bind_eq_ok.mp h
  obtain ⟨s', hs, h⟩ := bind_eq_ok.mp h
  rw [fired_store h, fired_store hs]

theorem fired_percolate {child : ℕ} (h : percolate fuel hole child s = .ok t) :
    t.fired = s.fired := by
  induction fuel generalizing s hole child with
  | zero => cases h
  | succ fuel ih =>
    rw [percolate] at h
    split_ifs at h
    · obtain ⟨c, -, h⟩ := bind_eq_ok.mp h
      obtain ⟨e, -, h⟩ := bind_eq_ok.mp h
      obtain ⟨e', -, h⟩ := bind_eq_ok.mp h
      split_ifs at h
      · obtain ⟨s', hs, h⟩ := bind_eq_ok.mp h
        obtain ⟨c', -, h⟩ := bind_eq_ok.mp h
        rw [ih h, fired_swap hs]
      · rw [Except.ok.inj h]
    · rw [Except.ok.inj h]

theorem fired_hole {e : ℤ} {s' : TimerHeap} (h : s.hole e fuel i = .ok (j, s')) :
    s'.fired = s.fired ∧ s'.array.cell 0 = s.array.cell 0 := by
  induction fuel generalizing s i with
  | zero => cases h
  | succ fuel ih =>
    rw [TimerHeap.hole] at h
    split_ifs at h with hpos
    · obtain ⟨e', -, h⟩ := bind_eq_ok.mp h
      split_ifs at h
      · obtain ⟨rfl, rfl⟩ := Prod.mk.inj (Except.ok.inj h)
        exact ⟨rfl, rfl⟩
      · obtain ⟨q, -, h⟩ := bind_eq_ok.mp h
        obtain ⟨s1, hs, h⟩ := bind_eq_ok.mp h
        obtain ⟨h1, h2⟩ := ih h
        rw [store_eq_ok hs] at h1 h2
        exact ⟨h1, h2.trans (Function.update_of_ne hpos.ne _ _)⟩
    · obtain ⟨rfl, rfl⟩ := Prod.mk.inj (Except.ok.inj h)
      exact ⟨rfl, rfl⟩

theorem fired_resize (h : s.resize = .ok t) : t.fired = s.fired := by
  obtain ⟨c, -, h⟩ := bind_eq_ok.mp h
  obtain ⟨a, -, h⟩ := bind_eq_ok.mp h
  rw [← Except.ok.inj h]

/-- `add_timer` makes room, makes a hole and fills it. -/
theorem add_timer_inv (h : s.add_timer (some u) = .ok t) :
    ∃ s1 j s2, (s.resize = .ok s1 ∨ s1 = s) ∧
      { s1 with cur_size := s1.cur_size + 1 }.hole u.expire (s1.cur_size + 1) s1.cur_size =
        .ok (j, s2) ∧ t = put j (some u) s2 := by
  unfold TimerHeap.add_timer at h
  rw [if_neg nofun] at h
  split_ifs at h
  all_goals
    obtain ⟨s1, hs, h⟩ := bind_eq_ok.mp h
    obtain ⟨w, hw, h⟩ := bind_eq_ok.mp h
    obtain ⟨⟨j, s2⟩, hj, h⟩ := bind_eq_ok.mp h
    obtain rfl := deref_eq_ok hw
    refine ⟨s1, j, s2, ?_, hj, store_eq_ok h⟩
  · exact Or.inl hs
  · exact Or.inr (Except.ok.inj hs).symm

theorem fired_add_timer (h : s.add_timer p = .ok t) : t.fired = s.fired := by
  cases p with
  | none => rw [Except.ok.inj h]
  | some u =>
    obtain ⟨s1, j, s2, hs, hj, rfl⟩ := add_timer_inv h
    have hfired : s2.fired = s1.fired := (fired_hole hj).1
    show s2.fired = s.fired
    rw [hfired]
    rcases hs with hs | rfl
    · exact fired_resize hs
    · rfl

theorem resize_root {s1 : TimerHeap} (hs : Valid s) (h0 : 0 < s.cur_size)
    (h : s.resize = .ok s1 ∨ s1 = s) :
    s1.array.cell 0 = s.array.cell 0 ∧ s1.cur_size = s.cur_size := by
  rcases h with h | rfl
  · by_cases hcap : s.capacity < 2 ^ 30
    · obtain rfl := Except.ok.inj ((resize_eq hs.length hs.size hcap).symm.trans h)
      exact ⟨if_pos h0, rfl⟩
    · rw [resize_overflow (not_lt.mp hcap)] at h
      cases h
  · exact ⟨rfl, rfl⟩

/-- The new timer becomes the root, or the root stays. -/
theorem root_add_timer (hs : Valid s) (h0 : 0 < s.cur_size) (h : s.add_timer (some u) = .ok t) :
    t.array.cell 0 = some u ∨ t.array.cell 0 = s.array.cell 0 := by
  obtain ⟨s1, j, s2, hresize, hj, rfl⟩ := add_timer_inv h
  have hroot : s2.array.cell 0 = s1.array.cell 0 := (fired_hole hj).2
  by_cases hj0 : j = 0
  · left
    show Function.update s2.array.cell j (some u) 0 = some u
    rw [hj0, Function.update_self]
  · right
    show Function.update s2.array.cell j (some u) 0 = s.array.cell 0
    rw [Function.update_of_ne (Ne.symm hj0), hroot]
    exact (resize_root hs h0 hresize).1

theorem fired_delete (h : s.delete p = .ok t) : t.fired = s.fired := by
  cases p with
  | none => rw [Except.ok.inj h]
  | some u =>
    have h' : (if u ∈ s.deleted then Except.error Fault.outOfBounds
        else .ok { s with deleted := s.deleted ++ [u] }) = .ok t := h
    split_ifs at h'
    rw [← Except.ok.inj h']

theorem fired_pop (h : s.pop = .ok t) : t.fired = s.fired := by
  unfold TimerHeap.pop at h
  split_ifs at h
  · rw [Except.ok.inj h]
  obtain ⟨q, -, h⟩ := bind_eq_ok.mp h
  split_ifs at h
  · rw [Except.ok.inj h]
  obtain ⟨s1, hdelete, h⟩ := bind_eq_ok.mp h
  obtain ⟨r, -, h⟩ := bind_eq_ok.mp h
  obtain ⟨s2, hs, h⟩ := bind_eq_ok.mp h
  obtain ⟨c, -, h⟩ := bind_eq_ok.mp h
  have hfired : s1.fired = s.fired := fired_delete hdelete
  rw [fired_percolate h, fired_store hs]
  exact hfired

/-! ### Callbacks -/

theorem fired_addAll {ps : List (Option Timer)}
    (h : ps.foldlM (fun s p => s.add_timer p) s = .ok t) : t.fired = s.fired := by
  induction ps generalizing s with
  | nil => rw [Except.ok.inj h]
  | cons p ps ih =>
    rw [List.foldlM_cons] at h
    obtain ⟨s1, hs, h⟩ := bind_eq_ok.mp h
    rw [ih h, fired_add_timer hs]

theorem fired_call (h : s.call cb u = .ok t) : t.fired = s.fired ++ [u].filter calls := by
  unfold TimerHeap.call at h
  by_cases hu : u.cb_func = none
  · have hnone : [u].filter calls = [] := by simp [calls, hu]
    rw [if_pos hu] at h
    rw [hnone, List.append_nil, Except.ok.inj h]
  · have hsome : [u].filter calls = [u] := by simp [calls, Option.isSome_iff_ne_none, hu]
    rw [if_neg hu] at h
    rw [hsome, fired_addAll h]

theorem fired_tickLoop (h : tickLoop cb cur fuel p s = .ok t) :
    ∃ called, t.fired = s.fired ++ called := by
  induction fuel generalizing s p with
  | zero => cases h
  | succ fuel ih =>
    have hnone : s = t → ∃ called, t.fired = s.fired ++ called := by
      rintro rfl
      exact ⟨[], (List.append_nil _).symm⟩
    rw [tickLoop] at h
    split_ifs at h
    · exact hnone (Except.ok.inj h)
    · exact hnone (Except.ok.inj h)
    obtain ⟨u, -, h⟩ := bind_eq_ok.mp h
    split_ifs at h
    · exact hnone (Except.ok.inj h)
    obtain ⟨q, -, h⟩ := bind_eq_ok.mp h
    obtain ⟨v, -, h⟩ := bind_eq_ok.mp h
    obtain ⟨s1, hcall, h⟩ := bind_eq_ok.mp h
    obtain ⟨s2, hpop, h⟩ := bind_eq_ok.mp h
    obtain ⟨r, -, h⟩ := bind_eq_ok.mp h
    obtain ⟨called, hcalled⟩ := ih h
    exact ⟨[v].filter calls ++ called, by
      rw [hcalled, fired_pop hpop, fired_call hcall, List.append_assoc]⟩

/-! ### What a tick does -/

/-- What the callbacks add, when those of `called` are called after those of `fired`. -/
def rearmed (cb : Callbacks) : List Timer → List Timer → List (Option Timer)
  | _, [] => []
  | fired, u :: called => cb fired u ++ rearmed cb (fired ++ [u]) called

theorem rearmed_append (fired called called' : List Timer) :
    rearmed cb fired (called ++ called') =
      rearmed cb fired called ++ rearmed cb (fired ++ called) called' := by
  induction called generalizing fired with
  | nil => rw [List.append_nil]; rfl
  | cons u called ih =>
    rw [List.cons_append, rearmed, rearmed, ih, List.append_assoc, List.append_assoc]
    rfl

theorem Effect.perm {ins ins' outs called : List Timer} (h : Effect ins outs called s t)
    (hins : ins.Perm ins') : Effect ins' outs called s t :=
  ⟨h.valid, h.timers.trans (hins.append_right _), h.deleted, h.fired⟩

theorem Valid.length_timers (h : Valid s) : (timers s).length = s.cur_size := by
  have hmap := map_eq_map_some fun i hi => h.cell i (List.mem_range.mp hi)
  have hlen := congrArg List.length hmap
  rw [List.length_map, List.length_map, List.length_range] at hlen
  exact hlen.symm

theorem Effect.size_le {ins called : List Timer} (h : Effect ins [] called s t) (hs : Valid s) :
    s.cur_size ≤ t.cur_size := by
  have hlen := h.timers.length_eq
  rw [List.append_nil, List.length_append, h.valid.length_timers, hs.length_timers] at hlen
  omega

/-- The timers that are put in stand at the root, or the root stays. -/
theorem addAll_effect {ps : List (Option Timer)} (h : Valid s) (h0 : 0 < s.cur_size)
    (hnew : (ps.reduceOption ++ (timers s ++ s.deleted)).Nodup)
    (ht : ps.foldlM (fun s p => s.add_timer p) s = .ok t) :
    Effect ps.reduceOption [] [] s t ∧
      ((∃ w ∈ ps.reduceOption, t.array.cell 0 = some w) ∨ t.array.cell 0 = s.array.cell 0) := by
  induction ps generalizing s with
  | nil =>
    rw [Except.ok.inj ht] at h ⊢
    exact ⟨h.effect, Or.inr rfl⟩
  | cons p ps ih =>
    rw [List.foldlM_cons] at ht
    obtain ⟨s1, hs, hrest⟩ := bind_eq_ok.mp ht
    cases p with
    | none =>
      rw [Except.ok.inj hs] at h h0 hnew ⊢
      exact ih h h0 hnew hrest
    | some u =>
      rw [List.reduceOption_cons_of_some] at hnew ⊢
      obtain ⟨heff, -⟩ := add_timer_effect h
        (fun hu => (List.nodup_cons.mp hnew).1 (List.mem_append_right _ hu)) hs
      have hnew' : (ps.reduceOption ++ (timers s1 ++ s1.deleted)).Nodup := by
        rw [(heff.account.append_left _).nodup_iff]
        exact List.perm_middle.nodup_iff.mpr hnew
      have h0' : 0 < s1.cur_size := h0.trans_le (heff.size_le h)
      obtain ⟨h1, h2⟩ := ih heff.valid h0' hnew' hrest
      refine ⟨(heff.trans h1).perm ?_, ?_⟩
      · exact List.perm_append_comm
      · rcases h2 with ⟨w, hw, hroot⟩ | hroot
        · exact Or.inl ⟨w, List.mem_cons_of_mem _ hw, hroot⟩
        · rw [hroot]
          rcases root_add_timer h h0 hs with hu | hu
          · exact Or.inl ⟨u, List.mem_cons_self, hu⟩
          · exact Or.inr hu

/-- A callback is called with its timer at the root, and one of those it adds may take the place. -/
theorem call_effect (h : Valid s) (h0 : 0 < s.cur_size) (hu : s.array.cell 0 = some u)
    (hnew : ((rearmed cb s.fired ([u].filter calls)).reduceOption ++
      (timers s ++ s.deleted)).Nodup) (ht : s.call cb u = .ok t) :
    Effect (rearmed cb s.fired ([u].filter calls)).reduceOption [] ([u].filter calls) s t ∧
      ∃ w, t.array.cell 0 = some w ∧
        (w ∈ (rearmed cb s.fired ([u].filter calls)).reduceOption ∨ w = u) := by
  unfold TimerHeap.call at ht
  by_cases hcb : u.cb_func = none
  · have hnone : [u].filter calls = [] := by simp [calls, hcb]
    rw [if_pos hcb] at ht
    rw [hnone, ← Except.ok.inj ht]
    exact ⟨h.effect, u, hu, Or.inr rfl⟩
  · have hsome : [u].filter calls = [u] := by simp [calls, Option.isSome_iff_ne_none, hcb]
    have hcb' : rearmed cb s.fired [u] = cb s.fired u := List.append_nil _
    rw [hsome, hcb'] at hnew ⊢
    rw [if_neg hcb] at ht
    obtain ⟨heff, hroot⟩ := addAll_effect (h.fired (s.fired ++ [u])) h0 hnew ht
    refine ⟨⟨heff.valid, heff.timers, heff.deleted, ?_⟩, ?_⟩
    · rw [heff.fired, List.append_nil]
    · rcases hroot with ⟨w, hw, hroot⟩ | hroot
      · exact ⟨w, hroot, Or.inl hw⟩
      · exact ⟨u, hroot.trans hu, Or.inr rfl⟩

/-- **What a tick does whatever its callbacks add**: it puts in `ins`, takes out `outs`, all of them
due, and none that is due is left.  Of the timers that were there when it began it calls all that it
takes out. -/
structure Swept (cur : ℤ) (ins outs called : List Timer) (s t : TimerHeap) : Prop where
  effect : Effect ins outs called s t
  past : ∀ u ∈ outs, u.expire ≤ cur
  future : ∀ u ∈ timers t, cur < u.expire
  out : ∀ u ∈ called, u ∈ outs
  invoked : ∀ u ∈ timers s, u ∈ outs → calls u → u ∈ called

/-- One round: a timer is called, and it or one that it has added is taken out. -/
theorem round_effect {s' : TimerHeap} (h : Valid s) (h0 : 0 < s.cur_size)
    (hu : s.array.cell 0 = some u)
    (hnew : ((rearmed cb s.fired ([u].filter calls)).reduceOption ++
      (timers s ++ s.deleted)).Nodup)
    (hcall : s.call cb u = .ok s') (hpop : s'.pop = .ok t) :
    ∃ w, s'.array.cell 0 = some w ∧
      Effect (rearmed cb s.fired ([u].filter calls)).reduceOption [w] ([u].filter calls) s t ∧
      (∀ v ∈ (rearmed cb s.fired ([u].filter calls)).reduceOption ++ [u], w.expire ≤ v.expire) ∧
      (w ∈ (rearmed cb s.fired ([u].filter calls)).reduceOption ∨ w = u) := by
  obtain ⟨heff, w, hw, hwu⟩ := call_effect h h0 hu hnew hcall
  have h0' : 0 < s'.cur_size := h0.trans_le (heff.size_le h)
  obtain ⟨t', hpop', heff', -⟩ := (pop_effect heff.valid hw h0').resolve_right fun hover => by
    rw [hpop] at hover
    cases hover.1
  obtain rfl := Except.ok.inj (hpop'.symm.trans hpop)
  have htrans := heff.trans heff'
  rw [List.append_nil] at htrans
  refine ⟨w, hw, htrans, fun v hv => heff.valid.root_le hw ?_, hwu⟩
  rw [← List.append_nil (timers s'), heff.timers.mem_iff]
  rcases List.mem_append.mp hv with hv | hv
  · exact List.mem_append_left _ hv
  · rw [List.mem_singleton.mp hv]
    exact List.mem_append_right _ (mem_timers.mpr ⟨0, h0, hu⟩)

/-- A round, and the rest of the tick. -/
theorem Swept.round {s' : TimerHeap} {w : Timer} {ins ins' outs called : List Timer}
    (h : Swept cur ins' outs called s' t) (hround : Effect ins [w] ([u].filter calls) s s')
    (hu : u ∈ timers s) (hdue : u.expire ≤ cur) (hle : w.expire ≤ u.expire)
    (hw : w ∈ ins ∨ w = u) (hnew : ∀ v ∈ ins, v ∉ timers s) :
    Swept cur (ins ++ ins') (w :: outs) ([u].filter calls ++ called) s t where
  effect := (hround.trans h.effect).perm List.perm_append_comm
  past := by
    intro v hv
    rcases List.mem_cons.mp hv with rfl | hv
    · exact hle.trans hdue
    · exact h.past v hv
  future := h.future
  out := by
    have hout : ∀ v ∈ timers s, v.expire ≤ cur → v ∈ w :: outs := by
      intro v hv hvdue
      have hmem : v ∈ timers t ++ ([w] ++ outs) := by
        rw [(hround.trans h.effect).timers.mem_iff]
        exact List.mem_append_right _ hv
      refine (List.mem_append.mp hmem).resolve_left fun hleft => ?_
      have := h.future v hleft
      omega
    intro v hv
    rcases List.mem_append.mp hv with hv | hv
    · obtain rfl := List.mem_singleton.mp (List.mem_filter.mp hv).1
      exact hout v hu hdue
    · exact List.mem_cons_of_mem _ (h.out v hv)
  invoked := by
    intro v hv hout hcalls
    by_cases hvu : v = u
    · rw [hvu] at hcalls ⊢
      exact List.mem_append_left _ (List.mem_filter.mpr ⟨List.mem_singleton_self u, hcalls⟩)
    · have hvw : v ≠ w := by
        rintro rfl
        exact hnew v (hw.resolve_right hvu) hv
      have hv' : v ∈ timers s' := by
        have hmem : v ∈ timers s' ++ [w] := by
          rw [hround.timers.mem_iff]
          exact List.mem_append_right _ hv
        exact (List.mem_append.mp hmem).resolve_right fun h' => hvw (List.mem_singleton.mp h')
      exact List.mem_append_right _
        (h.invoked v hv' ((List.mem_cons.mp hout).resolve_left hvw) hcalls)

/-! ### The rounds of a tick -/

/-- The first timer is due. -/
def Due (cur : ℤ) (s : TimerHeap) : Prop :=
  0 < s.cur_size ∧ ∃ u ∈ s.array.cell 0, u.expire ≤ cur

/-- What the callback of the first timer adds. -/
def additions (cb : Callbacks) (s : TimerHeap) : List Timer :=
  match s.array.cell 0 with
  | none => []
  | some u => (rearmed cb s.fired ([u].filter calls)).reduceOption

/-- A round of `tick`. -/
def round (cb : Callbacks) (s : TimerHeap) : Except Fault TimerHeap := do
  let first ← s.deref (← s.array.load 0)
  let s ← s.call cb first
  s.pop

/-- The rounds of a tick, in which every timer that is added is a new one. -/
def rounds (cb : Callbacks) (cur : ℤ) : Machine TimerHeap Unit Fault where
  enabled s _ := Due cur s ∧ (additions cb s ++ (timers s ++ s.deleted)).Nodup
  step s _ := round cb s

instance (cb : Callbacks) (cur : ℤ) (s : TimerHeap) (a : Unit) :
    Decidable ((rounds cb cur).enabled s a) :=
  inferInstanceAs (Decidable ((0 < s.cur_size ∧ ∃ u ∈ s.array.cell 0, _) ∧ List.Nodup _))

theorem additions_eq (cb : Callbacks) (hu : s.array.cell 0 = some u) :
    additions cb s = (rearmed cb s.fired ([u].filter calls)).reduceOption := by
  unfold additions
  rw [hu]

/-- What a round does: it calls `u` and takes out `w`, which is `u` or one that `u` has added. -/
structure Round (cb : Callbacks) (cur : ℤ) (u w : Timer) (s t : TimerHeap) : Prop where
  root : s.array.cell 0 = some u
  pos : 0 < s.cur_size
  due : u.expire ≤ cur
  effect : Effect (additions cb s) [w] ([u].filter calls) s t
  first : ∀ v ∈ additions cb s ++ [u], w.expire ≤ v.expire
  out : w ∈ additions cb s ∨ w = u
  called : ∃ s', s.call cb u = .ok s' ∧ s'.array.cell 0 = some w

theorem round_spec (h : Valid s) (he : (rounds cb cur).enabled s ()) (hs : round cb s = .ok t) :
    ∃ u w, Round cb cur u w s t := by
  obtain ⟨⟨h0, u, hu, hdue⟩, hnew⟩ := he
  have hu' : s.array.cell 0 = some u := hu
  obtain ⟨p, hp, hs⟩ := bind_eq_ok.mp hs
  obtain ⟨v, hv, hs⟩ := bind_eq_ok.mp hs
  obtain ⟨s', hcall, hpop⟩ := bind_eq_ok.mp hs
  rw [load_eq_ok hp, hu'] at hv
  obtain rfl := deref_eq_ok hv
  have hadd := additions_eq cb hu'
  obtain ⟨w, hw, heff, hfirst, hout⟩ := round_effect h h0 hu' (hadd ▸ hnew) hcall hpop
  rw [← hadd] at heff hfirst hout
  exact ⟨v, w, hu', h0, hdue, heff, hfirst, hout, s', hcall, hw⟩

/-- The loop of `tick`, round by round, by induction on the fuel. -/
theorem tickLoop_rounds {called : List Timer} (h : Valid s)
    (ht : tickLoop cb cur fuel (s.array.cell 0) s = .ok t) (hcalled : t.fired = s.fired ++ called)
    (hnew : ((rearmed cb s.fired called).reduceOption ++ (timers s ++ s.deleted)).Nodup) :
    ∃ as, Run (rounds cb cur) s as t ∧ ¬Due cur t := by
  induction fuel generalizing s called with
  | zero => cases ht
  | succ fuel ih =>
    by_cases hdue : Due cur s
    · obtain ⟨h0, u, hu, hle⟩ := hdue
      have hu' : s.array.cell 0 = some u := hu
      rw [tickLoop_round h.live cb fuel h0 hu' hle] at ht
      obtain ⟨s1, hcall, ht⟩ := bind_eq_ok.mp ht
      obtain ⟨s2, hpop, ht⟩ := bind_eq_ok.mp ht
      obtain ⟨r, hr, ht⟩ := bind_eq_ok.mp ht
      obtain ⟨called', hcalled'⟩ := fired_tickLoop ht
      have hfired : s2.fired = s.fired ++ [u].filter calls := (fired_pop hpop).trans (fired_call hcall)
      have hsplit : called = [u].filter calls ++ called' := by
        rw [hcalled', hfired, List.append_assoc] at hcalled
        exact (List.append_cancel_left hcalled).symm
      rw [hsplit, rearmed_append, List.reduceOption_append, ← hfired] at hnew
      have hnew' := (List.perm_append_comm.append_right _).nodup_iff.mp hnew
      rw [List.append_assoc] at hnew'
      have hnew1 := (List.nodup_append.mp hnew').2.1
      obtain ⟨w, -, hround, -⟩ := round_effect h h0 hu' hnew1 hcall hpop
      have hstep : round cb s = .ok s2 := by
        have hlen := h.length
        have hsize := h.size
        obtain ⟨v, hv, hdel⟩ := h.live.cell 0 h0
        rw [hu'] at hv
        unfold round
        rw [load_of_lt (by omega), ok_bind, hu', show s.deref (some u) = .ok u from
          if_neg (Option.some.inj hv ▸ hdel), ok_bind, hcall]
        exact hpop
      rw [load_eq_ok hr] at ht
      obtain ⟨as, hrun, hdone⟩ := ih hround.valid ht hcalled'
        ((hround.account.append_left _).nodup_iff.mpr hnew')
      refine ⟨() :: as, .cons ⟨⟨h0, u, hu, hle⟩, ?_⟩ hstep hrun, hdone⟩
      rw [additions_eq cb hu']
      exact hnew1
    · have hlate : ∀ u, 0 < s.cur_size → s.array.cell 0 = some u → cur < u.expire :=
        fun u h0 hu => not_le.mp fun hle => hdue ⟨h0, u, hu, hle⟩
      rw [tickLoop_done h.live cb fuel hlate] at ht
      obtain rfl := Except.ok.inj ht
      exact ⟨[], .nil s, hdue⟩

/-- The rounds, where they end because nothing is due. -/
theorem swept_rounds {as : List Unit} (h : Valid s) (hrun : Run (rounds cb cur) s as t)
    (hdone : ¬Due cur t) : ∃ outs called,
      Swept cur (rearmed cb s.fired called).reduceOption outs called s t := by
  induction hrun with
  | nil s =>
    exact ⟨[], [], h.effect, List.forall_mem_nil _,
      fun _ => h.late fun u h0 hu => not_le.mp fun hle => hdone ⟨h0, u, hu, hle⟩,
      List.forall_mem_nil _, fun _ _ hv => absurd hv List.not_mem_nil⟩
  | @cons s s1 t a as he hs hrun ih =>
    obtain ⟨u, w, hround⟩ := round_spec h he hs
    obtain ⟨outs, called, hrest⟩ := ih hround.effect.valid hdone
    have hmem : u ∈ timers s := mem_timers.mpr ⟨0, hround.pos, hround.root⟩
    refine ⟨w :: outs, [u].filter calls ++ called, ?_⟩
    rw [rearmed_append, List.reduceOption_append, ← additions_eq cb hround.root, ← hround.effect.fired]
    refine hrest.round hround.effect hmem hround.due
      (hround.first u (List.mem_append_right _ (List.mem_singleton_self u))) hround.out ?_
    intro v hv hmem
    exact (List.nodup_append.mp he.2).2.2 v hv v (List.mem_append_left _ hmem) rfl

/-- The timers a tick has called the callbacks of. -/
def newly (s t : TimerHeap) : List Timer := t.fired.drop s.fired.length

theorem newly_eq {ins outs called : List Timer} (h : Effect ins outs called s t) :
    newly s t = called := by
  unfold newly
  rw [h.fired, List.drop_left]

/-- A tick is its rounds. -/
theorem tick_rounds (h : Valid s) (ht : s.tick cb cur fuel = .ok t)
    (hnew : ((rearmed cb s.fired (newly s t)).reduceOption ++ (timers s ++ s.deleted)).Nodup) :
    ∃ as, Run (rounds cb cur) s as t ∧ ¬Due cur t := by
  unfold TimerHeap.tick at ht
  obtain ⟨p, hp, ht⟩ := bind_eq_ok.mp ht
  obtain ⟨called, hcalled⟩ := fired_tickLoop ht
  have hnewly : newly s t = called := by
    unfold newly
    rw [hcalled, List.drop_left]
  rw [load_eq_ok hp] at ht
  rw [hnewly] at hnew
  exact tickLoop_rounds h ht hcalled hnew

/-- **`tick`** with callbacks that add timers, all of them new. -/
theorem tick_swept (h : Valid s) (ht : s.tick cb cur fuel = .ok t)
    (hnew : ((rearmed cb s.fired (newly s t)).reduceOption ++ (timers s ++ s.deleted)).Nodup) :
    ∃ outs, Swept cur (rearmed cb s.fired (newly s t)).reduceOption outs (newly s t) s t := by
  obtain ⟨as, hrun, hdone⟩ := tick_rounds h ht hnew
  obtain ⟨outs, called, hswept⟩ := swept_rounds h hrun hdone
  rw [newly_eq hswept.effect]
  exact ⟨outs, hswept⟩

end ReactorServer.Timers
