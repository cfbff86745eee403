import ReactorServer.Timers.Operations

/-!
# What the timer heap represents

Every operation keeps the heap sound and accounts for its timers; so does any run of them, from
either constructor, as long as the heap does not hold more than `2 ^ 30` timers: beyond that
`2*capacity` and `child*2+1` may leave `int`.
-/

namespace ReactorServer.Timers

open ReactorServer.Cpp ReactorServer.Lib.Runs ReactorServer.Lib.BinaryHeap
open TimerHeap

variable {s t : TimerHeap} {u : Timer} {i n : ℕ}

/-! ### Small heaps -/

/-- **`add_timer`**, which makes room where there is none. -/
theorem add_timer_spec (h : Sound s) (hsmall : s.cur_size < 2 ^ 30)
    (hnew : u ∉ timers s ++ s.deleted) :
    ∃ t, s.add_timer (some u) = .ok t ∧ Kept [u] s t := by
  have hsize := h.size
  have hpos := h.pos
  by_cases hroom : s.cur_size < s.capacity
  · obtain ⟨t, h1, h2, h3, h4⟩ := add_spec h.valid hroom hnew
    exact ⟨t, h1, h2.kept (by omega) (by omega)⟩
  · have hgrown := h.valid.grown
    have hroom' : (grown s).cur_size < (grown s).capacity := by
      show s.cur_size < 2 * s.capacity
      omega
    obtain ⟨t, h1, h2, h3, h4⟩ := add_spec hgrown.valid hroom'
      (fun hu => hnew (hgrown.account.mem_iff.mp hu))
    have hcap : t.capacity = 2 * s.capacity := h4
    have hcur : t.cur_size = s.cur_size + 1 := h3
    refine ⟨t, ?_, (hgrown.trans h2).kept (by omega) (by omega)⟩
    rw [add_timer_grown h.length (by omega) hpos (by omega), h1]

theorem del_timer_spec (h : Sound s) (p : Option Timer) :
    ∃ t, s.del_timer p = .ok t ∧ Kept [] s t := by
  have hsmall := h.small
  have hpos := h.pos
  rcases del_timer_effect h.valid p with ⟨t, h1, h2, h3, h4⟩ | ⟨-, hdeep⟩
  · exact ⟨t, h1, h2.kept (by omega) (by omega)⟩
  · omega

theorem pop_spec (h : Sound s) : ∃ t, s.pop = .ok t ∧ Kept [] s t := by
  have hsmall := h.small
  have hpos := h.pos
  rcases Nat.eq_zero_or_pos s.cur_size with h0 | h0
  · exact ⟨s, pop_empty h0, h.valid.effect.kept hpos hsmall⟩
  · obtain ⟨u, hu, -⟩ := h.valid.live.cell 0 h0
    rcases pop_effect h.valid hu h0 with ⟨t, h1, h2, h3, h4⟩ | ⟨-, hdeep⟩
    · exact ⟨t, h1, h2.kept (by omega) (by omega)⟩
    · omega

theorem tick_spec (h : Sound s) (cur : ℤ) :
    ∃ t, s.tick idle cur (s.cur_size + 1) = .ok t ∧ Kept [] s t := by
  have hsmall := h.small
  have hpos := h.pos
  rcases tick_ticked cur (Nat.lt_succ_self _) h.valid hpos with ⟨t, due, h1, h2⟩ | ⟨-, hdeep⟩
  · have hsize := h2.size
    have hcap := h2.capacity
    exact ⟨t, h1, h2.effect.kept (by omega) (by omega)⟩
  · omega

/-! ### The life of a heap -/

/-- The array that holds the timers. -/
def Cells.ofList (us : List Timer) : Cells := ⟨us.length, fun i => us[i]?⟩

theorem valid_new {cap : ℕ} : Valid (TimerHeap.new cap) := by
  refine ⟨rfl, Nat.zero_le _, ?_, List.nodup_nil, ?_⟩
  · intro i hi
    exact absurd hi (Nat.not_lt_zero i)
  · intro i _ hi
    exact absurd hi (Nat.not_lt_zero i)

theorem sound_new {cap : ℕ} (hcap : 0 < cap) : Sound (TimerHeap.new cap) :=
  valid_new.sound hcap (Nat.zero_le _)

/-- The timers are those of the list, where the cells in use are. -/
theorem timers_of_list {us : List Timer} (hsize : s.cur_size = us.length)
    (hcell : ∀ i, (h : i < us.length) → s.array.cell i = some us[i]) : timers s = us := by
  have hmap : (List.range us.length).map s.array.cell = us.map some := by
    refine List.ext_getElem (by simp) fun i h1 h2 => ?_
    rw [List.length_map] at h2
    simp [hcell i h2]
  unfold timers
  rw [hsize]
  calc (List.range us.length).filterMap s.array.cell
      = ((List.range us.length).map s.array.cell).filterMap id := by rw [List.filterMap_map]; rfl
    _ = us := by rw [hmap, List.filterMap_map]; simp

/-- An array in any order becomes a heap. -/
theorem ofArray_spec {us : List Timer} {cap : ℕ} (hcap : 0 < cap) (hlen : us.length ≤ cap)
    (hsmall : us.length ≤ 2 ^ 30) (hnodup : us.Nodup) :
    ∃ t, ofArray (.ofList us) us.length cap = .ok t ∧ Sound t ∧
      (timers t ++ t.deleted).Perm us ∧ t.cur_size = us.length ∧ t.capacity = cap := by
  unfold TimerHeap.ofArray
  rw [if_neg (not_lt.mpr hlen)]
  by_cases h0 : us.length = 0
  · obtain rfl := List.length_eq_zero_iff.mp h0
    exact ⟨_, rfl, sound_new hcap, .refl _, rfl, rfl⟩
  · have hcopy : (Cells.ofList us).copy us.length (.null cap) =
        .ok ⟨cap, fun i => if i < us.length then us[i]? else none⟩ := copy_spec le_rfl hlen
    let s : TimerHeap := { TimerHeap.new cap with
      cur_size := us.length
      array := ⟨cap, fun i => if i < us.length then us[i]? else none⟩ }
    have hcell : ∀ i, (h : i < us.length) → s.array.cell i = some us[i] := by
      intro i hi
      show (if i < us.length then us[i]? else none) = _
      rw [if_pos hi, List.getElem?_eq_getElem hi]
    have htimers : timers s = us := timers_of_list rfl hcell
    have hfull : ∀ i, i < s.cur_size → ∃ u, s.array.cell i = some u :=
      fun i hi => ⟨_, hcell i hi⟩
    have hnodup' : (timers s ++ s.deleted).Nodup := by
      rw [htimers]
      show (us ++ []).Nodup
      rwa [List.append_nil]
    have hsifted : Sifted (fun _ => True) s (percolateAll ((us.length - 1) / 2) s) :=
      heap_of_percolateAll (live_of hlen hfull hnodup') hsmall
    obtain ⟨t, h1, h2, h3, h4⟩ := hsifted.effect rfl hlen hfull hnodup'
    have hcap' : t.capacity = cap := h4
    have hcur : t.cur_size = us.length := h3
    refine ⟨t, ?_, h2.valid.sound (by omega) (by omega), ?_, h3, h4⟩
    · rw [if_pos h0]
      show ((Cells.ofList us).copy us.length (.null cap) >>= _) = _
      rw [hcopy, ok_bind]
      exact h1
    · refine h2.account.trans ?_
      show (timers s ++ []).Perm us
      rw [htimers, List.append_nil]

/-- The destructor deletes the timers in the heap. -/
theorem deleteCells_spec (h : Sound s) (hn : n ≤ s.cur_size) : s.deleteCells n =
    .ok { s with deleted := s.deleted ++ (List.range n).filterMap s.array.cell } := by
  induction n with
  | zero => simp [TimerHeap.deleteCells]
  | succ n ih =>
    have hlive := h.valid.live
    have hlen := hlive.length
    obtain ⟨u, hu, hdel⟩ := hlive.cell n (by omega)
    have hnot : u ∉ s.deleted ++ (List.range n).filterMap s.array.cell := by
      intro hmem
      rcases List.mem_append.mp hmem with hd | hd
      · exact hdel hd
      · have hnodup : ((List.range (n + 1)).filterMap s.array.cell).Nodup := by
          refine List.Nodup.sublist ?_ (List.nodup_append.mp h.nodup).1
          exact (List.range_sublist.mpr hn).filterMap _
        rw [List.range_succ, List.filterMap_append, List.nodup_append] at hnodup
        exact hnodup.2.2 u hd u (by simp [hu]) rfl
    rw [TimerHeap.deleteCells, ih (by omega), ok_bind,
      load_of_lt (show n < s.array.length by omega), ok_bind, hu]
    refine (if_neg hnot).trans ?_
    rw [List.range_succ, List.filterMap_append, ← List.append_assoc]
    simp [hu]

theorem destroy_spec (h : Sound s) :
    ∃ t, s.destroy = .ok t ∧ t.deleted.Perm (timers s ++ s.deleted) :=
  ⟨_, deleteCells_spec h le_rfl, List.perm_append_comm⟩

/-! ### Runs -/

/-- The timers that are added. -/
def added (as : List Act) : List Timer :=
  as.filterMap fun
    | .add_timer u => some u
    | _ => none

/-- A timer is added only while there are fewer than `2 ^ 30`. -/
def Few (s : TimerHeap) : Act → Prop
  | .add_timer _ => s.cur_size < 2 ^ 30
  | _ => True

instance (s : TimerHeap) : ∀ a, Decidable (Few s a)
  | .add_timer _ => inferInstanceAs (Decidable (_ < _))
  | .del_timer _ => inferInstanceAs (Decidable True)
  | .pop => inferInstanceAs (Decidable True)
  | .tick _ => inferInstanceAs (Decidable True)

theorem step_spec {a : Act} (h : Sound s) (hfew : Few s a)
    (hnew : (added [a] ++ (timers s ++ s.deleted)).Nodup) :
    ∃ t, step s a = .ok t ∧ Kept (added [a]) s t := by
  cases a with
  | add_timer u => exact add_timer_spec h hfew (List.nodup_cons.mp hnew).1
  | del_timer p => exact del_timer_spec h p
  | pop => exact pop_spec h
  | tick cur => exact tick_spec h cur

/-- The heap is sound, and its timers and the deleted ones are those inserted. -/
def Holds (inserted : List Timer) (s : TimerHeap) : Prop :=
  Sound s ∧ (timers s ++ s.deleted).Perm inserted

theorem holds_step {a : Act} {us : List Timer} (h : Holds us s) (hfew : Few s a)
    (hnodup : (us ++ added [a]).Nodup) :
    ∃ t, step s a = .ok t ∧ Holds (us ++ added [a]) t := by
  have hperm : (added [a] ++ (timers s ++ s.deleted)).Perm (us ++ added [a]) :=
    (h.2.append_left _).trans List.perm_append_comm
  obtain ⟨t, h1, h2⟩ := step_spec h.1 hfew (hperm.nodup_iff.mpr hnodup)
  exact ⟨t, h1, h2.sound, h2.perm.trans hperm⟩

theorem added_append (as : List Act) (a : Act) : added (as ++ [a]) = added as ++ added [a] :=
  List.filterMap_append

theorem holds_run {start : TimerHeap} {us : List Timer} {as : List Act}
    (h : Run (restrict heapMachine Few) start as s) (h0 : Holds us start)
    (hnodup : (us ++ added as).Nodup) : Holds (us ++ added as) s := by
  refine h.history (I := fun as s => (us ++ added as).Nodup → Holds (us ++ added as) s)
    (fun _ => by simpa [added] using h0) ?_ hnodup
  intro as t a t' ih he hs hnodup
  rw [added_append, ← List.append_assoc] at hnodup ⊢
  obtain ⟨t'', h1, h2⟩ := holds_step (ih (List.nodup_append.mp hnodup).1) he.2 hnodup
  have heq : t'' = t' := Except.ok.inj (h1.symm.trans hs)
  rwa [← heq]

/-- The heap represents its timers. -/
structure Represents (inserted : List Timer) (s : TimerHeap) : Prop where
  size : s.cur_size ≤ s.capacity
  order : ∀ i, 1 ≤ i → i < s.cur_size → ∃ p c : Timer, s.array.cell ((i - 1) / 2) = some p ∧
    s.array.cell i = some c ∧ p.expire ≤ c.expire
  /-- the cells in use are those of the timers, -/
  cells : (List.range s.cur_size).map s.array.cell = (timers s).map some
  /-- which are the inserted ones that have not been deleted -/
  inserted : (timers s ++ s.deleted).Perm inserted
  empty : s.cur_size = 0 → s.top = .ok none
  top : s.cur_size ≠ 0 → ∃ u, s.top = .ok (some u) ∧ u ∈ timers s ∧
    ∀ v ∈ timers s, u.expire ≤ v.expire

theorem map_eq_map_some {l : List ℕ} {f : ℕ → Option Timer} (h : ∀ i ∈ l, ∃ u, f i = some u) :
    l.map f = (l.filterMap f).map some := by
  induction l with
  | nil => rfl
  | cons i l ih =>
    obtain ⟨u, hu⟩ := h i List.mem_cons_self
    rw [List.map_cons, List.filterMap_cons_some hu, List.map_cons, hu,
      ih fun j hj => h j (List.mem_cons_of_mem _ hj)]

theorem Holds.represents {us : List Timer} (h : Holds us s) : Represents us s where
  size := h.1.size
  order := by
    intro i hpos hi
    obtain ⟨p, hp⟩ := h.1.cell ((i - 1) / 2) (by omega)
    obtain ⟨c, hc⟩ := h.1.cell i hi
    have := h.1.ordered i hpos hi trivial
    unfold key at this
    rw [hp, hc] at this
    exact ⟨p, c, hp, hc, this⟩
  cells := map_eq_map_some fun i hi => h.1.cell i (List.mem_range.mp hi)
  inserted := h.2
  empty := by
    intro h0
    unfold TimerHeap.top TimerHeap.empty
    rw [if_pos (by simpa using h0)]
  top := by
    intro h0
    have hsize := h.1.size
    have hlen := h.1.length
    obtain ⟨u, hu⟩ := h.1.cell 0 (by omega)
    refine ⟨u, ?_, mem_timers.mpr ⟨0, by omega, hu⟩, fun v hv => ?_⟩
    · unfold TimerHeap.top TimerHeap.empty
      rw [if_neg (by simpa using h0), load_of_lt (by omega), hu]
    · obtain ⟨i, hi, hvi⟩ := mem_timers.mp hv
      have := h.1.ordered.root_le hi
      unfold key at this
      rwa [hu, hvi] at this

/-- The heap is made by one of the constructors, the second from an array of the timers `init`. -/
def Starts (cap : ℕ) (init : List Timer) (x : Except Fault TimerHeap) : Prop :=
  init = [] ∧ x = .ok (TimerHeap.new cap) ∨
    init.length ≤ cap ∧ x = TimerHeap.ofArray (.ofList init) init.length cap

theorem holds_starts {cap : ℕ} {init : List Timer} {x : Except Fault TimerHeap}
    (hx : Starts cap init x) (hcap : 0 < cap) (hsmall : init.length ≤ 2 ^ 30)
    (hinit : init.Nodup) : ∃ start, x = .ok start ∧ Holds init start := by
  rcases hx with ⟨rfl, hx⟩ | ⟨hlen, hx⟩
  · exact ⟨_, hx, sound_new hcap, .refl _⟩
  · obtain ⟨t, h1, h2, h3, -⟩ := ofArray_spec hcap hlen hsmall hinit
    exact ⟨t, hx.trans h1, h2, h3⟩

/-- **The timer heap represents its timers** after every operation of every run that adds to fewer
than `2 ^ 30` timers; every operation returns; and the destructor deletes each timer once. -/
theorem heap_represents {cap : ℕ} {init : List Timer} {x : Except Fault TimerHeap}
    (hx : Starts cap init x) (hcap : 0 < cap) (hsmall : init.length ≤ 2 ^ 30)
    (hinit : init.Nodup) :
    ∃ start, x = .ok start ∧ ∀ as s, Run (restrict heapMachine Few) start as s →
      (init ++ added as).Nodup →
      Represents (init ++ added as) s ∧
      (∀ a, Few s a → (init ++ added (as ++ [a])).Nodup → ∃ t, step s a = .ok t) ∧
      ∃ t, s.destroy = .ok t ∧ t.deleted.Perm (init ++ added as) ∧ t.deleted.Nodup := by
  obtain ⟨start, hstart, h0⟩ := holds_starts hx hcap hsmall hinit
  refine ⟨start, hstart, fun as s hrun hnodup => ?_⟩
  have h := holds_run hrun h0 hnodup
  obtain ⟨t, hdestroy, hperm⟩ := destroy_spec h.1
  refine ⟨h.represents, fun a hfew hnext => ?_, t, hdestroy, hperm.trans h.2,
    hperm.nodup_iff.mpr h.1.nodup⟩
  rw [added_append, ← List.append_assoc] at hnext
  obtain ⟨t', hstep, -⟩ := holds_step h hfew hnext
  exact ⟨t', hstep⟩

/-- Timers in no order are made into a heap, one more is added and two are taken out. -/
theorem heap_represents_run : ∃ start s : TimerHeap,
    TimerHeap.ofArray (.ofList [⟨0, 0, 9, none⟩, ⟨1, 0, 4, none⟩, ⟨2, 0, 6, none⟩]) 3 3 = .ok start ∧
    Run (restrict heapMachine Few) start [.add_timer ⟨3, 0, 5, none⟩, .pop, .tick 5] s ∧
    Represents [⟨0, 0, 9, none⟩, ⟨1, 0, 4, none⟩, ⟨2, 0, 6, none⟩, ⟨3, 0, 5, none⟩] s ∧
    s.deleted = [⟨1, 0, 4, none⟩, ⟨3, 0, 5, none⟩] := by
  have hof : TimerHeap.ofArray
      (.ofList [⟨0, 0, 9, none⟩, ⟨1, 0, 4, none⟩, ⟨2, 0, 6, none⟩]) 3 3 = .ok _ := rfl
  obtain ⟨start, hstart, h⟩ := heap_represents (Or.inr ⟨by decide, hof.symm⟩) (by decide)
    (by decide) (by decide)
  obtain rfl := Except.ok.inj hstart
  exact ⟨_, _, hof, run_iff_exec.mpr rfl,
    (h [.add_timer ⟨3, 0, 5, none⟩, .pop, .tick 5] _ (run_iff_exec.mpr rfl) (by decide)).1, rfl⟩

/-- `2 ^ 30` timers with nothing to do. -/
def many : List Timer := (List.range (2 ^ 30)).map fun i => ⟨i, 0, 0, none⟩

/-- One more, and the array cannot grow. -/
theorem add_timer_overflow :
    many.Nodup ∧ ⟨2 ^ 30, 0, 0, none⟩ ∉ many ∧
      ∃ s, TimerHeap.ofArray (.ofList many) (2 ^ 30) (2 ^ 30) = .ok s ∧
        step s (.add_timer ⟨2 ^ 30, 0, 0, none⟩) = .error .overflow := by
  have hlen : many.length = 2 ^ 30 := by rw [many, List.length_map, List.length_range]
  have hnodup : many.Nodup := by
    refine List.Nodup.map (fun i j h => ?_) List.nodup_range
    injection h
  refine ⟨hnodup, ?_, ?_⟩
  · intro hmem
    obtain ⟨i, hi, heq⟩ := List.mem_map.mp hmem
    have h1 := List.mem_range.mp hi
    injection heq
    omega
  · obtain ⟨s, h1, -, -, h2, h3⟩ := ofArray_spec (show 0 < 2 ^ 30 by decide) hlen.le hlen.le hnodup
    rw [hlen] at h1 h2
    refine ⟨s, h1, ?_⟩
    show s.add_timer _ = _
    unfold TimerHeap.add_timer
    rw [if_neg nofun, if_pos (by omega), resize_overflow (by omega)]
    rfl

end ReactorServer.Timers
