import ReactorServer.Timers.Representation

/-!
# What a tick fires

A tick at `cur` calls the callbacks of the timers with `expire ≤ cur`, in the order of `expire`, and
deletes these timers.  The sizes are `int`s, and a heap of `2 ^ 30 + 2` timers (`steep`) is where the
path of a sifted timer can leave them.
-/

namespace ReactorServer.Timers

open ReactorServer.Cpp ReactorServer.Lib.Runs ReactorServer.Lib.BinaryHeap
open TimerHeap

variable {s t : TimerHeap} {u : Timer} {cur : ℤ} {due : List Timer}

theorem Ticked.due_perm (h : Ticked cur due s t) :
    due.Perm ((timers s).filter fun u => u.expire ≤ cur) := by
  have hperm := h.effect.timers.filter fun u => decide (u.expire ≤ cur)
  have hnone : (timers t).filter (fun u => decide (u.expire ≤ cur)) = [] := by
    refine List.filter_eq_nil_iff.mpr fun u hu => ?_
    simpa using h.future u hu
  have hall : due.filter (fun u => decide (u.expire ≤ cur)) = due :=
    List.filter_eq_self.mpr fun u hu => by simpa using h.past u hu
  rwa [List.filter_append, hnone, hall] at hperm

theorem Ticked.rest_perm (h : Ticked cur due s t) :
    (timers t).Perm ((timers s).filter fun u => cur < u.expire) := by
  have hperm := h.effect.timers.filter fun u => decide (cur < u.expire)
  have hall : (timers t).filter (fun u => decide (cur < u.expire)) = timers t :=
    List.filter_eq_self.mpr fun u hu => by simpa using h.future u hu
  have hnone : due.filter (fun u => decide (cur < u.expire)) = [] := by
    refine List.filter_eq_nil_iff.mpr fun u hu => ?_
    simpa using h.past u hu
  rwa [List.filter_append, hnone, hall, List.append_nil] at hperm

/-- **A tick fires exactly the due timers, in order**, and terminates: one round for each timer, and
one more, is enough. -/
theorem tick_fires (h : Valid s) (hpos : 0 < s.capacity) (hsmall : s.cur_size ≤ 2 ^ 30 + 1)
    (cur : ℤ) {fuel : ℕ} (hfuel : s.cur_size < fuel) :
    ∃ t due, s.tick idle cur fuel = .ok t ∧
      due.Perm ((timers s).filter fun u => u.expire ≤ cur) ∧
      due.Pairwise (fun u v => u.expire ≤ v.expire) ∧
      t.fired = s.fired ++ due.filter calls ∧ t.deleted = s.deleted ++ due ∧
      (timers t).Perm ((timers s).filter fun u => cur < u.expire) ∧ Valid t := by
  rcases tick_ticked cur hfuel h hpos with ⟨t, due, htick, ht⟩ | ⟨-, hdeep⟩
  · exact ⟨t, due, htick, ht.due_perm, ht.sorted, ht.effect.fired, ht.effect.deleted, ht.rest_perm,
      ht.effect.valid⟩
  · omega

/-- Two of four timers are due, and one of these has a callback. -/
theorem tick_fires_two : ∃ s t, TimerHeap.ofArray
      (.ofList [⟨0, 7, 5, some 1⟩, ⟨1, 0, 9, some 2⟩, ⟨2, 0, 4, none⟩, ⟨3, 0, 6, some 1⟩]) 4 4 =
        .ok s ∧
    s.tick idle 5 5 = .ok t ∧ t.fired = [⟨0, 7, 5, some 1⟩] ∧
    t.deleted = [⟨2, 0, 4, none⟩, ⟨0, 7, 5, some 1⟩] ∧ (timers t).length = 2 ∧ Valid t := by
  have hof : TimerHeap.ofArray
      (.ofList [⟨0, 7, 5, some 1⟩, ⟨1, 0, 9, some 2⟩, ⟨2, 0, 4, none⟩, ⟨3, 0, 6, some 1⟩]) 4 4 =
        .ok _ := rfl
  obtain ⟨s, hs, hsound, -⟩ := ofArray_spec (show 0 < 4 by decide) (le_refl 4) (by decide)
    (show [(⟨0, 7, 5, some 1⟩ : Timer), ⟨1, 0, 9, some 2⟩, ⟨2, 0, 4, none⟩, ⟨3, 0, 6, some 1⟩].Nodup
      by decide)
  obtain rfl := Except.ok.inj (hof.symm.trans hs)
  obtain ⟨t, due, htick, -, -, -, -, -, hvalid⟩ := tick_fires hsound.valid (by decide) (by decide) 5
    (show 4 < 5 by decide)
  obtain rfl : _ = t := Except.ok.inj (Eq.trans rfl htick)
  exact ⟨_, _, hof, htick, rfl, rfl, rfl, hvalid⟩

/-! ### A heap that is too deep -/

/-- All timers are due but two.  When the root is gone the last timer sinks along the left edge, and
the second node of the last level is in its way. -/
def steep : TimerHeap where
  array := ⟨2 ^ 30 + 2, fun i =>
    some ⟨i, 0, if i = 2 ^ 30 + 1 then 5 else if i = 2 ^ 30 - 1 then 2 else 1, none⟩⟩
  capacity := 2 ^ 30 + 2
  cur_size := 2 ^ 30 + 2
  deleted := []
  fired := []

theorem key_steep (i : ℕ) :
    key steep i = if i = 2 ^ 30 + 1 then 5 else if i = 2 ^ 30 - 1 then 2 else 1 := rfl

theorem timers_steep : timers steep = (List.range (2 ^ 30 + 2)).map fun i =>
    ⟨i, 0, if i = 2 ^ 30 + 1 then 5 else if i = 2 ^ 30 - 1 then 2 else 1, none⟩ := by
  unfold timers
  rw [← List.filterMap_eq_map]
  rfl

theorem valid_steep : Valid steep where
  length := rfl
  size := le_rfl
  cell := fun i _ => ⟨_, rfl⟩
  nodup := by
    show (timers steep ++ []).Nodup
    rw [List.append_nil, timers_steep]
    refine List.Nodup.map (fun i j h => ?_) List.nodup_range
    injection h
  ordered := by
    intro i hpos hi _
    have hi' : i < 2 ^ 30 + 2 := hi
    rw [key_steep, key_steep]
    split_ifs <;> omega

/-- The hole is at the left edge, `n` levels above the one before the last, and what is under it is
as it was. -/
theorem percolate_steep {n hole fuel : ℕ} (hn : n ≤ 29) (hhole : hole + 1 = 2 ^ (29 - n))
    (hfuel : n < fuel) (h : Live s) (hsize : s.cur_size = 2 ^ 30 + 1) (hkey : key s hole = 5)
    (hrest : ∀ i, hole < i → i < 2 ^ 30 + 1 → key s i = key steep i) :
    percolate fuel hole (hole * 2 + 1) s = .error .overflow := by
  induction n generalizing s hole fuel with
  | zero =>
    obtain ⟨fuel, rfl⟩ := Nat.exists_eq_add_one.mpr hfuel
    have hbottom : hole = 2 ^ 29 - 1 := by omega
    have hl : key s (hole * 2 + 1) = 2 := by
      rw [hrest _ (by omega) (by omega), key_steep, if_neg (by omega), if_pos (by omega)]
    have hr : key s (hole * 2 + 1 + 1) = 1 := by
      rw [hrest _ (by omega) (by omega), key_steep, if_neg (by omega), if_neg (by omega)]
    have hlesser := lesser_eq h (show hole * 2 + 1 + 1 < s.cur_size by omega)
    rw [hl, hr, if_pos (by decide)] at hlesser
    rw [percolate_round fuel h (by omega) hlesser (by omega), hr, hkey, if_pos (by decide),
      toInt_of_ge (by omega)]
    rfl
  | succ n ih =>
    obtain ⟨fuel, rfl⟩ := Nat.exists_eq_add_one.mpr (Nat.zero_lt_of_lt hfuel)
    have hpow : 2 ^ (29 - n) = 2 * 2 ^ (29 - (n + 1)) := by
      rw [← pow_succ']
      congr 1
      omega
    have hle : 2 ^ (29 - (n + 1)) ≤ 2 ^ 28 := Nat.pow_le_pow_right (by decide) (by omega)
    have hl : key s (hole * 2 + 1) = 1 := by
      rw [hrest _ (by omega) (by omega), key_steep, if_neg (by omega), if_neg (by omega)]
    have hr : key s (hole * 2 + 1 + 1) = 1 := by
      rw [hrest _ (by omega) (by omega), key_steep, if_neg (by omega), if_neg (by omega)]
    have hlesser := lesser_eq h (show hole * 2 + 1 + 1 < s.cur_size by omega)
    rw [hl, hr, if_neg (by decide)] at hlesser
    rw [percolate_round fuel h (by omega) hlesser (by omega), hl, hkey, if_pos (by decide),
      toInt_of_lt (by omega), ok_bind]
    refine ih (by omega) (by omega) (by omega)
      (h.permute fun _ => swap_lt_iff (by omega) (by omega)) hsize ?_ fun i hi hlt => ?_
    · show expireOf (s.array.cell (Equiv.swap hole (hole * 2 + 1) (hole * 2 + 1))) = 5
      rw [Equiv.swap_apply_right]
      exact hkey
    · show expireOf (s.array.cell (Equiv.swap hole (hole * 2 + 1) i)) = key steep i
      rw [Equiv.swap_apply_of_ne_of_ne (by omega) (by omega)]
      exact hrest i (by omega) hlt

/-- The first timer of `steep` is due, and on the way down of the last one `tick` computes an `int`
that is too large. -/
theorem tick_overflow : Valid steep ∧ 0 < steep.capacity ∧
    ∀ fuel, steep.cur_size < fuel → steep.tick idle 1 fuel = .error .overflow := by
  refine ⟨valid_steep, Nat.succ_pos _, fun fuel hfuel => ?_⟩
  obtain ⟨fuel, rfl⟩ := Nat.exists_eq_add_one.mpr (Nat.zero_lt_of_lt hfuel)
  have hroot : steep.array.cell 0 = some ⟨0, 0, 1, none⟩ := rfl
  have hn : steep.cur_size = 2 ^ 30 + 1 + 1 := rfl
  have hlive := popped_live valid_steep hroot hn
  have hsink : (popped ⟨0, 0, 1, none⟩ (2 ^ 30 + 1) steep).percolate_down 0 = .error .overflow := by
    unfold TimerHeap.percolate_down
    rw [toInt_of_lt (by decide), ok_bind]
    refine percolate_steep (le_refl 29) rfl (show 29 < 2 ^ 30 + 1 + 1 by decide) hlive rfl ?_
      fun i hi _ => ?_
    · show expireOf (Function.update steep.array.cell 0 _ 0) = 5
      rw [Function.update_self]
      rfl
    · exact congrArg expireOf (Function.update_of_ne hi.ne' _ _)
  have hfired : ({ steep with fired := steep.fired ++ [⟨0, 0, 1, none⟩].filter calls } : TimerHeap) =
      steep := rfl
  have hload : steep.array.load 0 = .ok (steep.array.cell 0) :=
    load_of_lt (show 0 < 2 ^ 30 + 2 by decide)
  unfold TimerHeap.tick
  rw [hload, ok_bind, tickLoop_round valid_steep.live idle fuel (Nat.succ_pos _) hroot le_rfl,
    call_idle, ok_bind, hfired, pop_eq valid_steep.live hroot hn, hsink]
  rfl

end ReactorServer.Timers
