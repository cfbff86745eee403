import ReactorServer.Timers.Order

/-!
# What the operations of the timer heap do

Each operation on a valid heap, as an `Effect`: the timers it puts in, those it takes out and
deletes, and those whose callbacks it calls.  Where it does not return, the heap has outgrown `int`
or has no array.
-/

namespace ReactorServer.Timers

open ReactorServer.Cpp ReactorServer.Lib.Runs ReactorServer.Lib.BinaryHeap
open ReactorServer.Lib.Triples
open TimerHeap

variable {s t : TimerHeap} {u : Timer} {i n : ℕ}

/-! ### Growth -/

theorem copy_spec {src dst : Cells} (hsrc : n ≤ src.length) (hdst : n ≤ dst.length) :
    src.copy n dst = .ok ⟨dst.length, fun i => if i < n then src.cell i else dst.cell i⟩ := by
  induction n with
  | zero => simp [Cells.copy]
  | succ n ih =>
    rw [Cells.copy, ih (by omega) (by omega), ok_bind, load_of_lt (by omega), ok_bind, Cells.store,
      if_pos (show n < dst.length by omega)]
    congr 2
    funext i
    by_cases hi : i = n
    · rw [hi, Function.update_self, if_pos (by omega)]
    · rw [Function.update_of_ne hi]
      show (if i < n then _ else _) = _
      by_cases hlt : i < n
      · rw [if_pos hlt, if_pos (by omega)]
      · rw [if_neg hlt, if_neg (by omega)]

theorem timers_congr (hsize : t.cur_size = s.cur_size)
    (hcell : ∀ i, i < s.cur_size → t.array.cell i = s.array.cell i) : timers t = timers s := by
  unfold timers
  rw [hsize]
  exact List.filterMap_congr fun i hi => hcell i (List.mem_range.mp hi)

/-- The heap in an array of twice the capacity. -/
def grown (s : TimerHeap) : TimerHeap :=
  { s with
    capacity := 2 * s.capacity
    array := ⟨2 * s.capacity, fun i => if i < s.cur_size then s.array.cell i else none⟩ }

theorem resize_eq (hlen : s.array.length = s.capacity) (hsize : s.cur_size ≤ s.capacity)
    (hcap : s.capacity < 2 ^ 30) : s.resize = .ok (grown s) := by
  have hdst : s.cur_size ≤ (Cells.null (2 * s.capacity)).length :=
    show s.cur_size ≤ 2 * s.capacity by omega
  unfold TimerHeap.resize
  rw [toInt_of_lt (by omega), ok_bind, copy_spec (by omega) hdst, ok_bind]
  rfl

theorem Valid.grown (h : Valid s) : Effect [] [] [] s (grown s) := by
  have hsize := h.size
  have hcell : ∀ i, i < s.cur_size → (Timers.grown s).array.cell i = s.array.cell i :=
    fun i hi => if_pos hi
  have htimers : timers (Timers.grown s) = timers s := timers_congr rfl hcell
  refine ⟨⟨rfl, ?_, ?_, ?_, ?_⟩, ?_, (List.append_nil _).symm, (List.append_nil _).symm⟩
  · show s.cur_size ≤ 2 * s.capacity
    omega
  · intro i hi
    obtain ⟨u, hu⟩ := h.cell i hi
    exact ⟨u, (hcell i hi).trans hu⟩
  · rw [htimers]
    exact h.nodup
  · exact h.ordered.congr fun i hi => congrArg expireOf (hcell i hi)
  · rw [htimers, List.append_nil]
    exact .refl _

theorem resize_overflow (h : 2 ^ 30 ≤ s.capacity) : s.resize = .error .overflow := by
  unfold TimerHeap.resize toInt INT_MAX
  rw [if_neg (by push_cast; omega)]
  rfl

/-! ### Adding -/

/-- What the heap would be with the new timer in the hole moves as in a swap with the parent. -/
theorem put_put {p : ℕ} (hp : p ≠ i) :
    put p (some u) (put i (s.array.cell p) s) =
      permute (Equiv.swap i p) (put i (some u) s) := by
  have hcell : Function.update (Function.update s.array.cell i (s.array.cell p)) p (some u) =
      Function.update s.array.cell i (some u) ∘ Equiv.swap i p := by
    funext k
    show _ = Function.update s.array.cell i (some u) (Equiv.swap i p k)
    by_cases hkp : k = p
    · rw [hkp, Function.update_self, Equiv.swap_apply_right, Function.update_self]
    · rw [Function.update_of_ne hkp]
      by_cases hki : k = i
      · rw [hki, Function.update_self, Equiv.swap_apply_left, Function.update_of_ne hp]
      · rw [Function.update_of_ne hki, Equiv.swap_apply_of_ne_of_ne hki hkp,
          Function.update_of_ne hki]
  unfold put permute
  simp only [hcell]

theorem hole_spec {fuel : ℕ} (hfuel : i < fuel) (hi : i < s.cur_size)
    (h : Live (put i (some u) s)) (hr : Rising s.cur_size (key (put i (some u) s)) i) :
    ∃ j s', s.hole u.expire fuel i = .ok (j, s') ∧ j < s'.array.length ∧
      Sifted (fun _ => True) (put i (some u) s) (.ok (put j (some u) s')) := by
  induction fuel generalizing s i with
  | zero => omega
  | succ fuel ih =>
    have hlen : s.cur_size ≤ s.array.length := h.length
    have hkey : key (put i (some u) s) i = u.expire := by
      show expireOf (Function.update s.array.cell i (some u) i) = _
      rw [Function.update_self]
      rfl
    have hrest : (0 < i → key (put i (some u) s) ((i - 1) / 2) ≤ u.expire) →
        Sifted (fun _ => True) (put i (some u) s) (.ok (put i (some u) s)) := fun hle =>
      ⟨Equiv.refl ℕ, rfl, fun _ => Iff.rfl, hr.stop fun hpos => hkey ▸ hle hpos⟩
    rw [TimerHeap.hole]
    by_cases hpos : 0 < i
    · have hp : (i - 1) / 2 ≠ i := by omega
      have hsame : (put i (some u) s).array.cell ((i - 1) / 2) = s.array.cell ((i - 1) / 2) :=
        Function.update_of_ne hp _ _
      have hexp : s.expireAt ((i - 1) / 2) = .ok (key (put i (some u) s) ((i - 1) / 2)) := by
        rw [← h.expireAt (show _ < s.cur_size by omega)]
        unfold TimerHeap.expireAt
        have hlt : (i - 1) / 2 < s.array.length := by omega
        have hlt' : (i - 1) / 2 < (put i (some u) s).array.length := hlt
        rw [load_of_lt hlt, load_of_lt hlt', hsame]
        rfl
      simp only [if_pos hpos, hexp, ok_bind]
      by_cases hle : key (put i (some u) s) ((i - 1) / 2) ≤ u.expire
      · rw [if_pos hle]
        exact ⟨i, s, rfl, by omega, hrest fun _ => hle⟩
      · rw [if_neg hle, load_of_lt (by omega), ok_bind, store_of_lt (by omega), ok_bind]
        have hswap : ∀ k, Equiv.swap i ((i - 1) / 2) k < s.cur_size ↔ k < s.cur_size :=
          fun _ => swap_lt_iff hi (by omega)
        have hput := put_put (s := s) (u := u) hp
        obtain ⟨j, s', h1, h2, σ, h3, h4, h5⟩ :=
          ih (s := put i (s.array.cell ((i - 1) / 2)) s) (i := (i - 1) / 2) (by omega)
            (show _ < s.cur_size by omega) (hput ▸ h.permute hswap)
            (hput ▸ hr.swap hpos hi (hkey ▸ not_le.mp hle))
        refine ⟨j, s', h1, h2, σ.trans (Equiv.swap i ((i - 1) / 2)), ?_,
          fun k => (hswap _).trans (h4 k), ?_⟩
        · rw [h3, hput]
          rfl
        · rw [hput] at h5
          exact h5
    · rw [if_neg hpos]
      exact ⟨i, s, rfl, by omega, hrest fun h' => absurd h' hpos⟩

theorem timers_succ (hn : t.cur_size = s.cur_size + 1)
    (hcell : ∀ i, i < s.cur_size → t.array.cell i = s.array.cell i)
    (hu : t.array.cell s.cur_size = some u) : timers t = timers s ++ [u] := by
  unfold timers
  rw [hn, List.range_succ, List.filterMap_append]
  congr 1
  · exact List.filterMap_congr fun i hi => hcell i (List.mem_range.mp hi)
  · simp [hu]

theorem add_spec (h : Valid s) (hroom : s.cur_size < s.capacity)
    (hnew : u ∉ timers s ++ s.deleted) :
    ∃ t, s.add_timer (some u) = .ok t ∧ Effect [u] [] [] s t ∧ t.cur_size = s.cur_size + 1 ∧
      t.capacity = s.capacity := by
  have hlen := h.length
  have hdel : u ∉ s.deleted := fun hu => hnew (List.mem_append_right _ hu)
  have hsize := h.size
  let a : TimerHeap := { s with cur_size := s.cur_size + 1 }
  let b := put s.cur_size (some u) a
  have hcell : ∀ i, i < s.cur_size → b.array.cell i = s.array.cell i :=
    fun i hi => Function.update_of_ne (by omega) _ _
  have hlast : b.array.cell s.cur_size = some u := Function.update_self _ _ _
  have htimers : timers b = timers s ++ [u] := timers_succ rfl hcell hlast
  have hperm : (timers b).Perm ([u] ++ timers s) := by
    rw [htimers]
    exact List.perm_append_comm
  have hnodup : (timers b ++ b.deleted).Nodup := by
    rw [(hperm.append_right b.deleted).nodup_iff, List.append_assoc]
    exact List.nodup_cons.mpr ⟨hnew, h.nodup⟩
  have hfull : ∀ i, i < b.cur_size → ∃ v, b.array.cell i = some v := by
    intro i hi
    have hi' : i < s.cur_size + 1 := hi
    rcases (by omega : i = s.cur_size ∨ i < s.cur_size) with rfl | hlt
    · exact ⟨u, hlast⟩
    · rw [hcell i hlt]
      exact h.cell i hlt
  have hrising : Rising b.cur_size (key b) s.cur_size := by
    refine ⟨fun i hpos hi hne => ?_, fun i hpos hi hpar => ?_⟩
    · have hi' : i < s.cur_size + 1 := hi
      have := h.ordered i hpos (by omega) trivial
      unfold key at this ⊢
      rwa [hcell i (by omega), hcell _ (by omega)]
    · have hi' : i < s.cur_size + 1 := hi
      omega
  obtain ⟨j, s', h1, h2, h3⟩ := hole_spec (s := a) (Nat.lt_succ_self _) (Nat.lt_succ_self _)
    (live_of (s := b) (show s.cur_size + 1 ≤ s.array.length by omega) hfull hnodup) hrising
  obtain ⟨t, h4, h5, h6, h7⟩ := h3.effect hlen hroom hfull hnodup
  have hadd : s.add_timer (some u) = .ok (put j (some u) s') := by
    have hderef : a.deref (some u) = .ok u := if_neg hdel
    unfold TimerHeap.add_timer
    rw [if_neg nofun, if_neg (by omega), ok_bind]
    show (a.deref (some u) >>= _) = _
    rw [hderef, ok_bind, h1, ok_bind]
    exact store_of_lt h2
  exact ⟨t, hadd.trans h4, ⟨h5.valid, h5.timers.trans hperm, h5.deleted, h5.fired⟩, h6, h7⟩

theorem add_timer_grown (hlen : s.array.length = s.capacity) (hfull : s.cur_size = s.capacity)
    (hpos : 0 < s.capacity) (hcap : s.capacity < 2 ^ 30) (u : Timer) :
    s.add_timer (some u) = (grown s).add_timer (some u) := by
  have hroom : (grown s).cur_size < (grown s).capacity := by
    show s.cur_size < 2 * s.capacity
    omega
  unfold TimerHeap.add_timer
  simp only [reduceCtorEq, if_false, if_pos hfull.ge, if_neg (not_le.mpr hroom), ge_iff_le,
    resize_eq hlen hfull.le hcap, ok_bind]

theorem add_timer_nowhere (hcap : s.capacity = 0) (hsize : s.cur_size = 0)
    (hlen : s.array.length = 0) : s.add_timer (some u) ≠ .ok t := by
  have hresize : s.resize = .ok (grown s) := resize_eq (by omega) (by omega) (by omega)
  unfold TimerHeap.add_timer
  rw [if_neg nofun, if_pos (by omega), hresize, ok_bind]
  intro h
  obtain ⟨v, -, h⟩ := bind_eq_ok.mp h
  have hhole : TimerHeap.hole v.expire ((grown s).cur_size + 1) (grown s).cur_size
      { grown s with cur_size := (grown s).cur_size + 1 } =
      .ok (0, { grown s with cur_size := (grown s).cur_size + 1 }) := by
    rw [show (grown s).cur_size = 0 from hsize]
    rfl
  rw [hhole, ok_bind] at h
  have h' : ({ grown s with cur_size := (grown s).cur_size + 1 } : TimerHeap).store 0 (some u) =
      .ok t := h
  rw [store_of_ge (show 2 * s.capacity ≤ 0 by omega)] at h'
  cases h'

/-- **`add_timer`** puts the timer in, if it returns. -/
theorem add_timer_effect (h : Valid s) (hnew : u ∉ timers s ++ s.deleted)
    (ht : s.add_timer (some u) = .ok t) : Effect [u] [] [] s t ∧ 0 < s.capacity := by
  have hsize := h.size
  by_cases hroom : s.cur_size < s.capacity
  · obtain ⟨t', h1, h2, -⟩ := add_spec h hroom hnew
    obtain rfl := Except.ok.inj (h1.symm.trans ht)
    exact ⟨h2, by omega⟩
  · rcases Nat.eq_zero_or_pos s.capacity with h0 | hpos
    · exact absurd ht (add_timer_nowhere h0 (by omega) (h.length.trans h0))
    by_cases hcap : s.capacity < 2 ^ 30
    · have hgrown := h.grown
      rw [add_timer_grown h.length (by omega) hpos hcap] at ht
      obtain ⟨t', h1, h2, -⟩ := add_spec (u := u) hgrown.valid
        (show s.cur_size < 2 * s.capacity by omega)
        (fun hu => hnew (hgrown.account.mem_iff.mp hu))
      obtain rfl := Except.ok.inj (h1.symm.trans ht)
      exact ⟨hgrown.trans h2, hpos⟩
    · rw [TimerHeap.add_timer, if_neg nofun, if_pos (by omega), resize_overflow (by omega)] at ht
      cases ht

/-! ### Taking out -/

/-- **`del_timer`** takes nothing out. -/
theorem del_timer_effect (h : Valid s) (p : Option Timer) :
    (∃ t, s.del_timer p = .ok t ∧ Effect [] [] [] s t ∧ t.cur_size = s.cur_size ∧
      t.capacity = s.capacity) ∨ Deep s (s.del_timer p) := by
  unfold TimerHeap.del_timer
  by_cases hp : p = none
  · rw [if_pos hp]
    left
    exact ⟨s, rfl, h.effect, rfl, rfl⟩
  · rw [if_neg hp]
    rcases percolateAll_spec (i := (s.cur_size - 1) / 2) h.live (by omega)
      (h.ordered.mono fun _ _ => trivial) with hsift | hdeep
    · left
      exact hsift.effect h.length h.size h.cell h.nodup
    · right
      exact hdeep

/-- The last timer takes the place of the first, which is deleted. -/
def popped (u : Timer) (n : ℕ) (s : TimerHeap) : TimerHeap :=
  put 0 (s.array.cell n) { s with deleted := s.deleted ++ [u], cur_size := n }

theorem timers_popped (hn : s.cur_size = n + 1) (hu : s.array.cell 0 = some u) :
    (timers (popped u n s) ++ [u]).Perm (timers s) := by
  have hswap : ∀ i, Equiv.swap 0 n i < s.cur_size ↔ i < s.cur_size :=
    fun _ => swap_lt_iff (by omega) (by omega)
  have hcell : ∀ i, i < n →
      (permute (Equiv.swap 0 n) s).array.cell i = (popped u n s).array.cell i := by
    intro i hi
    show s.array.cell (Equiv.swap 0 n i) = Function.update s.array.cell 0 (s.array.cell n) i
    by_cases h0 : i = 0
    · rw [h0, Equiv.swap_apply_left, Function.update_self]
    · rw [Equiv.swap_apply_of_ne_of_ne h0 (by omega), Function.update_of_ne h0]
  have hlast : (permute (Equiv.swap 0 n) s).array.cell n = some u := by
    show s.array.cell (Equiv.swap 0 n n) = _
    rw [Equiv.swap_apply_right, hu]
  have htimers := timers_succ (s := popped u n s) (t := permute (Equiv.swap 0 n) s) hn hcell hlast
  have hperm := timers_permute hswap
  rw [htimers] at hperm
  exact hperm

theorem pop_empty (h0 : s.cur_size = 0) : s.pop = .ok s := by
  unfold TimerHeap.pop TimerHeap.empty
  rw [if_pos (by simpa using h0)]

theorem pop_eq (h : Live s) (hu : s.array.cell 0 = some u) (hn : s.cur_size = n + 1) :
    s.pop = (popped u n s).percolate_down 0 := by
  have hlen := h.length
  have hdel : u ∉ s.deleted := by
    obtain ⟨v, hv, hdel⟩ := h.cell 0 (by omega)
    rw [hu] at hv
    exact Option.some.inj hv ▸ hdel
  have hdelete : s.delete (some u) = .ok { s with deleted := s.deleted ++ [u] } := if_neg hdel
  have hlast : s.cur_size - 1 = n := by omega
  let a : TimerHeap := { s with deleted := s.deleted ++ [u], cur_size := n }
  have hstore : a.store 0 (s.array.cell n) = .ok (popped u n s) :=
    store_of_lt (show 0 < s.array.length by omega)
  unfold TimerHeap.pop TimerHeap.empty
  rw [if_neg (by simp [hn]), load_of_lt (by omega), ok_bind, hu, if_neg nofun, hdelete, ok_bind]
  simp only [hlast, load_of_lt (show n < s.array.length by omega), ok_bind]
  rw [hstore, ok_bind]

theorem popped_cell (h : Valid s) (hn : s.cur_size = n + 1) {i : ℕ} (hi : i < n) :
    ∃ v, (popped u n s).array.cell i = some v := by
  show ∃ v, Function.update s.array.cell 0 (s.array.cell n) i = some v
  by_cases hi0 : i = 0
  · rw [hi0, Function.update_self]
    exact h.cell n (by omega)
  · rw [Function.update_of_ne hi0]
    exact h.cell i (by omega)

theorem popped_nodup (h : Valid s) (hu : s.array.cell 0 = some u) (hn : s.cur_size = n + 1) :
    (timers (popped u n s) ++ (popped u n s).deleted).Nodup := by
  show (timers (popped u n s) ++ (s.deleted ++ [u])).Nodup
  have hperm : (timers (popped u n s) ++ (s.deleted ++ [u])).Perm (timers s ++ s.deleted) := by
    refine List.Perm.trans ?_ ((timers_popped hn hu).append_right s.deleted)
    rw [List.append_assoc]
    exact List.perm_append_comm.append_left _
  rw [hperm.nodup_iff]
  exact h.nodup

theorem popped_live (h : Valid s) (hu : s.array.cell 0 = some u) (hn : s.cur_size = n + 1) :
    Live (popped u n s) := by
  have hlen := h.live.length
  exact live_of (show n ≤ s.array.length by omega) (fun _ => popped_cell h hn)
    (popped_nodup h hu hn)

/-- **`pop`** deletes the first timer. -/
theorem pop_effect (h : Valid s) (hu : s.array.cell 0 = some u) (h0 : 0 < s.cur_size) :
    (∃ t, s.pop = .ok t ∧ Effect [] [u] [] s t ∧ t.cur_size = s.cur_size - 1 ∧
      t.capacity = s.capacity) ∨ s.pop = .error .overflow ∧ 2 ^ 30 + 1 < s.cur_size := by
  have hlen := h.length
  have hsize := h.size
  obtain ⟨n, hn⟩ := Nat.exists_eq_add_one.mpr h0
  have htimers := timers_popped hn hu
  have hsink : Sinking (fun _ => True) n (key (popped u n s)) 0 := by
    refine ⟨fun i hpos hi _ hne => ?_, fun i _ _ _ h' _ => absurd h' (lt_irrefl 0)⟩
    have hkey : ∀ j, j ≠ 0 → key (popped u n s) j = key s j :=
      fun j hj => congrArg expireOf (Function.update_of_ne hj _ _)
    rw [hkey _ hne, hkey i (by omega)]
    exact h.ordered i hpos (by omega) trivial
  rw [pop_eq h.live hu hn]
  have hsifted := sifted_percolate_down (fun _ _ _ => trivial) (popped_live h hu hn)
    (show 0 * 2 ≤ n by omega) hsink
  rcases hsifted with hsift | ⟨h1, h2⟩
  · left
    obtain ⟨t, h1, h2, h3, h4⟩ := hsift.effect hlen (show n ≤ s.capacity by omega)
      (fun _ => popped_cell h hn) (popped_nodup h hu hn)
    have h3' : t.cur_size = n := h3
    have htrans := h2.timers.trans (List.Perm.refl _)
    rw [List.append_nil] at htrans
    refine ⟨t, h1, ⟨h2.valid, (htrans.append_right [u]).trans htimers, ?_, h2.fired⟩, by omega, h4⟩
    rw [h2.deleted, List.append_nil]
    rfl
  · right
    have h2' : 2 ^ 30 < n := h2
    exact ⟨h1, by omega⟩

/-! ### Ticks -/

/-- The timer has a callback. -/
def calls (u : Timer) : Bool := u.cb_func.isSome

theorem call_idle (u : Timer) (s : TimerHeap) :
    s.call idle u = .ok { s with fired := s.fired ++ [u].filter calls } := by
  unfold TimerHeap.call
  by_cases hu : u.cb_func = none
  · have hnone : [u].filter calls = [] := by simp [calls, hu]
    rw [if_pos hu, hnone, List.append_nil]
  · have hsome : [u].filter calls = [u] := by simp [calls, Option.isSome_iff_ne_none, hu]
    rw [if_neg hu, hsome]
    rfl

theorem Valid.fired (h : Valid s) (fired : List Timer) : Valid { s with fired := fired } :=
  ⟨h.length, h.size, h.cell, h.nodup, h.ordered⟩

/-- `tick` at `cur` takes out the timers `due`: those that are, in order. -/
structure Ticked (cur : ℤ) (due : List Timer) (s t : TimerHeap) : Prop where
  effect : Effect [] due (due.filter calls) s t
  past : ∀ u ∈ due, u.expire ≤ cur
  future : ∀ u ∈ timers t, cur < u.expire
  sorted : due.Pairwise fun u v => u.expire ≤ v.expire
  capacity : t.capacity = s.capacity
  size : t.cur_size ≤ s.cur_size

theorem Valid.root_le (h : Valid s) (hu : s.array.cell 0 = some u) {v : Timer}
    (hv : v ∈ timers s) : u.expire ≤ v.expire := by
  obtain ⟨i, hi, hvi⟩ := mem_timers.mp hv
  have := h.ordered.root_le hi
  unfold key at this
  rwa [hu, hvi] at this

theorem tickLoop_done (h : Live s) (cb : Callbacks) {cur : ℤ} (fuel : ℕ)
    (hdone : ∀ u, 0 < s.cur_size → s.array.cell 0 = some u → cur < u.expire) :
    tickLoop cb cur (fuel + 1) (s.array.cell 0) s = .ok s := by
  rw [tickLoop, TimerHeap.empty]
  by_cases h0 : s.cur_size = 0
  · rw [if_pos (by simpa using h0)]
  · obtain ⟨u, hu, hdel⟩ := h.cell 0 (by omega)
    have hderef : s.deref (some u) = .ok u := if_neg hdel
    rw [if_neg (by simpa using h0), hu, if_neg nofun, hderef, ok_bind,
      if_pos (hdone u (by omega) hu)]

theorem tickLoop_round (h : Live s) (cb : Callbacks) {cur : ℤ} (fuel : ℕ) (h0 : 0 < s.cur_size)
    (hu : s.array.cell 0 = some u) (hdue : u.expire ≤ cur) :
    tickLoop cb cur (fuel + 1) (s.array.cell 0) s = s.call cb u >>= fun s => s.pop >>= fun s =>
      s.array.load 0 >>= fun tmp => tickLoop cb cur fuel tmp s := by
  have hlen := h.length
  have hderef : s.deref (some u) = .ok u := by
    obtain ⟨v, hv, hdel⟩ := h.cell 0 h0
    rw [hu] at hv
    exact if_neg (Option.some.inj hv ▸ hdel)
  rw [tickLoop, TimerHeap.empty, if_neg (by simpa using h0.ne'), hu, if_neg nofun, hderef, ok_bind,
    if_neg (not_lt.mpr hdue), load_of_lt (by omega), ok_bind, hu, hderef, ok_bind]

theorem Valid.late {cur : ℤ} {v : Timer} (h : Valid s)
    (hlate : ∀ u, 0 < s.cur_size → s.array.cell 0 = some u → cur < u.expire) (hv : v ∈ timers s) :
    cur < v.expire := by
  obtain ⟨i, hi, -⟩ := mem_timers.mp hv
  obtain ⟨u, hu⟩ := h.cell 0 (by omega)
  exact (hlate u (by omega) hu).trans_le (h.root_le hu hv)

/-- Each round takes one timer out, so the loop ends; by induction on the fuel. -/
theorem tickLoop_ticked {cur : ℤ} {fuel : ℕ} (hfuel : s.cur_size < fuel) (h : Valid s)
    (hpos : 0 < s.capacity) :
    (∃ t due, tickLoop idle cur fuel (s.array.cell 0) s = .ok t ∧ Ticked cur due s t) ∨
    tickLoop idle cur fuel (s.array.cell 0) s = .error .overflow ∧ 2 ^ 30 + 1 < s.cur_size := by
  induction fuel generalizing s with
  | zero => omega
  | succ fuel ih =>
    have hlen := h.length
    by_cases hdue : ∃ u, 0 < s.cur_size ∧ s.array.cell 0 = some u ∧ u.expire ≤ cur
    · obtain ⟨u, h0, hu, hdue⟩ := hdue
      rw [tickLoop_round h.live idle fuel h0 hu hdue, call_idle, ok_bind]
      rcases pop_effect (h.fired (s.fired ++ [u].filter calls)) hu h0 with
        ⟨s', hpop, heff, hsize, hcap⟩ | ⟨h1, h2⟩
      · have hsize' : s'.cur_size = s.cur_size - 1 := hsize
        have hcap' : s'.capacity = s.capacity := hcap
        have hload : s'.array.load 0 = .ok (s'.array.cell 0) :=
          load_of_lt (by rw [heff.valid.length]; omega)
        rw [hpop, ok_bind, hload, ok_bind]
        have hround : Effect [] [u] ([u].filter calls) s s' :=
          ⟨heff.valid, heff.timers, heff.deleted, by rw [heff.fired, List.append_nil]⟩
        rcases ih (s := s') (by omega) heff.valid (by omega) with ⟨t, due, h1, h2⟩ | ⟨h1, h2⟩
        · left
          refine ⟨t, u :: due, h1, ?_, ?_, h2.future, ?_, h2.capacity.trans hcap', ?_⟩
          · have htrans := hround.trans h2.effect
            rwa [← List.filter_append] at htrans
          · intro v hv
            rcases List.mem_cons.mp hv with rfl | hv
            · exact hdue
            · exact h2.past v hv
          · refine List.pairwise_cons.mpr ⟨fun v hv => ?_, h2.sorted⟩
            -- what is due later was in the heap when `u` was its root
            have h3 : v ∈ timers s' := h2.effect.timers.mem_iff.mp (List.mem_append_right _ hv)
            exact h.root_le hu (hround.timers.mem_iff.mp (List.mem_append_left _ h3))
          · have := h2.size
            omega
        · right
          exact ⟨h1, by omega⟩
      · right
        rw [h1]
        exact ⟨rfl, h2⟩
    · have hlate : ∀ u, 0 < s.cur_size → s.array.cell 0 = some u → cur < u.expire :=
        fun u h0 hu => not_le.mp fun hle => hdue ⟨u, h0, hu, hle⟩
      left
      exact ⟨s, [], tickLoop_done h.live idle fuel hlate, h.effect, List.forall_mem_nil _,
        fun _ => h.late hlate, .nil, rfl, le_rfl⟩

/-- **`tick`** with callbacks that do not touch the heap. -/
theorem tick_ticked (cur : ℤ) {fuel : ℕ} (hfuel : s.cur_size < fuel) (h : Valid s)
    (hpos : 0 < s.capacity) :
    (∃ t due, s.tick idle cur fuel = .ok t ∧ Ticked cur due s t) ∨
    s.tick idle cur fuel = .error .overflow ∧ 2 ^ 30 + 1 < s.cur_size := by
  have hlen := h.length
  unfold TimerHeap.tick
  rw [load_of_lt (by omega), ok_bind]
  exact tickLoop_ticked hfuel h hpos

theorem capacity_of_tick {cur : ℤ} {fuel : ℕ} {cb : Callbacks} (hlen : s.array.length = s.capacity)
    (ht : s.tick cb cur fuel = .ok t) : 0 < s.capacity := by
  unfold TimerHeap.tick at ht
  obtain ⟨p, hp, -⟩ := bind_eq_ok.mp ht
  unfold Cells.load at hp
  split at hp
  · omega
  · cases hp

end ReactorServer.Timers
