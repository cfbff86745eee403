import ReactorServer.Timers.Operations

/-!
# What `percolate_down` repairs

One node of the tree may be out of order: `percolate_down` moves it to its place in the subtree
under it and leaves all other cells alone (`repaired_of_below`).  From the leaves up this makes a
heap of any array, and changes nothing in a heap (`percolate_down_repairs`).  Indices are `int`s, so
this ends where the array has more than `2 ^ 30` timers (`percolate_down_overflow`).
-/

namespace ReactorServer.Timers

open ReactorServer.Cpp ReactorServer.Lib.Runs ReactorServer.Lib.BinaryHeap
open TimerHeap

variable {s t : TimerHeap} {i hole : ℕ}

/-- Heap order between every node strictly below `hole` and its children. -/
def OrderedBelow (hole : ℕ) (s : TimerHeap) : Prop :=
  Ordered (fun i => Under hole i ∧ i ≠ hole) s.cur_size (key s)

/-- `t` is `s` with heap order in the whole subtree under `hole`: the cells of the subtree have
changed places, and no others. -/
structure Repaired (hole : ℕ) (s t : TimerHeap) : Prop where
  heap : Ordered (Under hole) s.cur_size (key t)
  moved : ∃ σ : Equiv.Perm ℕ, t = permute σ s ∧ Moves hole s.cur_size σ
  others : ∀ i, ¬(Under hole i ∧ i < s.cur_size) → t.array.cell i = s.array.cell i

theorem Repaired.of_moves {σ : Equiv.Perm ℕ} (hσ : Moves hole s.cur_size σ)
    (ho : Ordered (Under hole) s.cur_size (key (permute σ s))) :
    Repaired hole s (permute σ s) := by
  refine ⟨ho, ⟨σ, rfl, hσ⟩, fun i hi => ?_⟩
  have hfix : σ i = i := by
    by_contra hne
    exact hi (hσ i hne)
  show s.array.cell (σ i) = _
  rw [hfix]

theorem sinking_of_below (h : OrderedBelow hole s) :
    Sinking (Under hole) s.cur_size (key s) hole where
  edge := fun i hpos hi hp hne => h i hpos hi ⟨hp, hne⟩
  skip := by
    intro i _ _ _ hpos hp
    have := hp.le
    omega

/-- **One hole is repaired.** -/
theorem repaired_of_below (h : Live s) (hsmall : s.cur_size ≤ 2 ^ 30) (hhole : hole < 2 ^ 30)
    (ho : OrderedBelow hole s) : ∃ t, s.percolate_down hole = .ok t ∧ Repaired hole s t := by
  unfold TimerHeap.percolate_down
  rw [toInt_of_lt (by omega), ok_bind]
  rcases percolate_spec (fun _ hpos hp => .child hpos hp)
    (show s.cur_size - hole < s.cur_size + 1 by omega) h (sinking_of_below ho) with
    ⟨σ, h1, h2, h3⟩ | ⟨-, hdeep⟩
  · exact ⟨_, h1, .of_moves h2 h3⟩
  · omega

/-! ### The whole array -/

theorem percolate_down_ordered (h : Live s) (hhole : hole < 2 ^ 30)
    (ho : Ordered (fun _ => True) s.cur_size (key s)) : s.percolate_down hole = .ok s := by
  unfold TimerHeap.percolate_down
  rw [toInt_of_lt (by omega), ok_bind]
  by_cases hc : hole * 2 + 1 < s.cur_size
  · obtain ⟨c, hlesser, hpos, hlt, hpar, -⟩ := lesser_spec h hc
    have hle : key s hole ≤ key s c := by
      have := ho c hpos hlt trivial
      rwa [hpar] at this
    rw [percolate_round _ h hc hlesser hlt, if_neg (not_lt.mpr hle)]
  · rw [percolate, if_neg hc]

theorem percolateAll_ordered (h : Live s) (hi : i < 2 ^ 30)
    (ho : Ordered (fun _ => True) s.cur_size (key s)) : percolateAll i s = .ok s := by
  induction i with
  | zero => exact percolate_down_ordered h hi ho
  | succ i ih =>
    rw [percolateAll, percolate_down_ordered h hi ho, ok_bind]
    exact ih (by omega)

/-- **`percolate_down` repairs one hole** of an array of at most `2 ^ 30` timers.  In consequence the
descending loop makes a heap of the array, and leaves a heap as it is. -/
theorem percolate_down_repairs (h : Live s) (hsmall : s.cur_size ≤ 2 ^ 30) :
    (∀ hole, hole < 2 ^ 30 → OrderedBelow hole s →
      ∃ t, s.percolate_down hole = .ok t ∧ Repaired hole s t) ∧
    Sifted (fun _ => True) s (percolateAll ((s.cur_size - 1) / 2) s) ∧
    (Ordered (fun _ => True) s.cur_size (key s) →
      percolateAll ((s.cur_size - 1) / 2) s = .ok s) :=
  ⟨fun _ hhole ho => repaired_of_below h hsmall hhole ho, heap_of_percolateAll h hsmall,
    percolateAll_ordered h (by omega)⟩

/-- A timer at each of the first `n` addresses, the last of them the first to expire. -/
def falling (n : ℕ) : TimerHeap where
  array := ⟨n, fun i => some ⟨i, 0, -i, none⟩⟩
  capacity := n
  cur_size := n
  deleted := []
  fired := []

theorem live_falling (n : ℕ) : Live (falling n) :=
  ⟨le_rfl, fun _ _ => ⟨_, rfl, List.not_mem_nil⟩⟩

theorem percolate_down_repairs_three :
    (∀ hole, hole < 2 ^ 30 → OrderedBelow hole (falling 3) →
      ∃ t, (falling 3).percolate_down hole = .ok t ∧ Repaired hole (falling 3) t) ∧
    Sifted (fun _ => True) (falling 3) (percolateAll 1 (falling 3)) ∧
    (Ordered (fun _ => True) 3 (key (falling 3)) → percolateAll 1 (falling 3) = .ok (falling 3)) :=
  percolate_down_repairs (live_falling 3) (by decide)

/-- **A node too deep**: in an array of `2 ^ 30 + 1` timers the parent of the last one changes places
with it, and the index of the next child leaves `int`. -/
theorem percolate_down_overflow :
    Live (falling (2 ^ 30 + 1)) ∧ OrderedBelow (2 ^ 29 - 1) (falling (2 ^ 30 + 1)) ∧
      (falling (2 ^ 30 + 1)).percolate_down (2 ^ 29 - 1) = .error .overflow := by
  have hlive := live_falling (2 ^ 30 + 1)
  have hsize : (falling (2 ^ 30 + 1)).cur_size = 2 ^ 30 + 1 := rfl
  have hkey : ∀ i, key (falling (2 ^ 30 + 1)) i = -(i : ℤ) := fun _ => rfl
  refine ⟨hlive, ?_, ?_⟩
  · intro i hpos hi hp
    have := hp.1.lt hp.2
    omega
  · have hc : (2 ^ 29 - 1) * 2 + 1 < (falling (2 ^ 30 + 1)).cur_size := by omega
    have hlesser : (falling (2 ^ 30 + 1)).lesser ((2 ^ 29 - 1) * 2 + 1) = .ok (2 ^ 30) := by
      rw [lesser_eq hlive (by omega), hkey, hkey]
      exact congrArg _ (if_pos (by omega))
    unfold TimerHeap.percolate_down
    rw [toInt_of_lt (by omega), ok_bind, percolate_round _ hlive hc hlesser (by omega), hkey, hkey,
      if_pos (by omega), toInt_of_ge (by omega)]
    rfl

end ReactorServer.Timers
