import ReactorServer.Lib.BinaryHeap
import ReactorServer.Lib.Triples
import ReactorServer.Timers.TimerHeap
import Mathlib.Data.Int.Order.Basic
import Mathlib.Data.List.Perm.Basic

/-!
# The heap invariant of the timers

`Live`: the first `cur_size` cells hold timers that have not been deleted.  On a live heap sifting
permutes the cells and ends in heap order (`percolate_down_spec`).  `Sound` is the invariant of the
operations, and the timers in the heap and the deleted ones together are those inserted
(`Kept`).
-/

namespace ReactorServer.Timers

open ReactorServer.Cpp ReactorServer.Lib.Runs ReactorServer.Lib.BinaryHeap
open TimerHeap

variable {s t : TimerHeap} {P : ℕ → Prop} {u : Timer} {i hole c : ℕ}

/-! ### Cells -/

/-- The `expire` of a cell. -/
def expireOf (p : Option Timer) : ℤ := (p.map Timer.expire).getD 0

/-- What the cells are ordered by. -/
def key (s : TimerHeap) (i : ℕ) : ℤ := expireOf (s.array.cell i)

/-- The cells in use hold timers that can be looked at. -/
structure Live (s : TimerHeap) : Prop where
  length : s.cur_size ≤ s.array.length
  cell : ∀ i, i < s.cur_size → ∃ u, s.array.cell i = some u ∧ u ∉ s.deleted

theorem load_of_lt {a : Cells} (h : i < a.length) : a.load i = .ok (a.cell i) := if_pos h

/-- One cell is written. -/
def put (i : ℕ) (p : Option Timer) (s : TimerHeap) : TimerHeap :=
  { s with array := { s.array with cell := Function.update s.array.cell i p } }

theorem store_of_lt {p : Option Timer} (h : i < s.array.length) : s.store i p = .ok (put i p s) := by
  unfold TimerHeap.store Cells.store
  rw [if_pos h]
  rfl

theorem store_of_ge {p : Option Timer} (h : s.array.length ≤ i) :
    s.store i p = .error .outOfBounds := by
  unfold TimerHeap.store Cells.store
  rw [if_neg (not_lt.mpr h)]
  rfl

theorem Live.expireAt (h : Live s) (hi : i < s.cur_size) : s.expireAt i = .ok (key s i) := by
  obtain ⟨u, hu, hdel⟩ := h.cell i hi
  have hlen := h.length
  unfold TimerHeap.expireAt key
  rw [load_of_lt (by omega), hu]
  simp [TimerHeap.deref, hdel, expireOf]

/-- The cells change places. -/
def permute (σ : Equiv.Perm ℕ) (s : TimerHeap) : TimerHeap :=
  { s with array := { s.array with cell := s.array.cell ∘ σ } }

theorem swap_eq {j : ℕ} (hi : i < s.array.length) (hj : j < s.array.length) :
    s.swap i j = .ok (permute (Equiv.swap i j) s) := by
  unfold TimerHeap.swap
  have hj' : j < (put i (s.array.cell j) s).array.length := hj
  rw [load_of_lt hi, load_of_lt hj, ok_bind, ok_bind, store_of_lt hi, ok_bind, store_of_lt hj']
  have hcell : Function.update (Function.update s.array.cell i (s.array.cell j)) j
      (s.array.cell i) = s.array.cell ∘ Equiv.swap i j := by
    funext k
    show _ = s.array.cell (Equiv.swap i j k)
    by_cases hkj : k = j
    · rw [hkj, Function.update_self, Equiv.swap_apply_right]
    · rw [Function.update_of_ne hkj]
      by_cases hki : k = i
      · rw [hki, Function.update_self, Equiv.swap_apply_left]
      · rw [Function.update_of_ne hki, Equiv.swap_apply_of_ne_of_ne hki hkj]
  unfold permute
  rw [← hcell]
  rfl

theorem Live.permute (h : Live s) {σ : Equiv.Perm ℕ} (hσ : ∀ i, σ i < s.cur_size ↔ i < s.cur_size) :
    Live (permute σ s) :=
  ⟨h.length, fun i hi => h.cell (σ i) ((hσ i).mpr hi)⟩

/-! ### Sifting down -/

/-- Of two children the right one, where it is lesser. -/
theorem lesser_eq (h : Live s) (hr : hole * 2 + 1 + 1 < s.cur_size) :
    s.lesser (hole * 2 + 1) = .ok (if key s (hole * 2 + 1 + 1) < key s (hole * 2 + 1)
      then hole * 2 + 1 + 1 else hole * 2 + 1) := by
  have hl : hole * 2 + 1 < s.cur_size := by omega
  unfold TimerHeap.lesser
  rw [if_pos hr, h.expireAt hr, h.expireAt hl, ok_bind, ok_bind, pure_eq_ok]

/-- `lesser` finds a child that is not above the other. -/
theorem lesser_spec (h : Live s) (hc : hole * 2 + 1 < s.cur_size) :
    ∃ c, s.lesser (hole * 2 + 1) = .ok c ∧ 0 < c ∧ c < s.cur_size ∧ (c - 1) / 2 = hole ∧
      ∀ i, 0 < i → i < s.cur_size → (i - 1) / 2 = hole → key s c ≤ key s i := by
  by_cases hr : hole * 2 + 1 + 1 < s.cur_size
  · rw [lesser_eq h hr]
    by_cases hlt : key s (hole * 2 + 1 + 1) < key s (hole * 2 + 1)
    · rw [if_pos hlt]
      refine ⟨_, rfl, by omega, hr, by omega, fun i hpos hi hpar => ?_⟩
      rcases (by omega : i = hole * 2 + 1 ∨ i = hole * 2 + 1 + 1) with rfl | rfl
      · exact hlt.le
      · exact le_rfl
    · rw [if_neg hlt]
      refine ⟨_, rfl, by omega, hc, by omega, fun i hpos hi hpar => ?_⟩
      rcases (by omega : i = hole * 2 + 1 ∨ i = hole * 2 + 1 + 1) with rfl | rfl
      · exact le_rfl
      · exact not_lt.mp hlt
  · unfold TimerHeap.lesser
    rw [if_neg hr]
    refine ⟨_, rfl, by omega, hc, by omega, fun i hpos hi hpar => ?_⟩
    rw [show i = hole * 2 + 1 by omega]

/-- One round of `percolate_down`, where the lesser child is `c`. -/
theorem percolate_round (fuel : ℕ) (h : Live s) (hc : hole * 2 + 1 < s.cur_size)
    (hlesser : s.lesser (hole * 2 + 1) = .ok c) (hlt : c < s.cur_size) :
    percolate (fuel + 1) hole (hole * 2 + 1) s =
      if key s c < key s hole then
        toInt (c * 2 + 1) >>= fun c' => percolate fuel c c' (permute (Equiv.swap hole c) s)
      else .ok s := by
  have hlen := h.length
  rw [percolate, if_pos hc, hlesser, ok_bind, h.expireAt hlt, h.expireAt (by omega), ok_bind,
    ok_bind, swap_eq (by omega) (by omega), ok_bind]

theorem swap_lt_iff {j n k : ℕ} (hi : i < n) (hj : j < n) : Equiv.swap i j k < n ↔ k < n := by
  rw [Equiv.swap_apply_def]
  split_ifs <;> omega

/-- The heap has outgrown `int`: `child*2+1` of its last timer leaves it. -/
def Deep (s : TimerHeap) (x : Except Fault TimerHeap) : Prop :=
  x = .error .overflow ∧ 2 ^ 30 < s.cur_size

theorem toInt_of_ge {n : ℕ} (h : 2 ^ 31 ≤ n) : toInt n = .error .overflow := by
  unfold toInt INT_MAX
  rw [if_neg (by push_cast; omega)]

/-- The loop of `percolate_down`, by induction on the fuel; the hole goes down with its least
child. -/
theorem percolate_spec (hP : Hereditary P) {fuel : ℕ} (hfuel : s.cur_size - hole < fuel)
    (h : Live s) (hs : Sinking P s.cur_size (key s) hole) :
    (∃ σ, percolate fuel hole (hole * 2 + 1) s = .ok (permute σ s) ∧ Moves hole s.cur_size σ ∧
      Ordered P s.cur_size (key (permute σ s))) ∨
    Deep s (percolate fuel hole (hole * 2 + 1) s) := by
  induction fuel generalizing s hole with
  | zero => omega
  | succ fuel ih =>
    have hlen := h.length
    by_cases hc : hole * 2 + 1 < s.cur_size
    · obtain ⟨c, hlesser, hpos, hlt, hpar, hleast⟩ := lesser_spec h hc
      have hstep := percolate_round fuel h hc hlesser hlt
      by_cases hkey : key s c < key s hole
      · rw [hstep, if_pos hkey]
        by_cases hint : c < 2 ^ 30
        · have hswap : ∀ i, Equiv.swap hole c i < s.cur_size ↔ i < s.cur_size :=
            fun _ => swap_lt_iff (by omega) hlt
          rw [toInt_of_lt (by omega), ok_bind]
          rcases ih (s := permute (Equiv.swap hole c) s) (show s.cur_size - c < fuel by omega)
            (h.permute hswap) (hs.swap hP hpos hlt hpar hleast hkey) with ⟨σ, h1, h2, h3⟩ | hdeep
          · left
            refine ⟨σ.trans (Equiv.swap hole c), ?_, h2.swap hpos hlt hpar, h3⟩
            rw [h1]
            rfl
          · right
            exact hdeep
        · right
          rw [toInt_of_ge (by omega)]
          exact ⟨rfl, by omega⟩
      · left
        refine ⟨Equiv.refl ℕ, by rw [hstep, if_neg hkey]; rfl, .refl, hs.stop ?_⟩
        intro i hi hin hip
        exact (not_lt.mp hkey).trans (hleast i hi hin hip)
    · left
      refine ⟨Equiv.refl ℕ, by rw [percolate, if_neg hc]; rfl, .refl, hs.stop ?_⟩
      intro i hi hin hip
      omega

/-- What sifting leaves: the cells in use permuted, and heap order. -/
def Sifted (P : ℕ → Prop) (s : TimerHeap) (x : Except Fault TimerHeap) : Prop :=
  ∃ σ : Equiv.Perm ℕ, x = .ok (permute σ s) ∧ (∀ i, σ i < s.cur_size ↔ i < s.cur_size) ∧
    Ordered P s.cur_size (key (permute σ s))

/-- **`percolate_down` repairs the hole**, unless the heap is too deep. -/
theorem sifted_percolate_down (hP : Hereditary P) (h : Live s) (hhole : hole * 2 ≤ s.cur_size)
    (hs : Sinking P s.cur_size (key s) hole) :
    Sifted P s (s.percolate_down hole) ∨ Deep s (s.percolate_down hole) := by
  unfold TimerHeap.percolate_down
  by_cases hint : hole < 2 ^ 30
  · rw [toInt_of_lt (by omega), ok_bind]
    rcases percolate_spec hP (show s.cur_size - hole < s.cur_size + 1 by omega) h hs with
      ⟨σ, h1, h2, h3⟩ | hdeep
    · left
      exact ⟨σ, h1, fun _ => h2.lt_iff, h3⟩
    · right
      exact hdeep
  · right
    rw [toInt_of_ge (by omega)]
    exact ⟨rfl, by omega⟩

/-- A node whose children are roots of heaps may be out of order. -/
theorem sinking_of_ordered (h : Ordered (i < ·) s.cur_size (key s)) :
    Sinking (i ≤ ·) s.cur_size (key s) i where
  edge := fun j hpos hj hp hne => h j hpos hj (lt_of_le_of_ne hp (Ne.symm hne))
  skip := fun j _ _ _ hi hp => absurd (show i ≤ (i - 1) / 2 from hp) (by omega)

/-- The descending loop makes a heap of any array. -/
theorem percolateAll_spec (h : Live s) (hi : i * 2 ≤ s.cur_size)
    (ho : Ordered (i < ·) s.cur_size (key s)) :
    Sifted (fun _ => True) s (percolateAll i s) ∨ Deep s (percolateAll i s) := by
  induction i generalizing s with
  | zero =>
    rcases sifted_percolate_down hereditary_ge h hi (sinking_of_ordered ho) with
      ⟨σ, h1, h2, h3⟩ | hdeep
    · left
      exact ⟨σ, h1, h2, h3.mono fun _ _ => Nat.zero_le _⟩
    · right
      exact hdeep
  | succ i ih =>
    rw [percolateAll]
    rcases sifted_percolate_down hereditary_ge h hi (sinking_of_ordered ho) with
      ⟨σ, h1, h2, h3⟩ | ⟨h1, h2⟩
    · rw [h1, ok_bind]
      rcases ih (s := permute σ s) (h.permute h2) (show i * 2 ≤ s.cur_size by omega)
        (h3.mono fun _ => id) with ⟨σ', h4, h5, h6⟩ | hdeep
      · left
        refine ⟨σ'.trans σ, ?_, fun j => (h2 _).trans (h5 j), h6⟩
        rw [h4]
        rfl
      · right
        exact hdeep
    · right
      rw [h1]
      exact ⟨rfl, h2⟩

/-- The descending loop starts at the parent of the last timer, or at it: no node behind has a
child. -/
theorem heap_of_percolateAll (h : Live s) (hsmall : s.cur_size ≤ 2 ^ 30) :
    Sifted (fun _ => True) s (percolateAll ((s.cur_size - 1) / 2) s) := by
  have hleaves : Ordered ((s.cur_size - 1) / 2 < ·) s.cur_size (key s) := by
    intro i hpos hi hp
    have hp' : (s.cur_size - 1) / 2 < (i - 1) / 2 := hp
    omega
  refine (percolateAll_spec h (by omega) hleaves).resolve_right ?_
  rintro ⟨-, hdeep⟩
  omega

/-! ### The invariant -/

/-- The timers in the heap. -/
def timers (s : TimerHeap) : List Timer := (List.range s.cur_size).filterMap s.array.cell

theorem timers_permute {σ : Equiv.Perm ℕ} (hσ : ∀ i, σ i < s.cur_size ↔ i < s.cur_size) :
    (timers (permute σ s)).Perm (timers s) := by
  have h := (map_range_perm s.array.cell hσ).filterMap id
  rwa [List.filterMap_map, List.filterMap_map] at h

theorem mem_timers : u ∈ timers s ↔ ∃ i, i < s.cur_size ∧ s.array.cell i = some u := by
  simp [timers]

/-- The invariant of a heap of any size. -/
structure Valid (s : TimerHeap) : Prop where
  length : s.array.length = s.capacity
  size : s.cur_size ≤ s.capacity
  cell : ∀ i, i < s.cur_size → ∃ u, s.array.cell i = some u
  nodup : (timers s ++ s.deleted).Nodup
  ordered : Ordered (fun _ => True) s.cur_size (key s)

/-- **The invariant of the heap.** -/
structure Sound (s : TimerHeap) : Prop where
  length : s.array.length = s.capacity
  pos : 0 < s.capacity
  size : s.cur_size ≤ s.capacity
  small : s.cur_size ≤ 2 ^ 30
  cell : ∀ i, i < s.cur_size → ∃ u, s.array.cell i = some u
  nodup : (timers s ++ s.deleted).Nodup
  ordered : Ordered (fun _ => True) s.cur_size (key s)

theorem Sound.valid (h : Sound s) : Valid s := ⟨h.length, h.size, h.cell, h.nodup, h.ordered⟩

theorem Valid.sound (h : Valid s) (hpos : 0 < s.capacity) (hsmall : s.cur_size ≤ 2 ^ 30) :
    Sound s :=
  ⟨h.length, hpos, h.size, hsmall, h.cell, h.nodup, h.ordered⟩

theorem live_of (hsize : s.cur_size ≤ s.array.length)
    (hcell : ∀ i, i < s.cur_size → ∃ u, s.array.cell i = some u)
    (hnodup : (timers s ++ s.deleted).Nodup) : Live s := by
  refine ⟨hsize, fun i hi => ?_⟩
  obtain ⟨u, hu⟩ := hcell i hi
  exact ⟨u, hu, fun hdel =>
    (List.nodup_append.mp hnodup).2.2 u (mem_timers.mpr ⟨i, hi, hu⟩) u hdel rfl⟩

theorem Valid.live (h : Valid s) : Live s :=
  live_of (h.size.trans h.length.ge) h.cell h.nodup

/-- **What an operation does**: it puts the timers `ins` into the heap, takes `outs` out and deletes
them, and calls the callbacks of the timers `called`. -/
structure Effect (ins outs called : List Timer) (s t : TimerHeap) : Prop where
  valid : Valid t
  timers : (timers t ++ outs).Perm (ins ++ timers s)
  deleted : t.deleted = s.deleted ++ outs
  fired : t.fired = s.fired ++ called

theorem Valid.effect (h : Valid s) : Effect [] [] [] s s :=
  ⟨h, by rw [List.append_nil]; exact .refl _, (List.append_nil _).symm, (List.append_nil _).symm⟩

/-- The timers in the heap and the deleted ones are those there were and those put in. -/
theorem Effect.account {ins outs called : List Timer} (h : Effect ins outs called s t) :
    (Timers.timers t ++ t.deleted).Perm (ins ++ (Timers.timers s ++ s.deleted)) := by
  have h1 : (Timers.timers t ++ t.deleted).Perm (Timers.timers t ++ outs ++ s.deleted) := by
    rw [h.deleted, List.append_assoc]
    exact List.perm_append_comm.append_left _
  rw [← List.append_assoc]
  exact h1.trans (h.timers.append_right _)

theorem Effect.trans {ins ins' outs outs' called called' : List Timer} {t' : TimerHeap}
    (h : Effect ins outs called s t) (h' : Effect ins' outs' called' t t') :
    Effect (ins' ++ ins) (outs ++ outs') (called ++ called') s t' where
  valid := h'.valid
  timers := by
    have h1 : (Timers.timers t' ++ (outs ++ outs')).Perm (Timers.timers t' ++ outs' ++ outs) := by
      rw [List.append_assoc]
      exact List.perm_append_comm.append_left _
    rw [List.append_assoc]
    refine h1.trans ((h'.timers.append_right outs).trans ?_)
    rw [List.append_assoc]
    exact h.timers.append_left ins'
  deleted := by rw [h'.deleted, h.deleted, List.append_assoc]
  fired := by rw [h'.fired, h.fired, List.append_assoc]

/-- The timers of `t`, with the deleted ones, are those of `s` and those of `us`. -/
structure Kept (us : List Timer) (s t : TimerHeap) : Prop where
  sound : Sound t
  perm : (timers t ++ t.deleted).Perm (us ++ (timers s ++ s.deleted))

theorem Effect.kept {ins outs called : List Timer} (h : Effect ins outs called s t)
    (hpos : 0 < t.capacity) (hsmall : t.cur_size ≤ 2 ^ 30) : Kept ins s t :=
  ⟨h.valid.sound hpos hsmall, h.account⟩

/-- Sifting an array that is valid but for the order makes it valid. -/
theorem Sifted.effect {x : Except Fault TimerHeap} (h : Sifted (fun _ => True) s x)
    (hlength : s.array.length = s.capacity) (hsize : s.cur_size ≤ s.capacity)
    (hcell : ∀ i, i < s.cur_size → ∃ u, s.array.cell i = some u)
    (hnodup : (timers s ++ s.deleted).Nodup) :
    ∃ t, x = .ok t ∧ Effect [] [] [] s t ∧ t.cur_size = s.cur_size ∧ t.capacity = s.capacity := by
  obtain ⟨σ, h1, h2, h3⟩ := h
  have hperm := timers_permute h2
  refine ⟨_, h1, ⟨⟨hlength, hsize, ?_, (hperm.append_right _).nodup_iff.mpr hnodup, h3⟩, ?_, ?_, ?_⟩,
    rfl, rfl⟩
  · exact fun i hi => hcell (σ i) ((h2 i).mpr hi)
  · rw [List.append_nil]
    exact hperm
  · exact (List.append_nil _).symm
  · exact (List.append_nil _).symm

end ReactorServer.Timers
