import ReactorServer.Lib.Logs
import ReactorServer.Timers.Operations

/-!
# The room for the timers

`add_timer` puts a timer behind the last one, and `resize` doubles the capacity first where there is
no room.  Here the calls log their stores, each with the length of the array it goes to; without
the log they are the calls of the heap (`result_add_timer`).  Twice a positive capacity makes room,
and no store leaves its array.  Twice nothing is nothing: the first timer of a heap of capacity 0 is
stored behind the array (`grows_iff`).
-/

namespace ReactorServer.Timers.Growth

open ReactorServer.Cpp ReactorServer.Lib.Runs ReactorServer.Lib.Triples ReactorServer.Lib.Logs

/-- A store `array[index] = ..`, where the array has `length` cells. -/
structure Store where
  index : ℕ
  length : ℕ
  deriving DecidableEq, Repr

/-- It falls inside the array. -/
def Store.Inside (w : Store) : Prop := w.index < w.length

abbrev Stores := Logged Fault Store

/-! ### The calls -/

def store (i : ℕ) (p : Option Timer) (a : Cells) : Stores Cells := ⟨[⟨i, a.length⟩], a.store i p⟩

/-- `for (int i = 0; i < n; ++i) tmp[i] = NULL;` -/
def clear : ℕ → Cells → Stores Cells
  | 0, tmp => pure tmp
  | n + 1, tmp => do
    let tmp ← clear n tmp
    store n none tmp

/-- `for (int i = 0; i < n; ++i) tmp[i] = src[i];` -/
def copy (src : Cells) : ℕ → Cells → Stores Cells
  | 0, tmp => pure tmp
  | n + 1, tmp => do
    let tmp ← copy src n tmp
    store n (← src.load n) tmp

def resize (s : TimerHeap) : Stores TimerHeap := do
  let capacity ← toInt (2 * s.capacity)
  let tmp ← clear capacity (.null capacity)
  let tmp ← copy s.array s.cur_size tmp
  pure { s with capacity := capacity, array := tmp }

/-- The loop of `add_timer`. -/
def hole (expire : ℤ) : ℕ → ℕ → TimerHeap → Stores (ℕ × TimerHeap)
  | 0, _, _ => liftM (.error .hang : Except Fault (ℕ × TimerHeap))
  | fuel + 1, i, s =>
    if 0 < i then do
      let parent := (i - 1) / 2
      let e ← s.expireAt parent
      if e ≤ expire then pure (i, s)
      else do
        let array ← store i (← s.array.load parent) s.array
        hole expire fuel parent { s with array := array }
    else pure (i, s)

def add_timer (timer : Option Timer) (s : TimerHeap) : Stores TimerHeap :=
  if timer = none then pure s
  else do
    let s ← (if s.cur_size ≥ s.capacity then resize s else pure s)
    let i := s.cur_size
    let s := { s with cur_size := s.cur_size + 1 }
    let t ← s.deref timer
    let (i, s) ← hole t.expire (i + 1) i s
    let array ← store i timer s.array
    pure { s with array := array }

variable {s t : TimerHeap} {timer : Option Timer} {timers : List (Option Timer)} {a : Cells}
  {i n cap : ℕ}

/-! ### Without the log -/

@[simp] theorem result_store (i : ℕ) (p : Option Timer) (a : Cells) :
    (store i p a).result = a.store i p := rfl

theorem result_copy (src dst : Cells) (n : ℕ) : (copy src n dst).result = src.copy n dst := by
  induction n with
  | zero => rfl
  | succ n ih => simp [copy, Cells.copy, ih]

theorem result_clear (h : n ≤ cap) : (clear n (.null cap)).result = .ok (.null cap) := by
  induction n with
  | zero => rfl
  | succ n ih =>
    rw [clear, result_bind, ih (by omega), ok_bind, result_store, Cells.store,
      if_pos (show n < (Cells.null cap).length from h)]
    exact congrArg _ (congrArg (Cells.mk cap) (Function.update_eq_self n _))

theorem result_resize (s : TimerHeap) : (resize s).result = s.resize := by
  unfold resize TimerHeap.resize
  simp [result_clear, result_copy]

theorem result_hole (expire : ℤ) (fuel i : ℕ) (s : TimerHeap) :
    (hole expire fuel i s).result = s.hole expire fuel i := by
  induction fuel generalizing i s with
  | zero => rfl
  | succ fuel ih => simp [hole, TimerHeap.hole, TimerHeap.store, ih]

/-- **Without the log the call is `add_timer`.** -/
theorem result_add_timer (timer : Option Timer) (s : TimerHeap) :
    (add_timer timer s).result = s.add_timer timer := by
  unfold add_timer TimerHeap.add_timer
  split_ifs with hnull hfull
  · rfl
  · simp [result_resize, result_hole, TimerHeap.store]
  · simp [result_hole, TimerHeap.store]

/-! ### Where the stores go -/

/-- Any failure. -/
def Any (_ : Fault) : Prop := True

theorem ends_any {β : Type} (x : Except Fault β) : Ends Any (fun _ => True) x := by
  cases x <;> trivial

/-- The array is as long as the capacity says, and the timers fit into it. -/
structure Fits (s : TimerHeap) : Prop where
  length : s.array.length = s.capacity
  size : s.cur_size ≤ s.capacity

/-- Timers may have moved, but the array and the sizes are the same. -/
structure Same (s t : TimerHeap) : Prop where
  length : t.array.length = s.array.length
  capacity : t.capacity = s.capacity
  cur_size : t.cur_size = s.cur_size

theorem Same.refl (s : TimerHeap) : Same s s := ⟨rfl, rfl, rfl⟩

theorem Same.trans {u : TimerHeap} (h : Same s t) (h' : Same t u) : Same s u :=
  ⟨h'.length.trans h.length, h'.capacity.trans h.capacity, h'.cur_size.trans h.cur_size⟩

theorem store_writes {p : Option Timer} (h : i < a.length) :
    Writes Store.Inside Any (fun b => b.length = a.length) (store i p a) := by
  constructor
  · intro w hw
    obtain rfl := List.mem_singleton.mp hw
    exact h
  · show Ends Any _ (a.store i p)
    rw [Cells.store, if_pos h]
    exact rfl

theorem clear_writes (h : n ≤ a.length) :
    Writes Store.Inside Any (fun b => b.length = a.length) (clear n a) := by
  induction n with
  | zero => exact .pure rfl
  | succ n ih =>
    refine (ih (by omega)).bind fun b hb => ?_
    have hstore := store_writes (p := none) (show n < b.length by omega)
    rwa [hb] at hstore

theorem copy_writes {src : Cells} (h : n ≤ a.length) :
    Writes Store.Inside Any (fun b => b.length = a.length) (copy src n a) := by
  induction n with
  | zero => exact .pure rfl
  | succ n ih =>
    refine (ih (by omega)).bind fun b hb => ?_
    refine (Writes.lift (ends_any (src.load n))).bind fun p _ => ?_
    have hstore := store_writes (p := p) (show n < b.length by omega)
    rwa [hb] at hstore

theorem resize_writes (h : s.cur_size ≤ 2 * s.capacity) :
    Writes Store.Inside Any
      (fun t => t.array.length = t.capacity ∧ t.capacity = 2 * s.capacity ∧
        t.cur_size = s.cur_size) (resize s) := by
  have hcap : Ends Any (fun n => n = 2 * s.capacity) (toInt (2 * s.capacity)) := by
    unfold toInt
    split_ifs
    · exact rfl
    · trivial
  refine (Writes.lift hcap).bind fun n hn => ?_
  subst hn
  refine (clear_writes (a := .null (2 * s.capacity)) le_rfl).bind fun tmp htmp => ?_
  have hlen : tmp.length = 2 * s.capacity := htmp
  refine (copy_writes (by omega)).bind fun tmp' htmp' => ?_
  exact .pure ⟨htmp'.trans hlen, rfl, rfl⟩

/-- The hole moves towards the root; by induction on the fuel. -/
theorem hole_writes {expire : ℤ} {fuel : ℕ} (h : i < s.array.length) :
    Writes Store.Inside Any (fun x => x.1 < x.2.array.length ∧ Same s x.2)
      (hole expire fuel i s) := by
  induction fuel generalizing i s with
  | zero => exact .lift trivial
  | succ fuel ih =>
    rw [hole]
    split_ifs with hpos
    · refine (Writes.lift (ends_any _)).bind fun e _ => ?_
      split_ifs with hle
      · exact .pure ⟨h, .refl s⟩
      · refine (Writes.lift (ends_any _)).bind fun p _ => ?_
        refine (store_writes h).bind fun b hb => ?_
        have hparent : (i - 1) / 2 < b.length := by omega
        have hstep : Same s { s with array := b } := ⟨hb, rfl, rfl⟩
        exact (ih hparent).imp fun x hx => ⟨hx.1, hstep.trans hx.2⟩
    · exact .pure ⟨h, .refl s⟩

theorem room_writes (h : Fits s) (hpos : 0 < s.capacity) :
    Writes Store.Inside Any (fun t => Fits t ∧ t.cur_size < t.capacity)
      (if s.cur_size ≥ s.capacity then resize s else pure s) := by
  have hsize := h.size
  split_ifs with hfull
  · refine (resize_writes (by omega)).imp fun t ⟨hlen, hcap, hcur⟩ => ?_
    exact ⟨⟨hlen, by omega⟩, by omega⟩
  · exact .pure ⟨h, by omega⟩

/-- **One call** on a heap with an array. -/
theorem add_timer_writes (h : Fits s) (hpos : 0 < s.capacity) (timer : Option Timer) :
    Writes Store.Inside Any (fun t => Fits t ∧ 0 < t.capacity) (add_timer timer s) := by
  unfold add_timer
  by_cases hnull : timer = none
  · rw [if_pos hnull]
    exact .pure ⟨h, hpos⟩
  · rw [if_neg hnull]
    refine (room_writes h hpos).bind fun s' ⟨hfits, hroom⟩ => ?_
    refine (Writes.lift (ends_any _)).bind fun u _ => ?_
    have hlen := hfits.length
    let r : TimerHeap := { s' with cur_size := s'.cur_size + 1 }
    have hlast : s'.cur_size < r.array.length := show s'.cur_size < s'.array.length by omega
    refine (hole_writes hlast).bind fun x ⟨hlt, hsame⟩ => ?_
    refine (store_writes hlt).bind fun b hb => ?_
    have h1 : x.2.array.length = s'.array.length := hsame.length
    have h2 : x.2.capacity = s'.capacity := hsame.capacity
    have h3 : x.2.cur_size = s'.cur_size + 1 := hsame.cur_size
    refine .pure ⟨⟨?_, ?_⟩, ?_⟩
    · show b.length = x.2.capacity
      omega
    · show x.2.cur_size ≤ x.2.capacity
      omega
    · show 0 < x.2.capacity
      omega

/-! ### Construction -/

/-- What the constructors make of a capacity. -/
inductive Built (cap : ℕ) : TimerHeap → Prop
  | new : Built cap (.new cap)
  | ofArray {init_array : Cells} {size : ℕ} {s : TimerHeap}
      (h : TimerHeap.ofArray init_array size cap = .ok s) : Built cap s

theorem store_same {p : Option Timer} (h : s.store i p = .ok t) : Same s t := by
  by_cases hi : i < s.array.length
  · rw [store_of_lt hi] at h
    cases h
    exact ⟨rfl, rfl, rfl⟩
  · rw [store_of_ge (by omega)] at h
    cases h

theorem swap_same {i j : ℕ} (h : s.swap i j = .ok t) : Same s t := by
  unfold TimerHeap.swap at h
  obtain ⟨p, -, h⟩ := bind_eq_ok.mp h
  obtain ⟨q, -, h⟩ := bind_eq_ok.mp h
  obtain ⟨u, hu, h⟩ := bind_eq_ok.mp h
  exact (store_same hu).trans (store_same h)

theorem percolate_same {fuel hole child : ℕ} (h : TimerHeap.percolate fuel hole child s = .ok t) :
    Same s t := by
  induction fuel generalizing s hole child with
  | zero => cases h
  | succ fuel ih =>
    rw [TimerHeap.percolate] at h
    by_cases hchild : child < s.cur_size
    · rw [if_pos hchild] at h
      obtain ⟨c, -, h⟩ := bind_eq_ok.mp h
      obtain ⟨e, -, h⟩ := bind_eq_ok.mp h
      obtain ⟨e', -, h⟩ := bind_eq_ok.mp h
      by_cases hlt : e < e'
      · rw [if_pos hlt] at h
        obtain ⟨u, hu, h⟩ := bind_eq_ok.mp h
        obtain ⟨next, -, h⟩ := bind_eq_ok.mp h
        exact (swap_same hu).trans (ih h)
      · rw [if_neg hlt] at h
        cases h
        exact .refl _
    · rw [if_neg hchild] at h
      cases h
      exact .refl _

theorem percolate_down_same (h : s.percolate_down i = .ok t) : Same s t := by
  unfold TimerHeap.percolate_down at h
  obtain ⟨child, -, h⟩ := bind_eq_ok.mp h
  exact percolate_same h

theorem percolateAll_same (h : TimerHeap.percolateAll i s = .ok t) : Same s t := by
  induction i generalizing s with
  | zero =>
    rw [TimerHeap.percolateAll] at h
    exact percolate_down_same h
  | succ i ih =>
    rw [TimerHeap.percolateAll] at h
    obtain ⟨u, hu, h⟩ := bind_eq_ok.mp h
    exact (percolate_down_same hu).trans (ih h)

theorem copy_length {src dst a : Cells} (h : src.copy n dst = .ok a) : a.length = dst.length := by
  induction n generalizing a with
  | zero =>
    cases h
    rfl
  | succ n ih =>
    rw [Cells.copy] at h
    obtain ⟨b, hb, h⟩ := bind_eq_ok.mp h
    obtain ⟨p, -, h⟩ := bind_eq_ok.mp h
    rw [← ih hb]
    unfold Cells.store at h
    split_ifs at h
    cases h
    rfl

theorem Built.fits (h : Built cap s) : Fits s ∧ s.capacity = cap := by
  cases h with
  | new => exact ⟨⟨rfl, Nat.zero_le _⟩, rfl⟩
  | @ofArray init_array size _ h =>
    unfold TimerHeap.ofArray at h
    by_cases hfit : cap < size
    · rw [if_pos hfit] at h
      cases h
    rw [if_neg hfit] at h
    by_cases h0 : size = 0
    · rw [if_neg (not_not.mpr h0)] at h
      cases h
      exact ⟨⟨rfl, not_lt.mp hfit⟩, rfl⟩
    · rw [if_pos h0] at h
      obtain ⟨a, ha, h⟩ := bind_eq_ok.mp h
      obtain ⟨h1, h2, h3⟩ := percolateAll_same h
      have h1' : s.array.length = a.length := h1
      have h2' : s.capacity = cap := h2
      have h3' : s.cur_size = size := h3
      have hlen : a.length = cap := copy_length ha
      exact ⟨⟨by omega, by omega⟩, h2'⟩

/-! ### Runs -/

/-- Calls of `add_timer`, as long as twice the capacity is an `int`. -/
def calls : Machine TimerHeap (Option Timer) Fault where
  enabled := fun s _ => (2 * s.capacity : ℕ) ≤ INT_MAX
  step := fun s timer => s.add_timer timer

/-- **What a call is to do**: its stores fall inside their arrays; where it calls `resize`, the
capacity increases and the timers stay; and the timers fit in afterwards. -/
structure Grows (s : TimerHeap) (timer : Option Timer) : Prop where
  inside : ∀ w ∈ (add_timer timer s).log, w.Inside
  resize : timer ≠ none → s.capacity ≤ s.cur_size → ∃ t, s.resize = .ok t ∧
    s.capacity < t.capacity ∧ t.cur_size = s.cur_size ∧
    ∀ i, i < s.cur_size → t.array.cell i = s.array.cell i
  size : ∀ t, s.add_timer timer = .ok t → t.cur_size ≤ t.capacity

/-- Each of these calls, one after another, does so. -/
def AllGrow (s : TimerHeap) (timers : List (Option Timer)) : Prop :=
  ∀ pre timer post t, timers = pre ++ timer :: post → Run calls s pre t →
    calls.enabled t timer → Grows t timer

theorem grows (h : Fits s) (hpos : 0 < s.capacity) (hint : calls.enabled s timer) :
    Grows s timer := by
  have hint' : ((2 * s.capacity : ℕ) : ℤ) ≤ 2 ^ 31 - 1 := hint
  have hsize := h.size
  obtain ⟨hinside, hends⟩ := add_timer_writes h hpos timer
  rw [result_add_timer] at hends
  refine ⟨hinside, fun _ _ => ?_, fun t ht => (hends.of_ok ht).1.size⟩
  refine ⟨grown s, resize_eq h.length hsize (by omega), ?_, rfl, fun i hi => if_pos hi⟩
  show s.capacity < 2 * s.capacity
  omega

theorem run_fits (h : Run calls s timers t) (hs : Fits s ∧ 0 < s.capacity) :
    Fits t ∧ 0 < t.capacity := by
  refine run_ends (E := Any) (I := fun u => Fits u ∧ 0 < u.capacity) (fun u timer hu _ => ?_) h hs
  have hends := (add_timer_writes hu.1 hu.2 timer).2
  rwa [result_add_timer] at hends

theorem run_null (h : Run calls s timers t) (hnull : ∀ timer ∈ timers, timer = none) : t = s := by
  induction h with
  | nil => rfl
  | cons _ hs _ ih =>
    obtain ⟨rfl, hrest⟩ := List.forall_mem_cons.mp hnull
    rw [ih hrest]
    exact (Except.ok.inj hs).symm

theorem grows_null (h : Fits s) : Grows s none := by
  refine ⟨List.forall_mem_nil _, fun hnull => absurd rfl hnull, fun t ht => ?_⟩
  have hsame : t = s := (Except.ok.inj ht).symm
  rw [hsame]
  exact h.size

/-- The array of a heap without one does not grow. -/
theorem not_grows (h : Fits s) (h0 : s.capacity = 0) (hne : timer ≠ none) : ¬Grows s timer := by
  intro hgrows
  have hsize := h.size
  obtain ⟨t, ht, hlt, -⟩ := hgrows.resize hne (by omega)
  have heq : s.resize = .ok (grown s) := resize_eq h.length hsize (by omega)
  obtain rfl : grown s = t := Except.ok.inj (heq.symm.trans ht)
  have hcap : (grown s).capacity = 2 * s.capacity := rfl
  omega

/-- So it is given no timer, where all calls do as they are to do. -/
theorem null_of_allGrow (h : Fits s) (h0 : s.capacity = 0) (hall : AllGrow s timers) :
    ∀ timer ∈ timers, timer = none := by
  have hint : ∀ timer, calls.enabled s timer := by
    intro timer
    show ((2 * s.capacity : ℕ) : ℤ) ≤ INT_MAX
    rw [h0]
    decide
  induction timers with
  | nil => exact List.forall_mem_nil _
  | cons timer timers ih =>
    obtain rfl : timer = none := by
      by_contra hne
      exact not_grows h h0 hne (hall [] timer timers s rfl (.nil s) (hint timer))
    refine List.forall_mem_cons.mpr ⟨rfl, ih fun pre timer post t hsplit hrun => ?_⟩
    exact hall (none :: pre) timer post t (congrArg _ hsplit) (.cons (hint none) rfl hrun)

/-- **Growth stays in bounds.**  For every capacity and every array that the constructors accept,
and for all pointers given to `add_timer` one after another, every call does as it is to do if and
only if the capacity is positive, or no pointer is to a timer. -/
theorem grows_iff (h : Built cap s) :
    AllGrow s timers ↔ 0 < cap ∨ ∀ timer ∈ timers, timer = none := by
  obtain ⟨hfits, rfl⟩ := h.fits
  constructor
  · intro hall
    rcases Nat.eq_zero_or_pos s.capacity with h0 | hpos
    · exact Or.inr (null_of_allGrow hfits h0 hall)
    · exact Or.inl hpos
  · rintro (hpos | hnull) pre timer post t rfl hrun hint
    · obtain ⟨hfits', hpos'⟩ := run_fits hrun ⟨hfits, hpos⟩
      exact grows hfits' hpos' hint
    · obtain ⟨hpre, hrest⟩ := List.forall_mem_append.mp hnull
      obtain rfl := run_null hrun hpre
      obtain rfl := hrest timer List.mem_cons_self
      exact grows_null hfits

theorem grows_iff_three :
    AllGrow (.new 1) [some ⟨0, 0, 9, none⟩, none, some ⟨1, 0, 4, none⟩, some ⟨2, 0, 6, none⟩] ↔
      0 < 1 ∨ ∀ timer ∈ [some ⟨0, 0, 9, none⟩, none, some ⟨1, 0, 4, none⟩, some ⟨2, 0, 6, none⟩],
        timer = (none : Option Timer) :=
  grows_iff .new

/-- **The first timer of a heap of capacity 0**: twice 0 is 0, and it is stored at the index 0 of an
array without cells. -/
theorem not_allGrow : Built 0 (.new 0) ∧ ¬AllGrow (.new 0) [some (.new 0 10)] ∧
    (add_timer (some (.new 0 10)) (.new 0)).log = [⟨0, 0⟩] ∧
    (TimerHeap.new 0).add_timer (some (.new 0 10)) = .error .outOfBounds := by
  have hfits : Fits (.new 0) := ⟨rfl, le_rfl⟩
  refine ⟨.new, fun hall => ?_, rfl, rfl⟩
  have hint : calls.enabled (.new 0) (some (.new 0 10)) := by
    show ((2 * 0 : ℕ) : ℤ) ≤ INT_MAX
    decide
  have hgrows := hall [] (some (.new 0 10)) [] (.new 0) rfl (.nil _) hint
  exact not_grows hfits rfl (Option.some_ne_none _) hgrows

end ReactorServer.Timers.Growth
