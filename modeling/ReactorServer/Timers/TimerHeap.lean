import ReactorServer.Lib.Runs
import ReactorServer.Cpp
import Mathlib.Logic.Function.Basic

/-!
# The timer heap

`TimerHeap` (`Timer.h`, `Timer.cc`).  A timer is the object a `Timer *` designates; nothing changes
it while it lives.  `deleted` is the record of what has been deleted, so that a second `delete` of
a timer, or a look at a deleted one, is seen; `fired` is the record of the callbacks that were
called, by their timers.

An `int` that is never negative is a natural number, and the places where it may outgrow `int` are
checked.
-/

namespace ReactorServer.Timers

open ReactorServer.Cpp ReactorServer.Lib.Runs

/-- `Timer`.  `address` tells two objects with the same fields apart. -/
structure Timer where
  address : ℕ
  args : ℕ
  expire : ℤ
  cb_func : Option ℕ
  deriving DecidableEq, Repr

/-- `Timer(int delay)`, at an address. -/
def Timer.new (address : ℕ) (delay : ℤ) : Timer :=
  { address := address, args := 0, cb_func := none, expire := delay }

/-! ### Arrays of pointers -/

/-- An array from `new Timer *[length]`; a null pointer is `none`. -/
structure Cells where
  length : ℕ
  cell : ℕ → Option Timer

namespace Cells

/-- A new array.  Where the source leaves the cells as they are, it never looks at them. -/
def null (length : ℕ) : Cells := ⟨length, fun _ => none⟩

def load (i : ℕ) (a : Cells) : Except Fault (Option Timer) :=
  if i < a.length then .ok (a.cell i) else .error .outOfBounds

def store (i : ℕ) (t : Option Timer) (a : Cells) : Except Fault Cells :=
  if i < a.length then .ok { a with cell := Function.update a.cell i t } else .error .outOfBounds

/-- `for (int i = 0; i < n; ++i) dst[i] = src[i];` -/
def copy (src : Cells) : ℕ → Cells → Except Fault Cells
  | 0, dst => .ok dst
  | n + 1, dst => do
    let dst ← src.copy n dst
    dst.store n (← src.load n)

end Cells

structure TimerHeap where
  array : Cells
  capacity : ℕ
  cur_size : ℕ
  deleted : List Timer
  fired : List Timer

namespace TimerHeap

def empty (s : TimerHeap) : Bool := s.cur_size = 0

/-- What a pointer designates, for a look at it. -/
def deref (p : Option Timer) (s : TimerHeap) : Except Fault Timer :=
  match p with
  | none => .error .outOfBounds
  | some t => if t ∈ s.deleted then .error .outOfBounds else .ok t

/-- `delete p`. -/
def delete (p : Option Timer) (s : TimerHeap) : Except Fault TimerHeap :=
  match p with
  | none => .ok s
  | some t =>
    if t ∈ s.deleted then .error .outOfBounds else .ok { s with deleted := s.deleted ++ [t] }

/-- `array[i]->expire`. -/
def expireAt (i : ℕ) (s : TimerHeap) : Except Fault ℤ := do
  let t ← s.deref (← s.array.load i)
  pure t.expire

/-- `array[i] = p`. -/
def store (i : ℕ) (p : Option Timer) (s : TimerHeap) : Except Fault TimerHeap := do
  let array ← s.array.store i p
  pure { s with array := array }

/-! ### Sifting -/

/-- `std::swap(array[i], array[j])`. -/
def swap (i j : ℕ) (s : TimerHeap) : Except Fault TimerHeap := do
  let p ← s.array.load i
  let q ← s.array.load j
  let s ← s.store i q
  s.store j p

/-- The child with the smaller `expire`, the left one when they are equal. -/
def lesser (child : ℕ) (s : TimerHeap) : Except Fault ℕ :=
  if child + 1 < s.cur_size then do
    let right ← s.expireAt (child + 1)
    let left ← s.expireAt child
    pure (if right < left then child + 1 else child)
  else .ok child

/-- The loop of `percolate_down`. -/
def percolate : ℕ → ℕ → ℕ → TimerHeap → Except Fault TimerHeap
  | 0, _, _, _ => .error .hang
  | fuel + 1, hole, child, s =>
    if child < s.cur_size then do
      let child ← s.lesser child
      let e ← s.expireAt child
      let e' ← s.expireAt hole
      if e < e' then do
        let s ← s.swap hole child
        percolate fuel child (← toInt (child * 2 + 1)) s
      else .ok s
    else .ok s

def percolate_down (hole : ℕ) (s : TimerHeap) : Except Fault TimerHeap := do
  percolate (s.cur_size + 1) hole (← toInt (hole * 2 + 1)) s

/-- `for (; i >= 0; --i) percolate_down(i);` -/
def percolateAll : ℕ → TimerHeap → Except Fault TimerHeap
  | 0, s => s.percolate_down 0
  | i + 1, s => do
    let s ← s.percolate_down (i + 1)
    percolateAll i s

/-! ### Construction and destruction -/

/-- `TimerHeap(int cap)`. -/
def new (cap : ℕ) : TimerHeap :=
  { array := .null cap, capacity := cap, cur_size := 0, deleted := [], fired := [] }

/-- `TimerHeap(Timer **init_array, int size, int cap)`. -/
def ofArray (init_array : Cells) (size cap : ℕ) : Except Fault TimerHeap :=
  if cap < size then .error .exception
  else
    let s := { new cap with cur_size := size }
    if size ≠ 0 then do
      let array ← init_array.copy size s.array
      percolateAll ((size - 1) / 2) { s with array := array }
    else .ok s

/-- `for (int i = 0; i < n; ++i) delete array[i];` -/
def deleteCells : ℕ → TimerHeap → Except Fault TimerHeap
  | 0, s => .ok s
  | n + 1, s => do
    let s ← deleteCells n s
    s.delete (← s.array.load n)

/-- `~TimerHeap()`. -/
def destroy (s : TimerHeap) : Except Fault TimerHeap := s.deleteCells s.cur_size

/-! ### The operations -/

def resize (s : TimerHeap) : Except Fault TimerHeap := do
  let capacity ← toInt (2 * s.capacity)
  let tmp ← s.array.copy s.cur_size (.null capacity)
  pure { s with capacity := capacity, array := tmp }

/-- The loop of `add_timer`: timers with a later `expire` go down, and the hole is what is left. -/
def hole (expire : ℤ) : ℕ → ℕ → TimerHeap → Except Fault (ℕ × TimerHeap)
  | 0, _, _ => .error .hang
  | fuel + 1, i, s =>
    if 0 < i then do
      let parent := (i - 1) / 2
      let e ← s.expireAt parent
      if e ≤ expire then .ok (i, s)
      else do
        let s ← s.store i (← s.array.load parent)
        hole expire fuel parent s
    else .ok (i, s)

def add_timer (timer : Option Timer) (s : TimerHeap) : Except Fault TimerHeap :=
  if timer = none then .ok s
  else do
    let s ← if s.cur_size ≥ s.capacity then s.resize else .ok s
    let i := s.cur_size
    let s := { s with cur_size := s.cur_size + 1 }
    -- the messages look at `expire` in any case
    let t ← s.deref timer
    let (i, s) ← s.hole t.expire (i + 1) i
    s.store i timer

def del_timer (timer : Option Timer) (s : TimerHeap) : Except Fault TimerHeap :=
  if timer = none then .ok s else s.percolateAll ((s.cur_size - 1) / 2)

def top (s : TimerHeap) : Except Fault (Option Timer) :=
  if s.empty then .ok none else s.array.load 0

def pop (s : TimerHeap) : Except Fault TimerHeap :=
  if s.empty then .ok s
  else do
    let p ← s.array.load 0
    if p = none then .ok s
    else do
      let s ← s.delete p
      let s := { s with cur_size := s.cur_size - 1 }
      let s ← s.store 0 (← s.array.load s.cur_size)
      s.percolate_down 0

/-- What callbacks do to the heap they are called from: the timers they add, given the timers fired
so far and the timer whose callback it is. -/
abbrev Callbacks := List Timer → Timer → List (Option Timer)

/-- Callbacks that do not touch the heap. -/
def idle : Callbacks := fun _ _ => []

/-- `if (t->cb_func) t->cb_func(t->args)`. -/
def call (cb : Callbacks) (t : Timer) (s : TimerHeap) : Except Fault TimerHeap :=
  if t.cb_func = none then .ok s
  else (cb s.fired t).foldlM (fun s u => s.add_timer u) { s with fired := s.fired ++ [t] }

/-- The loop of `tick`. -/
def tickLoop (cb : Callbacks) (cur : ℤ) : ℕ → Option Timer → TimerHeap → Except Fault TimerHeap
  | 0, _, _ => .error .hang
  | fuel + 1, tmp, s =>
    if s.empty then .ok s
    else if tmp = none then .ok s
    else do
      let t ← s.deref tmp
      if t.expire > cur then .ok s
      else do
        let first ← s.deref (← s.array.load 0)
        let s ← s.call cb first
        let s ← s.pop
        tickLoop cb cur fuel (← s.array.load 0) s

/-- `tick`, where `time(NULL)` is `cur`. -/
def tick (cb : Callbacks) (cur : ℤ) (fuel : ℕ) (s : TimerHeap) : Except Fault TimerHeap := do
  tickLoop cb cur fuel (← s.array.load 0) s

end TimerHeap

/-! ### Runs -/

inductive Act
  | add_timer (timer : Timer)
  | del_timer (timer : Option Timer)
  | pop
  | tick (cur : ℤ)
  deriving DecidableEq, Repr

/-- The operations, with callbacks that do not touch the heap.  Each round of `tick` then takes a
timer out. -/
def step (s : TimerHeap) : Act → Except Fault TimerHeap
  | .add_timer t => s.add_timer (some t)
  | .del_timer p => s.del_timer p
  | .pop => s.pop
  | .tick cur => s.tick TimerHeap.idle cur (s.cur_size + 1)

def heapMachine : Machine TimerHeap Act Fault where
  enabled := fun _ _ => True
  step := step

instance (s : TimerHeap) (a : Act) : Decidable (heapMachine.enabled s a) :=
  inferInstanceAs (Decidable True)

end ReactorServer.Timers
