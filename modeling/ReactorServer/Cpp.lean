import Mathlib.Algebra.Group.Int.Defs
import Mathlib.Algebra.Group.Nat.Defs
import Mathlib.Data.Int.Notation
import Mathlib.Data.Nat.Notation
import Mathlib.Tactic.SplitIfs

/-!
# What the C++ code rests on

How a call can fail to return (`Fault`), byte strings and the C functions on them, and the 32-bit
`int`.  Everything the source leaves to the language or to the C library is here and nowhere else.
-/

namespace ReactorServer.Cpp

/-- The `assert`s of the source that some module checks. -/
inductive Site
  | updateChannel
  | removeChannel
  | fillActiveChannel
  | channelRemove
  | connectionEstablished
  | handleClose
  | removeConnectionInLoop
  | startLoop
  | threadStart
  | threadJoin
  | loop
  | assertLocked
  deriving DecidableEq, Repr

/-- Why a call does not return. -/
inductive Fault
  /-- an `assert` fails and aborts the process -/
  | assertion (s : Site)
  /-- an access outside an array, or through a pointer or iterator that designates nothing -/
  | outOfBounds
  /-- a copy runs past the end of the output buffer -/
  | overrun
  /-- signed arithmetic leaves `int` -/
  | overflow
  /-- a loop that changes nothing it tests -/
  | hang
  /-- an exception leaves the call -/
  | exception
  /-- the results supplied for the system calls are used up, or the next one is not one the call can
  have: no such run exists -/
  | starved
  deriving DecidableEq, Repr

/-- `assert(b)` at the place `s`. -/
def assert (s : Site) (b : Prop) [Decidable b] : Except Fault Unit :=
  if b then .ok () else .error (.assertion s)

/-- `INT_MAX`. -/
def INT_MAX : ℤ := 2 ^ 31 - 1

/-- The sum or product of `int`s that is not negative. -/
def toInt (n : ℕ) : Except Fault ℕ := if (n : ℤ) ≤ INT_MAX then .ok n else .error .overflow

theorem toInt_of_lt {n : ℕ} (h : n < 2 ^ 31) : toInt n = .ok n := by
  unfold toInt INT_MAX
  rw [if_pos (by omega)]

/-! ### Byte strings -/

/-- A `std::string`, or the bytes a pointer designates up to the end of its array. -/
abbrev Bytes := List UInt8

/-- The bytes of a string literal. -/
def ascii (s : String) : Bytes := s.toList.map fun c => UInt8.ofNat c.toNat

def NUL : UInt8 := 0
def LF : UInt8 := 10
def CR : UInt8 := 13
def SP : UInt8 := 32
def COLON : UInt8 := 58
def QUESTION : UInt8 := 63

/-- `isspace` in the C locale. -/
def isspace (b : UInt8) : Bool := b = SP || (9 ≤ b && b ≤ 13)

/-- What a function that takes a C string reads of `s.c_str()`. -/
def cstr (s : Bytes) : Bytes := s.takeWhile (· ≠ NUL)

/-- `s.find(t) != npos`. -/
def contains (t : Bytes) : Bytes → Bool
  | [] => t.isEmpty
  | b :: s => t.isPrefixOf (b :: s) || contains t s

end ReactorServer.Cpp
