import ReactorServer.Cpp
import ReactorServer.Lib.Runs
import Mathlib.Data.List.Basic
import Mathlib.Logic.Function.Basic

/-!
# The read buffer and its strings

`readBuf` is an array of `READ_BUFFER_SIZE` bytes, and a pointer into it is an index.  The functions
of the C library are given an index and read the string there: the bytes up to the first `NUL`.
`At m p s` says that the string at `p` is `s`.  A string that does not end inside the array is an
access outside it.
-/

namespace ReactorServer.Conn.Strings

open ReactorServer.Cpp ReactorServer.Lib.Runs

/-- `HttpConn::READ_BUFFER_SIZE`. -/
def READ_BUFFER_SIZE : ℕ := 2048

/-- What is at each index; nothing is read or written but below `READ_BUFFER_SIZE`. -/
abbrev Buffer := ℕ → UInt8

variable {m m' : Buffer} {p i k : ℕ} {s t : Bytes} {b : UInt8}

/-! ### Single bytes -/

/-- `readBuf[i]`. -/
def readAt (m : Buffer) (i : ℤ) : Except Fault UInt8 :=
  if 0 ≤ i ∧ i < READ_BUFFER_SIZE then .ok (m i.toNat) else .error .outOfBounds

/-- `readBuf[i] = b`. -/
def writeAt (i : ℤ) (b : UInt8) (m : Buffer) : Except Fault Buffer :=
  if 0 ≤ i ∧ i < READ_BUFFER_SIZE then .ok (Function.update m i.toNat b) else .error .outOfBounds

theorem readAt_of_lt (h : i < READ_BUFFER_SIZE) : readAt m i = .ok (m i) := by
  unfold readAt
  rw [if_pos (by omega), Int.toNat_natCast]

theorem writeAt_of_lt (h : i < READ_BUFFER_SIZE) :
    writeAt i b m = .ok (Function.update m i b) := by
  unfold writeAt
  rw [if_pos (by omega), Int.toNat_natCast]

/-! ### Strings -/

/-- The string at `p`, when there are `n` bytes up to the end of the array. -/
def cstringFrom (m : Buffer) : ℕ → ℕ → Except Fault Bytes
  | 0, _ => .error .outOfBounds
  | n + 1, p =>
    if m p = NUL then .ok []
    else do
      let s ← cstringFrom m n (p + 1)
      pure (m p :: s)

/-- The string that is passed with a pointer to `p`. -/
def cstring (m : Buffer) (p : ℕ) : Except Fault Bytes := cstringFrom m (READ_BUFFER_SIZE - p) p

/-- The string at `p` is `s`. -/
def At (m : Buffer) : ℕ → Bytes → Prop
  | p, [] => p < READ_BUFFER_SIZE ∧ m p = NUL
  | p, b :: s => m p = b ∧ b ≠ NUL ∧ At m (p + 1) s

theorem At.lt (h : At m p s) : p + s.length < READ_BUFFER_SIZE := by
  induction s generalizing p with
  | nil => exact h.1
  | cons b s ih =>
    have := ih h.2.2
    rw [List.length_cons]
    omega

theorem At.noNUL (h : At m p s) : NUL ∉ s := by
  induction s generalizing p with
  | nil => simp
  | cons b s ih =>
    rw [List.mem_cons, not_or]
    exact ⟨Ne.symm h.2.1, ih h.2.2⟩

theorem At.getElem (h : At m p s) (hi : i < s.length) : m (p + i) = s[i] := by
  induction s generalizing p i with
  | nil => simp at hi
  | cons b s ih =>
    cases i with
    | zero => exact h.1
    | succ i =>
      rw [List.getElem_cons_succ, ← ih h.2.2 (by simpa using hi)]
      congr 1
      omega

theorem at_of_getElem (hs : ∀ i (hi : i < s.length), m (p + i) = s[i]) (h0 : NUL ∉ s)
    (hlt : p + s.length < READ_BUFFER_SIZE) (hend : m (p + s.length) = NUL) : At m p s := by
  induction s generalizing p with
  | nil => exact ⟨hlt, hend⟩
  | cons b s ih =>
    rw [List.mem_cons, not_or] at h0
    rw [List.length_cons, show p + (s.length + 1) = p + 1 + s.length from by omega] at hlt hend
    refine ⟨hs 0 (by simp), Ne.symm h0.1, ih (fun i hi => ?_) h0.2 hlt hend⟩
    have := hs (i + 1) (by simpa using hi)
    rw [List.getElem_cons_succ] at this
    rw [← this]
    congr 1
    omega

/-- The string is what the functions of the library read. -/
theorem cstring_eq_ok : cstring m p = .ok s ↔ At m p s := by
  have key : ∀ n p s, p + n = READ_BUFFER_SIZE → (cstringFrom m n p = .ok s ↔ At m p s) := by
    intro n
    induction n with
    | zero =>
      intro p s hp
      refine iff_of_false (fun h => ?_) fun h => ?_
      · cases h
      · have := h.lt
        omega
    | succ n ih =>
      intro p s hp
      rw [cstringFrom]
      rcases s with _ | ⟨b, s⟩
      · by_cases h0 : m p = NUL
        · rw [if_pos h0]
          exact iff_of_true rfl ⟨by omega, h0⟩
        · rw [if_neg h0, bind_eq_ok]
          refine iff_of_false ?_ fun h => h0 h.2
          rintro ⟨t, -, ht⟩
          cases ht
      · by_cases h0 : m p = NUL
        · rw [if_pos h0]
          refine iff_of_false (fun h => ?_) fun h => ?_
          · cases h
          · exact h.2.1 (h.1.symm.trans h0)
        · rw [if_neg h0, bind_eq_ok]
          constructor
          · rintro ⟨t, ht, hcons⟩
            cases hcons
            exact ⟨rfl, h0, (ih (p + 1) s (by omega)).mp ht⟩
          · rintro ⟨rfl, -, h⟩
            exact ⟨s, (ih (p + 1) s (by omega)).mpr h, rfl⟩
  by_cases hp : p ≤ READ_BUFFER_SIZE
  · exact key _ _ _ (by omega)
  · unfold cstring
    rw [show READ_BUFFER_SIZE - p = 0 from by omega]
    refine iff_of_false (fun h => ?_) fun h => ?_
    · cases h
    · have := h.lt
      omega

theorem At.cstring (h : At m p s) : cstring m p = .ok s := cstring_eq_ok.mpr h

theorem At.unique (h : At m p s) (h' : At m p t) : s = t :=
  Except.ok.inj (h.cstring.symm.trans h'.cstring)

/-- A string ends at the first `NUL`. -/
theorem exists_at {z : ℕ} (hp : p ≤ z) (hz : z < READ_BUFFER_SIZE) (h0 : m z = NUL) :
    ∃ s, At m p s ∧ p + s.length ≤ z := by
  obtain ⟨n, rfl⟩ := Nat.exists_eq_add_of_le hp
  induction n generalizing p with
  | zero => exact ⟨[], ⟨by omega, h0⟩, by simp⟩
  | succ n ih =>
    by_cases hb : m p = NUL
    · exact ⟨[], ⟨by omega, hb⟩, by simp⟩
    · rw [show p + (n + 1) = p + 1 + n from by omega] at hz h0
      obtain ⟨s, hs, hle⟩ := ih (by omega) hz h0
      refine ⟨m p :: s, ⟨rfl, hb, hs⟩, ?_⟩
      rw [List.length_cons]
      omega

/-- Only the bytes of the string and its end matter. -/
theorem At.congr (h : At m p s) (hm : ∀ i, p ≤ i → i ≤ p + s.length → m' i = m i) : At m' p s := by
  induction s generalizing p with
  | nil => exact ⟨h.1, (hm p (by omega) (by omega)).trans h.2⟩
  | cons b s ih =>
    rw [List.length_cons] at hm
    refine ⟨(hm p (by omega) (by omega)).trans h.1, h.2.1, ih h.2.2 fun i h1 h2 => ?_⟩
    exact hm i (by omega) (by omega)

/-- A pointer into a string points to the rest of it. -/
theorem At.drop (h : At m p s) (hk : k ≤ s.length) : At m (p + k) (s.drop k) := by
  induction s generalizing p k with
  | nil =>
    obtain rfl : k = 0 := by simpa using hk
    exact h
  | cons b s ih =>
    cases k with
    | zero => exact h
    | succ k =>
      rw [show p + (k + 1) = p + 1 + k from by omega]
      exact ih h.2.2 (by simpa using hk)

/-- A `NUL` written into a string ends it there. -/
theorem At.take (h : At m p s) (hk : k ≤ s.length) :
    At (Function.update m (p + k) NUL) p (s.take k) := by
  induction s generalizing p k with
  | nil =>
    obtain rfl : k = 0 := by simpa using hk
    exact ⟨h.1, Function.update_self _ _ _⟩
  | cons b s ih =>
    cases k with
    | zero =>
      have := h.lt
      exact ⟨by omega, Function.update_self _ _ _⟩
    | succ k =>
      rw [show p + (k + 1) = p + 1 + k from by omega]
      refine ⟨?_, h.2.1, ih h.2.2 (by simpa using hk)⟩
      rw [Function.update_of_ne (by omega)]
      exact h.1

/-- What is behind the `NUL` stays. -/
theorem At.update_of_lt (h : At m p s) (hk : k < p) : At (Function.update m k b) p s :=
  h.congr fun _ hi _ => Function.update_of_ne (by omega) _ _

/-- A `NUL` written over byte `k` of a string leaves what is behind this byte. -/
theorem At.drop_succ (h : At m p s) (hk : k < s.length) :
    At (Function.update m (p + k) NUL) (p + k + 1) (s.drop (k + 1)) :=
  At.update_of_lt (h.drop (k := k + 1) hk) (by omega)

/-! ### The functions of the library -/

/-- `tolower` in the C locale. -/
def tolower (b : UInt8) : UInt8 := if 65 ≤ b ∧ b ≤ 90 then b + 32 else b

/-- `s` and `t` are the same but for case. -/
def sameText (s t : Bytes) : Bool := s.map tolower = t.map tolower

/-- `strpbrk`. -/
def strpbrk (m : Buffer) (p : ℕ) (accept : Bytes) : Except Fault (Option ℕ) := do
  let s ← cstring m p
  pure ((s.findIdx? (accept.contains ·)).map (p + ·))

/-- `strchr`, for a byte that is not `NUL`. -/
def strchr (m : Buffer) (p : ℕ) (b : UInt8) : Except Fault (Option ℕ) := strpbrk m p [b]

/-- `strspn`. -/
def strspn (m : Buffer) (p : ℕ) (accept : Bytes) : Except Fault ℕ := do
  let s ← cstring m p
  pure (s.takeWhile (accept.contains ·)).length

/-- Whether `strcasecmp` gives `0`. -/
def strcasecmp (m : Buffer) (p : ℕ) (t : Bytes) : Except Fault Bool := do
  let s ← cstring m p
  pure (sameText s t)

/-- Whether `strncasecmp` gives `0`. -/
def strncasecmp (m : Buffer) (p : ℕ) (t : Bytes) (n : ℕ) : Except Fault Bool := do
  let s ← cstring m p
  pure (sameText (s.take n) (t.take n))

/-- The number that decimal digits begin with. -/
def decimal (s : Bytes) : ℕ :=
  (s.takeWhile fun b => 48 ≤ b && b ≤ 57).foldl (fun n b => 10 * n + (b.toNat - 48)) 0

/-- What `atol` makes of a string; where `long` does not hold the number, its nearest value. -/
def atolOf (s : Bytes) : ℤ :=
  match s.dropWhile isspace with
  | 45 :: s => max (-2 ^ 63) (-(decimal s : ℤ))
  | 43 :: s => min (2 ^ 63 - 1) (decimal s)
  | s => min (2 ^ 63 - 1) (decimal s)

/-- `atol`. -/
def atol (m : Buffer) (p : ℕ) : Except Fault ℤ := do
  let s ← cstring m p
  pure (atolOf s)

variable {accept : Bytes}

theorem At.readAt (h : At m p s) : readAt m p = .ok (s.headD NUL) := by
  have hlt := h.lt
  rw [readAt_of_lt (by omega)]
  rcases s with _ | ⟨b, s⟩
  · exact congrArg _ h.2
  · exact congrArg _ h.1

theorem At.strpbrk (h : At m p s) :
    strpbrk m p accept = .ok ((s.findIdx? (accept.contains ·)).map (p + ·)) := by
  unfold Strings.strpbrk
  rw [h.cstring]
  rfl

theorem At.strspn (h : At m p s) :
    strspn m p accept = .ok (s.takeWhile (accept.contains ·)).length := by
  unfold Strings.strspn
  rw [h.cstring]
  rfl

theorem At.strcasecmp (h : At m p s) : strcasecmp m p t = .ok (sameText s t) := by
  unfold Strings.strcasecmp
  rw [h.cstring]
  rfl

theorem At.strncasecmp (h : At m p s) {n : ℕ} :
    strncasecmp m p t n = .ok (sameText (s.take n) (t.take n)) := by
  unfold Strings.strncasecmp
  rw [h.cstring]
  rfl

theorem At.atol (h : At m p s) : atol m p = .ok (atolOf s) := by
  unfold Strings.atol
  rw [h.cstring]
  rfl

/-! ### `int` -/

/-- `INT_MIN`. -/
def INT_MIN : ℤ := -2 ^ 31

/-- A `long` that is assigned to an `int`. -/
def truncate (n : ℤ) : ℤ := (n + 2 ^ 31) % 2 ^ 32 - 2 ^ 31

theorem truncate_mem (n : ℤ) : INT_MIN ≤ truncate n ∧ truncate n ≤ INT_MAX := by
  unfold truncate INT_MIN INT_MAX
  omega

/-- The sum of two `int`s. -/
def addInt (a b : ℤ) : Except Fault ℤ :=
  if INT_MIN ≤ a + b ∧ a + b ≤ INT_MAX then .ok (a + b) else .error .overflow

end ReactorServer.Conn.Strings
