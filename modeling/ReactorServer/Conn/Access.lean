import ReactorServer.Conn.Parser

/-!
# Reading and writing in a part of the buffer

The calls of the parsers fail where they leave `readBuf`.  Here they are given a window, and fail as
soon as they read or write a byte outside it; with the whole array as the window they are the calls
of the parser (`parseRequestLine_whole`).  So a call that returns with a small window has stayed in
it.
-/

namespace ReactorServer.Conn.Access

open ReactorServer.Cpp ReactorServer.Lib.Runs ReactorServer.Conn.Strings ReactorServer.Conn.Parser

/-- The bytes from `lo` on, up to `hi`. -/
structure Window where
  lo : ℕ
  hi : ℕ

/-- The array. -/
def whole : Window := ⟨0, READ_BUFFER_SIZE⟩

variable {w : Window} {m : Buffer} {p i : ℕ} {s accept : Bytes} {b : UInt8}

namespace Window

/-! ### The functions of the library -/

def readAt (w : Window) (m : Buffer) (i : ℤ) : Except Fault UInt8 :=
  if w.lo ≤ i ∧ i < w.hi then .ok (m i.toNat) else .error .outOfBounds

def writeAt (w : Window) (i : ℤ) (b : UInt8) (m : Buffer) : Except Fault Buffer :=
  if w.lo ≤ i ∧ i < w.hi then .ok (Function.update m i.toNat b) else .error .outOfBounds

def cstring (w : Window) (m : Buffer) (p : ℕ) : Except Fault Bytes :=
  if w.lo ≤ p then cstringFrom m (w.hi - p) p else .error .outOfBounds

def strpbrk (w : Window) (m : Buffer) (p : ℕ) (accept : Bytes) : Except Fault (Option ℕ) := do
  let s ← w.cstring m p
  pure ((s.findIdx? (accept.contains ·)).map (p + ·))

def strchr (w : Window) (m : Buffer) (p : ℕ) (b : UInt8) : Except Fault (Option ℕ) :=
  w.strpbrk m p [b]

def strspn (w : Window) (m : Buffer) (p : ℕ) (accept : Bytes) : Except Fault ℕ := do
  let s ← w.cstring m p
  pure (s.takeWhile (accept.contains ·)).length

def strcasecmp (w : Window) (m : Buffer) (p : ℕ) (t : Bytes) : Except Fault Bool := do
  let s ← w.cstring m p
  pure (sameText s t)

def strncasecmp (w : Window) (m : Buffer) (p : ℕ) (t : Bytes) (n : ℕ) : Except Fault Bool := do
  let s ← w.cstring m p
  pure (sameText (s.take n) (t.take n))

def clearAt (w : Window) (i : ℤ) (s : HttpConn) : Except Fault HttpConn := do
  let m ← w.writeAt i NUL s.readBuf
  pure { s with readBuf := m }

/-! ### The parser of the request line -/

def skipHost (w : Window) (m : Buffer) (url : ℕ) : Except Fault (Option ℕ) := do
  if ← w.strncasecmp m url (ascii "http://") 7 then w.strchr m (url + 7) 47
  else pure (some url)

def checkUrl (w : Window) (url : ℕ) (s : HttpConn) : Except Fault (HTTP_CODE × HttpConn) := do
  let url ← w.skipHost s.readBuf url
  let s := { s with url := url }
  match url with
  | none => pure (.BAD_REQUEST, s)
  | some url =>
    if (← w.readAt s.readBuf url) ≠ 47 then pure (.BAD_REQUEST, s)
    else pure (.NO_REQUEST, { s with checkState := .CHECK_STATE_HEADER })

/-- `parseRequestLine` from the target on. -/
def parseTarget (w : Window) (url : ℕ) (s : HttpConn) : Except Fault (HTTP_CODE × HttpConn) := do
  let s := { s with url := some url }
  match ← w.strpbrk s.readBuf url blanks with
  | none => pure (.BAD_REQUEST, { s with version := none })
  | some version =>
    let s ← w.clearAt version s
    let version := version + 1
    let version := version + (← w.strspn s.readBuf version blanks)
    let s := { s with version := some version }
    if ← w.strcasecmp s.readBuf version (ascii "HTTP/1.1") then w.checkUrl url s
    else pure (.BAD_REQUEST, s)

def parseRequestLine (w : Window) (text : ℕ) (s : HttpConn) :
    Except Fault (HTTP_CODE × HttpConn) := do
  match ← w.strpbrk s.readBuf text blanks with
  | none => pure (.BAD_REQUEST, { s with url := none })
  | some url =>
    let s ← w.clearAt url s
    let url := url + 1
    let md := text
    if ← w.strcasecmp s.readBuf md (ascii "GET") then
      let s := { s with method := .GET }
      let url := url + (← w.strspn s.readBuf url blanks)
      w.parseTarget url s
    else pure (.BAD_REQUEST, { s with url := some url })

/-- The bytes of the string at `p` and its `NUL`. -/
def Holds (w : Window) (p : ℕ) (s : Bytes) : Prop := w.lo ≤ p ∧ p + s.length < w.hi

end Window

/-! ### The whole array -/

theorem cstring_whole (m : Buffer) (p : ℕ) : whole.cstring m p = cstring m p :=
  if_pos (Nat.zero_le p)

theorem strpbrk_whole (m : Buffer) (p : ℕ) (accept : Bytes) :
    whole.strpbrk m p accept = strpbrk m p accept := by
  unfold Window.strpbrk strpbrk
  rw [cstring_whole]

theorem strspn_whole (m : Buffer) (p : ℕ) (accept : Bytes) :
    whole.strspn m p accept = strspn m p accept := by
  unfold Window.strspn strspn
  rw [cstring_whole]

theorem strcasecmp_whole (m : Buffer) (p : ℕ) (t : Bytes) :
    whole.strcasecmp m p t = strcasecmp m p t := by
  unfold Window.strcasecmp strcasecmp
  rw [cstring_whole]

theorem strncasecmp_whole (m : Buffer) (p : ℕ) (t : Bytes) (n : ℕ) :
    whole.strncasecmp m p t n = strncasecmp m p t n := by
  unfold Window.strncasecmp strncasecmp
  rw [cstring_whole]

theorem skipHost_whole (m : Buffer) (url : ℕ) : whole.skipHost m url = skipHost m url := by
  unfold Window.skipHost skipHost Window.strchr strchr
  rw [strncasecmp_whole, strpbrk_whole]

theorem checkUrl_whole (url : ℕ) (s : HttpConn) : whole.checkUrl url s = checkUrl url s := by
  unfold Window.checkUrl checkUrl
  rw [skipHost_whole]
  refine bind_congr fun url => ?_
  cases url with
  | none => rfl
  | some url => rfl

/-- **With the whole array as its window the parser is the parser.** -/
theorem parseRequestLine_whole (text : ℕ) (s : HttpConn) :
    whole.parseRequestLine text s = parseRequestLine text s := by
  unfold Window.parseRequestLine parseRequestLine Window.parseTarget
  rw [strpbrk_whole]
  refine bind_congr fun url => ?_
  cases url with
  | none => rfl
  | some url =>
    refine bind_congr fun s => ?_
    dsimp only
    rw [strcasecmp_whole]
    refine bind_congr fun isGet => ite_congr rfl (fun _ => ?_) fun _ => rfl
    rw [strspn_whole]
    refine bind_congr fun n => ?_
    rw [strpbrk_whole]
    refine bind_congr fun version => ?_
    cases version with
    | none => rfl
    | some version =>
      refine bind_congr fun s => ?_
      rw [strspn_whole]
      refine bind_congr fun n => ?_
      rw [strcasecmp_whole]
      exact bind_congr fun isVersion => ite_congr rfl (fun _ => checkUrl_whole _ _) fun _ => rfl

/-! ### Strings in a window -/

variable {t : Bytes} {k n : ℕ}

theorem holds_whole (h : At m p s) : whole.Holds p s := ⟨Nat.zero_le p, h.lt⟩

theorem holds_self (p : ℕ) (s : Bytes) : Window.Holds ⟨p, p + s.length + 1⟩ p s :=
  ⟨Nat.le_refl p, Nat.lt_succ_self _⟩

theorem Window.Holds.drop (h : w.Holds p s) (hk : k ≤ s.length) : w.Holds (p + k) (s.drop k) := by
  have h1 := h.1
  have h2 := h.2
  refine ⟨by omega, ?_⟩
  rw [List.length_drop]
  omega

theorem Window.Holds.take (h : w.Holds p s) (k : ℕ) : w.Holds p (s.take k) := by
  have h2 := h.2
  have := List.length_take_le' k s
  exact ⟨h.1, by omega⟩

theorem cstringFrom_of_at (h : At m p s) : ∀ n, s.length < n → cstringFrom m n p = .ok s := by
  induction s generalizing p with
  | nil =>
    intro n hn
    obtain ⟨n, rfl⟩ := Nat.exists_eq_add_of_lt hn
    rw [cstringFrom, if_pos h.2]
  | cons b s ih =>
    intro n hn
    rw [List.length_cons] at hn
    obtain ⟨n, rfl⟩ : ∃ k, n = k + 1 := ⟨n - 1, by omega⟩
    rw [cstringFrom, if_neg (h.1 ▸ h.2.1), ih h.2.2 n (by omega), h.1]
    rfl

theorem Window.Holds.cstring (hw : w.Holds p s) (h : At m p s) : w.cstring m p = .ok s := by
  have h2 := hw.2
  unfold Window.cstring
  rw [if_pos hw.1]
  exact cstringFrom_of_at h _ (by omega)

theorem Window.Holds.strpbrk (hw : w.Holds p s) (h : At m p s) :
    w.strpbrk m p accept = .ok ((s.findIdx? (accept.contains ·)).map (p + ·)) := by
  unfold Window.strpbrk
  rw [hw.cstring h]
  rfl

theorem Window.Holds.strspn (hw : w.Holds p s) (h : At m p s) :
    w.strspn m p accept = .ok (s.takeWhile (accept.contains ·)).length := by
  unfold Window.strspn
  rw [hw.cstring h]
  rfl

theorem Window.Holds.strcasecmp (hw : w.Holds p s) (h : At m p s) :
    w.strcasecmp m p t = .ok (sameText s t) := by
  unfold Window.strcasecmp
  rw [hw.cstring h]
  rfl

theorem Window.Holds.strncasecmp (hw : w.Holds p s) (h : At m p s) :
    w.strncasecmp m p t n = .ok (sameText (s.take n) (t.take n)) := by
  unfold Window.strncasecmp
  rw [hw.cstring h]
  rfl

theorem Window.Holds.readAt (hw : w.Holds p s) (h : At m p s) :
    w.readAt m p = .ok (s.headD NUL) := by
  have h1 := hw.1
  have h2 := hw.2
  unfold Window.readAt
  rw [if_pos (by omega), Int.toNat_natCast]
  rcases s with _ | ⟨b, s⟩
  · exact congrArg _ h.2
  · exact congrArg _ h.1

theorem Window.Holds.clearAt {c : HttpConn} (hw : w.Holds p s) (hk : k ≤ s.length) :
    w.clearAt (p + k : ℕ) c = .ok { c with readBuf := Function.update c.readBuf (p + k) NUL } := by
  have h1 := hw.1
  have h2 := hw.2
  unfold Window.clearAt Window.writeAt
  rw [if_pos (by omega), Int.toNat_natCast]
  rfl

end ReactorServer.Conn.Access
