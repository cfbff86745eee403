import ReactorServer.Conn.Calls
import ReactorServer.Http.Context
import ReactorServer.Lib.Scanning

/-!
# The line scanner goes on where it stopped

`HttpContext` and `HttpConn` have the same `parseLine`, over memories of their own
(`context_parseLine`, `conn_parseLine`).  Called as long as it returns `LINE_OK`, and again whenever
more bytes may be read, it finds the lines the whole text splits into, wherever the text was cut
(`parseLine_resumable`).
-/

namespace ReactorServer.Conn.Resuming

open ReactorServer.Cpp ReactorServer.Lib.Runs ReactorServer.Lib.Lines ReactorServer.Lib.Scanning
open ReactorServer.Conn.Strings ReactorServer.Conn.Parser ReactorServer.Conn.Calls
open ReactorServer.Http.Context (HttpContext LineStatus)

variable {u : Bytes} {n r k : ℕ}

/-! ### `HttpContext` -/

def contextScanner : Scanner HttpContext UInt8 LineStatus Fault where
  read := HttpContext.read
  clear i c := c.write i NUL
  cursor := HttpContext.checkedIdx
  goto k c := { c with checkedIdx := k }
  limit := HttpContext.readIdx
  extend r c := { c with readIdx := r }
  ok := .LINE_OK
  bad := .LINE_BAD
  opn := .LINE_OPEN

/-- The branch for a `LF` with a `CR` before it. -/
def contextPair (c : HttpContext) : Except Fault (LineStatus × HttpContext) := do
  let c ← c.write (c.checkedIdx - 1) NUL
  let c ← c.write c.checkedIdx NUL
  pure (.LINE_OK, { c with checkedIdx := c.checkedIdx + 1 })

/-- `(checkedIdx > 1)`. -/
def behindFirst (k : ℕ) : Bool := 1 < k

theorem context_parseLineLoop (n : ℕ) (c : HttpContext) :
    HttpContext.parseLineLoop n c = scanLoop contextScanner CR LF behindFirst contextPair n c := by
  induction n generalizing c with
  | zero => rfl
  | succ n ih =>
    rw [HttpContext.parseLineLoop, scanLoop]
    simp only [← ih, behindFirst, decide_eq_true_eq]
    rfl

theorem context_parseLine (c : HttpContext) :
    c.parseLine = nextLine contextScanner CR LF behindFirst contextPair c :=
  context_parseLineLoop _ c

/-- The context with this text, limit and cursor. -/
def contextAt (c : HttpContext) (u : Bytes) (r k : ℕ) : HttpContext :=
  { c with buf := u, readIdx := r, checkedIdx := k }

theorem context_faithful (c : HttpContext) (n : ℕ) :
    Faithful contextScanner NUL (contextAt c) n where
  read u r k i a _ h := by
    show HttpContext.read _ _ = _
    unfold HttpContext.read contextAt
    rw [h]
  clear u r k i hn hi := if_pos (by rw [← hn] at hi; exact hi)
  cursor _ _ _ := rfl
  goto _ _ _ _ := rfl
  limit _ _ _ := rfl
  extend _ _ _ _ := rfl
  bad_ne := nofun
  opn_ne := nofun

/-! ### `HttpConn` -/

def connScanner : Scanner HttpConn UInt8 LINE_STATUS Fault where
  read s i := readAt s.readBuf i
  clear i s := clearAt i s
  cursor := HttpConn.checkedIdx
  goto k s := { s with checkedIdx := k }
  limit := HttpConn.readIdx
  extend r s := { s with readIdx := r }
  ok := .LINE_OK
  bad := .LINE_BAD
  opn := .LINE_OPEN

/-- The branch for a `LF` with a `CR` before it. -/
def connPair (s : HttpConn) : Except Fault (LINE_STATUS × HttpConn) := do
  let s ← clearAt (s.checkedIdx - 1 : ℕ) s
  let s ← clearAt s.checkedIdx s
  pure (.LINE_OK, { s with checkedIdx := s.checkedIdx + 1 })

theorem conn_parseLineLoop (n : ℕ) (s : HttpConn) :
    parseLineLoop n s = scanLoop connScanner CR LF behindFirst connPair n s := by
  induction n generalizing s with
  | zero => rfl
  | succ n ih =>
    rw [parseLineLoop, scanLoop]
    simp only [ih, behindFirst, decide_eq_true_eq]
    simp only [connScanner, connPair]
    congr 1

theorem conn_parseLine (s : HttpConn) :
    parseLine s = nextLine connScanner CR LF behindFirst connPair s :=
  conn_parseLineLoop _ s

/-- The connection with this text at the beginning of its buffer, this limit and this cursor. -/
def connAt (s : HttpConn) (u : Bytes) (r k : ℕ) : HttpConn :=
  { s with readBuf := splice s.readBuf 0 u, readIdx := r, checkedIdx := k }

theorem splice_eq (m : Buffer) (u : Bytes) (i : ℕ) : splice m 0 u i = u.getD i (m i) := rfl

/-- Overwriting a byte of the text. -/
theorem update_splice {m : Buffer} {i : ℕ} {b : UInt8} (hi : i < u.length) :
    Function.update (splice m 0 u) i b = splice m 0 (u.set i b) := by
  funext j
  rw [splice_eq, Function.update_apply]
  by_cases hj : j = i
  · rw [if_pos hj, hj]
    simp [hi]
  · rw [if_neg hj, splice_eq]
    simp [List.getD_eq_getElem?_getD, List.getElem?_set_ne (Ne.symm hj)]

theorem conn_faithful (s : HttpConn) (hn : n ≤ READ_BUFFER_SIZE) :
    Faithful connScanner NUL (connAt s) n where
  read u r k i a hu h := by
    obtain ⟨hi, -⟩ := List.getElem?_eq_some_iff.mp h
    have hlt : i < READ_BUFFER_SIZE := by omega
    have hread := readAt_of_lt (m := (connAt s u r k).readBuf) hlt
    have ha : (connAt s u r k).readBuf i = a := by
      show u.getD i (s.readBuf i) = a
      rw [List.getD_eq_getElem?_getD, h]
      rfl
    rw [ha] at hread
    simp only [connScanner]
    exact hread
  clear u r k i hu hi := by
    have hlt : i < READ_BUFFER_SIZE := by omega
    have hclear := clearAt_of_lt (s := connAt s u r k) hlt
    have hset : Function.update (connAt s u r k).readBuf i NUL = splice s.readBuf 0 (u.set i NUL) :=
      update_splice (by omega)
    rw [hset] at hclear
    exact hclear
  cursor _ _ _ := rfl
  goto _ _ _ _ := rfl
  limit _ _ _ := rfl
  extend _ _ _ _ := rfl
  bad_ne := nofun
  opn_ne := nofun

/-! ### The calls -/

/-- `next`, called as long as it returns `LINE_OK`, and again with each of the lengths `ks`, returns in
every one of the calls, and at the end has found the lines that end at `is`, has returned `last` and
has left `t`. -/
def Calls {σ τ : Type} [DecidableEq τ] (M : Scanner σ UInt8 τ Fault)
    (next : σ → Except Fault (τ × σ)) (ks : List ℕ) (s : σ) (is : List ℕ) (last : τ) (t : σ) : Prop :=
  session M .hang next ks s = .ok (is, last, t)

/-- **The line scanner is resumable.**  A text splits into lines that are ended by `CR LF` and a rest
that does not begin with another.  With any rising lengths up to its own, those of `parseLine` are
these lines, it stops where the rest has its first `CR` or `LF`, and it has overwritten the ends of
the lines.  The branch for a `LF` with a `CR` before it may do anything, behind any byte but the
first. -/
theorem parseLine_resumable (u : Bytes) : ∃ ls rest, Splits CR LF u ls rest ∧
    ∀ ks bound, Limits ks u.length → bound 0 = false →
      (∀ c : HttpContext, ∀ pair,
        let t := contextAt c (nulBlock NUL ls ++ rest) u.length
          ((block CR LF ls).length + stop CR LF rest)
        Calls contextScanner HttpContext.parseLine ks (contextAt c u 0 0) (ends 0 ls)
          (status contextScanner CR LF rest) t ∧
        Calls contextScanner (nextLine contextScanner CR LF bound pair) ks (contextAt c u 0 0)
          (ends 0 ls) (status contextScanner CR LF rest) t) ∧
      (u.length ≤ READ_BUFFER_SIZE → ∀ s : HttpConn, ∀ pair,
        let t := connAt s (nulBlock NUL ls ++ rest) u.length
          ((block CR LF ls).length + stop CR LF rest)
        Calls connScanner parseLine ks (connAt s u 0 0) (ends 0 ls)
          (status connScanner CR LF rest) t ∧
        Calls connScanner (nextLine connScanner CR LF bound pair) ks (connAt s u 0 0)
          (ends 0 ls) (status connScanner CR LF rest) t) := by
  obtain ⟨ls, rest, hsplit⟩ := exists_splits CR LF u
  have hnul : NUL ≠ CR := by decide
  refine ⟨ls, rest, hsplit, fun ks bound hks hbound => ⟨fun c pair => ?_, fun hlen s pair => ?_⟩⟩
  · have hcontext := context_faithful c u.length
    have heq : HttpContext.parseLine = nextLine contextScanner CR LF behindFirst contextPair :=
      funext context_parseLine
    rw [heq]
    exact ⟨session_eq hcontext rfl hnul hsplit hks, session_eq hcontext hbound hnul hsplit hks⟩
  · have hconn := conn_faithful s hlen
    have heq : parseLine = nextLine connScanner CR LF behindFirst connPair :=
      funext conn_parseLine
    rw [heq]
    exact ⟨session_eq hconn rfl hnul hsplit hks, session_eq hconn hbound hnul hsplit hks⟩

/-- A text cut between `CR` and `LF`. -/
theorem parseLine_resumable_cut : ∃ ls rest, Splits CR LF (ascii "ab\r\nc") ls rest ∧
    Calls contextScanner HttpContext.parseLine [3, 5] (contextAt .new (ascii "ab\r\nc") 0 0)
      (ends 0 ls) (status contextScanner CR LF rest)
      (contextAt .new (nulBlock NUL ls ++ rest) 5 ((block CR LF ls).length + stop CR LF rest)) := by
  obtain ⟨ls, rest, hsplit, h⟩ := parseLine_resumable (ascii "ab\r\nc")
  exact ⟨ls, rest, hsplit, ((h [3, 5] behindFirst ⟨by decide, rfl⟩ rfl).1 .new contextPair).1⟩

end ReactorServer.Conn.Resuming
