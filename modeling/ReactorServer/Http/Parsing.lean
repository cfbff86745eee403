import ReactorServer.Http.Context
import ReactorServer.Lib.Lines
import Mathlib.Data.List.TakeWhile
import Mathlib.Tactic.Linarith

/-!
# What the parser reads

The parser works on a buffer it overwrites as it goes; what it reads is a list of lines.
`Ready c pre u` says that a context stands at the beginning of a line: it has consumed `pre` and
has `u` before it.  From there `parseLine` is the search for the first line of `u`
(`parseLine_eq`), and each of the two line parsers reads the line alone (`parseRequestLine_eq`,
`parseHeader_colon`), although the text it is given goes on behind it.

`Head` is a request head and `Head.render` the bytes a client sends for it; `parse_render` says that
parsing undoes rendering.
-/

namespace ReactorServer.Http.Parsing

open ReactorServer.Cpp ReactorServer.Lib.Runs ReactorServer.Lib.Lines
open ReactorServer.Http.Request ReactorServer.Http.Request.HttpRequest
open ReactorServer.Http.Context ReactorServer.Http.Context.HttpContext

variable {c : HttpContext} {pre u l rest : Bytes}

/-! ### The line scanner -/

/-- The context has consumed `pre`, which does not end in `CR`, and has `u` before it. -/
structure Ready (c : HttpContext) (pre u : Bytes) : Prop where
  buf : c.buf = pre ++ u
  readIdx : c.readIdx = (pre ++ u).length
  checkedIdx : c.checkedIdx = pre.length
  startLine : c.startLine = pre.length
  noCR : pre.getLast? ≠ some CR

/-- The context after a complete line `l` has been cut off. -/
def cut (c : HttpContext) (pre l rest : Bytes) : HttpContext :=
  { c with buf := pre ++ (l ++ NUL :: NUL :: rest), checkedIdx := pre.length + l.length + 2 }

theorem read_checked (hbuf : c.buf = pre ++ u) (hchk : c.checkedIdx = pre.length) (i : ℕ) {b : UInt8}
    (hb : u[i]? = some b) : c.read (c.checkedIdx + i) = .ok b := by
  have hi : c.buf[c.checkedIdx + i]? = some b := by
    rw [hbuf, hchk, List.getElem?_append_right (by omega), Nat.add_sub_cancel_left, hb]
  unfold HttpContext.read
  rw [hi]

theorem read_pred {a : UInt8} (h : c.buf = pre ++ a :: u) (hpre : pre ≠ [])
    (hCR : pre.getLast? ≠ some CR) :
    ∃ b, c.read (pre.length - 1) = .ok b ∧ b ≠ CR := by
  refine ⟨pre.getLast hpre, ?_, fun hb => hCR ?_⟩
  · unfold HttpContext.read
    have hlt : pre.length - 1 < pre.length := by
      have := List.length_pos_iff.mpr hpre; omega
    rw [h, List.getElem?_append_left hlt, List.getLast_eq_getElem, List.getElem?_eq_getElem hlt]
  · rw [List.getLast?_eq_some_getLast hpre, hb]

theorem write_crlf {v : Bytes} (hbuf : c.buf = pre ++ CR :: LF :: v)
    (hchk : c.checkedIdx = pre.length) :
    c.write c.checkedIdx NUL = .ok { c with buf := c.buf.set c.checkedIdx NUL } ∧
      ({ c with buf := c.buf.set c.checkedIdx NUL } : HttpContext).write (c.checkedIdx + 1) NUL =
        .ok { c with buf := pre ++ NUL :: NUL :: v } := by
  have hset : (c.buf.set c.checkedIdx NUL).set (c.checkedIdx + 1) NUL = pre ++ NUL :: NUL :: v := by
    rw [hbuf, hchk]
    simp
  have hlt : c.checkedIdx + 1 < c.buf.length := by
    simp only [hbuf, hchk, List.length_append, List.length_cons]; omega
  refine ⟨if_pos (by omega), ?_⟩
  rw [← hset]
  exact if_pos (by rw [List.length_set]; exact hlt)

theorem parseLineLoop_crlf {v : Bytes} (n : ℕ) (hbuf : c.buf = pre ++ CR :: LF :: v)
    (hread : c.readIdx = (pre ++ CR :: LF :: v).length) (hchk : c.checkedIdx = pre.length) :
    parseLineLoop (n + 1) c = .ok (.LINE_OK, cut c pre [] v) := by
  have h0 : c.read c.checkedIdx = .ok CR := read_checked hbuf hchk 0 rfl
  have hb : c.read (c.checkedIdx + 1) = .ok LF := read_checked hbuf hchk 1 rfl
  have hlast : ¬ c.checkedIdx + 1 = c.readIdx := by simp [hread, hchk]
  obtain ⟨hw0, hw1⟩ := write_crlf hbuf hchk
  rw [parseLineLoop]
  simp only [h0, ok_bind, if_true, if_neg hlast, hb, hw0, hw1, pure_eq_ok]
  simp only [cut, hchk, List.nil_append, List.length_nil, Nat.add_zero]

theorem parseLineLoop_lf {v : Bytes} (n : ℕ) (hbuf : c.buf = pre ++ LF :: v)
    (hchk : c.checkedIdx = pre.length) (hCR : pre.getLast? ≠ some CR) :
    parseLineLoop (n + 1) c = .ok (.LINE_BAD, c) := by
  have h0 : c.read c.checkedIdx = .ok LF := read_checked hbuf hchk 0 rfl
  have h1 : LF ≠ CR := by decide
  by_cases hlt : 1 < c.checkedIdx
  · have hne : pre ≠ [] := by rintro rfl; simp [hchk] at hlt
    obtain ⟨b, hb, hb'⟩ := read_pred hbuf hne hCR
    rw [← hchk] at hb
    simp [parseLineLoop, h0, h1, hlt, hb, hb']
  · simp [parseLineLoop, h0, h1, hlt]

theorem parseLineLoop_eq (u : Bytes) : ∀ (c : HttpContext) (pre : Bytes), c.buf = pre ++ u →
    c.readIdx = (pre ++ u).length → c.checkedIdx = pre.length → pre.getLast? ≠ some CR →
    match scan CR LF u with
    | .line l rest => parseLineLoop u.length c = .ok (.LINE_OK, cut c pre l rest)
    | .bad => ∃ i, parseLineLoop u.length c = .ok (.LINE_BAD, { c with checkedIdx := i })
    | .opn => ∃ i, parseLineLoop u.length c = .ok (.LINE_OPEN, { c with checkedIdx := i }) := by
  induction u with
  | nil =>
    intro c pre _ _ _ _
    exact ⟨c.checkedIdx, rfl⟩
  | cons a u ih =>
    intro c pre hbuf hread hchk hCR
    have h0 : c.read c.checkedIdx = .ok a := read_checked hbuf hchk 0 rfl
    by_cases h1 : a = CR
    · subst h1
      cases u with
      | nil =>
        refine ⟨c.checkedIdx, ?_⟩
        have hlast : c.checkedIdx + 1 = c.readIdx := by simp [hread, hchk]
        simp [parseLineLoop, h0, hlast]
      | cons b v =>
        have hlast : ¬ c.checkedIdx + 1 = c.readIdx := by simp [hread, hchk]
        have hb : c.read (c.checkedIdx + 1) = .ok b := read_checked hbuf hchk 1 rfl
        by_cases h2 : b = LF
        · subst h2
          simp only [scan, afterCr, if_true]
          exact parseLineLoop_crlf _ hbuf hread hchk
        · simp only [scan, afterCr, if_true, h2, if_false]
          refine ⟨c.checkedIdx, ?_⟩
          simp [parseLineLoop, h0, hlast, hb, h2]
    · by_cases h2 : a = LF
      · subst h2
        simp only [scan, h1, if_false, if_true]
        exact ⟨c.checkedIdx, parseLineLoop_lf _ hbuf hchk hCR⟩
      · -- an ordinary byte: it joins what has been consumed
        have hloop : parseLineLoop (a :: u).length c =
            parseLineLoop u.length { c with checkedIdx := c.checkedIdx + 1 } := by
          simp [parseLineLoop, h0, h1, h2]
        have := ih { c with checkedIdx := c.checkedIdx + 1 } (pre ++ [a]) (by simp [hbuf])
          (by simp [hread]) (by simp [hchk]) (by simp [h1])
        simp only [scan, h1, h2, if_false]
        rw [hloop]
        cases hs : scan CR LF u with
        | line l rest =>
          rw [hs] at this
          simp only [Scan.cons]
          rw [this]
          simp [cut]
          omega
        | bad => rw [hs] at this; exact this
        | opn => rw [hs] at this; exact this

/-- **The line scanner looks for the first line of what is before it.** -/
theorem parseLine_eq (h : Ready c pre u) :
    match scan CR LF u with
    | .line l rest => c.parseLine = .ok (.LINE_OK, cut c pre l rest)
    | .bad => ∃ i, c.parseLine = .ok (.LINE_BAD, { c with checkedIdx := i })
    | .opn => ∃ i, c.parseLine = .ok (.LINE_OPEN, { c with checkedIdx := i }) := by
  have hlen : c.readIdx - c.checkedIdx = u.length := by
    rw [h.readIdx, h.checkedIdx, List.length_append]; omega
  unfold HttpContext.parseLine
  rw [hlen]
  exact parseLineLoop_eq u c pre h.buf h.readIdx h.checkedIdx h.noCR

/-! ### The two line parsers -/

theorem idxOf_append {a : UInt8} {x : Bytes} (hx : a ∉ x) (y : Bytes) :
    (x ++ a :: y).idxOf a = x.length := by
  rw [List.idxOf_append_of_notMem hx, List.idxOf_cons_self, Nat.add_zero]

theorem range_append (l m : Bytes) : HttpContext.range (l ++ m) l.length = .ok l := by
  simp [HttpContext.range]

/-- A line of the form `M T V` with a version `HTTP/1.x`. -/
structure IsRequestLine (l M T V : Bytes) : Prop where
  eq : l = M ++ SP :: (T ++ SP :: V)
  ne_nil : M ≠ []
  method : SP ∉ M
  target : SP ∉ T
  length : V.length = 8
  version : V.take 7 = ascii "HTTP/1."

/-- The request after its request line has been read. -/
def withLine (r : HttpRequest) (M T V : Bytes) : HttpRequest :=
  { r with
    method := M
    path := T.take (T.idxOf QUESTION)
    query := if QUESTION ∈ T then T.drop (T.idxOf QUESTION) else r.query
    version := V }

theorem parseRequestLine_eq {M T V : Bytes} (h : IsRequestLine l M T V) (c : HttpContext)
    (m : Bytes) :
    c.parseRequestLine (l ++ m) l.length = .ok (.GET_REQUEST, { c with
      request := withLine c.request M T V, checkState := .CHECK_STATE_HEADER }) := by
  have h1 : l.idxOf SP = M.length := by rw [h.eq]; exact idxOf_append h.method _
  have h2 : l.length ≠ M.length := by rw [h.eq]; simp
  have h3 : l.drop (M.length + 1) = T ++ SP :: V := by rw [h.eq]; simp [List.drop_append]
  have h4 : l.take M.length = M := by rw [h.eq]; simp
  have h5 : (T ++ SP :: V).idxOf SP = T.length := idxOf_append h.target _
  have h6 : (T ++ SP :: V).drop (T.length + 1) = V := by simp [List.drop_append]
  have hM : (!M.isEmpty) = true := by simpa using h.ne_nil
  simp only [HttpContext.parseRequestLine, range_append, ok_bind, h1, Ne.symm h2, ne_eq,
    not_false_eq_true, if_true, setMethod, h4, hM, h3, h5, h6, h.length, h.version, and_self,
    pure_eq_ok, setVersion, setPath, setQuery, withLine, List.take_left']
  by_cases hq : QUESTION ∈ T
  · have hne : ¬ T.idxOf QUESTION = T.length := fun he => List.idxOf_eq_length_iff.mp he hq
    simp [hne, hq]
  · simp [hq]

theorem parseRequestLine_bad (h : ∀ M T V, ¬ IsRequestLine l M T V) (c : HttpContext) (m : Bytes) :
    ∃ r, c.parseRequestLine (l ++ m) l.length = .ok (.BAD_REQUEST, { c with request := r }) ∧
      r.version = c.request.version ∧ r.headers = c.request.headers := by
  by_cases hsp : SP ∈ l
  · obtain ⟨M, R, hl, hM⟩ := List.eq_append_cons_of_mem hsp
    have h1 : l.idxOf SP = M.length := by rw [hl]; exact idxOf_append hM _
    have h2 : l.length ≠ M.length := by rw [hl]; simp
    have h3 : l.drop (M.length + 1) = R := by rw [hl]; simp [List.drop_append]
    have h4 : l.take M.length = M := by rw [hl]; simp
    simp only [HttpContext.parseRequestLine, range_append, ok_bind, h1, Ne.symm h2, ne_eq,
      not_false_eq_true, if_true, setMethod, h4, h3, pure_eq_ok]
    by_cases hne : M = []
    · refine ⟨{ c.request with method := M }, ?_, rfl, rfl⟩
      simp [hne]
    · have hne' : (!M.isEmpty) = true := by simpa using hne
      by_cases hsp' : SP ∈ R
      · obtain ⟨T, V, hR, hT⟩ := List.eq_append_cons_of_mem hsp'
        have h5 : R.idxOf SP = T.length := by rw [hR]; exact idxOf_append hT _
        have h6 : R.drop (T.length + 1) = V := by rw [hR]; simp [List.drop_append]
        have h7 : R.length ≠ T.length := by rw [hR]; simp
        have hV : ¬ (V.length = 8 ∧ V.take 7 = ascii "HTTP/1.") := fun hV =>
          h M T V ⟨by rw [hl, hR], hne, hM, hT, hV.1, hV.2⟩
        simp only [hne', h5, h6, Ne.symm h7, not_false_eq_true, if_true, hV, if_false, setPath,
          setQuery]
        refine ⟨_, rfl, ?_, ?_⟩
        · split_ifs <;> rfl
        · split_ifs <;> rfl
      · have h5 : R.idxOf SP = R.length := List.idxOf_eq_length_iff.mpr hsp'
        refine ⟨{ c.request with method := M }, ?_, rfl, rfl⟩
        simp [hne', h5]
  · have h1 : l.idxOf SP = l.length := List.idxOf_eq_length_iff.mpr hsp
    exact ⟨c.request, by simp [HttpContext.parseRequestLine, range_append, h1], rfl, rfl⟩

theorem skipSpaces_append (v m : Bytes) :
    skipSpaces (v ++ NUL :: m) = .ok (v.takeWhile isspace).length := by
  induction v with
  | nil => rfl
  | cons b v ih =>
    by_cases hb : isspace b
    · simp [skipSpaces, hb, ih]
    · simp [skipSpaces, hb]

theorem parseHeader_noColon (h : COLON ∉ l) (c : HttpContext) (m : Bytes) :
    c.parseHeader (l ++ m) l.length =
      .ok (.GET_REQUEST, { c with checkState := .CHECK_STATE_CONTENT }) := by
  have h1 : l.idxOf COLON = l.length := List.idxOf_eq_length_iff.mpr h
  simp [HttpContext.parseHeader, range_append, h1]

/-- `addHeader` on a line that a `NUL` ends: the value is what follows the blanks. -/
theorem addHeader_eq (name v m : Bytes) (r : HttpRequest) :
    r.addHeader ((name ++ COLON :: v) ++ NUL :: m) name.length (name ++ COLON :: v).length =
      if (v.dropWhile isspace).getLast?.any isspace then .error .hang
      else .ok (true, { r with headers := r.headers.insert name (v.dropWhile isspace) }) := by
  have h3 : ((name ++ COLON :: v) ++ NUL :: m).drop (name.length + 1) = v ++ NUL :: m := by
    simp [List.drop_append]
  have h4 : ((name ++ COLON :: v) ++ NUL :: m).take name.length = name := by simp
  have h5 : (v.takeWhile isspace).length ≤ v.length := (List.takeWhile_prefix _).length_le
  have h6 : ¬ (name ++ COLON :: v).length < name.length + 1 + (v.takeWhile isspace).length := by
    simp; omega
  have h7 : (name ++ COLON :: v).drop (name.length + 1 + (v.takeWhile isspace).length) =
      v.dropWhile isspace := by
    rw [← drop_length_takeWhile, ← List.drop_drop]
    congr 1
    simp [List.drop_append]
  have h8 : 0 < (name ++ COLON :: v).length := by simp
  simp only [addHeader, h8, if_true, h3, skipSpaces_append, ok_bind, h6, if_false, h4,
    List.take_left', h7, pure_eq_ok]
  split_ifs <;> rfl

theorem parseHeader_colon {name v : Bytes} (h : COLON ∉ name) (c : HttpContext) (m : Bytes) :
    c.parseHeader ((name ++ COLON :: v) ++ NUL :: m) (name ++ COLON :: v).length =
      if (v.dropWhile isspace).getLast?.any isspace then .error .hang
      else .ok (.GET_REQUEST, { c with request := { c.request with
        headers := c.request.headers.insert name (v.dropWhile isspace) } }) := by
  have h1 : (name ++ COLON :: v).idxOf COLON = name.length := idxOf_append h _
  have h2 : ¬ name.length = (name ++ COLON :: v).length := by simp
  simp only [HttpContext.parseHeader, range_append, ok_bind, h1, h2, ne_eq, not_false_eq_true,
    if_true, addHeader_eq]
  split_ifs <;> rfl

/-! ### The driver -/

/-- The context after a complete line `l` has been handed on. -/
def next (c : HttpContext) (pre l rest : Bytes) : HttpContext :=
  { cut c pre l rest with startLine := pre.length + l.length + 2 }

theorem Ready.next (h : Ready c pre (l ++ CR :: LF :: rest)) :
    Ready (next c pre l rest) (pre ++ (l ++ [NUL, NUL])) rest where
  buf := by simp [Parsing.next, cut]
  readIdx := by simp [Parsing.next, cut, h.readIdx]
  checkedIdx := by simp [Parsing.next, cut]; omega
  startLine := by simp [Parsing.next]; omega
  noCR := by simp [NUL, CR]

theorem Ready.of_eq {d : HttpContext} (h : Ready c pre u) (hb : d.buf = c.buf)
    (hr : d.readIdx = c.readIdx) (hc : d.checkedIdx = c.checkedIdx)
    (hs : d.startLine = c.startLine) : Ready d pre u :=
  ⟨hb ▸ h.buf, hr ▸ h.readIdx, hc ▸ h.checkedIdx, hs ▸ h.startLine, h.noCR⟩

/-- The part of a turn that both kinds of line share. -/
theorem line_turn (h : Ready c pre (l ++ CR :: LF :: rest)) (hl : Clean CR LF l) :
    c.parseLine = .ok (.LINE_OK, cut c pre l rest) ∧
      (cut c pre l rest).getLine = l ++ NUL :: NUL :: rest ∧
      ((cut c pre l rest).checkedIdx : ℤ) - (cut c pre l rest).startLine - 2 = l.length := by
  refine ⟨?_, ?_, ?_⟩
  · have hline := parseLine_eq h
    rwa [scan_line hl] at hline
  · simp [getLine, cut, h.startLine]
  · simp only [cut, h.startLine]; omega

theorem parseRequestLoop_requestLine (h : Ready c pre (l ++ CR :: LF :: rest))
    (hl : Clean CR LF l) (hst : c.checkState = .CHECK_STATE_REQUESTLINE) (n : ℕ) :
    parseRequestLoop (n + 1) .LINE_OK c = (do
      let (code, c) ← (next c pre l rest).parseRequestLine (l ++ NUL :: NUL :: rest) l.length
      if code = .BAD_REQUEST then pure (c.finish .BAD_REQUEST)
      else parseRequestLoop n .LINE_OK c) := by
  obtain ⟨h1, h2, h3⟩ := line_turn h hl
  have hcs : (cut c pre l rest).checkState = .CHECK_STATE_REQUESTLINE := hst
  rw [parseRequestLoop, if_neg (by simp [hst]), h1]
  simp only [ok_bind, if_true, h2, h3]
  split
  · rfl
  · rename_i hc; rw [hcs] at hc; cases hc
  · rename_i hc; rw [hcs] at hc; cases hc

theorem parseRequestLoop_header (h : Ready c pre (l ++ CR :: LF :: rest))
    (hl : Clean CR LF l) (hst : c.checkState = .CHECK_STATE_HEADER) (n : ℕ) :
    parseRequestLoop (n + 1) .LINE_OK c = (do
      let (code, c) ← (next c pre l rest).parseHeader (l ++ NUL :: NUL :: rest) l.length
      if code = .BAD_REQUEST then pure (c.finish .BAD_REQUEST)
      else parseRequestLoop n .LINE_OK c) := by
  obtain ⟨h1, h2, h3⟩ := line_turn h hl
  have hcs : (cut c pre l rest).checkState = .CHECK_STATE_HEADER := hst
  rw [parseRequestLoop, if_neg (by simp [hst]), h1]
  simp only [ok_bind, if_true, h2, h3]
  split
  · rename_i hc; rw [hcs] at hc; cases hc
  · rfl
  · rename_i hc; rw [hcs] at hc; cases hc

theorem parseRequestLoop_noLine (h : Ready c pre u) (hu : ∀ l rest, scan CR LF u ≠ .line l rest)
    (hst : c.checkState ≠ .CHECK_STATE_CONTENT) (n : ℕ) :
    ∃ i, parseRequestLoop (n + 1) .LINE_OK c =
      .ok (.GET_REQUEST, { c with
        checkedIdx := i, request := c.request.setRequestCode .GET_REQUEST }) := by
  have hline := parseLine_eq h
  rw [parseRequestLoop]
  simp only [hst, false_and, if_false]
  cases hs : scan CR LF u with
  | line l rest => exact absurd hs (hu l rest)
  | bad =>
    rw [hs] at hline
    obtain ⟨i, hi⟩ := hline
    exact ⟨i, by rw [hi]; rfl⟩
  | opn =>
    rw [hs] at hline
    obtain ⟨i, hi⟩ := hline
    exact ⟨i, by rw [hi]; rfl⟩

theorem parseRequestLoop_content (hst : c.checkState = .CHECK_STATE_CONTENT) (n : ℕ) :
    parseRequestLoop (n + 1) .LINE_OK c =
      .ok (.GET_REQUEST, { c with
        startLine := c.checkedIdx, request := c.request.setRequestCode .GET_REQUEST }) := by
  rw [parseRequestLoop]
  simp [hst, parseBody, HttpContext.finish]

/-! ### Headers -/

/-- A header line: a name, blanks, and a value. -/
structure Header where
  name : Bytes
  blanks : Bytes
  value : Bytes

namespace Header

def line (h : Header) : Bytes := h.name ++ COLON :: (h.blanks ++ h.value)

/-- The line has one colon that counts, and the value neither begins nor ends with white space. -/
structure WF (h : Header) : Prop where
  clean : Clean CR LF h.line
  name : COLON ∉ h.name
  blanks : ∀ b ∈ h.blanks, isspace b = true
  head : h.value.head?.any isspace = false
  last : h.value.getLast?.any isspace = false

theorem WF.dropWhile {h : Header} (hwf : h.WF) :
    (h.blanks ++ h.value).dropWhile isspace = h.value := by
  rw [List.dropWhile_append_of_pos hwf.blanks]
  have hhead := hwf.head
  cases hv : h.value with
  | nil => rfl
  | cons b v =>
    rw [hv] at hhead
    exact List.dropWhile_cons_of_neg (by simpa using hhead)

/-- The line and its end, for every header in turn. -/
def lines : List Header → Bytes
  | [] => []
  | h :: hs => h.line ++ CR :: LF :: lines hs

/-- The map a header list stands for: the last value of a name wins. -/
def insertAll (hs : List Header) (m : Headers) : Headers :=
  hs.foldl (fun m h => m.insert h.name h.value) m

end Header

/-- What is before the parser is not a line with a colon. -/
def Ended (v : Bytes) : Prop := ∀ l rest, scan CR LF v = .line l rest → COLON ∉ l

theorem parseRequestLoop_skip {v : Bytes} (hs : List Header) :
    ∀ (c : HttpContext) (pre : Bytes), (∀ h ∈ hs, h.WF) → Ready c pre (Header.lines hs ++ v) →
      c.checkState = .CHECK_STATE_HEADER →
      ∃ c' pre', Ready c' pre' v ∧ pre <+: pre' ∧ c'.checkState = .CHECK_STATE_HEADER ∧
        c'.request = { c.request with headers := Header.insertAll hs c.request.headers } ∧
        ∀ n, parseRequestLoop (n + hs.length) .LINE_OK c = parseRequestLoop n .LINE_OK c' := by
  induction hs with
  | nil => intro c pre _ hc hst; exact ⟨c, pre, hc, List.prefix_rfl, hst, rfl, fun _ => rfl⟩
  | cons h hs ih =>
    intro c pre hwf hc hst
    have hh := hwf h List.mem_cons_self
    have hc' : Ready c pre (h.line ++ CR :: LF :: (Header.lines hs ++ v)) := by
      simpa [Header.lines] using hc
    obtain ⟨c', pre', h1, hpre, h2, h3, h4⟩ := ih { next c pre h.line (Header.lines hs ++ v) with
        request := { c.request with headers := c.request.headers.insert h.name h.value } }
      (pre ++ (h.line ++ [NUL, NUL])) (fun g hg => hwf g (List.mem_cons_of_mem _ hg))
      (hc'.next.of_eq rfl rfl rfl rfl) hst
    refine ⟨c', pre', h1, (List.prefix_append _ _).trans hpre, h2, by rw [h3]; rfl, fun n => ?_⟩
    rw [List.length_cons, ← Nat.add_assoc, parseRequestLoop_header hc' hh.clean hst]
    simp only [Header.line, parseHeader_colon hh.name, hh.dropWhile, hh.last]
    simp only [Bool.false_eq_true, if_false, ok_bind]
    rw [if_neg (by decide)]
    exact h4 n

theorem parseRequestLoop_ended (hu : Ended u) (h : Ready c pre u)
    (hst : c.checkState = .CHECK_STATE_HEADER) (n : ℕ) :
    ∃ c', parseRequestLoop (n + 2) .LINE_OK c = .ok (.GET_REQUEST, c') ∧
      c'.request = c.request.setRequestCode .GET_REQUEST ∧ pre <+: c'.buf := by
  have hbuf : pre <+: c.buf := h.buf ▸ List.prefix_append _ _
  have hst' : c.checkState ≠ .CHECK_STATE_CONTENT := by rw [hst]; decide
  cases hs : scan CR LF u with
  | line l rest =>
    -- the line is passed on, and the next turn reports the request
    obtain ⟨rfl, hl⟩ := scan_eq_line.mp hs
    rw [parseRequestLoop_header h hl hst]
    simp only [parseHeader_noColon (hu l rest hs), ok_bind]
    rw [if_neg (by decide), parseRequestLoop_content rfl]
    exact ⟨_, rfl, rfl, List.prefix_append _ _⟩
  | bad =>
    obtain ⟨i, hi⟩ := parseRequestLoop_noLine h (by simp [hs]) hst' (n + 1)
    exact ⟨_, hi, rfl, hbuf⟩
  | opn =>
    obtain ⟨i, hi⟩ := parseRequestLoop_noLine h (by simp [hs]) hst' (n + 1)
    exact ⟨_, hi, rfl, hbuf⟩

/-- What comes next is a header line whose value ends in white space. -/
def Trailing (u : Bytes) : Prop := ∃ name text rest, COLON ∉ name ∧
  scan CR LF u = .line (name ++ COLON :: text) rest ∧
  (text.dropWhile isspace).getLast?.any isspace = true

/-- On such a line the loop that should trim the value does not end. -/
theorem parseRequestLoop_trailing (hu : Trailing u) (h : Ready c pre u)
    (hst : c.checkState = .CHECK_STATE_HEADER) (n : ℕ) :
    parseRequestLoop (n + 1) .LINE_OK c = .error .hang := by
  obtain ⟨name, text, rest, hname, hs, hlast⟩ := hu
  obtain ⟨rfl, hl⟩ := scan_eq_line.mp hs
  rw [parseRequestLoop_header h hl hst]
  simp only [parseHeader_colon hname, hlast, if_true, error_bind]

theorem headers_split : ∀ (n : ℕ) (u : Bytes), u.length ≤ n →
    ∃ hs v, u = Header.lines hs ++ v ∧ (∀ h ∈ hs, h.WF) ∧ (Ended v ∨ Trailing v) := by
  intro n
  induction n with
  | zero =>
    intro u hu
    obtain rfl : u = [] := List.eq_nil_of_length_eq_zero (by omega)
    exact ⟨[], [], rfl, by simp, Or.inl fun l rest h => by cases h⟩
  | succ n ih =>
    intro u hu
    by_cases hend : Ended u
    · exact ⟨[], u, rfl, by simp, Or.inl hend⟩
    · simp only [Ended, not_forall, not_not] at hend
      obtain ⟨l, rest, hs, hcolon⟩ := hend
      obtain ⟨name, text, rfl, hname⟩ := List.eq_append_cons_of_mem hcolon
      obtain ⟨hu', hl⟩ := scan_eq_line.mp hs
      by_cases hlast : (text.dropWhile isspace).getLast?.any isspace = true
      · exact ⟨[], u, rfl, by simp, Or.inr ⟨name, text, rest, hname, hs, hlast⟩⟩
      · obtain ⟨hs', v, hrest, hwf, hv⟩ := ih rest (by
          rw [hu'] at hu
          simp only [List.length_append, List.length_cons] at hu
          omega)
        have hline : Header.line ⟨name, text.takeWhile isspace, text.dropWhile isspace⟩ =
            name ++ COLON :: text := by
          simp only [Header.line, List.takeWhile_append_dropWhile]
        refine ⟨⟨name, text.takeWhile isspace, text.dropWhile isspace⟩ :: hs', v, ?_, ?_, hv⟩
        · simp only [Header.lines, hline, hu', hrest, List.append_assoc, List.cons_append]
        · intro h hh
          rcases List.mem_cons.mp hh with rfl | hh
          · refine ⟨hline ▸ hl, hname, fun b hb => List.mem_takeWhile_imp hb, ?_, by simpa using hlast⟩
            have hhead := List.head?_dropWhile_not isspace text
            cases htext : (text.dropWhile isspace).head? with
            | none => rfl
            | some b => rw [htext] at hhead; simpa using hhead
          · exact hwf h hh

/-! ### Requests -/

/-- A request head. -/
structure Head where
  method : Bytes
  target : Bytes
  version : Bytes
  headers : List Header

namespace Head

def requestLine (q : Head) : Bytes := q.method ++ SP :: (q.target ++ SP :: q.version)

/-- The request line and the header lines. -/
def lines (q : Head) : Bytes := q.requestLine ++ CR :: LF :: Header.lines q.headers

/-- What a client sends: the head, the empty line that ends it, and a body. -/
def render (q : Head) (body : Bytes) : Bytes := q.lines ++ CR :: LF :: body

structure WF (q : Head) : Prop where
  clean : Clean CR LF q.requestLine
  method_ne_nil : q.method ≠ []
  method : SP ∉ q.method
  target : SP ∉ q.target
  length : q.version.length = 8
  version : q.version.take 7 = ascii "HTTP/1."
  headers : ∀ h ∈ q.headers, h.WF

/-- The request object that stands for the head. -/
def request (q : Head) : HttpRequest where
  requestCode := .GET_REQUEST
  method := q.method
  path := q.target.takeWhile (· ≠ QUESTION)
  query := q.target.dropWhile (· ≠ QUESTION)
  version := q.version
  headers := Header.insertAll q.headers ∅

end Head

theorem take_idxOf (a : UInt8) (T : Bytes) : T.take (T.idxOf a) = T.takeWhile (· ≠ a) := by
  rw [List.takeWhile_eq_take_findIdx_not]
  congr 1
  simp [List.idxOf, Bool.beq_eq_decide_eq]

theorem drop_idxOf (a : UInt8) (T : Bytes) : T.drop (T.idxOf a) = T.dropWhile (· ≠ a) := by
  rw [List.dropWhile_eq_drop_findIdx_not]
  congr 1
  simp [List.idxOf, Bool.beq_eq_decide_eq]

theorem withLine_new (q : Head) :
    withLine .new q.method q.target q.version = { q.request with
      requestCode := .NO_REQUEST, headers := ∅ } := by
  have hq : QUESTION ∉ q.target → q.target.dropWhile (· ≠ QUESTION) = [] := by
    intro hq
    rw [← drop_idxOf, List.idxOf_eq_length_iff.mpr hq, List.drop_length]
  unfold withLine HttpRequest.new Head.request
  rw [take_idxOf, drop_idxOf]
  split_ifs with h
  · rfl
  · rw [hq h]

theorem ready_new (u : Bytes) : Ready (HttpContext.new.setBuffer u) [] u :=
  ⟨rfl, rfl, rfl, rfl, by simp⟩

theorem length_lines (hs : List Header) : hs.length ≤ (Header.lines hs).length := by
  induction hs with
  | nil => exact le_refl 0
  | cons h hs ih =>
    simp only [Header.lines, List.length_append, List.length_cons]
    omega

theorem parseRequest_lines {q : Head} (hq : q.WF) (v : Bytes) :
    ∃ c pre, Ready c pre v ∧ q.requestLine ++ [NUL, NUL] <+: pre ∧
      c.checkState = .CHECK_STATE_HEADER ∧
      c.request.setRequestCode .GET_REQUEST = q.request ∧
      ∃ n, (HttpContext.new.setBuffer (q.lines ++ v)).parseRequest =
        parseRequestLoop (n + 2) .LINE_OK c := by
  have h0 := ready_new (q.requestLine ++ CR :: LF :: (Header.lines q.headers ++ v))
  have hline : IsRequestLine q.requestLine q.method q.target q.version :=
    ⟨rfl, hq.method_ne_nil, hq.method, hq.target, hq.length, hq.version⟩
  have h1 := h0.next.of_eq (d := { next (HttpContext.new.setBuffer (q.requestLine ++ CR :: LF ::
      (Header.lines q.headers ++ v))) [] q.requestLine (Header.lines q.headers ++ v) with
    request := withLine .new q.method q.target q.version,
    checkState := .CHECK_STATE_HEADER }) rfl rfl rfl rfl
  obtain ⟨c, pre, h2, hpre, h3, h4, h5⟩ := parseRequestLoop_skip q.headers _ _ hq.headers h1 rfl
  have hu : q.lines ++ v = q.requestLine ++ CR :: LF :: (Header.lines q.headers ++ v) := by
    simp [Head.lines]
  have hn : ∃ n, (q.requestLine ++ CR :: LF :: (Header.lines q.headers ++ v)).length + 2 =
      n + 2 + q.headers.length + 1 := by
    refine ⟨(q.requestLine ++ CR :: LF :: (Header.lines q.headers ++ v)).length - 1 -
      q.headers.length, ?_⟩
    have := length_lines q.headers
    simp only [List.length_append, List.length_cons]
    omega
  obtain ⟨n, hn⟩ := hn
  refine ⟨c, pre, h2, hpre, h3, ?_, n, ?_⟩
  · rw [h4, withLine_new]
    rfl
  · rw [hu, parseRequest, ← h5]
    rw [show (HttpContext.new.setBuffer (q.requestLine ++ CR :: LF ::
      (Header.lines q.headers ++ v))).readIdx + 2 = _ from hn]
    rw [parseRequestLoop_requestLine h0 hq.clean rfl, parseRequestLine_eq hline]
    rfl

theorem parseRequest_ended {q : Head} (hq : q.WF) {v : Bytes} (hv : Ended v) :
    ∃ c, (HttpContext.new.setBuffer (q.lines ++ v)).parseRequest = .ok (.GET_REQUEST, c) ∧
      c.request = q.request ∧ q.requestLine ++ [NUL, NUL] <+: c.buf := by
  obtain ⟨c, pre, h1, hpre, h2, h3, n, h4⟩ := parseRequest_lines hq v
  obtain ⟨c', h5, h6, h7⟩ := parseRequestLoop_ended hv h1 h2 n
  exact ⟨c', h4.trans h5, h6.trans h3, hpre.trans h7⟩

theorem ended_emptyLine (body : Bytes) : Ended (CR :: LF :: body) := by
  intro l rest hs
  have h0 : scan CR LF (CR :: LF :: body) = .line [] body := rfl
  rw [h0] at hs
  cases hs
  exact List.not_mem_nil

theorem parseRequest_refused (hl : Clean CR LF l) (hline : ∀ M T V, ¬IsRequestLine l M T V)
    (rest : Bytes) :
    ∃ c, (HttpContext.new.setBuffer (l ++ CR :: LF :: rest)).parseRequest = .ok (.BAD_REQUEST, c) ∧
      c.request.version = [] ∧ c.request.headers = ∅ := by
  obtain ⟨r, h1, h2, h3⟩ := parseRequestLine_bad hline
    (next (HttpContext.new.setBuffer (l ++ CR :: LF :: rest)) [] l rest) (NUL :: NUL :: rest)
  rw [parseRequest, parseRequestLoop_requestLine (ready_new _) hl rfl, h1]
  exact ⟨_, rfl, h2, h3⟩

theorem parseRequest_noLine (hs : ∀ l rest, scan CR LF u ≠ .line l rest) :
    ∃ c, (HttpContext.new.setBuffer u).parseRequest = .ok (.GET_REQUEST, c) ∧
      c.request = HttpRequest.new.setRequestCode .GET_REQUEST := by
  obtain ⟨i, hi⟩ := parseRequestLoop_noLine (ready_new u) hs (by intro h; cases h)
    ((HttpContext.new.setBuffer u).readIdx + 1)
  exact ⟨_, hi, rfl⟩

/-- What follows a request line is a list of headers and then the end of them, or a header whose
value ends in white space. -/
theorem requestLine_split {M T V : Bytes} (hl : Clean CR LF l) (hline : IsRequestLine l M T V)
    (rest : Bytes) : ∃ q v, Head.WF q ∧ q.requestLine = l ∧ q.target = T ∧
      l ++ CR :: LF :: rest = q.lines ++ v ∧ (Ended v ∨ Trailing v) := by
  obtain ⟨hs, v, rfl, hwf, hv⟩ := headers_split rest.length rest (le_refl _)
  have hreq : Head.requestLine ⟨M, T, V, hs⟩ = l := hline.eq.symm
  have hq : Head.WF ⟨M, T, V, hs⟩ :=
    ⟨hreq ▸ hl, hline.ne_nil, hline.method, hline.target, hline.length, hline.version, hwf⟩
  refine ⟨⟨M, T, V, hs⟩, v, hq, hreq, rfl, ?_, hv⟩
  rw [Head.lines, hreq, List.append_assoc]
  rfl

theorem parseRequest_trailing {q : Head} (hq : q.WF) {v : Bytes} (hv : Trailing v) :
    (HttpContext.new.setBuffer (q.lines ++ v)).parseRequest = .error .hang := by
  obtain ⟨c, pre, h1, -, h2, -, n, h4⟩ := parseRequest_lines hq v
  rw [h4]
  exact parseRequestLoop_trailing hv h1 h2 (n + 1)

/-- **Everything a fresh parser can do.**  It finds a well-formed head and reports it; or it finds
none, and reports a request without version and headers; or it does not return from a header whose
value ends in white space. -/
theorem parseRequest_cases (u : Bytes) :
    (∃ q v, Head.WF q ∧ u = q.lines ++ v ∧ Ended v ∧
      ∃ c, (HttpContext.new.setBuffer u).parseRequest = .ok (.GET_REQUEST, c) ∧
        c.request = q.request ∧ q.requestLine ++ [NUL, NUL] <+: c.buf) ∨
    (∃ code c, (HttpContext.new.setBuffer u).parseRequest = .ok (code, c) ∧
      c.request.version = [] ∧ c.request.headers = ∅) ∨
    (∃ q v, Head.WF q ∧ u = q.lines ++ v ∧ Trailing v ∧
      (HttpContext.new.setBuffer u).parseRequest = .error .hang) := by
  by_cases hs : ∃ l rest, scan CR LF u = .line l rest
  · obtain ⟨l, rest, hs⟩ := hs
    obtain ⟨rfl, hl⟩ := scan_eq_line.mp hs
    by_cases hline : ∃ M T V, IsRequestLine l M T V
    · obtain ⟨M, T, V, hline⟩ := hline
      obtain ⟨q, v, hq, -, -, hu, hv⟩ := requestLine_split hl hline rest
      rw [hu]
      rcases hv with hv | hv
      · exact Or.inl ⟨q, v, hq, rfl, hv, parseRequest_ended hq hv⟩
      · exact Or.inr (Or.inr ⟨q, v, hq, rfl, hv, parseRequest_trailing hq hv⟩)
    · simp only [not_exists] at hline
      obtain ⟨c, h1, h2⟩ := parseRequest_refused hl hline rest
      exact Or.inr (Or.inl ⟨_, c, h1, h2⟩)
  · simp only [not_exists] at hs
    obtain ⟨c, h1, h2⟩ := parseRequest_noLine hs
    exact Or.inr (Or.inl ⟨_, c, h1, by rw [h2]; rfl, by rw [h2]; rfl⟩)

/-- **Parsing undoes rendering.**  From a rendered request a fresh parser recovers the method, the
version, the two parts of the target and the headers, whatever the body. -/
theorem parse_render (q : Head) (hq : q.WF) :
    ∃ r : HttpRequest,
      (∀ body, ∃ c, (HttpContext.new.setBuffer (q.render body)).parseRequest =
        .ok (.GET_REQUEST, c) ∧ c.request = r) ∧
      r.requestCode = .GET_REQUEST ∧ r.method = q.method ∧ r.version = q.version ∧
      r.path = q.target.takeWhile (· ≠ QUESTION) ∧ r.path ++ r.query = q.target ∧
      r.headers = q.headers.foldl (fun m h => m.insert h.name h.value) ∅ :=
  ⟨q.request, fun body =>
      (parseRequest_ended hq (ended_emptyLine body)).imp fun _ h => ⟨h.1, h.2.1⟩,
    rfl, rfl, rfl, rfl, List.takeWhile_append_dropWhile, rfl⟩

theorem parse_render_get :
    ∃ r : HttpRequest,
      (∀ body, ∃ c, (HttpContext.new.setBuffer (Head.render ⟨ascii "GET", ascii "/a?b",
        ascii "HTTP/1.1", [⟨ascii "Connection", ascii " ", ascii "keep-alive"⟩]⟩ body)).parseRequest
        = .ok (.GET_REQUEST, c) ∧ c.request = r) ∧
      r.requestCode = .GET_REQUEST ∧ r.method = ascii "GET" ∧ r.version = ascii "HTTP/1.1" ∧
      r.path = (ascii "/a?b").takeWhile (· ≠ QUESTION) ∧ r.path ++ r.query = ascii "/a?b" ∧
      r.headers = [(⟨ascii "Connection", ascii " ", ascii "keep-alive"⟩ : Header)].foldl
        (fun m h => m.insert h.name h.value) ∅ :=
  parse_render ⟨ascii "GET", ascii "/a?b", ascii "HTTP/1.1",
      [⟨ascii "Connection", ascii " ", ascii "keep-alive"⟩]⟩
    { clean := by unfold Clean; decide
      method_ne_nil := by decide
      method := by decide
      target := by decide
      length := by decide
      version := by decide
      headers := by
        intro h hh
        obtain rfl := List.mem_singleton.mp hh
        exact ⟨by unfold Clean; decide, by decide,
          fun b hb => by rw [List.mem_singleton.mp hb]; rfl, by decide, by decide⟩ }

end ReactorServer.Http.Parsing
