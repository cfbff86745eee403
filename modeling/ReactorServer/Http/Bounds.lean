import ReactorServer.Http.Parsing

/-!
# The parser stays in its buffer

`parseRequest` step by step (`parseMachine`): a step is the condition of its loop, one turn of the loop
of `parseLine`, the head of the body of the loop, or the parser of the line.  Every access to the
buffer is checked by the model, so that a step that reads or writes outside it fails with
`outOfBounds`; `in_bounds` says that none does, and where the cursors are in between.
-/

namespace ReactorServer.Http.Bounds

open ReactorServer.Cpp ReactorServer.Lib.Runs ReactorServer.Lib.Lines
open ReactorServer.Http.Request ReactorServer.Http.Request.HttpRequest
open ReactorServer.Http.Context ReactorServer.Http.Context.HttpContext
open ReactorServer.Http.Parsing

/-! ### The steps -/

/-- Where a call of `parseRequest` is. -/
inductive Phase
  /-- before the condition of the loop -/
  | testing (state : LineStatus)
  /-- in `parseLine`, before the condition of its loop -/
  | scanning
  /-- before the body of the loop -/
  | turning
  /-- before the `switch`, with `text` and `le` -/
  | parsing (text : Bytes) (le : ℤ)
  | returned (code : HttpCode)

def Phase.isReturned : Phase → Bool
  | .returned _ => true
  | _ => false

structure Parse where
  ctx : HttpContext
  phase : Phase

/-- One turn of the loop of `parseLine`: the status it returns, or none where it goes on. -/
def scanTurn (c : HttpContext) : Except Fault (Option LineStatus × HttpContext) := do
  if c.checkedIdx < c.readIdx then
    let tmp ← c.read c.checkedIdx
    if tmp = CR then
      if c.checkedIdx + 1 = c.readIdx then pure (some .LINE_OPEN, c)
      else if (← c.read (c.checkedIdx + 1)) = LF then
        let c ← c.write c.checkedIdx NUL
        let c ← c.write (c.checkedIdx + 1) NUL
        pure (some .LINE_OK, { c with checkedIdx := c.checkedIdx + 2 })
      else pure (some .LINE_BAD, c)
    else if tmp = LF then
      let afterCr ← if 1 < c.checkedIdx then (· == CR) <$> c.read (c.checkedIdx - 1) else pure false
      if afterCr then
        let c ← c.write (c.checkedIdx - 1) NUL
        let c ← c.write c.checkedIdx NUL
        pure (some .LINE_OK, { c with checkedIdx := c.checkedIdx + 1 })
      else pure (some .LINE_BAD, c)
    else pure (none, { c with checkedIdx := c.checkedIdx + 1 })
  else pure (some .LINE_OPEN, c)

/-- The `switch`. -/
def parseText (text : Bytes) (le : ℤ) (c : HttpContext) : Except Fault (HttpCode × HttpContext) :=
  match c.checkState with
  | .CHECK_STATE_REQUESTLINE => c.parseRequestLine text le
  | .CHECK_STATE_HEADER => c.parseHeader text le
  | .CHECK_STATE_CONTENT => pure (parseBody text le, c)

/-- `return code`. -/
def leave (code : HttpCode) (c : HttpContext) : Parse := ⟨(c.finish code).2, .returned code⟩

def step (p : Parse) : Except Fault Parse :=
  match p.phase with
  | .testing state =>
    if p.ctx.checkState = .CHECK_STATE_CONTENT ∧ state = .LINE_OK then pure ⟨p.ctx, .turning⟩
    else pure ⟨p.ctx, .scanning⟩
  | .scanning => do
    let (state, c) ← scanTurn p.ctx
    match state with
    | none => pure ⟨c, .scanning⟩
    | some .LINE_OK => pure ⟨c, .turning⟩
    | some _ => pure (leave .GET_REQUEST c)
  | .turning =>
    pure ⟨{ p.ctx with startLine := p.ctx.checkedIdx },
      .parsing p.ctx.getLine ((p.ctx.checkedIdx : ℤ) - p.ctx.startLine - 2)⟩
  | .parsing text le => do
    let content := p.ctx.checkState = .CHECK_STATE_CONTENT
    let (code, c) ← parseText text le p.ctx
    if code = .BAD_REQUEST ∨ content then pure (leave code c) else pure ⟨c, .testing .LINE_OK⟩
  | .returned _ => pure p

/-- The steps of a call that has not returned. -/
def parseMachine : Machine Parse Unit Fault where
  enabled p _ := p.phase.isReturned = false
  step p _ := step p

variable {c d : HttpContext} {p q : Parse} {pre u l rest : Bytes} {as : List Unit} {n : ℕ}
  {code : HttpCode}

/-! ### They are those of `parseRequest` -/

/-- The call gets from `p` to `q`. -/
def Reaches (p q : Parse) : Prop := ∃ as, Run parseMachine p as q

theorem Reaches.trans {r : Parse} (h : Reaches p q) (h' : Reaches q r) : Reaches p r := by
  obtain ⟨as, h⟩ := h
  obtain ⟨bs, h'⟩ := h'
  exact ⟨as ++ bs, h.append h'⟩

theorem reaches_step (he : p.phase.isReturned = false) (hs : step p = .ok q) : Reaches p q :=
  ⟨[()], .cons he hs (.nil q)⟩

theorem parseLineLoop_succ (hlt : c.checkedIdx < c.readIdx) :
    parseLineLoop (n + 1) c = (do
      let (state, c) ← scanTurn c
      match state with
      | none => parseLineLoop n c
      | some state => pure (state, c)) := by
  rw [parseLineLoop, scanTurn, if_pos hlt]
  cases c.read c.checkedIdx with
  | error f => rfl
  | ok tmp =>
    rw [ok_bind, ok_bind]
    by_cases hcr : tmp = CR
    · rw [if_pos hcr, if_pos hcr]
      by_cases hlast : c.checkedIdx + 1 = c.readIdx
      · rw [if_pos hlast, if_pos hlast]
        rfl
      · rw [if_neg hlast, if_neg hlast]
        cases c.read (c.checkedIdx + 1) with
        | error f => rfl
        | ok b =>
          rw [ok_bind, ok_bind]
          by_cases hlf : b = LF
          · rw [if_pos hlf, if_pos hlf]
            cases c.write c.checkedIdx NUL with
            | error f => rfl
            | ok d =>
              rw [ok_bind, ok_bind]
              cases d.write (d.checkedIdx + 1) NUL <;> rfl
          · rw [if_neg hlf, if_neg hlf]
            rfl
    · rw [if_neg hcr, if_neg hcr]
      by_cases hlf : tmp = LF
      · rw [if_pos hlf, if_pos hlf]
        by_cases hone : 1 < c.checkedIdx
        · rw [if_pos hone, if_pos hone]
          cases (· == CR) <$> c.read (c.checkedIdx - 1) with
          | error f => rfl
          | ok afterCr =>
            rw [ok_bind, ok_bind]
            cases afterCr with
            | false => rfl
            | true =>
              simp only [if_true]
              cases c.write (c.checkedIdx - 1) NUL with
              | error f => rfl
              | ok d =>
                rw [ok_bind, ok_bind]
                cases d.write d.checkedIdx NUL <;> rfl
        · rw [if_neg hone, if_neg hone]
          rfl
      · rw [if_neg hlf, if_neg hlf]
        rfl

/-- A turn after which the scan goes on has passed one byte. -/
theorem scanTurn_none (h : scanTurn c = .ok (none, d)) :
    d = { c with checkedIdx := c.checkedIdx + 1 } := by
  unfold scanTurn at h
  split at h
  · obtain ⟨tmp, -, h⟩ := bind_eq_ok.mp h
    split at h
    · split at h
      · cases h
      · obtain ⟨b, -, h⟩ := bind_eq_ok.mp h
        split at h
        · obtain ⟨_, -, h⟩ := bind_eq_ok.mp h
          obtain ⟨_, -, h⟩ := bind_eq_ok.mp h
          cases h
        · cases h
    · split at h
      · split at h
        all_goals
          obtain ⟨afterCr, -, h⟩ := bind_eq_ok.mp h
          dsimp only at h
          split at h
          · obtain ⟨_, -, h⟩ := bind_eq_ok.mp h
            obtain ⟨_, -, h⟩ := bind_eq_ok.mp h
            cases h
          · cases h
      · cases h
        rfl
  · cases h

theorem step_scanning {r : Option LineStatus} (h : scanTurn c = .ok (r, d)) :
    step ⟨c, .scanning⟩ = .ok (match r with
      | none => ⟨d, .scanning⟩
      | some .LINE_OK => ⟨d, .turning⟩
      | some _ => leave .GET_REQUEST d) := by
  unfold step
  simp only [h, ok_bind]
  rcases r with _ | _ | _ | _ <;> rfl

theorem reaches_parseLine {state : LineStatus} (h : c.parseLine = .ok (state, d)) :
    Reaches ⟨c, .scanning⟩ (if state = .LINE_OK then ⟨d, .turning⟩ else leave .GET_REQUEST d) := by
  unfold HttpContext.parseLine at h
  generalize hn : c.readIdx - c.checkedIdx = n at h
  induction n generalizing c with
  | zero =>
    have hturn : scanTurn c = .ok (some .LINE_OPEN, c) := if_neg (by omega)
    cases h
    exact reaches_step rfl (step_scanning hturn)
  | succ n ih =>
    rw [parseLineLoop_succ (by omega)] at h
    obtain ⟨⟨r, e⟩, hturn, h⟩ := bind_eq_ok.mp h
    have hstep := reaches_step rfl (step_scanning hturn)
    cases r with
    | none =>
      refine hstep.trans (ih ?_ h)
      rw [scanTurn_none hturn]
      show c.readIdx - (c.checkedIdx + 1) = n
      omega
    | some state' =>
      cases h
      cases state <;> exact hstep

theorem step_testing (c : HttpContext) (state : LineStatus) : step ⟨c, .testing state⟩ =
    if c.checkState = .CHECK_STATE_CONTENT ∧ state = .LINE_OK then .ok ⟨c, .turning⟩
    else .ok ⟨c, .scanning⟩ := rfl

theorem step_turning : step ⟨c, .turning⟩ = .ok ⟨{ c with startLine := c.checkedIdx },
    .parsing c.getLine ((c.checkedIdx : ℤ) - c.startLine - 2)⟩ := rfl

theorem step_parsing {text : Bytes} {le : ℤ} (h : parseText text le c = .ok (code, d)) :
    step ⟨c, .parsing text le⟩ = .ok (if code = .BAD_REQUEST ∨ c.checkState = .CHECK_STATE_CONTENT
      then leave code d else ⟨d, .testing .LINE_OK⟩) := by
  unfold step
  simp only [h, ok_bind]
  split <;> rfl

/-- The rest of `parseRequest` from the body of the loop on. -/
def bodyLoop (n : ℕ) (c : HttpContext) : Except Fault (HttpCode × HttpContext) := do
  let (code, d) ← parseText c.getLine ((c.checkedIdx : ℤ) - c.startLine - 2)
    { c with startLine := c.checkedIdx }
  if code = .BAD_REQUEST ∨ c.checkState = .CHECK_STATE_CONTENT then pure (d.finish code)
  else parseRequestLoop n .LINE_OK d

theorem bodyLoop_eq (n : ℕ) (d : HttpContext) : bodyLoop n d = (
    let text := d.getLine
    let le : ℤ := (d.checkedIdx : ℤ) - d.startLine - 2
    let e := { d with startLine := d.checkedIdx }
    match d.checkState with
    | .CHECK_STATE_REQUESTLINE => do
      let (code, e) ← e.parseRequestLine text le
      if code = .BAD_REQUEST then pure (e.finish .BAD_REQUEST) else parseRequestLoop n .LINE_OK e
    | .CHECK_STATE_HEADER => do
      let (code, e) ← e.parseHeader text le
      if code = .BAD_REQUEST then pure (e.finish .BAD_REQUEST) else parseRequestLoop n .LINE_OK e
    | .CHECK_STATE_CONTENT => pure (e.finish .GET_REQUEST)) := by
  unfold bodyLoop parseText
  dsimp only
  cases hst : d.checkState with
  | CHECK_STATE_CONTENT => rfl
  | CHECK_STATE_REQUESTLINE | CHECK_STATE_HEADER =>
    dsimp only
    congr 1
    funext r
    obtain ⟨code, e⟩ := r
    dsimp only
    by_cases hcode : code = .BAD_REQUEST
    · rw [if_pos (Or.inl hcode), if_pos hcode, hcode]
    · rw [if_neg (fun h => h.elim hcode nofun), if_neg hcode]

theorem parseRequestLoop_succ (n : ℕ) (state : LineStatus) (c : HttpContext) :
    parseRequestLoop (n + 1) state c =
      if c.checkState = .CHECK_STATE_CONTENT ∧ state = .LINE_OK then bodyLoop n c
      else c.parseLine >>= fun r =>
        if r.1 = .LINE_OK then bodyLoop n r.2 else pure (r.2.finish .GET_REQUEST) := by
  rw [parseRequestLoop]
  by_cases htest : c.checkState = .CHECK_STATE_CONTENT ∧ state = .LINE_OK
  · rw [if_pos htest, if_pos htest, bodyLoop_eq, pure_eq_ok, ok_bind, htest.2]
    rfl
  · rw [if_neg htest, if_neg htest]
    congr 1
    funext r
    obtain ⟨state', d⟩ := r
    dsimp only
    by_cases hok : state' = .LINE_OK
    · rw [if_pos hok, if_pos hok, bodyLoop_eq, hok]
      rfl
    · rw [if_neg hok, if_neg hok]

theorem reaches_bodyLoop
    (ih : ∀ {e : HttpContext}, parseRequestLoop n .LINE_OK e = .ok (code, d) →
      Reaches ⟨e, .testing .LINE_OK⟩ ⟨d, .returned code⟩)
    (h : bodyLoop n c = .ok (code, d)) : Reaches ⟨c, .turning⟩ ⟨d, .returned code⟩ := by
  obtain ⟨⟨code', e⟩, htext, h⟩ := bind_eq_ok.mp h
  refine (reaches_step rfl step_turning).trans ((reaches_step rfl (step_parsing htext)).trans ?_)
  dsimp only at h ⊢
  split at h
  · rw [if_pos (by assumption)]
    cases h
    exact ⟨[], .nil _⟩
  · rw [if_neg (by assumption)]
    exact ih h

/-- **A call that returns takes these steps.** -/
theorem reaches_parseRequest {state : LineStatus}
    (h : parseRequestLoop n state c = .ok (code, d)) :
    Reaches ⟨c, .testing state⟩ ⟨d, .returned code⟩ := by
  induction n generalizing c state with
  | zero => cases h
  | succ n ih =>
    rw [parseRequestLoop_succ] at h
    by_cases htest : c.checkState = .CHECK_STATE_CONTENT ∧ state = .LINE_OK
    · rw [if_pos htest] at h
      exact (reaches_step rfl ((step_testing c state).trans (if_pos htest))).trans
        (reaches_bodyLoop ih h)
    · rw [if_neg htest] at h
      obtain ⟨⟨state', e⟩, hline, h⟩ := bind_eq_ok.mp h
      refine (reaches_step rfl ((step_testing c state).trans (if_neg htest))).trans
        ((reaches_parseLine hline).trans ?_)
      dsimp only at h
      split at h
      · rw [if_pos (by assumption)]
        exact reaches_bodyLoop ih h
      · rw [if_neg (by assumption)]
        cases h
        exact ⟨[], .nil _⟩

/-! ### Where it stands -/

/-- The context stands in a line of which it has passed `a`. -/
structure Within (c : HttpContext) (pre a u : Bytes) : Prop where
  buf : c.buf = pre ++ (a ++ u)
  readIdx : c.readIdx = c.buf.length
  startLine : c.startLine = pre.length
  checkedIdx : c.checkedIdx = pre.length + a.length
  noCR : pre.getLast? ≠ some CR
  clean : Clean CR LF a

/-- The context stands behind the line `l`, which has been cut off. -/
structure Behind (c : HttpContext) (pre l rest : Bytes) : Prop where
  buf : c.buf = pre ++ (l ++ NUL :: NUL :: rest)
  readIdx : c.readIdx = c.buf.length
  startLine : c.startLine = pre.length
  checkedIdx : c.checkedIdx = pre.length + l.length + 2

/-- The line given to a parser is one that has been cut off. -/
def IsLine (text : Bytes) (le : ℤ) : Prop := ∃ l rest, text = l ++ NUL :: NUL :: rest ∧ le = l.length

/-- What holds in each phase. -/
def Stands (c : HttpContext) : Phase → Prop
  | .testing _ => ∃ pre u, Ready c pre u
  | .scanning => ∃ pre a u, Within c pre a u
  | .turning => (c.checkState = .CHECK_STATE_CONTENT ∧ ∃ pre u, Ready c pre u) ∨
      ∃ pre l rest, Behind c pre l rest
  | .parsing text le => (∃ pre u, Ready c pre u) ∧
      (c.checkState = .CHECK_STATE_CONTENT ∨ IsLine text le)
  | .returned _ => c.startLine ≤ c.checkedIdx ∧ c.checkedIdx ≤ c.buf.length

theorem within_of_ready (h : Ready c pre u) : Within c pre [] u :=
  ⟨h.buf, by rw [h.readIdx, h.buf], h.startLine, h.checkedIdx, h.noCR, by simp [Clean]⟩

theorem Within.le (h : Within c pre l u) :
    c.startLine ≤ c.checkedIdx ∧ c.checkedIdx ≤ c.buf.length := by
  rw [h.startLine, h.checkedIdx, h.buf]
  simp only [List.length_append]
  omega

theorem Within.last (h : Within c pre l u) : (pre ++ l).getLast? ≠ some CR := by
  rw [List.getLast?_append]
  cases hl : l.getLast? with
  | none => exact h.noCR
  | some b =>
    intro hb
    rw [Option.some_or, Option.some_inj] at hb
    exact h.clean.1 (hb ▸ List.mem_of_getLast? hl)

/-- What a turn of the scan leads to. -/
def Turned (c : HttpContext) (r : Option LineStatus) (d : HttpContext) : Prop :=
  d.buf.length = c.buf.length ∧ d.checkState = c.checkState ∧ match r with
  | none => ∃ pre a u, Within d pre a u
  | some .LINE_OK => ∃ pre l rest, Behind d pre l rest
  | some _ => ∃ pre a u, Within d pre a u

theorem Within.standing (h : Within c pre l u) : c.buf = (pre ++ l) ++ u ∧
    c.checkedIdx = (pre ++ l).length ∧ c.readIdx = ((pre ++ l) ++ u).length := by
  have hbuf : c.buf = (pre ++ l) ++ u := by rw [h.buf, List.append_assoc]
  exact ⟨hbuf, by rw [h.checkedIdx, List.length_append], by rw [h.readIdx, hbuf]⟩

theorem Within.ahead {a : UInt8} (h : Within c pre l (a :: v)) :
    c.checkedIdx < c.readIdx ∧ c.read c.checkedIdx = .ok a := by
  obtain ⟨hbuf, hchk, hread⟩ := h.standing
  exact ⟨by rw [hchk, hread]; simp, read_checked hbuf hchk 0 rfl⟩

/-- A `CR`: the line ends, or is bad, or its `LF` has not come yet. -/
theorem scanTurn_cr (h : Within c pre l (CR :: v)) :
    ∃ r d, scanTurn c = .ok (r, d) ∧ Turned c r d := by
  obtain ⟨hbuf, hchk, hread⟩ := h.standing
  obtain ⟨hlt, h0⟩ := h.ahead
  unfold scanTurn
  rw [if_pos hlt, h0, ok_bind, if_pos rfl]
  cases v with
  | nil =>
    rw [if_pos (by rw [hchk, hread]; simp; omega)]
    exact ⟨_, _, rfl, rfl, rfl, pre, l, [CR], h⟩
  | cons b v =>
    have h1 : c.read (c.checkedIdx + 1) = .ok b := read_checked hbuf hchk 1 rfl
    rw [if_neg (by rw [hchk, hread]; simp; omega), h1, ok_bind]
    by_cases hlf : b = LF
    · subst hlf
      obtain ⟨hw0, hw1⟩ := write_crlf hbuf hchk
      rw [if_pos rfl, hw0, ok_bind, hw1, ok_bind]
      refine ⟨_, _, rfl, ?_, rfl, pre, l, v, ?_, ?_, h.startLine, ?_⟩
      · rw [hbuf]
        simp
      · simp
      · rw [h.readIdx, hbuf]
        simp
      · show c.checkedIdx + 2 = _
        rw [h.checkedIdx]
    · rw [if_neg hlf]
      exact ⟨_, _, rfl, rfl, rfl, pre, l, _, h⟩

theorem scanTurn_lf (h : Within c pre l (LF :: v)) :
    ∃ r d, scanTurn c = .ok (r, d) ∧ Turned c r d := by
  obtain ⟨hbuf, hchk, -⟩ := h.standing
  obtain ⟨hlt, h0⟩ := h.ahead
  unfold scanTurn
  rw [if_pos hlt, h0, ok_bind, if_neg (by decide), if_pos rfl]
  by_cases hone : 1 < c.checkedIdx
  · have hne : pre ++ l ≠ [] := by
      intro hnil
      rw [hchk, hnil] at hone
      cases hone
    obtain ⟨b, hb, hb'⟩ := read_pred hbuf hne h.last
    rw [if_pos hone, hchk, hb]
    refine ⟨some .LINE_BAD, c, ?_, rfl, rfl, pre, l, _, h⟩
    simp [hb']
  · rw [if_neg hone]
    exact ⟨_, _, rfl, rfl, rfl, pre, l, _, h⟩

theorem scanTurn_byte {a : UInt8} (h : Within c pre l (a :: v)) (hcr : a ≠ CR) (hlf : a ≠ LF) :
    ∃ r d, scanTurn c = .ok (r, d) ∧ Turned c r d := by
  obtain ⟨hlt, h0⟩ := h.ahead
  unfold scanTurn
  rw [if_pos hlt, h0, ok_bind, if_neg hcr, if_neg hlf]
  refine ⟨_, _, rfl, rfl, rfl, pre, l ++ [a], v, ?_⟩
  refine ⟨?_, h.readIdx, h.startLine, ?_, h.noCR, ?_⟩
  · show c.buf = _
    rw [h.buf]
    simp
  · show c.checkedIdx + 1 = _
    rw [h.checkedIdx]
    simp
    omega
  · refine clean_append.mpr ⟨h.clean, ?_⟩
    simp [Clean, Ne.symm hcr, Ne.symm hlf]

/-- **One turn of the scan** stays in the buffer. -/
theorem scanTurn_turned (h : Within c pre l u) :
    ∃ r d, scanTurn c = .ok (r, d) ∧ Turned c r d := by
  cases u with
  | nil =>
    obtain ⟨-, hchk, hread⟩ := h.standing
    unfold scanTurn
    rw [if_neg (by rw [hchk, hread]; simp)]
    exact ⟨_, _, rfl, rfl, rfl, pre, l, [], h⟩
  | cons a v =>
    by_cases hcr : a = CR
    · subst hcr
      exact scanTurn_cr h
    · by_cases hlf : a = LF
      · subst hlf
        exact scanTurn_lf h
      · exact scanTurn_byte h hcr hlf

/-- The parser of a line sets the request and the state, and leaves the buffer alone. -/
theorem parseText_line {text : Bytes} {le : ℤ}
    (h : c.checkState = .CHECK_STATE_CONTENT ∨ IsLine text le) :
    (∃ code r st, parseText text le c = .ok (code, { c with request := r, checkState := st })) ∨
      parseText text le c = .error .hang := by
  unfold parseText
  cases hst : c.checkState with
  | CHECK_STATE_CONTENT => exact Or.inl ⟨_, c.request, c.checkState, rfl⟩
  | CHECK_STATE_REQUESTLINE =>
    obtain ⟨l, rest, rfl, rfl⟩ := h.resolve_left (by rw [hst]; nofun)
    by_cases hline : ∃ M T V, IsRequestLine l M T V
    · obtain ⟨M, T, V, hline⟩ := hline
      exact Or.inl ⟨_, _, _, parseRequestLine_eq hline c _⟩
    · simp only [not_exists] at hline
      obtain ⟨r, hr, -⟩ := parseRequestLine_bad hline c (NUL :: NUL :: rest)
      exact Or.inl ⟨_, r, c.checkState, hr⟩
  | CHECK_STATE_HEADER =>
    obtain ⟨l, rest, rfl, rfl⟩ := h.resolve_left (by rw [hst]; nofun)
    by_cases hcolon : COLON ∈ l
    · obtain ⟨name, v, rfl, hname⟩ := List.eq_append_cons_of_mem hcolon
      have hparse := parseHeader_colon (v := v) hname c (NUL :: rest)
      split at hparse
      · exact Or.inr hparse
      · exact Or.inl ⟨_, _, c.checkState, hparse⟩
    · exact Or.inl ⟨_, c.request, _, parseHeader_noColon hcolon c _⟩

/-- The step leads on, and leaves the length of the buffer. -/
def LeadsOn (p : Parse) : Prop :=
  ∃ q, step p = .ok q ∧ Stands q.ctx q.phase ∧ q.ctx.buf.length = p.ctx.buf.length

theorem testing_leadsOn {state : LineStatus} (h : Ready c pre u) : LeadsOn ⟨c, .testing state⟩ := by
  unfold LeadsOn
  rw [step_testing]
  split
  · rename_i htest
    exact ⟨_, rfl, Or.inl ⟨htest.1, pre, u, h⟩, rfl⟩
  · exact ⟨_, rfl, ⟨pre, [], u, within_of_ready h⟩, rfl⟩

theorem scanning_leadsOn (h : Within c pre l u) : LeadsOn ⟨c, .scanning⟩ := by
  obtain ⟨r, d, hturn, hlen, hst, hturned⟩ := scanTurn_turned h
  unfold LeadsOn
  rw [step_scanning hturn]
  rcases r with _ | _ | _ | _
  · exact ⟨_, rfl, hturned, hlen⟩
  · exact ⟨_, rfl, Or.inr hturned, hlen⟩
  all_goals
    obtain ⟨_, _, _, hd⟩ := hturned
    exact ⟨_, rfl, hd.le, hlen⟩

theorem content_leadsOn (hst : c.checkState = .CHECK_STATE_CONTENT) (h : Ready c pre u) :
    LeadsOn ⟨c, .turning⟩ := by
  have hstart : c.checkedIdx = c.startLine := by rw [h.checkedIdx, h.startLine]
  unfold LeadsOn
  rw [step_turning]
  exact ⟨_, rfl, ⟨⟨pre, u, h.of_eq rfl rfl rfl hstart⟩, Or.inl hst⟩, rfl⟩

theorem behind_leadsOn (h : Behind c pre l rest) : LeadsOn ⟨c, .turning⟩ := by
  unfold LeadsOn
  rw [step_turning]
  refine ⟨_, rfl, ⟨⟨pre ++ (l ++ [NUL, NUL]), rest, ?_⟩, Or.inr ⟨l, rest, ?_, ?_⟩⟩, rfl⟩
  · refine ⟨?_, ?_, ?_, ?_, by simp [NUL, CR]⟩
    · show c.buf = _
      rw [h.buf]
      simp
    · show c.readIdx = _
      rw [h.readIdx, h.buf]
      simp
    all_goals
      show c.checkedIdx = _
      rw [h.checkedIdx]
      simp
      omega
  · show c.buf.drop c.startLine = _
    rw [h.buf, h.startLine, List.drop_left]
  · rw [h.checkedIdx, h.startLine]
    omega

theorem parsing_leadsOn {text : Bytes} {le : ℤ} (h : Ready c pre u)
    (hline : c.checkState = .CHECK_STATE_CONTENT ∨ IsLine text le) :
    LeadsOn ⟨c, .parsing text le⟩ ∨ step ⟨c, .parsing text le⟩ = .error .hang := by
  rcases parseText_line hline with ⟨code, r, st, htext⟩ | hhang
  · left
    have hready : Ready { c with request := r, checkState := st } pre u := h.of_eq rfl rfl rfl rfl
    unfold LeadsOn
    rw [step_parsing htext]
    split
    · exact ⟨_, rfl, (within_of_ready hready).le, rfl⟩
    · exact ⟨_, rfl, ⟨pre, u, hready⟩, rfl⟩
  · right
    unfold step
    dsimp only
    rw [hhang]
    rfl

/-- **One step** leads on, or does not end. -/
theorem step_stands (h : Stands p.ctx p.phase) : LeadsOn p ∨ step p = .error .hang := by
  obtain ⟨c, phase⟩ := p
  cases phase with
  | testing state =>
    obtain ⟨pre, u, hready⟩ := h
    exact Or.inl (testing_leadsOn hready)
  | scanning =>
    obtain ⟨pre, l, u, hwithin⟩ := h
    exact Or.inl (scanning_leadsOn hwithin)
  | turning =>
    rcases h with ⟨hst, pre, u, hready⟩ | ⟨pre, l, rest, hbehind⟩
    · exact Or.inl (content_leadsOn hst hready)
    · exact Or.inl (behind_leadsOn hbehind)
  | parsing text le =>
    obtain ⟨⟨pre, u, hready⟩, hline⟩ := h
    exact parsing_leadsOn hready hline
  | returned code => exact Or.inl ⟨_, rfl, h, rfl⟩

theorem Stands.le {phase : Phase} (h : Stands c phase) :
    c.startLine ≤ c.checkedIdx ∧ c.checkedIdx ≤ c.buf.length := by
  cases phase with
  | testing => obtain ⟨pre, u, h⟩ := h; exact (within_of_ready h).le
  | scanning => obtain ⟨pre, a, u, h⟩ := h; exact h.le
  | turning =>
    rcases h with ⟨-, pre, u, h⟩ | ⟨pre, l, rest, h⟩
    · exact (within_of_ready h).le
    · rw [h.startLine, h.checkedIdx, h.buf]
      simp only [List.length_append, List.length_cons]
      omega
  | parsing => obtain ⟨⟨pre, u, h⟩, -⟩ := h; exact (within_of_ready h).le
  | returned => exact h

/-! ### In bounds -/

/-- **The parser is in its buffer** of `n` bytes. -/
structure InBounds (n : ℕ) (p : Parse) : Prop where
  length : p.ctx.buf.length = n
  startLine : p.ctx.startLine ≤ p.ctx.checkedIdx
  checkedIdx : p.ctx.checkedIdx ≤ n
  /-- the line length is not negative, and the line with the byte behind it is in the buffer -/
  le : ∀ text le, p.phase = .parsing text le → p.ctx.checkState ≠ .CHECK_STATE_CONTENT →
    0 ≤ le ∧ le < text.length
  /-- the skipping pointer of `addHeader` stops before the end of the line -/
  skipSpaces : ∀ text le, p.phase = .parsing text le → p.ctx.checkState = .CHECK_STATE_HEADER →
    COLON ∈ text.take le.toNat → ∃ k, skipSpaces (text.drop (text.idxOf COLON + 1)) = .ok k ∧
      (text.idxOf COLON : ℤ) + 1 + k ≤ le
  /-- the next step does not leave the buffer, nor copy a negative length -/
  step : ∀ f, step p = .error f → f = .hang

theorem in_bounds_of_stands (h : Stands p.ctx p.phase) : InBounds p.ctx.buf.length p := by
  refine ⟨rfl, h.le.1, h.le.2, fun text le hp hst => ?_, fun text le hp hst hcolon => ?_,
    fun f hf => ?_⟩
  · rw [hp] at h
    obtain ⟨l, rest, rfl, rfl⟩ := h.2.resolve_left hst
    simp only [List.length_append, List.length_cons]
    omega
  · rw [hp] at h
    obtain ⟨l, rest, rfl, rfl⟩ := h.2.resolve_left (by rw [hst]; nofun)
    rw [Int.toNat_natCast, List.take_left] at hcolon
    obtain ⟨name, v, rfl, hname⟩ := List.eq_append_cons_of_mem hcolon
    have htext : (name ++ COLON :: v) ++ NUL :: NUL :: rest =
        name ++ COLON :: (v ++ NUL :: NUL :: rest) := by simp
    have hdrop : (name ++ COLON :: (v ++ NUL :: NUL :: rest)).drop (name.length + 1) =
        v ++ NUL :: NUL :: rest := by simp [List.drop_append]
    rw [htext, idxOf_append hname, hdrop]
    refine ⟨_, skipSpaces_append v _, ?_⟩
    have := (List.takeWhile_prefix isspace (l := v)).length_le
    simp only [List.length_append, List.length_cons]
    omega
  · rcases step_stands h with ⟨q, hq, -⟩ | hhang
    · rw [hq] at hf
      cases hf
    · rw [hhang] at hf
      cases hf
      rfl

/-- A call of `parseRequest` begins. -/
def start (c : HttpContext) : Parse := ⟨c, .testing .LINE_OK⟩

/-- **`HttpContext` parses in bounds**, step by step, whatever the buffer of a fresh or reset context
holds; and a call that does not return has not left the buffer. -/
theorem in_bounds {fresh : HttpContext} (hfresh : fresh = .new ∨ ∃ c, fresh = HttpContext.reset c) (u : Bytes) :
    (∀ as p, Run parseMachine (start (fresh.setBuffer u)) as p → InBounds u.length p) ∧
    ∀ f, (fresh.setBuffer u).parseRequest = .error f → f = .hang := by
  have hnew : fresh = .new := hfresh.elim id fun ⟨_, h⟩ => h
  subst hnew
  constructor
  · intro as p h
    have h0 : Stands (start (HttpContext.new.setBuffer u)).ctx (start (HttpContext.new.setBuffer u)).phase :=
      ⟨[], u, ready_new u⟩
    have key := h.invariant (I := fun p => Stands p.ctx p.phase ∧ p.ctx.buf.length = u.length)
      (fun p a q hp _ hs => by
        rcases step_stands hp.1 with ⟨q', hq', hstands, hlen⟩ | hhang
        · have hs' : Bounds.step p = .ok q := hs
          rw [hq'] at hs'
          cases hs'
          exact ⟨hstands, hlen.trans hp.2⟩
        · have hs' : Bounds.step p = .ok q := hs
          rw [hhang] at hs'
          cases hs') ⟨h0, rfl⟩
    rw [← key.2]
    exact in_bounds_of_stands key.1
  · intro f hf
    rcases parseRequest_cases u with ⟨q, v, -, -, -, c, h, -⟩ | ⟨code, c, h, -⟩ | ⟨q, v, -, -, -, h⟩
    · rw [h] at hf
      cases hf
    · rw [h] at hf
      cases hf
    · rw [h] at hf
      cases hf
      rfl

theorem in_bounds_reset :
    (∀ as p, Run parseMachine (start ((HttpContext.reset .new).setBuffer (ascii "GET / HTTP/1.0\r\na:\r\n"))) as p →
      InBounds 20 p) ∧
    ∀ f, ((HttpContext.reset .new).setBuffer (ascii "GET / HTTP/1.0\r\na:\r\n")).parseRequest = .error f →
      f = .hang :=
  in_bounds (Or.inr ⟨_, rfl⟩) _

end ReactorServer.Http.Bounds
