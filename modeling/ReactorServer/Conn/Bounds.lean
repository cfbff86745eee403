import ReactorServer.Conn.Calls
import ReactorServer.Lib.Triples

/-!
# Parsing in bounds

`connMachine` takes the loop of `processRead` apart: a step is a `read`, an `init`, or one test or one
turn of the loop (`loop_ok_iff`).  Every access to `readBuf` is in bounds and no sum overflows in
a step, unless the step is a turn that calls `parseContent` with a length that is negative beyond the
beginning of the buffer or next to `INT_MAX` (`step_ok_iff`).
-/

namespace ReactorServer.Conn.Bounds

open ReactorServer.Cpp ReactorServer.Lib.Runs ReactorServer.Lib.Triples
open ReactorServer.Conn.Strings ReactorServer.Conn.Parser ReactorServer.Conn.Calls

variable {stat : Stat} {s t : HttpConn} {p n i : ℕ} {status : LINE_STATUS} {chunk : Bytes}

/-! ### The invariant -/

/-- What holds between any two calls of the parser. -/
structure Sane (s : HttpConn) : Prop where
  short : s.readIdx < READ_BUFFER_SIZE
  start_le : s.startLine ≤ s.checkedIdx
  checked_le : s.checkedIdx ≤ s.readIdx
  behind : Behind s
  blank : ∀ i, s.readIdx ≤ i → s.readBuf i = NUL
  url : s.checkState ≠ .CHECK_STATE_REQUESTLINE → ∃ u, s.url = some u ∧ u ≤ s.readIdx
  length : INT_MIN ≤ s.contentLength

theorem init_sane : Sane init where
  short := by decide
  start_le := Nat.le_refl _
  checked_le := Nat.le_refl _
  behind := fun _ => nofun
  blank := fun _ _ => rfl
  url := fun h => absurd rfl h
  length := by decide

theorem read_sane (h : Sane s) (hlen : s.readIdx + chunk.length < READ_BUFFER_SIZE) :
    Sane (read chunk s) where
  short := hlen
  start_le := h.start_le
  checked_le := Nat.le_trans h.checked_le (Nat.le_add_right _ _)
  behind := fun i hi => by
    have hc := h.checked_le
    have hi' : i + 1 = s.checkedIdx := hi
    show splice s.readBuf s.readIdx chunk i ≠ CR
    rw [splice_of_lt (by omega)]
    exact h.behind i hi'
  blank := fun i hi => by
    have hi' : s.readIdx + chunk.length ≤ i := hi
    show splice s.readBuf s.readIdx chunk i = NUL
    rw [splice_of_le hi']
    exact h.blank i (by omega)
  url := fun hst => by
    obtain ⟨u, hu, hle⟩ := h.url hst
    exact ⟨u, hu, Nat.le_trans hle (Nat.le_add_right _ _)⟩
  length := h.length

/-- Wherever a pointer points, there is a string, and it ends before the free space. -/
theorem Sane.exists_at (h : Sane s) (hp : p ≤ s.readIdx) :
    ∃ line, At s.readBuf p line ∧ p + line.length ≤ s.readIdx :=
  Strings.exists_at hp h.short (h.blank _ (Nat.le_refl _))

/-- Writing `NUL`s and moving the cursors forward does no harm. -/
theorem Sane.clear (h : Sane s) (zs : List ℕ) {head : Head}
    (hurl : head.checkState ≠ .CHECK_STATE_REQUESTLINE → ∃ u, head.url = some u ∧ u ≤ s.readIdx)
    (hlen : INT_MIN ≤ head.contentLength) :
    Sane { s with toHead := head, readBuf := clear zs s.readBuf, startLine := s.checkedIdx } where
  short := h.short
  start_le := Nat.le_refl _
  checked_le := h.checked_le
  behind := fun i hi => by
    show Calls.clear zs s.readBuf i ≠ CR
    rcases clear_eq_or zs s.readBuf i with hc | hc
    · rw [hc]
      exact h.behind i hi
    · rw [hc]
      decide
  blank := fun i hi => clear_of_eq (h.blank i hi)
  url := hurl
  length := hlen

/-! ### The scanner -/

theorem parseLine_sane (h : Sane s) :
    ∃ status t, parseLine s = .ok (status, t) ∧ Sane t ∧ t.toHead = s.toHead ∧
      t.readIdx = s.readIdx ∧ s.checkedIdx ≤ t.checkedIdx ∧
      (status = .LINE_OK → s.checkedIdx < t.checkedIdx) := by
  have hscan := scanLine_scanned s.readBuf (s.readIdx - s.checkedIdx) s.checkedIdx
  refine ⟨_, _, parseLine_eq (Nat.le_of_lt h.short) h.behind, ?_⟩
  have hstart := h.start_le
  have hend : s.checkedIdx + (s.readIdx - s.checkedIdx) = s.readIdx := by
    have := h.checked_le
    omega
  generalize scanLine s.readBuf (s.readIdx - s.checkedIdx) s.checkedIdx = r at hscan ⊢
  obtain ⟨status, k⟩ := r
  have hle := hscan.le
  have hle_end := hscan.le_end
  dsimp only at hle hle_end
  have hmove : Sane { s with checkedIdx := k } := by
    refine ⟨h.short, ?_, ?_, fun i hi => ?_, h.blank, h.url, h.length⟩
    · show s.startLine ≤ k
      omega
    · show k ≤ s.readIdx
      omega
    · have hi' : i + 1 = k := hi
      by_cases hic : s.checkedIdx ≤ i
      · exact (hscan.passed i hic (by show i < k; omega)).1
      · exact h.behind i (by omega)
  cases status with
  | LINE_OK =>
    obtain ⟨hk, -, -⟩ := hscan.ok rfl
    dsimp only at hk
    refine ⟨⟨h.short, ?_, ?_, fun i hi => ?_, fun i hi => clear_of_eq (h.blank i hi), h.url,
      h.length⟩, rfl, rfl, ?_, fun _ => ?_⟩
    · show s.startLine ≤ k + 2
      omega
    · show k + 2 ≤ s.readIdx
      omega
    · have hi' : i + 1 = k + 2 := hi
      show clear [k, k + 1] s.readBuf i ≠ CR
      rw [show i = k + 1 from by omega]
      simp [clear]
      decide
    · show s.checkedIdx ≤ k + 2
      omega
    · show s.checkedIdx < k + 2
      omega
  | LINE_BAD =>
    have hne : LINE_STATUS.LINE_BAD ≠ .LINE_OK := by decide
    exact ⟨hmove, rfl, rfl, hle, fun hok => absurd hok hne⟩
  | LINE_OPEN =>
    have hne : LINE_STATUS.LINE_OPEN ≠ .LINE_OK := by decide
    exact ⟨hmove, rfl, rfl, hle, fun hok => absurd hok hne⟩

theorem loopTest_sane (h : Sane s) (status : LINE_STATUS) :
    ∃ status' t, loopTest status s = .ok (status', t) ∧ Sane t ∧ t.toHead = s.toHead ∧
      t.readIdx = s.readIdx ∧ s.checkedIdx ≤ t.checkedIdx ∧
      (status' = .LINE_OK → s.checkedIdx < t.checkedIdx ∨
        s.checkState = .CHECK_STATE_CONTENT ∧ status = .LINE_OK) := by
  unfold loopTest
  by_cases hc : s.checkState = .CHECK_STATE_CONTENT ∧ status = .LINE_OK
  · rw [if_pos hc]
    exact ⟨status, s, rfl, h, rfl, rfl, Nat.le_refl _, fun _ => Or.inr hc⟩
  · rw [if_neg hc]
    obtain ⟨status', t, hline, ht, hhead, hread, hle, hlt⟩ := parseLine_sane h
    exact ⟨status', t, hline, ht, hhead, hread, hle, fun hok => Or.inl (hlt hok)⟩

/-! ### One turn -/

/-- **The length fits** where `parseContent` uses it: it is not negative beyond the line, and not so
close to `INT_MAX` that the sum overflows. -/
def LengthFits (s : HttpConn) : Prop :=
  -(s.startLine : ℤ) ≤ s.contentLength ∧ s.contentLength ≤ INT_MAX - s.checkedIdx

instance (s : HttpConn) : Decidable (LengthFits s) := inferInstanceAs (Decidable (_ ∧ _))

theorem doRequest_ok (stat : Stat) (h : Sane s) (hst : s.checkState ≠ .CHECK_STATE_REQUESTLINE) :
    ∃ code, doRequest stat s = .ok code := by
  obtain ⟨u, hu, hle⟩ := h.url hst
  obtain ⟨url, hurl, -⟩ := h.exists_at hle
  unfold doRequest
  rw [hu]
  dsimp only
  rw [hurl.cstring, ok_bind]
  cases stat (readFile url) with
  | none => exact ⟨_, rfl⟩
  | some st_mode =>
    dsimp only
    split_ifs
    · exact ⟨_, rfl⟩
    · exact ⟨_, rfl⟩
    · exact ⟨_, rfl⟩

/-- What holds after a turn. -/
structure Turned (s : HttpConn) (r : Option HTTP_CODE × LINE_STATUS × HttpConn) : Prop where
  sane : Sane r.2.2
  readIdx : r.2.2.readIdx = s.readIdx
  checkedIdx : r.2.2.checkedIdx = s.checkedIdx
  status : r.1 = none → s.checkState = .CHECK_STATE_CONTENT → r.2.1 = .LINE_OPEN

theorem turn_requestLine (stat : Stat) (h : Sane s) (hst : s.checkState = .CHECK_STATE_REQUESTLINE) :
    ∃ r, turn stat s = .ok r ∧ Turned s r := by
  obtain ⟨line, hat, hle⟩ := h.exists_at (Nat.le_trans h.start_le h.checked_le)
  obtain ⟨e, he, happly⟩ := parseRequestLine_effect s.startLine line
  have hsane : Sane (e.apply (nextLine s)).2 := by
    refine h.clear e.zeros (fun hne => ?_) ?_
    · rcases he.code (nextLine s).toHead with ⟨-, hkeep⟩ | ⟨-, -, u, hu, -, hub⟩
      · rw [hkeep] at hne
        exact absurd hst hne
      · exact ⟨u, hu, by omega⟩
    · rw [he.rest]
      exact h.length
  have hcontent : s.checkState ≠ .CHECK_STATE_CONTENT := by
    rw [hst]
    nofun
  rw [turn_of_requestLine stat hat hst happly]
  exact ⟨_, rfl, hsane, rfl, rfl, fun _ hc => absurd hc hcontent⟩

theorem turn_header (stat : Stat) (h : Sane s) (hst : s.checkState = .CHECK_STATE_HEADER) :
    ∃ r, turn stat s = .ok r ∧ Turned s r := by
  obtain ⟨line, hat, hle⟩ := h.exists_at (Nat.le_trans h.start_le h.checked_le)
  obtain ⟨e, he, happly⟩ := parseHeaders_effect s.startLine line
  have hrequest : s.checkState ≠ .CHECK_STATE_REQUESTLINE := by
    rw [hst]
    nofun
  have hcontent : s.checkState ≠ .CHECK_STATE_CONTENT := by
    rw [hst]
    nofun
  have hafter : (e.head s.toHead).checkState ≠ .CHECK_STATE_REQUESTLINE := by
    rw [he.checkState]
    split_ifs
    · nofun
    · exact hrequest
  have hsane : Sane (e.apply (nextLine s)).2 := by
    refine h.clear e.zeros (fun _ => ?_) ?_
    · rw [he.target]
      exact h.url hrequest
    · rcases he.length (nextLine s).toHead with hkeep | ⟨-, hmin⟩
      · rw [hkeep]
        exact h.length
      · exact hmin
  rw [turn_of_header stat hat hst happly]
  dsimp only
  split_ifs
  · exact ⟨_, rfl, hsane, rfl, rfl, nofun⟩
  · obtain ⟨code, hcode⟩ := doRequest_ok stat hsane hafter
    rw [hcode]
    exact ⟨_, rfl, hsane, rfl, rfl, nofun⟩
  · exact ⟨_, rfl, hsane, rfl, rfl, fun _ hc => absurd hc hcontent⟩

theorem turn_content (stat : Stat) (h : Sane s) (hst : s.checkState = .CHECK_STATE_CONTENT) :
    (LengthFits s → ∃ r, turn stat s = .ok r ∧ Turned s r) ∧
    (¬LengthFits s → ∃ f, turn stat s = .error f ∧ (f = .outOfBounds ∨ f = .overflow)) := by
  obtain ⟨line, hat, -⟩ := h.exists_at (Nat.le_trans h.start_le h.checked_le)
  have hshort := h.short
  have hstart := h.start_le
  have hchecked := h.checked_le
  have hmin := h.length
  have hrequest : s.checkState ≠ .CHECK_STATE_REQUESTLINE := by
    rw [hst]
    nofun
  rw [turn_of_content hat hst]
  constructor
  · rintro ⟨hlow, hhigh⟩
    rw [parseContent_eq (s := nextLine s) hmin hstart hshort hlow hhigh, ok_bind]
    by_cases hall : (nextLine s).contentLength + (nextLine s).checkedIdx ≤ (nextLine s).readIdx
    · rw [if_pos hall]
      have hsane := h.clear [(s.startLine + s.contentLength).toNat] h.url h.length
      obtain ⟨code, hcode⟩ := doRequest_ok stat hsane hrequest
      refine ⟨(some code, .LINE_OK, _), ?_, hsane, rfl, rfl, nofun⟩
      dsimp only
      rw [if_pos rfl]
      exact congrArg (· >>= _) hcode
    · rw [if_neg hall]
      exact ⟨_, rfl, h.clear [] h.url h.length, rfl, rfl, fun _ _ => rfl⟩
  · intro hlen
    obtain ⟨f, hf, hkind⟩ := parseContent_error (s := nextLine s) hmin hchecked hlen
    rw [hf]
    exact ⟨f, rfl, hkind⟩

/-- A turn is in bounds, unless it is one of `parseContent` with a length that does not fit. -/
theorem turn_ends (stat : Stat) (h : Sane s) :
    (s.checkState = .CHECK_STATE_CONTENT → LengthFits s) ∧
      (∃ r, turn stat s = .ok r ∧ Turned s r) ∨
    (s.checkState = .CHECK_STATE_CONTENT ∧ ¬LengthFits s) ∧
      ∃ f, turn stat s = .error f ∧ (f = .outOfBounds ∨ f = .overflow) := by
  cases hst : s.checkState with
  | CHECK_STATE_REQUESTLINE => exact Or.inl ⟨nofun, turn_requestLine stat h hst⟩
  | CHECK_STATE_HEADER => exact Or.inl ⟨nofun, turn_header stat h hst⟩
  | CHECK_STATE_CONTENT =>
    obtain ⟨hfit, hunfit⟩ := turn_content stat h hst
    by_cases hlen : LengthFits s
    · exact Or.inl ⟨fun _ => hlen, hfit hlen⟩
    · exact Or.inr ⟨⟨rfl, hlen⟩, hunfit hlen⟩

/-! ### The loop in steps -/

/-- Where a call of `processRead` is. -/
inductive Phase
  /-- there is no call -/
  | idle
  /-- before the condition of the loop -/
  | testing (status : LINE_STATUS)
  /-- before its body -/
  | turning
  deriving DecidableEq, Repr

def Phase.isTesting : Phase → Bool
  | .testing _ => true
  | _ => false

structure Process where
  conn : HttpConn
  phase : Phase

inductive Act
  /-- a `read` that returns true -/
  | read (chunk : Bytes)
  | init
  /-- `processRead` is called -/
  | processRead
  | test
  | turn
  deriving DecidableEq, Repr

def enabled (s : Process) : Act → Prop
  | .read chunk => s.phase = .idle ∧ s.conn.readIdx + chunk.length < READ_BUFFER_SIZE
  | .init => s.phase = .idle
  | .processRead => s.phase = .idle
  | .test => s.phase.isTesting = true
  | .turn => s.phase = .turning

instance (s : Process) : ∀ a, Decidable (enabled s a)
  | .read _ => inferInstanceAs (Decidable (_ ∧ _))
  | .init => inferInstanceAs (Decidable (_ = _))
  | .processRead => inferInstanceAs (Decidable (_ = _))
  | .test => inferInstanceAs (Decidable (_ = _))
  | .turn => inferInstanceAs (Decidable (_ = _))

def step (stat : Stat) (s : Process) : Act → Except Fault Process
  | .read chunk => pure { s with conn := read chunk s.conn }
  | .init => pure { s with conn := init }
  | .processRead => pure { s with phase := .testing .LINE_OK }
  | .test => do
    match s.phase with
    | .testing status =>
      let (status, t) ← loopTest status s.conn
      pure ⟨t, if status = .LINE_OK then .turning else .idle⟩
    | _ => throw .starved
  | .turn => do
    let (ret, status, t) ← turn stat s.conn
    pure ⟨t, if ret.isSome then .idle else .testing status⟩

def connMachine (stat : Stat) : Machine Process Act Fault where
  enabled := enabled
  step := step stat

instance (stat : Stat) (s : Process) (a : Act) : Decidable ((connMachine stat).enabled s a) :=
  inferInstanceAs (Decidable (enabled s a))

/-- The connection after `init`. -/
def start : Process := ⟨Parser.init, .idle⟩

/-- **The step is not a `parseContent` with a length that does not fit.** -/
def Fits (s : Process) (a : Act) : Prop :=
  a = .turn → s.conn.checkState = .CHECK_STATE_CONTENT → LengthFits s.conn

variable {u v : Process} {a : Act} {as bs : List Act}

theorem step_sane (stat : Stat) (h : Sane u.conn) (ha : enabled u a) :
    Fits u a ∧ (∃ v, step stat u a = .ok v ∧ Sane v.conn) ∨
    ¬Fits u a ∧ ∃ f, step stat u a = .error f := by
  cases a with
  | read chunk => exact Or.inl ⟨nofun, _, rfl, read_sane h ha.2⟩
  | init => exact Or.inl ⟨nofun, _, rfl, init_sane⟩
  | processRead => exact Or.inl ⟨nofun, _, rfl, h⟩
  | test =>
    obtain ⟨status, hphase⟩ : ∃ status, u.phase = .testing status := by
      have hen : u.phase.isTesting = true := ha
      cases hphase : u.phase with
      | testing status => exact ⟨status, rfl⟩
      | _ => rw [hphase] at hen; cases hen
    obtain ⟨status', t, htest, ht, -⟩ := loopTest_sane h status
    refine Or.inl ⟨nofun, ⟨t, if status' = .LINE_OK then .turning else .idle⟩, ?_, ht⟩
    unfold step
    dsimp only
    rw [hphase]
    dsimp only
    rw [htest]
    rfl
  | turn =>
    rcases turn_ends stat h with ⟨hfit, r, hr, hturned⟩ | ⟨⟨hst, hlen⟩, f, hf, -⟩
    · refine Or.inl ⟨fun _ => hfit, ⟨r.2.2, if r.1.isSome then .idle else .testing r.2.1⟩, ?_,
        hturned.sane⟩
      unfold step
      dsimp only
      rw [hr]
      rfl
    · refine Or.inr ⟨fun h => hlen (h rfl hst), f, ?_⟩
      unfold step
      dsimp only
      rw [hf]
      rfl

theorem step_ok_iff (h : Sane u.conn) (ha : enabled u a) :
    (∃ v, step stat u a = .ok v) ↔ Fits u a := by
  rcases step_sane stat h ha with ⟨hfit, v, hv, -⟩ | ⟨hunfit, f, hf⟩
  · exact iff_of_true ⟨v, hv⟩ hfit
  · refine iff_of_false ?_ hunfit
    rintro ⟨v, hv⟩
    rw [hf] at hv
    cases hv

theorem run_sane (h : Run (connMachine stat) u as v) (hu : Sane u.conn) : Sane v.conn := by
  refine h.invariant (I := fun u => Sane u.conn) (fun u a v hu ha hstep => ?_) hu
  rcases step_sane stat hu ha with ⟨-, w, hw, hsane⟩ | ⟨-, f, hf⟩
  · have hv : step stat u a = .ok v := hstep
    rw [hw] at hv
    cases hv
    exact hsane
  · have hv : step stat u a = .ok v := hstep
    rw [hf] at hv
    cases hv

/-! ### The loop -/

/-- The steps of one call of `processRead`. -/
def inside (stat : Stat) : Machine Process Act Fault :=
  restrict (connMachine stat) fun _ a => a = .test ∨ a = .turn

/-- The call gets from `u` to `v`. -/
def Reaches (stat : Stat) (u v : Process) : Prop := ∃ bs, Run (inside stat) u bs v

theorem reaches_idle (hu : u.phase = .idle) : Reaches stat u v ↔ v = u := by
  constructor
  · rintro ⟨bs, hrun⟩
    rcases bs with _ | ⟨b, bs⟩
    · cases hrun
      rfl
    · obtain ⟨⟨hb, rfl | rfl⟩, -⟩ := run_cons.mp hrun
      · have htesting : u.phase.isTesting = true := hb
        rw [hu] at htesting
        cases htesting
      · have hturning : u.phase = .turning := hb
        rw [hu] at hturning
        cases hturning
  · rintro rfl
    exact ⟨[], .nil _⟩

/-- Where only one step can be taken, the call goes on with it. -/
theorem reaches_step (ha : a = .test ∨ a = .turn) (hu : (connMachine stat).enabled u a)
    (honly : ∀ b, b = .test ∨ b = .turn → enabled u b → b = a) {w : Process}
    (hstep : step stat u a = .ok w) : Reaches stat u v ↔ v = u ∨ Reaches stat w v := by
  constructor
  · rintro ⟨bs, hrun⟩
    rcases bs with _ | ⟨b, bs⟩
    · cases hrun
      exact Or.inl rfl
    · obtain ⟨⟨hb, hkind⟩, w', hw', hrun⟩ := run_cons.mp hrun
      obtain rfl := honly b hkind hb
      have hw'' : step stat u b = .ok w' := hw'
      rw [hstep] at hw''
      cases hw''
      exact Or.inr ⟨bs, hrun⟩
  · rintro (rfl | ⟨bs, hrun⟩)
    · exact ⟨[], .nil _⟩
    · exact ⟨a :: bs, .cons ⟨hu, ha⟩ hstep hrun⟩

theorem reaches_testing {status' : LINE_STATUS} (htest : loopTest status s = .ok (status', t)) :
    Reaches stat ⟨s, .testing status⟩ v ↔ v = ⟨s, .testing status⟩ ∨
      Reaches stat ⟨t, if status' = .LINE_OK then .turning else .idle⟩ v := by
  have hen : enabled ⟨s, .testing status⟩ .test := rfl
  refine reaches_step (Or.inl rfl) hen (fun b hb hen => ?_) ?_
  · rcases hb with rfl | rfl
    · rfl
    · cases hen
  · unfold step
    dsimp only
    rw [htest]
    rfl

theorem reaches_turning {r : Option HTTP_CODE × LINE_STATUS × HttpConn}
    (hturn : turn stat s = .ok r) :
    Reaches stat ⟨s, .turning⟩ v ↔ v = ⟨s, .turning⟩ ∨
      Reaches stat ⟨r.2.2, if r.1.isSome then .idle else .testing r.2.1⟩ v := by
  have hen : enabled ⟨s, .turning⟩ .turn := rfl
  refine reaches_step (Or.inr rfl) hen (fun b hb hen => ?_) ?_
  · rcases hb with rfl | rfl
    · cases hen
    · rfl
  · unfold step
    dsimp only
    rw [hturn]
    rfl

/-- How many turns and tests there can still be. -/
def turnsLeft (status : LINE_STATUS) (s : HttpConn) : ℕ :=
  2 * (s.readIdx - s.checkedIdx) +
    if s.checkState = .CHECK_STATE_CONTENT ∧ status = .LINE_OK then 2 else 1

theorem turnsLeft_pos (status : LINE_STATUS) (s : HttpConn) : 0 < turnsLeft status s := by
  unfold turnsLeft
  split_ifs <;> omega

/-- A test and a turn bring the loop nearer to its end. -/
theorem turnsLeft_lt {r : Option HTTP_CODE × LINE_STATUS × HttpConn} (ht : Sane t)
    (hhead : t.toHead = s.toHead) (hread : t.readIdx = s.readIdx)
    (hle : s.checkedIdx ≤ t.checkedIdx)
    (hlt : s.checkedIdx < t.checkedIdx ∨
      s.checkState = .CHECK_STATE_CONTENT ∧ status = .LINE_OK)
    (hr : Turned t r) (hnone : r.1 = none) : turnsLeft r.2.1 r.2.2 < turnsLeft status s := by
  have hchecked := ht.checked_le
  unfold turnsLeft
  rw [hr.readIdx, hr.checkedIdx]
  by_cases hcontent : s.checkState = .CHECK_STATE_CONTENT ∧ status = .LINE_OK
  · have hst : t.checkState = .CHECK_STATE_CONTENT := by
      rw [show t.checkState = s.checkState from congrArg Head.checkState hhead]
      exact hcontent.1
    have hopen := hr.status hnone hst
    rw [if_pos hcontent, hopen, if_neg (fun h => nomatch h.2)]
    omega
  · have hlt' : s.checkedIdx < t.checkedIdx := hlt.resolve_right hcontent
    rw [if_neg hcontent]
    split_ifs <;> omega

/-- **The call returns** if and only if the length fits in all its turns. -/
theorem loop_ok_iff (h : Sane s) (hn : turnsLeft status s ≤ n) :
    (∃ r, processReadLoop stat n status s = .ok r) ↔
      ∀ u, Reaches stat ⟨s, .testing status⟩ u → u.phase = .turning → Fits u .turn := by
  induction n generalizing s status with
  | zero =>
    have := turnsLeft_pos status s
    omega
  | succ n ih =>
    obtain ⟨status', t, htest, ht, hhead, hread, hle, hok⟩ := loopTest_sane h status
    unfold processReadLoop
    rw [htest, ok_bind]
    simp only [reaches_testing htest, forall_eq_or_imp, reduceCtorEq, false_implies, true_and]
    by_cases hst : status' = .LINE_OK
    · simp only [if_pos hst]
      rcases turn_ends stat ht with ⟨hfit, r, hr, hturned⟩ | ⟨⟨hc, hlen⟩, f, hf, -⟩
      · simp only [reaches_turning hr, forall_eq_or_imp, hr, ok_bind]
        have hfits : Fits ⟨t, .turning⟩ .turn := fun _ => hfit
        obtain ⟨ret, status, s'⟩ := r
        cases ret with
        | some code =>
          refine iff_of_true ⟨_, rfl⟩ ⟨fun _ => hfits, fun u hu hphase => ?_⟩
          rw [reaches_idle rfl] at hu
          rw [hu] at hphase
          cases hphase
        | none =>
          have hlt := turnsLeft_lt ht hhead hread hle (hok hst) hturned rfl
          have hleft : turnsLeft status s' ≤ n := Nat.le_of_lt_succ (Nat.lt_of_lt_of_le hlt hn)
          refine (ih hturned.sane hleft).trans ⟨fun hall => ⟨fun _ => hfits, hall⟩, ?_⟩
          exact fun hall => hall.2
      · refine iff_of_false ?_ fun hall => ?_
        · rintro ⟨r, hr⟩
          rw [hf] at hr
          cases hr
        · exact hlen (hall _ ⟨[], .nil _⟩ rfl rfl hc)
    · simp only [if_neg hst]
      refine iff_of_true ⟨_, rfl⟩ fun u hu hphase => ?_
      rw [reaches_idle rfl] at hu
      rw [hu] at hphase
      cases hphase

theorem processRead_ok_iff (h : Sane s) :
    (∃ r, processRead stat s = .ok r) ↔
      ∀ u, Reaches stat ⟨s, .testing .LINE_OK⟩ u → u.phase = .turning → Fits u .turn := by
  refine loop_ok_iff h ?_
  unfold turnsLeft
  split_ifs <;> omega

/-- **The bounds of a step and of a call.**  However the bytes arrive, a step accesses `readBuf` in
bounds and does not overflow if and only if it is not a turn of `parseContent` with a length that does
not fit; and a call of `processRead` returns if and only if it comes to no such turn. -/
theorem run_ok_iff (h : Run (connMachine stat) start as u) :
    (∀ a, (connMachine stat).enabled u a →
      ((∃ v, (connMachine stat).step u a = .ok v) ↔ Fits u a)) ∧
    ((∃ r, processRead stat u.conn = .ok r) ↔
      ∀ v, Reaches stat ⟨u.conn, .testing .LINE_OK⟩ v → v.phase = .turning → Fits v .turn) :=
  have hsane := run_sane h init_sane
  ⟨fun _ ha => step_ok_iff hsane ha, processRead_ok_iff hsane⟩

end ReactorServer.Conn.Bounds
