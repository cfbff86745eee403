import ReactorServer.Conn.Heads

/-!
# The end of a body

`parseContent` takes the length from where the scanner is.  While the body is not all there, the loop
gives what there is of it to the scanner, and if it moves, the end of the body is not found any more.
So a body that comes in pieces is reported with its last piece if and only if the pieces before it
leave the scanner where it is: nothing, a `LF`, or a `CR` that no `LF` follows (`reportsLast_iff`).
-/

namespace ReactorServer.Conn.Bodies

open ReactorServer.Cpp ReactorServer.Lib.Runs
open ReactorServer.Conn.Strings ReactorServer.Conn.Parser ReactorServer.Conn.Calls
open ReactorServer.Conn.Bounds ReactorServer.Conn.Chunks ReactorServer.Conn.RequestLine
open ReactorServer.Conn.Heads

variable {stat : Stat} {s t : HttpConn} {i m : ℕ} {c n : ℤ} {status status' : LINE_STATUS}
  {l b body ahead rest chunk last : Bytes} {ls : List Bytes} {chunks : List Bytes} {u : Process}

/-! ### Reports -/

/-- The call comes to a turn in which `parseContent` finds the body complete. -/
def Reports (stat : Stat) (u : Process) : Prop :=
  ∃ v, Reaches stat u v ∧ v.phase = .turning ∧ v.conn.checkState = .CHECK_STATE_CONTENT ∧
    ∃ t, parseContent v.conn.startLine (nextLine v.conn) = .ok (.GET_REQUEST, t)

/-- `processRead` is called. -/
def called (s : HttpConn) : Process := ⟨s, .testing .LINE_OK⟩

/-- **The end of the body is reported with the last chunk**, and with no other. -/
structure ReportsLast (stat : Stat) (chunks : List Bytes) (last : Bytes) : Prop where
  last : ∃ s, feed stat chunks init = .ok (.NO_REQUEST, s) ∧ Reports stat (called (read last s))
  before : ∀ pre chunk post, chunks = pre ++ chunk :: post →
    ∀ s, feed stat pre init = .ok (.NO_REQUEST, s) → ¬Reports stat (called (read chunk s))

theorem not_reports_idle (h : u.phase = .idle) : ¬Reports stat u := by
  rintro ⟨v, hv, hphase, -⟩
  rw [reaches_idle h] at hv
  rw [hv, h] at hphase
  cases hphase

theorem reports_testing (htest : loopTest status s = .ok (status', t)) :
    Reports stat ⟨s, .testing status⟩ ↔
      Reports stat ⟨t, if status' = .LINE_OK then .turning else .idle⟩ := by
  constructor
  · rintro ⟨v, hv, hphase, hreport⟩
    rcases (reaches_testing htest).mp hv with rfl | hv
    · cases hphase
    · exact ⟨v, hv, hphase, hreport⟩
  · rintro ⟨v, hv, hreport⟩
    exact ⟨v, (reaches_testing htest).mpr (Or.inr hv), hreport⟩

theorem reports_turning {r : Option HTTP_CODE × LINE_STATUS × HttpConn} (hturn : turn stat s = .ok r)
    (hno : s.checkState = .CHECK_STATE_CONTENT →
      ∀ t, parseContent s.startLine (nextLine s) ≠ .ok (.GET_REQUEST, t)) :
    Reports stat ⟨s, .turning⟩ ↔
      Reports stat ⟨r.2.2, if r.1.isSome then .idle else .testing r.2.1⟩ := by
  constructor
  · rintro ⟨v, hv, hphase, hst, t, ht⟩
    rcases (reaches_turning hturn).mp hv with rfl | hv
    · exact absurd ht (hno hst t)
    · exact ⟨v, hv, hphase, hst, t, ht⟩
  · rintro ⟨v, hv, hreport⟩
    exact ⟨v, (reaches_turning hturn).mpr (Or.inr hv), hreport⟩

/-- A line is found and parsed: the call goes on as one that begins behind it. -/
theorem reports_line {v : HttpConn} (hs : s.checkState ≠ .CHECK_STATE_CONTENT)
    (hline : parseLine s = .ok (.LINE_OK, v)) (hv : v.checkState ≠ .CHECK_STATE_CONTENT)
    (hturn : turn stat v = .ok (none, .LINE_OK, t)) :
    Reports stat ⟨s, .testing status⟩ ↔ Reports stat (called t) := by
  rw [reports_testing ((loopTest_eq hs).trans hline)]
  exact reports_turning hturn fun hst => absurd hst hv

/-- No line is found: the call is over. -/
theorem not_reports_stop (hs : s.checkState ≠ .CHECK_STATE_CONTENT)
    (hline : parseLine s = .ok (status', t)) (hne : status' ≠ .LINE_OK) :
    ¬Reports stat ⟨s, .testing status⟩ := by
  rw [reports_testing ((loopTest_eq hs).trans hline), if_neg hne]
  exact not_reports_idle rfl

/-! ### The scanner in the body -/

/-- The scanner does not move in these bytes. -/
def Stays (b : Bytes) : Prop :=
  b = [] ∨ b[0]? = some LF ∨ b[0]? = some CR ∧ b[1]? ≠ some LF

instance (b : Bytes) : Decidable (Stays b) := inferInstanceAs (Decidable (_ ∨ _ ∨ _))

/-- Where it has moved, more bytes do not bring it back. -/
theorem stays_of_append (h : Stays (b ++ chunk)) : Stays b := by
  rcases b with _ | ⟨a, _ | ⟨a', b⟩⟩
  · exact Or.inl rfl
  · rcases h with h | h | ⟨h, -⟩
    · cases h
    · exact Or.inr (Or.inl h)
    · exact Or.inr (Or.inr ⟨h, nofun⟩)
  · rcases h with h | h | h
    · cases h
    · exact Or.inr (Or.inl h)
    · exact Or.inr (Or.inr h)

theorem byte_of_atLine (h : AtLine b i s) {j : ℕ} (hj : i + j < s.readIdx) :
    b[j]? = some (s.readBuf (i + j)) := by
  have hlen := h.readIdx
  rw [h.start] at hlen
  have hbyte := h.fresh j (by omega)
  rw [h.start] at hbyte
  rw [List.getElem?_eq_getElem (by omega), hbyte]

theorem scanned_atLine (h : AtLine b i s) :
    Scanned s.readBuf (s.readIdx - i) i (found s).1 (found s).2 := by
  rw [← h.checked]
  exact scanLine_scanned _ _ _

theorem first_byte (h : AtLine b i s) {a : UInt8} (ha : b[0]? = some a) :
    i < s.readIdx ∧ s.readBuf i = a := by
  obtain ⟨hj, -⟩ := List.getElem?_eq_some_iff.mp ha
  have hlen := h.readIdx
  rw [h.start] at hlen
  have hbyte := byte_of_atLine h (show i + 0 < s.readIdx from by omega)
  rw [ha] at hbyte
  exact ⟨by omega, (Option.some.inj hbyte).symm⟩

theorem stops_at_end (h : AtLine b i s) {a : UInt8} (ha : b[0]? = some a) (hend : a = CR ∨ a = LF) :
    (found s).2 = i := by
  have hscan := scanned_atLine h
  obtain ⟨hlt, hbyte⟩ := first_byte h ha
  have hle := hscan.le
  by_contra hne
  obtain ⟨hcr, hlf⟩ := hscan.passed i (Nat.le_refl i) (by omega)
  rcases hend with rfl | rfl
  · exact hcr hbyte
  · exact hlf hbyte

theorem found_stays (h : AtLine b i s) (hb : Stays b) :
    (found s).1 ≠ .LINE_OK ∧ (found s).2 = i := by
  have hscan := scanned_atLine h
  have hlen := h.readIdx
  have hle := hscan.le
  have hend := hscan.le_end
  rw [h.start] at hlen
  rcases hb with rfl | hlf | ⟨hcr, hnolf⟩
  · rw [List.length_nil] at hlen
    refine ⟨fun hok => ?_, by omega⟩
    have := (hscan.ok hok).1
    omega
  · have hstop := stops_at_end h hlf (Or.inr rfl)
    refine ⟨fun hok => ?_, hstop⟩
    have hcr := (hscan.ok hok).2.1
    rw [hstop, (first_byte h hlf).2] at hcr
    exact absurd hcr (by decide)
  · have hstop := stops_at_end h hcr (Or.inl rfl)
    refine ⟨fun hok => hnolf ?_, hstop⟩
    obtain ⟨hk, -, hlf⟩ := hscan.ok hok
    rw [hstop] at hk hlf
    rw [byte_of_atLine h (by omega), hlf]

theorem found_moves (h : AtLine b i s) (hmoves : ¬Stays b) :
    i < (stopAt s (found s)).checkedIdx := by
  have hscan := scanned_atLine h
  have hlen := h.readIdx
  have hle := hscan.le
  have hpos := List.length_pos_iff.mpr fun hnil : b = [] => hmoves (Or.inl hnil)
  rw [h.start] at hlen
  have hbyte : ∀ a, s.readBuf i = a → b[0]? = some a := fun a ha => by
    rw [byte_of_atLine h (by omega)]
    exact congrArg some ha
  have hnotlf : s.readBuf i ≠ LF := fun hlf => hmoves (Or.inr (Or.inl (hbyte LF hlf)))
  have hcrlf : s.readBuf i = CR → b[1]? = some LF := fun hcr => by
    by_contra hnolf
    exact hmoves (Or.inr (Or.inr ⟨hbyte CR hcr, hnolf⟩))
  cases hstatus : found s with
  | mk status k =>
    rw [hstatus] at hscan hle
    dsimp only at hscan hle
    cases status with
    | LINE_OK =>
      show i < k + 2
      omega
    | LINE_BAD =>
      show i < k
      obtain ⟨hk, hbad⟩ := hscan.bad rfl
      by_contra hno
      obtain rfl : k = i := by omega
      rcases hbad with ⟨hcr, hk', hnolf⟩ | hlf
      · have hlf := hcrlf hcr
        rw [byte_of_atLine h (by omega)] at hlf
        exact hnolf (Option.some.inj hlf)
      · exact hnotlf hlf
    | LINE_OPEN =>
      show i < k
      by_contra hno
      obtain rfl : k = i := by omega
      rcases hscan.opn rfl with hk | ⟨hk, hcr⟩
      · omega
      · obtain ⟨hj, -⟩ := List.getElem?_eq_some_iff.mp (hcrlf hcr)
        omega

/-! ### Calls in the body -/

theorem parseContent_ne (h : turn stat s = .ok (none, status, t))
    (hst : s.checkState = .CHECK_STATE_CONTENT) (v : HttpConn) :
    parseContent s.startLine (nextLine s) ≠ .ok (.GET_REQUEST, v) := by
  intro hget
  unfold turn at h
  obtain ⟨text, -, h⟩ := bind_eq_ok.mp h
  rw [show (nextLine s).checkState = _ from hst] at h
  dsimp only at h
  rw [hget, ok_bind] at h
  dsimp only at h
  rw [if_pos rfl] at h
  obtain ⟨code, -, h⟩ := bind_eq_ok.mp h
  cases h

theorem stopAt_found (h : Sane s) : Sane (stopAt s (found s)) ∧
    (stopAt s (found s)).toHead = s.toHead ∧ (stopAt s (found s)).readIdx = s.readIdx ∧
    s.checkedIdx ≤ (stopAt s (found s)).checkedIdx ∧
    ((found s).1 = .LINE_OK → s.checkedIdx < (stopAt s (found s)).checkedIdx) := by
  obtain ⟨status, t, hline, ht⟩ := parseLine_sane h
  rw [parseLine_found h] at hline
  cases hline
  exact ht

/-- While the body is not all there the scanner goes on, and nothing is reported.  Induction on the
turns. -/
theorem outstanding_loop (stat : Stat) (h : Outstanding s)
    (hfit : s.contentLength + READ_BUFFER_SIZE ≤ INT_MAX)
    (hm : 2 * (s.readIdx - s.checkedIdx) + 1 ≤ m) :
    ∃ t, processReadLoop stat m .LINE_OPEN s = .ok (.NO_REQUEST, t) ∧
      ¬Reports stat ⟨s, .testing .LINE_OPEN⟩ ∧ Sane t ∧ t.toHead = s.toHead ∧
      t.readIdx = s.readIdx ∧ (stopAt s (found s)).checkedIdx ≤ t.checkedIdx ∧
      ((found s).1 ≠ .LINE_OK → t = stopAt s (found s)) := by
  induction m generalizing s with
  | zero => omega
  | succ m ih =>
    have hline := parseLine_found h.toSane
    have htest : loopTest .LINE_OPEN s = .ok ((found s).1, stopAt s (found s)) := by
      unfold loopTest
      rw [if_neg (fun hc => nomatch hc.2), hline]
    obtain ⟨hsane, hhead, hread, hle, hlt⟩ := stopAt_found h.toSane
    rw [reports_testing htest]
    unfold processReadLoop
    rw [htest, ok_bind]
    dsimp only
    by_cases hok : (found s).1 = .LINE_OK
    · have hnext := h.mono hsane hhead hread hle
      have hchecked := hsane.checked_le
      have hshort := hsane.short
      have hlength : (stopAt s (found s)).contentLength = s.contentLength :=
        congrArg Head.contentLength hhead
      have hmoved := hlt hok
      rcases hnext.turn stat with ⟨hturn, houtstanding⟩ | ⟨hover, -⟩
      · have hm' : 2 * ((nextLine (stopAt s (found s))).readIdx -
            (nextLine (stopAt s (found s))).checkedIdx) + 1 ≤ m := by
          show 2 * ((stopAt s (found s)).readIdx - (stopAt s (found s)).checkedIdx) + 1 ≤ m
          omega
        have hfit' : (nextLine (stopAt s (found s))).contentLength + READ_BUFFER_SIZE ≤ INT_MAX := by
          show (stopAt s (found s)).contentLength + _ ≤ _
          omega
        obtain ⟨t, hloop, hno, ht, hthead, htread, htle, -⟩ := ih houtstanding hfit' hm'
        have hgoes := (stopAt_found houtstanding.toSane).2.2.2.1
        rw [if_pos hok, if_pos hok, hturn, ok_bind,
          reports_turning hturn fun _ => parseContent_ne hturn hnext.state]
        refine ⟨t, hloop, hno, ht, hthead.trans hhead, htread.trans hread,
          Nat.le_trans hgoes htle, fun hne => absurd hok hne⟩
      · omega
    · rw [if_neg hok, if_neg hok]
      exact ⟨_, rfl, not_reports_idle rfl, hsane, hhead, hread, Nat.le_refl _, fun _ => rfl⟩

/-- The connection has received `b` of a body of the length `n` that begins at `i`, and the scanner
has not moved, or has moved because of what is in `b`. -/
structure InBody (i : ℕ) (n : ℤ) (b : Bytes) (s : HttpConn) : Prop extends Sane s where
  state : s.checkState = .CHECK_STATE_CONTENT
  bodyLength : s.contentLength = n
  readIdx : s.readIdx = i + b.length
  place : AtLine b i s ∨ ¬Stays b ∧ i < s.checkedIdx

theorem InBody.le (h : InBody i n b s) : i ≤ s.checkedIdx := by
  rcases h.place with hline | ⟨-, hlt⟩
  · exact Nat.le_of_eq hline.checked.symm
  · exact Nat.le_of_lt hlt

theorem InBody.read (h : InBody i n b s) (hq : s.readIdx + chunk.length < READ_BUFFER_SIZE) :
    InBody i n (b ++ chunk) (read chunk s) := by
  refine ⟨read_sane h.toSane hq, h.state, h.bodyLength, ?_, ?_⟩
  · show s.readIdx + chunk.length = _
    rw [h.readIdx, List.length_append, Nat.add_assoc]
  · rcases h.place with hline | ⟨hmoves, hlt⟩
    · exact Or.inl ⟨read_received hline.toReceived hq, hline.start, hline.checked⟩
    · exact Or.inr ⟨fun hstays => hmoves (stays_of_append hstays), hlt⟩

theorem called_body (stat : Stat) (hst : s.checkState = .CHECK_STATE_CONTENT) :
    Reports stat (called s) ↔ Reports stat ⟨s, .turning⟩ := by
  have htest : loopTest .LINE_OK s = .ok (.LINE_OK, s) := by
    unfold loopTest
    rw [if_pos ⟨hst, rfl⟩]
    rfl
  exact reports_testing htest

theorem nextLine_atLine (h : AtLine b i s) (hs : Sane (nextLine s)) : AtLine b i (nextLine s) := by
  have hread := h.readIdx
  have hsame : s.checkedIdx = s.startLine := h.checked.trans h.start.symm
  refine ⟨⟨hs, ?_, fun j hj => ?_, fun j hj hlt => ?_⟩, h.checked, h.checked⟩
  · show s.readIdx = s.checkedIdx + b.length
    omega
  · show s.readBuf (s.checkedIdx + j) = _
    rw [hsame]
    exact h.fresh j hj
  · have hlt' : s.checkedIdx + j < s.checkedIdx := hlt
    omega

/-- **While the body is not all there**, a call does not report, and leaves the scanner where it was
if and only if the bytes do. -/
theorem body_call (stat : Stat) (h : InBody i n b s) (hb : (b.length : ℤ) < n)
    (hfit : n + READ_BUFFER_SIZE ≤ INT_MAX) (hm : 2 * (s.readIdx - s.checkedIdx) + 2 ≤ m) :
    ∃ t, processReadLoop stat m .LINE_OK s = .ok (.NO_REQUEST, t) ∧ ¬Reports stat (called s) ∧
      InBody i n b t ∧ (t.checkedIdx = i ↔ Stays b) := by
  obtain ⟨m, rfl⟩ : ∃ k, m = k + 1 := ⟨m - 1, by omega⟩
  have hread := h.readIdx
  have hle := h.le
  have hlength := h.bodyLength
  have hshort := h.short
  have hchecked := h.checked_le
  have hmore : s.readIdx < s.contentLength + s.checkedIdx := by omega
  have houtstanding : Outstanding s := ⟨h.toSane, h.state, hmore⟩
  rcases houtstanding.turn stat with ⟨hturn, hnext⟩ | ⟨hover, -⟩
  · obtain ⟨t, hloop, hno, ht, hthead, htread, htle, hstop⟩ :=
      outstanding_loop stat hnext (m := m) (by rw [← hlength] at hfit; exact hfit)
        (by show 2 * (s.readIdx - s.checkedIdx) + 1 ≤ m; omega)
    have hgoes := (stopAt_found hnext.toSane).2.2.2.1
    have hstate : t.checkState = s.checkState := congrArg Head.checkState hthead
    have htlength : t.contentLength = s.contentLength := congrArg Head.contentLength hthead
    have hmoved : i < s.checkedIdx → i < t.checkedIdx := fun hlt =>
      Nat.lt_of_lt_of_le (Nat.lt_of_lt_of_le hlt hgoes) htle
    have hplace : (Stays b ∧ AtLine b i t) ∨ ¬Stays b ∧ i < t.checkedIdx := by
      rcases h.place with hline | ⟨hmoves, hlt⟩
      · have hline' := nextLine_atLine hline hnext.toSane
        by_cases hb : Stays b
        · obtain ⟨hne, hat⟩ := found_stays hline' hb
          have hreceived := stop_received hline'.toReceived hne
          rw [hstop hne]
          rw [stopAt_of_ne hne] at hreceived ⊢
          exact Or.inl ⟨hb, hreceived, hline'.start, hat⟩
        · exact Or.inr ⟨hb, Nat.lt_of_lt_of_le (found_moves hline' hb) htle⟩
      · exact Or.inr ⟨hmoves, hmoved hlt⟩
    refine ⟨t, ?_, ?_, ⟨ht, hstate.trans h.state, htlength.trans hlength, htread.trans hread, ?_⟩, ?_⟩
    · conv_lhs => unfold processReadLoop
      unfold loopTest
      rw [if_pos ⟨h.state, rfl⟩, pure_eq_ok, ok_bind]
      dsimp only
      rw [if_pos rfl, hturn]
      exact hloop
    · rw [called_body stat h.state, reports_turning hturn fun _ => parseContent_ne hturn h.state]
      exact hno
    · exact hplace.imp_left And.right
    · rcases hplace with ⟨hb, hline⟩ | ⟨hno, hlt⟩
      · exact iff_of_true hline.checked hb
      · exact iff_of_false (Nat.ne_of_gt hlt) hno
  · omega

/-- **When it is all there**, the call reports if and only if the scanner has not moved. -/
theorem body_reports (stat : Stat) (h : InBody i n b s) (hb : (b.length : ℤ) = n)
    (hfit : n + READ_BUFFER_SIZE ≤ INT_MAX) : Reports stat (called s) ↔ s.checkedIdx = i := by
  have hread := h.readIdx
  have hle := h.le
  have hlength := h.bodyLength
  have hshort := h.short
  have hstart := h.start_le
  have hchecked := h.checked_le
  constructor
  · intro hreports
    by_contra hne
    -- the body is outstanding
    have hmore : s.readIdx < s.contentLength + s.checkedIdx := by omega
    have houtstanding : Outstanding s := ⟨h.toSane, h.state, hmore⟩
    rcases houtstanding.turn stat with ⟨hturn, hnext⟩ | ⟨hover, -⟩
    · obtain ⟨t, -, hno, -⟩ := outstanding_loop stat hnext
        (by rw [← hlength] at hfit; exact hfit) (Nat.le_refl _)
      rw [called_body stat h.state,
        reports_turning hturn fun _ => parseContent_ne hturn h.state] at hreports
      exact hno hreports
    · omega
  · intro hat
    rw [called_body stat h.state]
    have hall : (nextLine s).contentLength + (nextLine s).checkedIdx ≤ (nextLine s).readIdx := by
      show s.contentLength + s.checkedIdx ≤ s.readIdx
      omega
    have hlow : -(s.startLine : ℤ) ≤ (nextLine s).contentLength := by
      show -(s.startLine : ℤ) ≤ s.contentLength
      omega
    have hhigh : (nextLine s).contentLength ≤ INT_MAX - (nextLine s).checkedIdx := by
      show s.contentLength ≤ INT_MAX - s.checkedIdx
      omega
    have hget := parseContent_eq (s := nextLine s) h.toSane.length hstart hshort hlow hhigh
    rw [if_pos hall] at hget
    exact ⟨⟨s, .turning⟩, ⟨[], .nil _⟩, rfl, h.state, _, hget⟩

/-! ### Calls in the head -/

theorem split_line {more : Bytes} (h : ahead ++ rest = l ++ CR :: LF :: more) :
    (∃ ahead', ahead = l ++ CR :: LF :: ahead' ∧ ahead' ++ rest = more) ∨
      ∃ rest', rest' ≠ [] ∧ ahead ++ rest' = l ++ [CR, LF] := by
  have h' : ahead ++ rest = (l ++ [CR, LF]) ++ more := by
    rw [h]
    simp
  rcases List.append_eq_append_iff.mp h' with ⟨rest', hline, -⟩ | ⟨ahead', hahead, hmore⟩
  · by_cases hrest : rest' = []
    · left
      rw [hrest, List.append_nil] at hline
      refine ⟨[], ?_, ?_⟩
      · rw [← hline]
      · rw [← hline] at h'
        exact List.append_cancel_left h'
    · exact Or.inr ⟨rest', hrest, hline.symm⟩
  · refine Or.inl ⟨ahead', ?_, hmore.symm⟩
    rw [hahead]
    simp

/-- The connection is in the headers `ls` of a request with `body`, which begins at `i`; `rest` has not
been received. -/
structure InHeaders (i : ℕ) (n : ℤ) (body ahead rest : Bytes) (ls : List Bytes) (s : HttpConn) :
    Prop extends Received ahead s where
  state : s.checkState = .CHECK_STATE_HEADER
  headers : Headers s.contentLength ls n
  split : ahead ++ rest = ended ls ++ body
  ends : s.startLine + (ended ls).length = i

/-- What is left of the headers after a call. -/
structure HeadersLeft (i : ℕ) (n : ℤ) (body rest : Bytes) (s : HttpConn) : Prop where
  inHeaders : ∃ ahead ls, InHeaders i n body ahead rest ls s
  behind : body.length ≤ rest.length

theorem headers_stop (stat : Stat) (h : InHeaders i n body ahead rest (l :: ls) s) (hl : IsLine l)
    {rest' : Bytes} (hrest' : rest' ≠ []) (hopen : ahead ++ rest' = l ++ [CR, LF]) (m : ℕ)
    (status : LINE_STATUS) :
    ∃ t, processReadLoop stat (m + 1) status s = .ok (.NO_REQUEST, t) ∧
      ¬Reports stat ⟨s, .testing status⟩ ∧ HeadersLeft i n body rest t := by
  have hfound := found_open h.toReceived hopen hrest' hl
  have hne : (found s).1 ≠ .LINE_OK := by
    rw [hfound]
    decide
  have hline := parseLine_found h.toSane
  have hreceived := stop_received h.toReceived hne
  refine ⟨_, loop_stop (state_ne_content h.state) hline hne m, not_reports_stop (state_ne_content h.state) hline hne,
    ⟨ahead, l :: ls, ?_⟩, ?_⟩
  · rw [stopAt_of_ne hne] at hreceived ⊢
    exact ⟨hreceived, h.state, h.headers, h.split, h.ends⟩
  · have hsize := congrArg List.length hopen
    have hsplit := congrArg List.length h.split
    have hended := ended_length l ls
    simp only [List.length_append, List.length_cons, List.length_nil] at hsize hsplit
    omega

/-- **The loop goes through the headers** that have been received, and stops there or comes to the
body.  Induction on the headers. -/
theorem headers_call (stat : Stat) (hn : n ≠ 0) (hls : Headers c ls n)
    (h : InHeaders i n body ahead rest ls s) (hc : s.contentLength = c)
    (hm : 2 * (s.readIdx - s.checkedIdx) + 2 ≤ m) (status : LINE_STATUS) :
    (∃ t, processReadLoop stat m status s = .ok (.NO_REQUEST, t) ∧
      ¬Reports stat ⟨s, .testing status⟩ ∧ HeadersLeft i n body rest t) ∨
    ∃ t m' b, processReadLoop stat m status s = processReadLoop stat m' .LINE_OK t ∧
      (Reports stat ⟨s, .testing status⟩ ↔ Reports stat (called t)) ∧
      2 * (t.readIdx - t.checkedIdx) + 2 ≤ m' ∧ AtLine b i t ∧
      t.checkState = .CHECK_STATE_CONTENT ∧ t.contentLength = n ∧ b ++ rest = body := by
  induction hls generalizing s ahead m status with
  | @last c l hl hempty =>
    obtain ⟨m, rfl⟩ : ∃ k, m = k + 1 := ⟨m - 1, by omega⟩
    have hsplit := h.split
    rw [ended_append] at hsplit
    rcases split_line hsplit with ⟨b, hahead, hb⟩ | ⟨rest', hrest', hopen⟩
    · right
      have hparse := parseLine_line h.toReceived hahead hl
      obtain ⟨t, hturn, hnext, hstate, hlength, -⟩ :=
        turn_last_line stat h.toReceived hahead hl h.state hempty (by rwa [hc])
      have hleft := hnext.left h.toReceived hahead
      have hend : s.startLine + l.length + 2 = i := by
        have hends := h.ends
        rw [ended_length_one] at hends
        omega
      rw [hend] at hnext
      exact ⟨t, m, b, loop_next (state_ne_content h.state) hparse hturn m,
        reports_line (state_ne_content h.state) hparse (state_ne_content h.state) hturn, by omega, hnext, hstate,
        hlength.trans hc, hb⟩
    · exact Or.inl (headers_stop stat h hl hrest' hopen m status)
  | @header c n l ls hl hne hls ih =>
    obtain ⟨m, rfl⟩ : ∃ k, m = k + 1 := ⟨m - 1, by omega⟩
    have hsplit := h.split
    rw [ended_append] at hsplit
    rcases split_line hsplit with ⟨ahead', hahead, hrest⟩ | ⟨rest', hrest', hopen⟩
    · have hparse := parseLine_line h.toReceived hahead hl
      obtain ⟨t, hturn, hnext, hstate, hlength, -⟩ :=
        turn_header_line stat h.toReceived hahead hl h.state hne
      have hleft := hnext.left h.toReceived hahead
      rw [hc] at hlength
      have hends : t.startLine + (ended ls).length = i := by
        rw [hnext.start, ← h.ends, ended_length]
        omega
      have ht : InHeaders i n body ahead' rest ls t :=
        ⟨hnext.toReceived, hstate, hlength ▸ hls, hrest, hends⟩
      rw [loop_next (state_ne_content h.state) hparse hturn m, reports_line (state_ne_content h.state) hparse (state_ne_content h.state) hturn]
      exact ih hn ht hlength (by omega) .LINE_OK
    · exact Or.inl (headers_stop stat h hl hrest' hopen m status)

/-! ### Calls -/

/-- A request with a body, of which `l` is the first line; the buffer holds all of it. -/
structure Upload (l : Bytes) (ls : List Bytes) (n : ℤ) (body : Bytes) : Prop where
  line : IsLine l
  headers : Headers 0 ls n
  pos : 0 < n
  length : (body.length : ℤ) = n
  short : (ended (l :: ls) ++ body).length < READ_BUFFER_SIZE

/-- How far the connection has come with the request; `rest` has not been received. -/
inductive Phase (l : Bytes) (ls : List Bytes) (n : ℤ) (body rest : Bytes) (s : HttpConn) : Prop
  /-- in the request line -/
  | request {ahead : Bytes} (h : Received ahead s) (hst : s.checkState = .CHECK_STATE_REQUESTLINE)
      (hc : s.contentLength = 0) (hstart : s.startLine = 0)
      (hsplit : ahead ++ rest = ended (l :: ls) ++ body) (hbehind : body.length ≤ rest.length)
  /-- in the headers -/
  | headers (hp : ∃ u, Parses (lineText l) u)
      (h : HeadersLeft (ended (l :: ls)).length n body rest s)
  /-- in the body -/
  | body {b : Bytes} (hp : ∃ u, Parses (lineText l) u) (hb : b ++ rest = body)
      (h : InBody (ended (l :: ls)).length n b s)
      (hplace : s.checkedIdx = (ended (l :: ls)).length ↔ Stays b)

/-- What a call does: it stops in the head, it refuses the request line, or it comes to the body. -/
inductive Comes (stat : Stat) (l : Bytes) (ls : List Bytes) (n : ℤ) (body chunk rest : Bytes)
    (s : HttpConn) : Prop
  | stops {t : HttpConn} (hcall : processRead stat s = .ok (.NO_REQUEST, t))
      (hno : ¬Reports stat (called s)) (ht : Phase l ls n body rest t)
      (hbehind : body.length ≤ rest.length)
  | refuses {t : HttpConn} (hcall : processRead stat s = .ok (.BAD_REQUEST, t))
      (hno : ¬Reports stat (called s)) (hp : ¬∃ u, Parses (lineText l) u)
  | comes {t : HttpConn} {m : ℕ} {b : Bytes} (hp : ∃ u, Parses (lineText l) u)
      (hcall : processRead stat s = processReadLoop stat m .LINE_OK t)
      (hreports : Reports stat (called s) ↔ Reports stat (called t))
      (hm : 2 * (t.readIdx - t.checkedIdx) + 2 ≤ m)
      (ht : InBody (ended (l :: ls)).length n b t) (hb : b ++ rest = body)
      (hplace : t.checkedIdx = (ended (l :: ls)).length ↔
        Stays (body.take (body.length - (chunk ++ rest).length)))

theorem comes_headers (stat : Stat) (hw : Upload l ls n body) {hs : List Bytes}
    (hp : ∃ u, Parses (lineText l) u)
    (h : InHeaders (ended (l :: ls)).length n body ahead rest hs t)
    (hbehind : body.length ≤ (chunk ++ rest).length)
    (hcall : processRead stat s = processReadLoop stat m status t)
    (hreports : Reports stat (called s) ↔ Reports stat ⟨t, .testing status⟩)
    (hm : 2 * (t.readIdx - t.checkedIdx) + 2 ≤ m) : Comes stat l ls n body chunk rest s := by
  have hstays : Stays (body.take (body.length - (chunk ++ rest).length)) := by
    rw [Nat.sub_eq_zero_of_le hbehind]
    exact Or.inl rfl
  rcases headers_call stat (Int.ne_of_gt hw.pos) h.headers h rfl hm status with
    ⟨v, hv, hno, hleft⟩ | ⟨v, m', b, hv, hiff, hm', hline, hstate, hlength, hb⟩
  · exact .stops (hcall.trans hv) (fun hyes => hno (hreports.mp hyes)) (.headers hp hleft) hleft.behind
  · refine .comes hp (hcall.trans hv) (hreports.trans hiff) hm' ?_ hb
      (iff_of_true hline.checked hstays)
    refine ⟨hline.toSane, hstate, hlength, ?_, Or.inl hline⟩
    rw [← hline.start]
    exact hline.toReceived.readIdx

theorem comes_open (stat : Stat) (hw : Upload l ls n body) (h : Received ahead s)
    (hst : s.checkState = .CHECK_STATE_REQUESTLINE) (hc : s.contentLength = 0)
    (hstart : s.startLine = 0) (hsplit : ahead ++ rest = ended (l :: ls) ++ body) {rest' : Bytes}
    (hrest' : rest' ≠ []) (hopen : ahead ++ rest' = l ++ [CR, LF]) :
    Comes stat l ls n body chunk rest s := by
  have hcontent : s.checkState ≠ .CHECK_STATE_CONTENT := by
    rw [hst]
    decide
  have hne : (found s).1 ≠ .LINE_OK := by
    rw [found_open h hopen hrest' hw.line]
    decide
  have hline := parseLine_found h.toSane
  have hreceived := stop_received h hne
  have hended := ended_length l ls
  have hlen := congrArg List.length hopen
  have hsize := congrArg List.length hsplit
  simp only [List.length_append, List.length_cons, List.length_nil] at hlen hsize
  have hbehind : body.length ≤ rest.length := by omega
  refine .stops (loop_stop hcontent hline hne _) (not_reports_stop hcontent hline hne) ?_ hbehind
  rw [stopAt_of_ne hne] at hreceived ⊢
  exact .request hreceived hst hc hstart hsplit hbehind

theorem comes_line (stat : Stat) (hw : Upload l ls n body) (h : Received ahead s)
    (hst : s.checkState = .CHECK_STATE_REQUESTLINE) (hc : s.contentLength = 0)
    (hstart : s.startLine = 0) {ahead' : Bytes} (hahead : ahead = l ++ CR :: LF :: ahead')
    (hrest : ahead' ++ rest = ended ls ++ body) (hbehind : body.length ≤ (chunk ++ rest).length) :
    Comes stat l ls n body chunk rest s := by
  have hcontent : s.checkState ≠ .CHECK_STATE_CONTENT := by
    rw [hst]
    decide
  have hparse := parseLine_line h hahead hw.line
  by_cases hp : ∃ u, Parses (lineText l) u
  · obtain ⟨u, hu⟩ := hp
    obtain ⟨q, hq⟩ := exists_parsesAt hu
    obtain ⟨t, hturn, hnext, hheader, hlength, -⟩ := turn_accepted stat h hahead hw.line hst hq
    have hleft := hnext.left h hahead
    have hlength' : t.contentLength = 0 := hlength.trans hc
    have hends : t.startLine + (ended ls).length = (ended (l :: ls)).length := by
      rw [hnext.start, hstart, ended_length]
      omega
    exact comes_headers stat hw ⟨u, hu⟩
      ⟨hnext.toReceived, hheader, hlength' ▸ hw.headers, hrest, hends⟩ hbehind
      (loop_next hcontent hparse hturn _) (reports_line hcontent hparse hcontent hturn) (by omega)
  · obtain ⟨t, hturn⟩ := turn_refused stat h hahead hw.line hst fun u hu => hp ⟨u, hu⟩
    refine .refuses (loop_code hcontent hparse hturn _) ?_ hp
    unfold called
    rw [reports_testing ((loopTest_eq hcontent).trans hparse), if_pos rfl,
      reports_turning hturn fun hst => absurd hst hcontent]
    exact not_reports_idle rfl

/-- **A call**, with a chunk of the request. -/
theorem phase_comes (stat : Stat) (hw : Upload l ls n body)
    (h : Phase l ls n body (chunk ++ rest) s) :
    Comes stat l ls n body chunk rest (read chunk s) := by
  have hshort := hw.short
  rw [List.length_append] at hshort
  cases h with
  | @request ahead h hst hc hstart hsplit hbehind =>
    have hsize := congrArg List.length hsplit
    simp only [List.length_append] at hsize
    have hq : s.readIdx + chunk.length < READ_BUFFER_SIZE := by
      have := h.readIdx
      omega
    have hread := read_received h hq
    rw [← List.append_assoc] at hsplit
    have hline := hsplit
    rw [ended_append] at hline
    rcases split_line hline with ⟨ahead', hahead, hrest⟩ | ⟨rest', hrest', hopen⟩
    · exact comes_line stat hw hread hst hc hstart hahead hrest hbehind
    · exact comes_open stat hw hread hst hc hstart hsplit hrest' hopen
  | headers hp h =>
    obtain ⟨⟨ahead, hs, h⟩, hbehind⟩ := h
    have hsize := congrArg List.length h.split
    have hends := h.ends
    simp only [List.length_append] at hsize
    have hq : s.readIdx + chunk.length < READ_BUFFER_SIZE := by
      have := h.toReceived.readIdx
      omega
    have hsplit := h.split
    rw [← List.append_assoc] at hsplit
    exact comes_headers stat hw hp
      ⟨read_received h.toReceived hq, h.state, h.headers, hsplit, h.ends⟩ hbehind rfl Iff.rfl
      (Nat.le_refl _)
  | @body b hp hb h hplace =>
    have hsize := congrArg List.length hb
    simp only [List.length_append] at hsize
    have hq : s.readIdx + chunk.length < READ_BUFFER_SIZE := by
      have := h.readIdx
      omega
    have htake : body.take (body.length - (chunk ++ rest).length) = b := by
      rw [show body.length - (chunk ++ rest).length = b.length from by
        rw [List.length_append]; omega, ← hb, List.take_left]
    refine .comes hp rfl Iff.rfl (Nat.le_refl _) (h.read hq) ?_ ?_
    · rw [List.append_assoc]
      exact hb
    · rw [htake]
      exact hplace

theorem phase_call (stat : Stat) (hw : Upload l ls n body)
    (h : Phase l ls n body (chunk ++ rest) s) (hrest : rest ≠ []) :
    ∃ r t, processRead stat (read chunk s) = .ok (r, t) ∧ ¬Reports stat (called (read chunk s)) ∧
      (r = .NO_REQUEST ∧ Phase l ls n body rest t ∨
        r ≠ .NO_REQUEST ∧ ¬∃ u, Parses (lineText l) u) := by
  have hpos := List.length_pos_iff.mpr hrest
  rcases phase_comes stat hw h with ⟨hcall, hno, ht, -⟩ | ⟨hcall, hno, hp⟩ |
    ⟨hp, hcall, hreports, hm, ht, hb, -⟩
  · exact ⟨_, _, hcall, hno, Or.inl ⟨rfl, ht⟩⟩
  · exact ⟨_, _, hcall, hno, Or.inr ⟨by decide, hp⟩⟩
  · have hlength := hw.length
    have hshort := hw.short
    have hsize := congrArg List.length hb
    rw [List.length_append] at hsize hshort
    have hmax : (2 * READ_BUFFER_SIZE : ℤ) ≤ INT_MAX := by decide
    obtain ⟨v, hloop, hno, hv, hplace⟩ := body_call stat ht (by omega) (by omega) hm
    exact ⟨_, v, hcall.trans hloop, fun hyes => hno (hreports.mp hyes),
      Or.inl ⟨rfl, .body hp hb hv hplace⟩⟩

/-- **The last chunk is reported** if and only if the request line is accepted and the scanner has not
moved. -/
theorem phase_last (stat : Stat) (hw : Upload l ls n body) (h : Phase l ls n body last s) :
    Reports stat (called (read last s)) ↔
      (∃ u, Parses (lineText l) u) ∧ Stays (body.take (body.length - last.length)) := by
  have hpos := hw.pos
  have hlength := hw.length
  have h' : Phase l ls n body (last ++ []) s := by rwa [List.append_nil]
  rcases phase_comes stat hw h' with ⟨-, -, -, hbehind⟩ | ⟨-, hno, hp⟩ |
    ⟨hp, -, hreports, -, ht, hb, hplace⟩
  · rw [List.length_nil] at hbehind
    omega
  · exact iff_of_false hno fun hyes => hp hyes.1
  · have hshort := hw.short
    rw [List.append_nil] at hb hplace
    rw [List.length_append] at hshort
    have hmax : (2 * READ_BUFFER_SIZE : ℤ) ≤ INT_MAX := by decide
    rw [hreports, body_reports stat ht (by rw [hb]; exact hlength) (by omega), hplace]
    exact ⟨fun hstays => ⟨hp, hstays⟩, And.right⟩

/-- The chunks before the last one are not reported, and the connection comes to the last one unless
it refuses the request line.  Induction on the chunks. -/
theorem feed_phase (stat : Stat) (hw : Upload l ls n body)
    (h : Phase l ls n body (chunks.flatten ++ rest) s) (hrest : rest ≠ []) :
    (∀ pre chunk post, chunks = pre ++ chunk :: post →
      ∀ t, feed stat pre s = .ok (.NO_REQUEST, t) → ¬Reports stat (called (read chunk t))) ∧
    ((∃ t, feed stat chunks s = .ok (.NO_REQUEST, t) ∧ Phase l ls n body rest t) ∨
      (¬∃ u, Parses (lineText l) u) ∧ ∃ r t, feed stat chunks s = .ok (r, t) ∧ r ≠ .NO_REQUEST) := by
  induction chunks generalizing s with
  | nil =>
    refine ⟨fun pre chunk post hsplit => ?_, Or.inl ⟨s, rfl, h⟩⟩
    exact absurd hsplit.symm (by simp)
  | cons c cs ih =>
    rw [List.flatten_cons, List.append_assoc] at h
    have hne : cs.flatten ++ rest ≠ [] := fun hnil => hrest (List.append_eq_nil_iff.mp hnil).2
    obtain ⟨r, t, hcall, hno, hresult⟩ := phase_call stat hw h hne
    have hfeed : ∀ cs, feed stat (c :: cs) s =
        if r = .NO_REQUEST then feed stat cs t else pure (r, t) := by
      intro cs
      rw [feed, hcall, ok_bind]
    have hfirst : ∀ {v}, feed stat [] s = .ok (.NO_REQUEST, v) → v = s := by
      intro v hv
      cases hv
      rfl
    rcases hresult with ⟨rfl, ht⟩ | ⟨hr, hp⟩
    · obtain ⟨hbefore, hend⟩ := ih ht
      simp only [hfeed, if_true]
      refine ⟨fun pre chunk post hsplit v hv => ?_, hend⟩
      rcases pre with _ | ⟨c', pre⟩
      · obtain ⟨rfl, -⟩ := List.cons.inj hsplit
        rw [hfirst hv]
        exact hno
      · obtain ⟨rfl, rfl⟩ := List.cons.inj hsplit
        rw [hfeed, if_pos rfl] at hv
        exact hbefore pre chunk post rfl v hv
    · simp only [hfeed, if_neg hr]
      refine ⟨fun pre chunk post hsplit v hv => ?_, Or.inr ⟨hp, r, t, rfl, hr⟩⟩
      rcases pre with _ | ⟨c', pre⟩
      · obtain ⟨rfl, -⟩ := List.cons.inj hsplit
        rw [hfirst hv]
        exact hno
      · obtain ⟨rfl, rfl⟩ := List.cons.inj hsplit
        rw [hfeed, if_neg hr] at hv
        cases hv
        exact absurd rfl hr

theorem phase_init (ls : List Bytes) (n : ℤ) (h : rest = ended (l :: ls) ++ body) :
    Phase l ls n body rest init := by
  refine .request init_received rfl rfl rfl h ?_
  rw [h, List.length_append]
  omega

/-- **The end of a body is recognised**, with the last chunk and not before, if and only if the
request line is accepted and the bytes of the body before the last chunk are none, begin with a `LF`,
or begin with a `CR` that is not followed by a `LF`. -/
theorem reportsLast_iff (stat : Stat) (hw : Upload l ls n body)
    (hsplit : chunks.flatten ++ last = ended (l :: ls) ++ body) (hlast : last ≠ []) :
    ReportsLast stat chunks last ↔
      (∃ u, Parses (lineText l) u) ∧ Stays (body.take (body.length - last.length)) := by
  obtain ⟨hbefore, hend⟩ := feed_phase stat hw (phase_init ls n hsplit) hlast
  constructor
  · rintro ⟨⟨s, hs, hreports⟩, -⟩
    rcases hend with ⟨t, ht, hphase⟩ | ⟨-, r, t, ht, hr⟩
    · rw [ht] at hs
      cases hs
      exact (phase_last stat hw hphase).mp hreports
    · rw [ht] at hs
      cases hs
      exact absurd rfl hr
  · intro hyes
    rcases hend with ⟨t, ht, hphase⟩ | ⟨hp, -⟩
    · exact ⟨⟨t, ht, (phase_last stat hw hphase).mpr hyes⟩, hbefore⟩
    · exact absurd hyes.1 hp

theorem upload_two {b : Bytes} (hb : b.length = 2) :
    Upload (ascii "GET / HTTP/1.1") [ascii "Content-Length: 2", []] 2 b := by
  have hlength : lengthAfter 0 (lineText (ascii "Content-Length: 2")) = 2 := by decide +kernel
  refine ⟨by constructor <;> decide, .header (by constructor <;> decide) (by decide) ?_, by decide,
    by omega, ?_⟩
  · rw [hlength]
    exact .last (by constructor <;> decide) rfl
  · rw [List.length_append, hb]
    decide

/-- A body of two bytes; the request is cut inside the headers and behind them. -/
theorem reportsLast_iff_two :
    ReportsLast (fun _ => none) [ascii "GET / HTTP/1.1\r\nContent-Le", ascii "ngth: 2\r\n\r\n"]
        (ascii "ab") ↔
      (∃ u, Parses (lineText (ascii "GET / HTTP/1.1")) u) ∧
        Stays ((ascii "ab").take ((ascii "ab").length - (ascii "ab").length)) :=
  reportsLast_iff _ (upload_two rfl) (by decide) (by decide)

/-- Where the request is cut between the two bytes, the end of the body is not recognised. -/
theorem not_reportsLast :
    ¬ReportsLast (fun _ => none) [ascii "GET / HTTP/1.1\r\nContent-Length: 2\r\n\r\na"]
      (ascii "b") := by
  rintro ⟨⟨s, hs, hreports⟩, -⟩
  have hw := upload_two (b := ascii "ab") rfl
  have hstart : Phase (ascii "GET / HTTP/1.1") [ascii "Content-Length: 2", []] 2 (ascii "ab")
      ([ascii "GET / HTTP/1.1\r\nContent-Length: 2\r\n\r\na"].flatten ++ ascii "b") init :=
    phase_init _ _ (by decide)
  obtain ⟨-, ⟨t, ht, hphase⟩ | ⟨-, r, t, ht, hr⟩⟩ :=
    feed_phase (fun _ => none) hw hstart (by decide)
  · rw [hs] at ht
    cases ht
    have hstays := ((phase_last _ hw hphase).mp hreports).2
    exact absurd hstays (by decide)
  · rw [hs] at ht
    cases ht
    exact absurd rfl hr

end ReactorServer.Conn.Bodies
