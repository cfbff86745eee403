import ReactorServer.Conn.Chunks
import ReactorServer.Conn.RequestLine

/-!
# Heads, line by line

The grammar of a head: a request line, header lines and the empty line (`Headers`).  A line may hold
`NUL`s, and then the parsers read what is before the first of them (`lineText`).  `Received` says what
is in the buffer from the line on, and the lemmas on `turn` say what becomes of it with one line.
-/

namespace ReactorServer.Conn.Heads

open ReactorServer.Cpp ReactorServer.Lib.Runs ReactorServer.Lib.Lines
open ReactorServer.Conn.Strings ReactorServer.Conn.Parser ReactorServer.Conn.Access
open ReactorServer.Conn.Calls
open ReactorServer.Conn.Bounds ReactorServer.Conn.Chunks ReactorServer.Conn.RequestLine

variable {stat : Stat} {s t : HttpConn} {m : Buffer} {p q k z : ℕ} {c n : ℤ}
  {l line ahead rest chunk u : Bytes} {ls : List Bytes}

/-! ### The grammar -/

/-- There is no line end in it. -/
def IsLine (l : Bytes) : Prop := CR ∉ l ∧ LF ∉ l

/-- What the parsers read of a line. -/
def lineText (l : Bytes) : Bytes := l.takeWhile (· ≠ NUL)

/-- Lines with their ends. -/
def ended (ls : List Bytes) : Bytes := ls.flatMap (· ++ [CR, LF])

/-- What a header makes of the length `c`. -/
def lengthAfter (c : ℤ) (line : Bytes) : ℤ :=
  if isContentLength line then truncate (atolOf (valueOf line 15)) else c

/-- Header lines and the empty line behind them; they make the length `n` of `c`. -/
inductive Headers : ℤ → List Bytes → ℤ → Prop
  | last {c : ℤ} {l : Bytes} (hl : IsLine l) (hempty : lineText l = []) : Headers c [l] c
  | header {c n : ℤ} {l : Bytes} {ls : List Bytes} (hl : IsLine l) (hne : lineText l ≠ [])
      (hls : Headers (lengthAfter c (lineText l)) ls n) : Headers c (l :: ls) n

/-- The line is a request line with the url `u`, which begins at `q`. -/
def ParsesAt (line : Bytes) (q : ℕ) (u : Bytes) : Prop :=
  ∃ M S₁ T S₂ V, IsRequestLine line M S₁ T S₂ V ∧ UrlOf T u ∧
    q = M.length + S₁.length + (T.length - u.length)

theorem exists_parsesAt (h : Parses line u) : ∃ q, ParsesAt line q u := by
  obtain ⟨M, S₁, T, S₂, V, hline, hu⟩ := h
  exact ⟨_, M, S₁, T, S₂, V, hline, hu, rfl⟩

theorem ParsesAt.parses (h : ParsesAt line q u) : Parses line u := by
  obtain ⟨M, S₁, T, S₂, V, hline, hu, -⟩ := h
  exact ⟨M, S₁, T, S₂, V, hline, hu⟩

theorem ended_cons (l : Bytes) (ls : List Bytes) : ended (l :: ls) = l ++ CR :: LF :: ended ls := by
  unfold ended
  rw [List.flatMap_cons, List.append_assoc]
  rfl

theorem ended_append (l : Bytes) (ls : List Bytes) (X : Bytes) :
    ended (l :: ls) ++ X = l ++ CR :: LF :: (ended ls ++ X) := by
  rw [ended_cons, List.append_assoc]
  rfl

theorem ended_length (l : Bytes) (ls : List Bytes) :
    (ended (l :: ls)).length = l.length + 2 + (ended ls).length := by
  rw [ended_cons, List.length_append, List.length_cons, List.length_cons]
  omega

theorem ended_length_one (l : Bytes) : (ended [l]).length = l.length + 2 := ended_length l []

/-- Bytes are in one way a line and what is behind it. -/
theorem line_unique {l' r r' : Bytes} {b b' : UInt8} (hl : IsLine l) (hl' : IsLine l')
    (hb : b = CR ∨ b = LF) (hb' : b' = CR ∨ b' = LF) (h : l ++ b :: r = l' ++ b' :: r') :
    l = l' ∧ b = b' ∧ r = r' := by
  have hno : ∀ {l : Bytes} {a b : UInt8}, IsLine (a :: l) → b = CR ∨ b = LF → a ≠ b := by
    rintro l a b hl (rfl | rfl) rfl
    · exact hl.1 List.mem_cons_self
    · exact hl.2 List.mem_cons_self
  have htail : ∀ {l : Bytes} {a : UInt8}, IsLine (a :: l) → IsLine l := fun hl =>
    ⟨fun hmem => hl.1 (List.mem_cons_of_mem _ hmem), fun hmem => hl.2 (List.mem_cons_of_mem _ hmem)⟩
  induction l generalizing l' with
  | nil =>
    rcases l' with _ | ⟨a, l'⟩
    · obtain ⟨rfl, rfl⟩ := List.cons.inj h
      exact ⟨rfl, rfl, rfl⟩
    · exact absurd (List.cons.inj h).1.symm (hno hl' hb)
  | cons a l ih =>
    rcases l' with _ | ⟨a', l'⟩
    · exact absurd (List.cons.inj h).1 (hno hl hb')
    · obtain ⟨rfl, hrest⟩ := List.cons.inj h
      obtain ⟨rfl, rfl, rfl⟩ := ih (htail hl) (htail hl') hrest
      exact ⟨rfl, rfl, rfl⟩

theorem state_ne_content (h : s.checkState = .CHECK_STATE_HEADER) :
    s.checkState ≠ .CHECK_STATE_CONTENT := by
  rw [h]
  decide

/-! ### Lines in the buffer -/

/-- The connection has received `ahead` from the beginning of its line on, and the scanner has
passed no line end of it. -/
structure Received (ahead : Bytes) (s : HttpConn) : Prop extends Sane s where
  readIdx : s.readIdx = s.startLine + ahead.length
  fresh : ∀ i (hi : i < ahead.length), s.readBuf (s.startLine + i) = ahead[i]
  passed : ∀ i (hi : i < ahead.length), s.startLine + i < s.checkedIdx → ahead[i] ≠ CR ∧ ahead[i] ≠ LF

theorem init_received : Received [] init where
  toSane := init_sane
  readIdx := rfl
  fresh := fun _ hi => absurd hi (Nat.not_lt_zero _)
  passed := fun _ hi => absurd hi (Nat.not_lt_zero _)

theorem read_received (h : Received ahead s) (hq : s.readIdx + chunk.length < READ_BUFFER_SIZE) :
    Received (ahead ++ chunk) (read chunk s) := by
  have hlen := h.readIdx
  have hchecked := h.checked_le
  refine ⟨read_sane h.toSane hq, ?_, fun i hi => ?_, fun i hi hlt => ?_⟩
  · show s.readIdx + chunk.length = s.startLine + _
    rw [List.length_append, hlen, Nat.add_assoc]
  · exact splice_getElem hlen hi (h.fresh i)
  · have hlt' : s.startLine + i < s.checkedIdx := hlt
    have hold : i < ahead.length := by omega
    rw [List.getElem_append_left hold]
    exact h.passed i hold hlt'

theorem Received.byte (h : Received ahead s) {i : ℕ} (h1 : s.startLine ≤ i) (h2 : i < s.readIdx) :
    ∃ j, ∃ hj : j < ahead.length, i = s.startLine + j ∧ s.readBuf i = ahead[j] := by
  have hlen := h.readIdx
  obtain ⟨j, rfl⟩ := Nat.exists_eq_add_of_le h1
  exact ⟨j, by omega, rfl, h.fresh j (by omega)⟩

theorem line_byte {ends : Bytes} {j : ℕ} (hahead : ahead ++ rest = l ++ ends) (hl : IsLine l)
    (hj : j < ahead.length) (hlt : j < l.length) : ahead[j] ≠ CR ∧ ahead[j] ≠ LF := by
  have hbyte : (ahead ++ rest)[j]? = (l ++ ends)[j]? := by rw [hahead]
  rw [List.getElem?_append_left hj, List.getElem?_append_left hlt, List.getElem?_eq_getElem hj,
    List.getElem?_eq_getElem hlt] at hbyte
  have hmem : ahead[j] ∈ l := by
    rw [Option.some.inj hbyte]
    exact List.getElem_mem hlt
  exact ⟨fun heq => hl.1 (heq ▸ hmem), fun heq => hl.2 (heq ▸ hmem)⟩

theorem checkedIdx_le (h : Received ahead s) (hahead : ahead = l ++ CR :: LF :: rest) :
    s.checkedIdx ≤ s.startLine + l.length := by
  by_contra hlt
  have hlen : l.length < ahead.length := by
    rw [hahead, List.length_append, List.length_cons]
    omega
  refine (h.passed l.length hlen (by omega)).1 ?_
  simp [hahead]

theorem found_line (h : Received ahead s) (hahead : ahead = l ++ CR :: LF :: rest) (hl : IsLine l) :
    found s = (.LINE_OK, s.startLine + l.length) := by
  have hscan : Scanned s.readBuf (s.readIdx - s.checkedIdx) s.checkedIdx (found s).1 (found s).2 :=
    scanLine_scanned _ _ _
  have hlen := h.readIdx
  have hchecked := h.checked_le
  have hstart := h.start_le
  have hsize : ahead.length = l.length + (rest.length + 2) := by
    rw [hahead, List.length_append, List.length_cons, List.length_cons]
  have hahead' : ahead ++ [] = l ++ CR :: LF :: rest := by rw [List.append_nil, hahead]
  have hcr : ahead[l.length] = CR := by
    simp [hahead]
  have hlf : ahead[l.length + 1] = LF := by
    simp [hahead]
  have hle := checkedIdx_le h hahead
  -- nothing stops the scanner before the end of the line, and it does not pass it
  have hnot_before : ∀ b, s.readBuf (found s).2 = b → b = CR ∨ b = LF → (found s).2 < s.readIdx →
      s.startLine + l.length ≤ (found s).2 := by
    intro b hb hend hlt
    have hge := hscan.le
    obtain ⟨j, hj, hji, hbyte⟩ := h.byte (i := (found s).2) (by omega) hlt
    by_contra hno
    have hbj := line_byte hahead' hl hj (by omega)
    rw [← hbyte, hb] at hbj
    rcases hend with heq | heq
    · exact hbj.1 heq
    · exact hbj.2 heq
  have hnot_behind : (found s).2 ≤ s.startLine + l.length := by
    by_contra hlt
    refine (hscan.passed (s.startLine + l.length) hle (by omega)).1 ?_
    rw [h.fresh l.length (by omega), hcr]
  have hge := hscan.le
  cases hstatus : (found s).1 with
  | LINE_OK =>
    obtain ⟨hk, hkcr, -⟩ := hscan.ok hstatus
    have := hnot_before _ hkcr (Or.inl rfl) (by omega)
    rw [← hstatus, show s.startLine + l.length = (found s).2 from by omega]
  | LINE_BAD =>
    obtain ⟨hk, hbad⟩ := hscan.bad hstatus
    exfalso
    rcases hbad with ⟨hkcr, hk', hnolf⟩ | hklf
    · have hat := hnot_before _ hkcr (Or.inl rfl) (by omega)
      refine hnolf ?_
      rw [show (found s).2 + 1 = s.startLine + (l.length + 1) from by omega,
        h.fresh (l.length + 1) (by omega), hlf]
    · have hat := hnot_before _ hklf (Or.inr rfl) (by omega)
      rw [show (found s).2 = s.startLine + l.length from by omega, h.fresh l.length (by omega),
        hcr] at hklf
      exact absurd hklf (by decide)
  | LINE_OPEN =>
    exfalso
    rcases hscan.opn hstatus with hend | ⟨hend, hkcr⟩
    · omega
    · have := hnot_before _ hkcr (Or.inl rfl) (by omega)
      omega

/-- Where the line has not come to its end, the scanner waits for more. -/
theorem found_open (h : Received ahead s) (hahead : ahead ++ rest = l ++ [CR, LF]) (hne : rest ≠ [])
    (hl : IsLine l) : (found s).1 = .LINE_OPEN := by
  have hscan : Scanned s.readBuf (s.readIdx - s.checkedIdx) s.checkedIdx (found s).1 (found s).2 :=
    scanLine_scanned _ _ _
  have hlen := h.readIdx
  have hchecked := h.checked_le
  have hstart := h.start_le
  have hpos := List.length_pos_iff.mpr hne
  have hsize := congrArg List.length hahead
  simp only [List.length_append, List.length_cons, List.length_nil] at hsize
  have hge := hscan.le
  cases hstatus : (found s).1 with
  | LINE_OPEN => rfl
  | LINE_OK =>
    exfalso
    obtain ⟨hk, hkcr, -⟩ := hscan.ok hstatus
    obtain ⟨j, hj, hji, hbyte⟩ := h.byte (i := (found s).2) (by omega) (by omega)
    rw [hkcr] at hbyte
    exact (line_byte hahead hl hj (by omega)).1 hbyte.symm
  | LINE_BAD =>
    exfalso
    obtain ⟨hk, hbad⟩ := hscan.bad hstatus
    obtain ⟨j, hj, hji, hbyte⟩ := h.byte (i := (found s).2) (by omega) (by omega)
    rcases hbad with ⟨hkcr, hk', -⟩ | hklf
    · rw [hkcr] at hbyte
      exact (line_byte hahead hl hj (by omega)).1 hbyte.symm
    · rw [hklf] at hbyte
      by_cases hlast : j < l.length
      · exact (line_byte hahead hl hj hlast).2 hbyte.symm
      · obtain rfl : j = l.length := by omega
        have hcr : (ahead ++ rest)[l.length]? = (l ++ [CR, LF])[l.length]? := by rw [hahead]
        rw [List.getElem?_append_left hj, List.getElem?_eq_getElem hj, ← hbyte] at hcr
        simp at hcr
        exact absurd hcr (by decide)

theorem exists_line (h : Received ahead s) (hf : found s = (.LINE_OK, k)) :
    ∃ l rest, IsLine l ∧ ahead = l ++ CR :: LF :: rest ∧ k = s.startLine + l.length := by
  have hscan : Scanned s.readBuf (s.readIdx - s.checkedIdx) s.checkedIdx (found s).1 (found s).2 :=
    scanLine_scanned _ _ _
  rw [hf] at hscan
  obtain ⟨hk, hcr, hlf⟩ := hscan.ok rfl
  have hle := hscan.le
  have hlen := h.readIdx
  have hchecked := h.checked_le
  have hstart := h.start_le
  dsimp only at hk hcr hlf hle
  obtain ⟨j, rfl⟩ := Nat.exists_eq_add_of_le (show s.startLine ≤ k from by omega)
  rw [h.fresh j (by omega)] at hcr
  rw [Nat.add_assoc, h.fresh (j + 1) (by omega)] at hlf
  have hpassed : ∀ b ∈ ahead.take j, b ≠ CR ∧ b ≠ LF := by
    intro b hb
    obtain ⟨i, hi, rfl⟩ := List.getElem_of_mem hb
    rw [List.length_take] at hi
    rw [List.getElem_take]
    by_cases hold : s.startLine + i < s.checkedIdx
    · exact h.passed i (by omega) hold
    · have hbyte := hscan.passed (s.startLine + i) (by omega)
        (show _ < s.startLine + j from by omega)
      rwa [h.fresh i (by omega)] at hbyte
  refine ⟨ahead.take j, ahead.drop (j + 2), ⟨fun hb => (hpassed _ hb).1 rfl,
    fun hb => (hpassed _ hb).2 rfl⟩, ?_, ?_⟩
  · conv_lhs => rw [← List.take_append_drop j ahead, List.drop_eq_getElem_cons (by omega),
      List.drop_eq_getElem_cons (by omega), hcr, hlf]
  · rw [List.length_take]
    omega

theorem stop_received (h : Received ahead s) (hf : (found s).1 ≠ .LINE_OK) :
    Received ahead (stopAt s (found s)) := by
  have hscan : Scanned s.readBuf (s.readIdx - s.checkedIdx) s.checkedIdx (found s).1 (found s).2 :=
    scanLine_scanned _ _ _
  have hsane := stopAt_sane h.toSane
  have hlen := h.readIdx
  rw [stopAt_of_ne hf] at hsane ⊢
  refine ⟨hsane, h.readIdx, h.fresh, fun i hi hlt => ?_⟩
  have hlt' : s.startLine + i < (found s).2 := hlt
  by_cases hold : s.startLine + i < s.checkedIdx
  · exact h.passed i hi hold
  · have hbyte := hscan.passed (s.startLine + i) (by omega) hlt'
    rwa [h.fresh i hi] at hbyte

/-! ### Lines and the parsers -/

theorem lineText_length (l : Bytes) : (lineText l).length ≤ l.length :=
  (List.takeWhile_prefix _).length_le

theorem noNUL_lineText (l : Bytes) : NUL ∉ lineText l := by
  intro hmem
  have hne : decide (NUL ≠ NUL) = true := List.mem_takeWhile_imp (p := (· ≠ NUL)) hmem
  exact of_decide_eq_true hne rfl

/-- The text of a line ends at a `NUL`. -/
theorem getElem_lineText_length (h : (lineText l).length < l.length) :
    l[(lineText l).length] = NUL := by
  have hhead := List.head?_dropWhile_not (fun b : UInt8 => decide (b ≠ NUL)) l
  have hdrop : l.drop (lineText l).length = l.dropWhile (· ≠ NUL) := drop_length_takeWhile _ _
  rw [← hdrop, List.head?_drop, List.getElem?_eq_getElem h] at hhead
  simpa using hhead

theorem at_line (h : Received ahead s) (hahead : ahead = l ++ CR :: LF :: rest) :
    At (stopAt s (.LINE_OK, s.startLine + l.length)).readBuf s.startLine (lineText l) := by
  have hlen := h.readIdx
  have hshort := h.short
  have htext := lineText_length l
  have hsize : ahead.length = l.length + (rest.length + 2) := by
    rw [hahead, List.length_append, List.length_cons, List.length_cons]
  have hbyte : ∀ i (hi : i < l.length), s.readBuf (s.startLine + i) = l[i] := by
    intro i hi
    rw [h.fresh i (by omega)]
    simp only [hahead, List.getElem_append_left hi]
  have hkeep : ∀ i, i < l.length →
      clear [s.startLine + l.length, s.startLine + l.length + 1] s.readBuf (s.startLine + i) =
        s.readBuf (s.startLine + i) := by
    intro i hi
    refine clear_of_notMem fun hmem => ?_
    rcases List.mem_pair.mp hmem with heq | heq <;> omega
  refine at_of_getElem (fun i hi => ?_) (noNUL_lineText l) (by omega) ?_
  · show clear _ s.readBuf (s.startLine + i) = _
    rw [hkeep i (by omega), hbyte i (by omega)]
    exact ((List.takeWhile_prefix _).getElem hi).symm
  · show clear _ s.readBuf (s.startLine + (lineText l).length) = NUL
    by_cases hall : (lineText l).length = l.length
    · rw [hall]
      exact clear_self _ _ _
    · have hlt : (lineText l).length < l.length := by omega
      rw [hkeep _ hlt, hbyte _ hlt, getElem_lineText_length hlt]

theorem apply_received (h : Received ahead s) (hahead : ahead = l ++ CR :: LF :: rest) {e : Effect}
    (he : e.Within s.startLine (s.startLine + (lineText l).length))
    (hsane : Sane (e.apply (nextLine (stopAt s (.LINE_OK, s.startLine + l.length)))).2) :
    Received rest (e.apply (nextLine (stopAt s (.LINE_OK, s.startLine + l.length)))).2 := by
  have hlen := h.readIdx
  have htext := lineText_length l
  have hsize : ahead.length = l.length + (rest.length + 2) := by
    rw [hahead, List.length_append, List.length_cons, List.length_cons]
  refine ⟨hsane, ?_, fun i hi => ?_, fun i hi hlt => ?_⟩
  · show s.readIdx = s.startLine + l.length + 2 + rest.length
    omega
  · show clear e.zeros (clear [s.startLine + l.length, s.startLine + l.length + 1] s.readBuf)
      (s.startLine + l.length + 2 + i) = _
    rw [clear_of_notMem fun hz => ?_, clear_of_notMem fun hz => ?_,
      show s.startLine + l.length + 2 + i = s.startLine + (l.length + (i + 2)) from by omega,
      h.fresh _ (by omega)]
    · simp [hahead]
    · rcases List.mem_pair.mp hz with heq | heq <;> omega
    · have := (he.zeros _ hz).2
      omega
  · have hlt' : s.startLine + l.length + 2 + i < s.startLine + l.length + 2 := hlt
    omega

/-- The url is `u`, at `q`, and ends before the line. -/
structure Url (q : ℕ) (u : Bytes) (s : HttpConn) : Prop where
  url : s.url = some q
  at_url : At s.readBuf q u
  before : q + u.length < s.startLine

theorem Url.read (h : Url q u s) (hs : Sane s) (chunk : Bytes) : Url q u (read chunk s) := by
  have hbefore := h.before
  have hstart := hs.start_le
  have hchecked := hs.checked_le
  exact ⟨h.url, h.at_url.congr fun i _ hi => splice_of_lt (by omega), h.before⟩

/-! ### Turns -/

/-- The connection is at the beginning of a line, at `i`. -/
structure AtLine (ahead : Bytes) (i : ℕ) (s : HttpConn) : Prop extends Received ahead s where
  start : s.startLine = i
  checked : s.checkedIdx = i

theorem AtLine.left (h : AtLine rest (s.startLine + l.length + 2) t) (hs : Received ahead s)
    (hahead : ahead = l ++ CR :: LF :: rest) :
    t.readIdx - t.checkedIdx + 2 ≤ s.readIdx - s.checkedIdx := by
  have hchecked := h.checked_le
  have hread := h.readIdx
  have hread' := hs.readIdx
  have hle := checkedIdx_le hs hahead
  rw [h.start] at hread
  rw [hahead, List.length_append, List.length_cons, List.length_cons] at hread'
  rw [h.checked] at hchecked ⊢
  omega

/-- The state in which the line is parsed. -/
def withLine (s : HttpConn) (l : Bytes) : HttpConn := stopAt s (.LINE_OK, s.startLine + l.length)

theorem withLine_sane (h : Received ahead s) (hahead : ahead = l ++ CR :: LF :: rest)
    (hl : IsLine l) : Sane (withLine s l) := by
  have hsane := stopAt_sane h.toSane
  rwa [found_line h hahead hl] at hsane

theorem parseLine_line (h : Received ahead s) (hahead : ahead = l ++ CR :: LF :: rest)
    (hl : IsLine l) : parseLine s = .ok (.LINE_OK, withLine s l) := by
  rw [parseLine_found h.toSane, found_line h hahead hl]
  rfl

theorem turn_request (stat : Stat) (h : Received ahead s) (hahead : ahead = l ++ CR :: LF :: rest)
    (hl : IsLine l) (hst : s.checkState = .CHECK_STATE_REQUESTLINE) :
    ∃ t, t = ((requestEffect s.startLine (lineText l)).apply (nextLine (withLine s l))).2 ∧
      turn stat (withLine s l) =
        .ok (if (requestEffect s.startLine (lineText l)).code s.toHead = .BAD_REQUEST
          then some .BAD_REQUEST else none, .LINE_OK, t) ∧
      AtLine rest (s.startLine + l.length + 2) t := by
  have hat := at_line h hahead
  have hturn : turn stat (withLine s l) = _ := turn_of_requestLine stat hat hst fun t ht => by
    rw [← parseRequestLine_whole]
    exact parseRequestLine_eq (holds_whole ht) ht
  obtain ⟨r, hr, hturned⟩ := turn_requestLine stat (withLine_sane h hahead hl) hst
  rw [hturn] at hr
  cases hr
  exact ⟨_, rfl, hturn, apply_received h hahead (requestEffect_requests _ _).toWithin hturned.sane,
    rfl, rfl⟩

/-- **A line of the grammar** is accepted. -/
theorem turn_accepted (stat : Stat) (h : Received ahead s) (hahead : ahead = l ++ CR :: LF :: rest)
    (hl : IsLine l) (hst : s.checkState = .CHECK_STATE_REQUESTLINE)
    (hp : ParsesAt (lineText l) q u) :
    ∃ t, turn stat (withLine s l) = .ok (none, .LINE_OK, t) ∧
      AtLine rest (s.startLine + l.length + 2) t ∧ t.checkState = .CHECK_STATE_HEADER ∧
      t.contentLength = s.contentLength ∧ Url (s.startLine + q) u t := by
  obtain ⟨M, S₁, T, S₂, V, hline, hu, rfl⟩ := hp
  obtain ⟨t, ht, hturn, hrest⟩ := turn_request stat h hahead hl hst
  have hok := (urlOk_of_urlOf hu).1
  have hcode : (requestEffect s.startLine (lineText l)).code s.toHead = .NO_REQUEST := by
    rw [requestEffect_of_grammar hline]
    exact if_pos hok
  have hstate : t.checkState = .CHECK_STATE_HEADER := by
    rw [ht, requestEffect_of_grammar hline]
    exact if_pos hok
  have hlength : t.contentLength = s.contentLength := by
    rw [ht]
    exact (requestEffect_requests _ _).rest _
  obtain ⟨hurl, hat⟩ := url_of_grammar (s := nextLine (withLine s l)) (at_line h hahead) hline hu
  rw [hcode, if_neg (by decide)] at hturn
  refine ⟨t, hturn, hrest, hstate, hlength, ?_, ?_, ?_⟩
  · rw [ht]
    exact hurl
  · rw [ht]
    exact hat
  · -- the url is in the line
    have htext := lineText_length l
    have hin := url_in_line hline hu
    rw [hrest.start]
    omega

theorem turn_refused (stat : Stat) (h : Received ahead s) (hahead : ahead = l ++ CR :: LF :: rest)
    (hl : IsLine l) (hst : s.checkState = .CHECK_STATE_REQUESTLINE)
    (hno : ∀ u, ¬Parses (lineText l) u) :
    ∃ t, turn stat (withLine s l) = .ok (some .BAD_REQUEST, .LINE_OK, t) := by
  obtain ⟨t, -, hturn, -⟩ := turn_request stat h hahead hl hst
  rcases (requestEffect_requests s.startLine (lineText l)).code s.toHead with ⟨hbad, -⟩ | ⟨hcode, -⟩
  · rw [hbad, if_pos rfl] at hturn
    exact ⟨t, hturn⟩
  · obtain ⟨u, hu⟩ := parses_of_accepted hcode
    exact absurd hu (hno u)

/-- What keeps the url where a line is parsed. -/
theorem Url.effect {e : Effect} {b : ℕ} (h : Url q u s) (hs : s.startLine ≤ s.checkedIdx)
    (he : e.Within s.startLine b) (hurl : ∀ h, (e.head h).url = h.url) :
    Url q u (e.apply (nextLine s)).2 := by
  have hbefore := h.before
  refine ⟨(hurl _).trans h.url, h.at_url.congr fun i _ hi => clear_of_notMem fun hz => ?_, ?_⟩
  · have := (he.zeros _ hz).1
    omega
  · show q + u.length < s.checkedIdx
    omega

/-- The url is before the line that is found. -/
theorem Url.cut (h : Url q u s) : Url q u (withLine s l) := by
  have hbefore := h.before
  refine ⟨h.url, h.at_url.congr fun i _ hi => clear_of_notMem fun hz => ?_, hbefore⟩
  rcases List.mem_pair.mp hz with heq | heq <;> omega

theorem Url.apply (h : Url q u s) {e : Effect}
    (he : e.Within s.startLine (s.startLine + (lineText l).length))
    (hurl : ∀ h, (e.head h).url = h.url) : Url q u (e.apply (nextLine (withLine s l))).2 := by
  have hstart : s.startLine ≤ s.startLine + l.length + 2 := by omega
  exact h.cut.effect hstart he hurl

theorem turn_headers (stat : Stat) (h : Received ahead s) (hahead : ahead = l ++ CR :: LF :: rest)
    (hl : IsLine l) (hst : s.checkState = .CHECK_STATE_HEADER) :
    ∃ t, t = ((headersEffect s.startLine (lineText l)).apply (nextLine (withLine s l))).2 ∧
      turn stat (withLine s l) = (do
        if (headersEffect s.startLine (lineText l)).code s.toHead = .GET_REQUEST then
          pure (some (← doRequest stat t), .LINE_OK, t)
        else pure (none, .LINE_OK, t)) ∧
      AtLine rest (s.startLine + l.length + 2) t ∧ ∀ q u, Url q u s → Url q u t := by
  have he := headersEffect_headers s.startLine (lineText l)
  have hturn : turn stat (withLine s l) = _ :=
    turn_of_header stat (at_line h hahead) hst fun t ht => parseHeaders_eq ht
  obtain ⟨r, hr, hturned⟩ := turn_header stat (withLine_sane h hahead hl) hst
  have hcode : (headersEffect s.startLine (lineText l)).code s.toHead ≠ .BAD_REQUEST := by
    rw [he.code]
    split_ifs <;> decide
  have hsane : Sane ((headersEffect s.startLine (lineText l)).apply (nextLine (withLine s l))).2 := by
    have hpair := hr
    rw [hturn] at hpair
    change (if (headersEffect s.startLine (lineText l)).code s.toHead = .BAD_REQUEST then _ else
      if (headersEffect s.startLine (lineText l)).code s.toHead = .GET_REQUEST then _ else _) = _
      at hpair
    rw [if_neg hcode] at hpair
    split_ifs at hpair
    · obtain ⟨code, -, hpair⟩ := bind_eq_ok.mp hpair
      cases hpair
      exact hturned.sane
    · cases hpair
      exact hturned.sane
  refine ⟨_, rfl, ?_, ⟨apply_received h hahead he.toWithin hsane, rfl, rfl⟩, fun q u hu => ?_⟩
  · rw [hturn]
    exact if_neg hcode
  · exact hu.apply he.toWithin he.target

theorem not_contentLength (h : sameText (line.take 11) ((ascii "Connection:").take 11) = true) :
    ¬isContentLength line = true := by
  intro hlength
  have h1 := congrArg (·[3]?) (of_decide_eq_true h)
  have h2 := congrArg (·[3]?) (of_decide_eq_true hlength)
  simp only [List.getElem?_map, List.getElem?_take_of_lt (show 3 < 11 from by decide),
    List.getElem?_take_of_lt (show 3 < 15 from by decide)] at h1 h2
  rw [h1] at h2
  exact absurd h2 (by decide)

theorem headerEffect_length (p : ℕ) (line : Bytes) (h : Head) :
    ((headerEffect p line).head h).contentLength = lengthAfter h.contentLength line := by
  unfold headerEffect lengthAfter
  by_cases hconn : sameText (line.take 11) ((ascii "Connection:").take 11) = true
  · rw [if_pos hconn, if_neg (not_contentLength hconn)]
  rw [if_neg hconn]
  by_cases hlength : isContentLength line = true
  · rw [if_pos hlength, if_pos hlength]
  · rw [if_neg hlength, if_neg hlength]
    split_ifs <;> rfl

/-- A header changes the length, if it is the one that does. -/
theorem turn_header_line (stat : Stat) (h : Received ahead s)
    (hahead : ahead = l ++ CR :: LF :: rest) (hl : IsLine l)
    (hst : s.checkState = .CHECK_STATE_HEADER) (hne : lineText l ≠ []) :
    ∃ t, turn stat (withLine s l) = .ok (none, .LINE_OK, t) ∧
      AtLine rest (s.startLine + l.length + 2) t ∧ t.checkState = .CHECK_STATE_HEADER ∧
      t.contentLength = lengthAfter s.contentLength (lineText l) ∧ ∀ q u, Url q u s → Url q u t := by
  obtain ⟨t, ht, hturn, hrest, hurl⟩ := turn_headers stat h hahead hl hst
  have he := headersEffect_headers s.startLine (lineText l)
  have hheader : headersEffect s.startLine (lineText l) = headerEffect s.startLine (lineText l) :=
    if_neg hne
  have hcode : (headersEffect s.startLine (lineText l)).code s.toHead = .NO_REQUEST :=
    (he.code _).trans (if_neg fun h0 => hne h0.1)
  rw [hcode, if_neg (by decide)] at hturn
  refine ⟨t, hturn, hrest, ?_, ?_, hurl⟩
  · rw [ht]
    exact ((he.checkState _).trans (if_neg fun h0 => hne h0.1)).trans hst
  · rw [ht, hheader]
    exact headerEffect_length _ _ _

/-- The code of `doRequest` for a url. -/
def fileCode (stat : Stat) (u : Bytes) : HTTP_CODE :=
  match stat (readFile u) with
  | none => .NO_REQUEST
  | some st_mode =>
    if st_mode &&& S_IROTH = 0 then .FORBIDDEN_REQUEST
    else if st_mode &&& S_IFMT = S_IFDIR then .BAD_REQUEST
    else .FILE_REQUEST

theorem doRequest_eq (stat : Stat) (hurl : s.url = some q) (hat : At s.readBuf q u) :
    doRequest stat s = .ok (fileCode stat u) := by
  unfold doRequest fileCode
  rw [hurl]
  dsimp only
  rw [hat.cstring, ok_bind]
  cases stat (readFile u) with
  | none => rfl
  | some st_mode =>
    dsimp only
    split_ifs <;> rfl

theorem fileCode_ne : fileCode stat u ≠ .NO_REQUEST ↔ (stat (readFile u)).isSome := by
  unfold fileCode
  cases stat (readFile u) with
  | none => exact iff_of_false (fun h => h rfl) nofun
  | some st_mode =>
    refine iff_of_true ?_ rfl
    dsimp only
    split_ifs <;> decide

theorem turn_empty_line (stat : Stat) (h : Received ahead s)
    (hahead : ahead = l ++ CR :: LF :: rest) (hl : IsLine l)
    (hst : s.checkState = .CHECK_STATE_HEADER) (hempty : lineText l = [])
    (h0 : s.contentLength = 0) (hu : Url q u s) :
    ∃ t, turn stat (withLine s l) = .ok (some (fileCode stat u), .LINE_OK, t) ∧
      AtLine rest (s.startLine + l.length + 2) t ∧ t.checkState = .CHECK_STATE_HEADER ∧
      t.contentLength = 0 ∧ Url q u t := by
  obtain ⟨t, ht, hturn, hrest, hurl⟩ := turn_headers stat h hahead hl hst
  have he := headersEffect_headers s.startLine (lineText l)
  have hheader : headersEffect s.startLine (lineText l) = emptyEffect := if_pos hempty
  have hcode : (headersEffect s.startLine (lineText l)).code s.toHead = .GET_REQUEST :=
    (he.code _).trans (if_pos ⟨hempty, h0⟩)
  have ht' := hurl q u hu
  rw [hcode, if_pos rfl, doRequest_eq stat ht'.url ht'.at_url] at hturn
  refine ⟨t, hturn, hrest, ?_, ?_, ht'⟩
  · rw [ht]
    exact ((he.checkState _).trans (if_neg fun hc => hc.2 h0)).trans hst
  · rw [ht, hheader]
    exact h0

theorem turn_last_line (stat : Stat) (h : Received ahead s)
    (hahead : ahead = l ++ CR :: LF :: rest) (hl : IsLine l)
    (hst : s.checkState = .CHECK_STATE_HEADER) (hempty : lineText l = [])
    (h0 : s.contentLength ≠ 0) :
    ∃ t, turn stat (withLine s l) = .ok (none, .LINE_OK, t) ∧
      AtLine rest (s.startLine + l.length + 2) t ∧ t.checkState = .CHECK_STATE_CONTENT ∧
      t.contentLength = s.contentLength ∧ ∀ q u, Url q u s → Url q u t := by
  obtain ⟨t, ht, hturn, hrest, hurl⟩ := turn_headers stat h hahead hl hst
  have he := headersEffect_headers s.startLine (lineText l)
  have hheader : headersEffect s.startLine (lineText l) = emptyEffect := if_pos hempty
  have hcode : (headersEffect s.startLine (lineText l)).code s.toHead = .NO_REQUEST :=
    (he.code _).trans (if_neg fun hc => h0 hc.2)
  rw [hcode, if_neg (by decide)] at hturn
  refine ⟨t, hturn, hrest, ?_, ?_, hurl⟩
  · rw [ht]
    exact (he.checkState _).trans (if_pos ⟨hempty, h0⟩)
  · rw [ht, hheader]
    rfl

/-! ### The body -/

theorem loop_body {m : ℕ} (hst : s.checkState = .CHECK_STATE_CONTENT) :
    processReadLoop stat (m + 1) .LINE_OK s = (do
      let (ret, status, t) ← turn stat s
      match ret with
      | some code => pure (code, t)
      | none => processReadLoop stat m status t) := by
  conv_lhs => unfold processReadLoop
  unfold loopTest
  rw [if_pos ⟨hst, rfl⟩]
  rfl

/-- The body is not all there, as far as `parseContent` can tell. -/
structure Outstanding (s : HttpConn) : Prop extends Sane s where
  state : s.checkState = .CHECK_STATE_CONTENT
  more : s.readIdx < s.contentLength + s.checkedIdx

theorem Outstanding.mono (h : Outstanding s) (ht : Sane t) (hhead : t.toHead = s.toHead)
    (hread : t.readIdx = s.readIdx) (hle : s.checkedIdx ≤ t.checkedIdx) : Outstanding t := by
  have hmore := h.more
  have hlength : t.contentLength = s.contentLength := congrArg Head.contentLength hhead
  have hstate : t.checkState = s.checkState := congrArg Head.checkState hhead
  refine ⟨ht, hstate.trans h.state, ?_⟩
  rw [hlength, hread]
  omega

/-- A turn then goes on with the scanner. -/
theorem Outstanding.turn (stat : Stat) (h : Outstanding s) :
    turn stat s = .ok (none, .LINE_OPEN, nextLine s) ∧ Outstanding (nextLine s) ∨
      INT_MAX - s.checkedIdx < s.contentLength ∧ ∃ f, turn stat s = .error f := by
  have hmore := h.more
  have hchecked := h.checked_le
  have hstart := h.start_le
  obtain ⟨line, hat, -⟩ := h.exists_at (Nat.le_trans hstart hchecked)
  have hlow : -(s.startLine : ℤ) ≤ s.contentLength := by omega
  rw [turn_of_content hat h.state]
  by_cases hhigh : s.contentLength ≤ INT_MAX - s.checkedIdx
  · left
    have hnot : ¬(nextLine s).contentLength + (nextLine s).checkedIdx ≤ (nextLine s).readIdx :=
      Int.not_le.mpr hmore
    rw [parseContent_eq (s := nextLine s) h.length hstart h.short hlow hhigh, ok_bind, if_neg hnot]
    exact ⟨rfl, h.clear [] h.url h.length, h.state, hmore⟩
  · right
    obtain ⟨f, hf, -⟩ := parseContent_error (s := nextLine s) h.length hchecked
      fun hfits => hhigh hfits.2
    rw [hf]
    exact ⟨Int.not_le.mp hhigh, f, rfl⟩

/-- What is left of a url at `q` where a `NUL` is written to `z`. -/
def cutOff (u : Bytes) (q z : ℕ) : Bytes := if z < q then u else u.take (z - q)

theorem at_cutOff (h : At m q u) (z : ℕ) : At (clear [z] m) q (cutOff u q z) := by
  unfold cutOff
  by_cases hz : z < q
  · rw [if_pos hz]
    exact h.update_of_lt hz
  · rw [if_neg hz]
    obtain ⟨j, rfl⟩ := Nat.exists_eq_add_of_le (Nat.le_of_not_lt hz)
    rw [show q + j - q = j from by omega]
    by_cases hj : j ≤ u.length
    · exact h.take hj
    · rw [List.take_of_length_le (by omega)]
      exact h.congr fun i _ hi => Function.update_of_ne (by omega) _ _

theorem cutOff_length (u : Bytes) (q z : ℕ) : (cutOff u q z).length ≤ u.length := by
  unfold cutOff
  split_ifs
  · exact Nat.le_refl _
  · exact List.length_take_le' _ _

theorem cutOff_of_le (h : q + u.length ≤ z) : cutOff u q z = u := by
  unfold cutOff
  rw [if_neg (by omega)]
  exact List.take_of_length_le (by omega)

/-- When the body is all there, the file is the one whose url `parseContent` leaves. -/
theorem turn_whole (stat : Stat) (h : Sane s) (hst : s.checkState = .CHECK_STATE_CONTENT)
    (hlow : -(s.startLine : ℤ) ≤ s.contentLength)
    (hall : s.contentLength + s.checkedIdx ≤ s.readIdx) (hu : Url q u s) :
    ∃ t, turn stat s =
      .ok (some (fileCode stat (cutOff u q (s.startLine + s.contentLength).toNat)), .LINE_OK, t) := by
  have hshort := h.short
  have hstart := h.start_le
  have hmax : (READ_BUFFER_SIZE : ℤ) ≤ INT_MAX := by decide
  obtain ⟨line, hat, -⟩ := h.exists_at (Nat.le_trans hstart h.checked_le)
  have hyes : (nextLine s).contentLength + (nextLine s).checkedIdx ≤ (nextLine s).readIdx := hall
  have hhigh : s.contentLength ≤ INT_MAX - s.checkedIdx := by omega
  rw [turn_of_content hat hst,
    parseContent_eq (s := nextLine s) h.length hstart hshort hlow hhigh, ok_bind, if_pos hyes]
  dsimp only
  generalize hz : ((s.startLine : ℤ) + (nextLine s).contentLength).toNat = z
  have hat' : At (clear [z] (nextLine s).readBuf) q (cutOff u q z) := at_cutOff hu.at_url z
  rw [if_pos rfl, doRequest_eq (s := { nextLine s with readBuf := clear [z] (nextLine s).readBuf })
    stat hu.url hat', ← hz]
  exact ⟨_, rfl⟩

end ReactorServer.Conn.Heads
