import ReactorServer.Conn.Bounds

/-!
# Bytes that arrive in pieces

A head that arrives in pieces, with a call of `processRead` after each, is parsed as if it had
arrived at once (`feed_eq_processRead`).  What a call does in the bytes it has is what it does in
them when there are more of them behind (`lineTurn`, `scanLine_more`); and where a call has stopped
because the bytes ended or because a line end is malformed, the next one goes on as the first would
have done with all of them (`loop_tracks`).
-/

namespace ReactorServer.Conn.Chunks

open ReactorServer.Cpp ReactorServer.Lib.Runs
open ReactorServer.Conn.Strings ReactorServer.Conn.Parser ReactorServer.Conn.Calls
open ReactorServer.Conn.Bounds

/-- `processRead` after each chunk, until it returns something other than `NO_REQUEST`. -/
def feed (stat : Stat) : List Bytes → HttpConn → Except Fault (HTTP_CODE × HttpConn)
  | [], s => pure (.NO_REQUEST, s)
  | chunk :: chunks, s => do
    let (ret, s) ← processRead stat (read chunk s)
    if ret = .NO_REQUEST then feed stat chunks s else pure (ret, s)

/-- What the chunks bring: no `NUL`, not more than the buffer holds, no line with a
`Content-Length` header, and nothing after an empty line. -/
structure Plain (whole : Bytes) : Prop where
  noNUL : NUL ∉ whole
  short : whole.length < READ_BUFFER_SIZE
  noLength : ∀ pre line post, whole = pre ++ [CR, LF] ++ line ++ [CR, LF] ++ post →
    isContentLength line = false
  last : ∀ pre post, whole = pre ++ [CR, LF] ++ [CR, LF] ++ post → post = []

/-- The string a pointer points to, if it is not null. -/
def text (s : HttpConn) (p : Option ℕ) : Option (Except Fault Bytes) := p.map (cstring s.readBuf)

variable {stat : Stat} {s t : HttpConn} {m m' : Buffer} {p n c i k q : ℕ} {status : LINE_STATUS}
  {whole got rest chunk line : Bytes} {r : HTTP_CODE}

/-! ### More bytes behind -/

theorem read_nil (s : HttpConn) : read [] s = s := by
  have hbuf : splice s.readBuf s.readIdx [] = s.readBuf := by
    funext i
    by_cases hi : i < s.readIdx
    · exact splice_of_lt hi
    · exact splice_of_le (Nat.le_of_not_lt hi)
  unfold Parser.read
  rw [hbuf]
  rfl

theorem read_read (xs ys : Bytes) (s : HttpConn) : read ys (read xs s) = read (xs ++ ys) s := by
  have hbuf : splice (splice s.readBuf s.readIdx xs) (s.readIdx + xs.length) ys =
      splice s.readBuf s.readIdx (xs ++ ys) := by
    funext i
    by_cases h1 : i < s.readIdx
    · rw [splice_of_lt (by omega), splice_of_lt h1, splice_of_lt h1]
    obtain ⟨j, rfl⟩ := Nat.exists_eq_add_of_le (Nat.le_of_not_lt h1)
    by_cases h2 : j < xs.length
    · rw [splice_of_lt (by omega), splice_add h2,
        splice_add (by rw [List.length_append]; omega), List.getElem_append_left h2]
    obtain ⟨j, rfl⟩ := Nat.exists_eq_add_of_le (Nat.le_of_not_lt h2)
    by_cases h3 : j < ys.length
    · rw [← Nat.add_assoc, splice_add h3, Nat.add_assoc,
        splice_add (by rw [List.length_append]; omega)]
      simp
    · rw [splice_of_le (by omega), splice_of_le (by omega),
        splice_of_le (by rw [List.length_append]; omega)]
  unfold Parser.read
  dsimp only
  rw [hbuf, List.length_append, Nat.add_assoc]

theorem clear_splice {zs : List ℕ} (hzs : ∀ z ∈ zs, z < n) :
    clear zs (splice m n chunk) = splice (clear zs m) n chunk := by
  induction zs generalizing m with
  | nil => rfl
  | cons z zs ih =>
    have hz := hzs z List.mem_cons_self
    have hupdate : Function.update (splice m n chunk) z NUL =
        splice (Function.update m z NUL) n chunk := by
      funext i
      by_cases hi : i = z
      · rw [hi, Function.update_self, splice_of_lt hz, Function.update_self]
      · rw [Function.update_of_ne hi]
        unfold splice
        rw [Function.update_of_ne hi]
    rw [clear, clear, hupdate]
    exact ih fun y hy => hzs y (List.mem_cons_of_mem _ hy)

/-- **The scan goes on where it stopped.**  What it has decided stays decided. -/
theorem scanLine_more (hm : ∀ i, c ≤ i → i < c + n → m' i = m i) (q : ℕ) :
    ((scanLine m n c).1 ≠ .LINE_OPEN → scanLine m' (n + q) c = scanLine m n c) ∧
    ((scanLine m n c).1 = .LINE_OPEN →
      scanLine m' (n + q) c =
        scanLine m' (c + n + q - (scanLine m n c).2) (scanLine m n c).2) := by
  induction n generalizing c with
  | zero =>
    refine ⟨fun h => absurd rfl h, fun _ => ?_⟩
    show scanLine m' (0 + q) c = scanLine m' (c + 0 + q - c) c
    rw [show c + 0 + q - c = 0 + q from by omega]
  | succ n ih =>
    have hc := hm c (by omega) (by omega)
    rw [show n + 1 + q = n + q + 1 from by omega]
    by_cases hcr : m c = CR
    · by_cases h0 : n = 0
      · have hscan : scanLine m (n + 1) c = (.LINE_OPEN, c) := by
          rw [scanLine, if_pos hcr, if_pos h0]
        rw [hscan]
        refine ⟨fun h => absurd rfl h, fun _ => ?_⟩
        dsimp only
        rw [show c + (n + 1) + q - c = n + q + 1 from by omega]
      · have hc' := hm (c + 1) (by omega) (by omega)
        have hscan : scanLine m (n + 1) c = (if m (c + 1) = LF then .LINE_OK else .LINE_BAD, c) := by
          rw [scanLine, if_pos hcr, if_neg h0]
          split_ifs <;> rfl
        have hscan' : scanLine m' (n + q + 1) c =
            (if m (c + 1) = LF then .LINE_OK else .LINE_BAD, c) := by
          rw [scanLine, if_pos (hc.trans hcr), if_neg (by omega), hc']
          split_ifs <;> rfl
        rw [hscan, hscan']
        refine ⟨fun _ => rfl, fun h => ?_⟩
        dsimp only at h
        split_ifs at h
    · by_cases hlf : m c = LF
      · have hscan : scanLine m (n + 1) c = (.LINE_BAD, c) := by
          rw [scanLine, if_neg hcr, if_pos hlf]
        have hscan' : scanLine m' (n + q + 1) c = (.LINE_BAD, c) := by
          rw [scanLine, hc, if_neg hcr, if_pos hlf]
        rw [hscan, hscan']
        have hne : LINE_STATUS.LINE_BAD ≠ .LINE_OPEN := by decide
        exact ⟨fun _ => rfl, fun hopen => absurd hopen hne⟩
      · have hscan : scanLine m (n + 1) c = scanLine m n (c + 1) := by
          rw [scanLine, if_neg hcr, if_neg hlf]
        have hscan' : scanLine m' (n + q + 1) c = scanLine m' (n + q) (c + 1) := by
          rw [scanLine, hc, if_neg hcr, if_neg hlf]
        have hrest := ih (c := c + 1) fun i h1 h2 => hm i (by omega) (by omega)
        rw [show c + 1 + n + q = c + (n + 1) + q from by omega] at hrest
        rw [hscan, hscan']
        exact hrest

theorem scanLine_bad (h : scanLine m n c = (.LINE_BAD, k)) :
    scanLine m (c + n - k) k = (.LINE_BAD, k) := by
  have hscan := scanLine_scanned m n c
  rw [h] at hscan
  have hle := hscan.le
  dsimp only at hle
  rcases hscan.bad rfl with ⟨hlt, hk⟩
  obtain ⟨j, hj⟩ : ∃ j, c + n - k = j + 1 := ⟨c + n - k - 1, by dsimp only at hlt; omega⟩
  rw [hj]
  rcases hk with ⟨hcr, hlast, hlf⟩ | hlf
  · dsimp only at hlast
    rw [scanLine, if_pos hcr, if_neg (by omega), if_neg hlf]
  · have hcr : m k ≠ CR := by
      rw [hlf]
      decide
    rw [scanLine, if_neg hcr, if_pos hlf]

/-! ### The scanner with more bytes -/

theorem stopAt_read (h : status = .LINE_OK → k + 2 ≤ s.readIdx) :
    stopAt (read chunk s) (status, k) = read chunk (stopAt s (status, k)) := by
  cases status with
  | LINE_OK =>
    have hk := h rfl
    have hzs : ∀ z ∈ [k, k + 1], z < s.readIdx := by
      intro z hz
      rcases List.mem_pair.mp hz with rfl | rfl <;> omega
    unfold stopAt Parser.read
    dsimp only
    rw [clear_splice hzs]
  | LINE_BAD => rfl
  | LINE_OPEN => rfl

theorem stopAt_checkedIdx (s : HttpConn) (c : ℕ) (r : LINE_STATUS × ℕ) :
    stopAt { s with checkedIdx := c } r = stopAt s r := by
  obtain ⟨status, k⟩ := r
  cases status <;> rfl

theorem stopAt_of_ne {r : LINE_STATUS × ℕ} (h : r.1 ≠ .LINE_OK) (s : HttpConn) :
    stopAt s r = { s with checkedIdx := r.2 } := by
  obtain ⟨status, k⟩ := r
  cases status with
  | LINE_OK => exact absurd rfl h
  | LINE_BAD => rfl
  | LINE_OPEN => rfl

/-- What the scan of a connection finds. -/
def found (s : HttpConn) : LINE_STATUS × ℕ :=
  scanLine s.readBuf (s.readIdx - s.checkedIdx) s.checkedIdx

theorem parseLine_found (h : Sane s) : parseLine s = .ok ((found s).1, stopAt s (found s)) :=
  parseLine_eq (Nat.le_of_lt h.short) h.behind

theorem stopAt_sane (h : Sane s) : Sane (stopAt s (found s)) := by
  obtain ⟨status, t, hline, ht, -⟩ := parseLine_sane h
  rw [parseLine_found h] at hline
  cases hline
  exact ht

theorem found_read (hc : s.checkedIdx ≤ s.readIdx) (chunk : Bytes) :
    found (read chunk s) = scanLine (splice s.readBuf s.readIdx chunk)
      (s.readIdx - s.checkedIdx + chunk.length) s.checkedIdx := by
  unfold found Parser.read
  dsimp only
  rw [show s.readIdx + chunk.length - s.checkedIdx = s.readIdx - s.checkedIdx + chunk.length
    from by omega]

theorem found_more (hc : s.checkedIdx ≤ s.readIdx) (chunk : Bytes) :
    ((found s).1 ≠ .LINE_OPEN → found (read chunk s) = found s) ∧
    ((found s).1 = .LINE_OPEN →
      found (read chunk s) = found (read chunk { s with checkedIdx := (found s).2 })) := by
  have hscanned := scanLine_scanned s.readBuf (s.readIdx - s.checkedIdx) s.checkedIdx
  have hend := hscanned.le_end
  have hsame : ∀ i, s.checkedIdx ≤ i → i < s.checkedIdx + (s.readIdx - s.checkedIdx) →
      splice s.readBuf s.readIdx chunk i = s.readBuf i := fun i h1 h2 => splice_of_lt (by omega)
  have hmore := scanLine_more hsame chunk.length
  rw [found_read hc]
  refine ⟨hmore.1, fun hopen => ?_⟩
  have hk : (found s).2 ≤ s.readIdx := by
    show (scanLine _ _ _).2 ≤ _
    omega
  rw [found_read (s := { s with checkedIdx := (found s).2 }) hk]
  dsimp only
  rw [show s.readIdx - (found s).2 + chunk.length =
    s.checkedIdx + (s.readIdx - s.checkedIdx) + chunk.length - (found s).2 from by omega]
  exact hmore.2 hopen

theorem parseLine_read (h : Sane s) (hq : s.readIdx + chunk.length < READ_BUFFER_SIZE)
    (hf : (found s).1 ≠ .LINE_OPEN) :
    parseLine (read chunk s) = .ok ((found s).1, read chunk (stopAt s (found s))) := by
  have hscanned := scanLine_scanned s.readBuf (s.readIdx - s.checkedIdx) s.checkedIdx
  have hchecked := h.checked_le
  rw [parseLine_found (read_sane h hq), (found_more h.checked_le chunk).1 hf]
  refine congrArg _ (congrArg _ (stopAt_read fun hok => ?_))
  have := (hscanned.ok hok).1
  show (scanLine _ _ _).2 + 2 ≤ _
  omega

theorem parseLine_read_open (h : Sane s) (hq : s.readIdx + chunk.length < READ_BUFFER_SIZE)
    (hf : (found s).1 = .LINE_OPEN) :
    parseLine (read chunk s) = parseLine (read chunk (stopAt s (found s))) := by
  have hstop := stopAt_of_ne (show (found s).1 ≠ .LINE_OK from by rw [hf]; nofun) s
  have hsane := stopAt_sane h
  rw [hstop] at hsane ⊢
  rw [parseLine_found (read_sane h hq), parseLine_found (read_sane hsane hq),
    ← (found_more h.checked_le chunk).2 hf]
  exact congrArg _ (congrArg _ (stopAt_checkedIdx (read chunk s) _ _).symm)

theorem parseLine_read_bad (h : Sane s) (hq : s.readIdx + chunk.length < READ_BUFFER_SIZE)
    (hf : (found s).1 = .LINE_BAD) :
    parseLine (read chunk (stopAt s (found s))) =
      .ok (.LINE_BAD, read chunk (stopAt s (found s))) := by
  have hmore := (found_more h.checked_le chunk).1 (by rw [hf]; nofun)
  have hscanned := scanLine_scanned s.readBuf (s.readIdx - s.checkedIdx) s.checkedIdx
  have hend := hscanned.le_end
  have hchecked := h.checked_le
  have hsane := stopAt_sane h
  obtain ⟨k, hk⟩ : ∃ k, found s = (.LINE_BAD, k) := ⟨(found s).2, by rw [← hf]⟩
  have hend' : k ≤ s.readIdx := by
    have : (found s).2 ≤ s.readIdx := by
      show (scanLine _ _ _).2 ≤ _
      omega
    rwa [hk] at this
  rw [hk] at hmore hsane ⊢
  rw [found_read hchecked] at hmore
  have hstay := scanLine_bad hmore
  have hfound : found (read chunk { s with checkedIdx := k }) = (.LINE_BAD, k) := by
    rw [found_read (s := { s with checkedIdx := k }) hend', ← hstay]
    dsimp only
    rw [show s.readIdx - k + chunk.length =
      s.checkedIdx + (s.readIdx - s.checkedIdx + chunk.length) - k from by omega]
  have hsane' : Sane { s with checkedIdx := k } := hsane
  show parseLine (read chunk { s with checkedIdx := k }) = _
  rw [parseLine_found (read_sane hsane' hq), hfound]
  rfl

/-! ### What has been received -/

/-- A pointer is null, or its string ends before `e`. -/
def EndsBefore (m : Buffer) (e : ℕ) (p : Option ℕ) : Prop :=
  ∀ i, p = some i → ∃ z, i ≤ z ∧ z < e ∧ m z = NUL

/-- The connection has received `got`, and has not come to a body. -/
structure Tracks (got : Bytes) (s : HttpConn) : Prop extends Sane s where
  readIdx : s.readIdx = got.length
  fresh : ∀ i (hi : i < got.length), s.startLine ≤ i → s.readBuf i = got[i]
  line : s.checkState = .CHECK_STATE_HEADER → ∃ pre, got.take s.startLine = pre ++ [CR, LF]
  noBody : s.checkState ≠ .CHECK_STATE_CONTENT ∧ s.contentLength = 0
  urlEnds : EndsBefore s.readBuf s.startLine s.url
  versionEnds : EndsBefore s.readBuf s.startLine s.version
  hostEnds : EndsBefore s.readBuf s.startLine s.host

theorem init_tracks : Tracks [] init where
  toSane := init_sane
  readIdx := rfl
  fresh := fun _ hi => absurd hi (Nat.not_lt_zero _)
  line := nofun
  noBody := ⟨nofun, rfl⟩
  urlEnds := fun _ => nofun
  versionEnds := fun _ => nofun
  hostEnds := fun _ => nofun

theorem EndsBefore.congr {e : ℕ} {ptr : Option ℕ} (h : EndsBefore m e ptr)
    (hm : ∀ i, i < e → m i = NUL → m' i = NUL) : EndsBefore m' e ptr := by
  intro i hi
  obtain ⟨z, h1, h2, h3⟩ := h i hi
  exact ⟨z, h1, h2, hm z h2 h3⟩

theorem read_tracks (h : Tracks got s) (hq : s.readIdx + chunk.length < READ_BUFFER_SIZE) :
    Tracks (got ++ chunk) (read chunk s) := by
  have hstart := Nat.le_trans h.start_le h.checked_le
  have hlen := h.readIdx
  have hkeep : ∀ i, i < s.startLine → s.readBuf i = NUL →
      splice s.readBuf s.readIdx chunk i = NUL := by
    intro i hi h0
    rw [splice_of_lt (by omega), h0]
  refine ⟨read_sane h.toSane hq, ?_, fun i hi hle => ?_, fun hst => ?_, h.noBody,
    h.urlEnds.congr hkeep, h.versionEnds.congr hkeep, h.hostEnds.congr hkeep⟩
  · show s.readIdx + chunk.length = _
    rw [List.length_append, hlen]
  · have hnew := splice_getElem (m := s.readBuf) (hlen.trans (Nat.zero_add _).symm) hi fun hlt => by
      rw [Nat.zero_add]
      exact h.fresh i hlt hle
    rwa [Nat.zero_add] at hnew
  · obtain ⟨pre, hpre⟩ := h.line hst
    refine ⟨pre, ?_⟩
    show (got ++ chunk).take s.startLine = _
    rw [List.take_append_of_le_length (by omega), hpre]

theorem stopAt_tracks (h : Tracks got s) (hf : (found s).1 ≠ .LINE_OK) :
    Tracks got (stopAt s (found s)) := by
  have hsane := stopAt_sane h.toSane
  rw [stopAt_of_ne hf] at hsane ⊢
  exact ⟨hsane, h.readIdx, h.fresh, h.line, h.noBody, h.urlEnds, h.versionEnds, h.hostEnds⟩

/-! ### One turn -/

/-- The line that ends at `k`. -/
def lineTo (got : Bytes) (s : HttpConn) (k : ℕ) : Bytes :=
  (got.drop s.startLine).take (k - s.startLine)

theorem found_ok (h : Tracks got s) (h0 : NUL ∉ got) (hf : found s = (.LINE_OK, k)) :
    s.checkedIdx ≤ k ∧ k + 2 ≤ got.length ∧
    got = got.take s.startLine ++ lineTo got s k ++ [CR, LF] ++ got.drop (k + 2) ∧
    At (stopAt s (.LINE_OK, k)).readBuf s.startLine (lineTo got s k) ∧
    s.startLine + (lineTo got s k).length = k := by
  have hstart := h.start_le
  have hchecked := h.checked_le
  have hlen := h.readIdx
  have hshort := h.short
  have hscanned : Scanned s.readBuf (s.readIdx - s.checkedIdx) s.checkedIdx (found s).1 (found s).2 :=
    scanLine_scanned _ _ _
  rw [hf] at hscanned
  obtain ⟨hk, hcr, hlf⟩ := hscanned.ok rfl
  have hle := hscanned.le
  dsimp only at hk hcr hlf hle
  have hline : (lineTo got s k).length = k - s.startLine := by
    unfold lineTo
    rw [List.length_take, List.length_drop]
    omega
  rw [h.fresh k (by omega) (by omega)] at hcr
  rw [h.fresh (k + 1) (by omega) (by omega)] at hlf
  refine ⟨hle, by omega, ?_, ?_, by omega⟩
  · have hrest : got.drop k = CR :: LF :: got.drop (k + 2) := by
      rw [List.drop_eq_getElem_cons (by omega), List.drop_eq_getElem_cons (by omega), hcr, hlf]
    have hmid : got.drop s.startLine = lineTo got s k ++ got.drop k := by
      unfold lineTo
      conv_lhs => rw [← List.take_append_drop (k - s.startLine) (got.drop s.startLine)]
      rw [List.drop_drop, show s.startLine + (k - s.startLine) = k from by omega]
    conv_lhs => rw [← List.take_append_drop s.startLine got, hmid, hrest]
    simp
  · refine at_of_getElem (fun i hi => ?_) (fun hmem => ?_) (by omega) ?_
    · show clear [k, k + 1] s.readBuf (s.startLine + i) = _
      rw [clear_of_notMem (by simp only [List.mem_cons, List.not_mem_nil, or_false, not_or]; omega),
        h.fresh _ (by omega) (by omega)]
      simp [lineTo]
    · unfold lineTo at hmem
      exact h0 (List.mem_of_mem_drop (List.mem_of_mem_take hmem))
    · show clear [k, k + 1] s.readBuf (s.startLine + (lineTo got s k).length) = NUL
      rw [hline, show s.startLine + (k - s.startLine) = k from by omega]
      exact clear_self _ _ _

theorem apply_read {e : Effect} (h : Tracks got s) (hk : k + 2 ≤ got.length)
    (he : e.Within s.startLine k) (chunk : Bytes) :
    e.apply (nextLine (read chunk (stopAt s (.LINE_OK, k)))) =
      ((e.apply (nextLine (stopAt s (.LINE_OK, k)))).1,
        read chunk (e.apply (nextLine (stopAt s (.LINE_OK, k)))).2) := by
  have hclear : clear e.zeros (splice (clear [k, k + 1] s.readBuf) s.readIdx chunk) =
      splice (clear e.zeros (clear [k, k + 1] s.readBuf)) s.readIdx chunk := by
    refine clear_splice fun z hz => ?_
    have hlen := h.readIdx
    have := (he.zeros z hz).2
    omega
  unfold Effect.apply nextLine Parser.read stopAt
  dsimp only
  rw [hclear]

theorem EndsBefore.moved {e : ℕ} {ptr ptr' : Option ℕ} (h : EndsBefore m p ptr)
    (hmoved : Moved p k ptr ptr') (hpe : p ≤ e) (hk : k < e) (h0 : m k = NUL) :
    EndsBefore m e ptr' := by
  intro i hi
  rcases hmoved with rfl | hrange
  · obtain ⟨z, h1, h2, h3⟩ := h i hi
    exact ⟨z, h1, by omega, h3⟩
  · obtain ⟨-, hik⟩ := hrange i hi
    exact ⟨k, hik, hk, h0⟩

/-- After the parser of the line `got` is still what has been received. -/
theorem apply_tracks (h : Tracks got s) (h0 : NUL ∉ got) (hf : found s = (.LINE_OK, k)) {e : Effect}
    (he : e.Within s.startLine k)
    (hbody : (e.head s.toHead).checkState ≠ .CHECK_STATE_CONTENT ∧
      (e.head s.toHead).contentLength = 0)
    (hsane : Sane (e.apply (nextLine (stopAt s (.LINE_OK, k)))).2) :
    Tracks got (e.apply (nextLine (stopAt s (.LINE_OK, k)))).2 := by
  obtain ⟨hck, hk, hsplit, -, hend⟩ := found_ok h h0 hf
  have hstart := h.start_le
  have hkeep : ∀ i, s.readBuf i = NUL → clear e.zeros (clear [k, k + 1] s.readBuf) i = NUL :=
    fun i hi => clear_of_eq (clear_of_eq hi)
  have hnul : clear e.zeros (clear [k, k + 1] s.readBuf) k = NUL :=
    clear_of_eq (clear_self _ _ _)
  have hends : ∀ ptr ptr', EndsBefore s.readBuf s.startLine ptr → Moved s.startLine k ptr ptr' →
      EndsBefore (clear e.zeros (clear [k, k + 1] s.readBuf)) (k + 2) ptr' := by
    intro ptr ptr' hptr hmoved
    exact (hptr.congr fun i _ => hkeep i).moved hmoved (by omega) (by omega) hnul
  refine ⟨hsane, h.readIdx, fun i hi hle => ?_, fun _ => ?_, hbody,
    hends _ _ h.urlEnds (he.url _), hends _ _ h.versionEnds (he.version _),
    hends _ _ h.hostEnds (he.host _)⟩
  · have hle' : k + 2 ≤ i := hle
    show clear e.zeros (clear [k, k + 1] s.readBuf) i = _
    rw [clear_of_notMem fun hz => ?_, clear_of_notMem fun hz => ?_]
    · exact h.fresh i hi (by omega)
    · rcases List.mem_pair.mp hz with rfl | rfl <;> omega
    · have := (he.zeros i hz).2
      omega
  · refine ⟨got.take s.startLine ++ lineTo got s k, ?_⟩
    have hlen : (got.take s.startLine ++ lineTo got s k ++ [CR, LF]).length = k + 2 := by
      rw [List.length_append, List.length_append, List.length_take]
      simp only [List.length_cons, List.length_nil]
      omega
    show got.take (k + 2) = _
    conv_lhs => rw [hsplit]
    exact List.take_left' hlen

theorem at_read (h : Tracks got s) (hk : k + 2 ≤ got.length) (chunk : Bytes)
    (hat : At (stopAt s (.LINE_OK, k)).readBuf p line) (hend : p + line.length = k) :
    At (read chunk (stopAt s (.LINE_OK, k))).readBuf p line := by
  have hlen := h.readIdx
  refine hat.congr fun i _ hi => ?_
  show splice _ s.readIdx chunk i = _
  exact splice_of_lt (by omega)

theorem doRequest_read (h : Tracks got s) (hst : s.checkState ≠ .CHECK_STATE_REQUESTLINE)
    (chunk : Bytes) : doRequest stat (read chunk s) = doRequest stat s := by
  obtain ⟨u, hu, -⟩ := h.url hst
  obtain ⟨z, huz, hz, hnul⟩ := h.urlEnds u hu
  have hstart := h.start_le
  have hchecked := h.checked_le
  have hshort := h.short
  obtain ⟨url, hat, hle⟩ := Strings.exists_at huz (by omega) hnul
  have hat' : At (read chunk s).readBuf u url := by
    refine hat.congr fun i _ hi => ?_
    exact splice_of_lt (by omega)
  have hu' : (read chunk s).url = some u := hu
  unfold doRequest
  rw [hu, hu']
  dsimp only
  rw [hat.cstring, hat'.cstring]

/-- What a turn with a line does, and that it does the same when there are more bytes behind. -/
structure LineTurn (stat : Stat) (got rest : Bytes) (k : ℕ) (s : HttpConn)
    (ret : Option HTTP_CODE) (t : HttpConn) : Prop where
  turn : turn stat (stopAt s (.LINE_OK, k)) = .ok (ret, .LINE_OK, t)
  tracks : Tracks got t
  checkedIdx : t.checkedIdx = k + 2
  last : ret = some .NO_REQUEST → rest = []
  more : ∀ chunk, Parser.turn stat (read chunk (stopAt s (.LINE_OK, k))) =
    .ok (ret, .LINE_OK, read chunk t)

theorem lineTurn_requestLine (stat : Stat) (h0 : NUL ∉ got) (h : Tracks got s) (hf : found s = (.LINE_OK, k))
    (hst : s.checkState = .CHECK_STATE_REQUESTLINE) :
    ∃ ret t, LineTurn stat got rest k s ret t := by
  obtain ⟨hck, hk, hsplit, hat, hend⟩ := found_ok h h0 hf
  have hsane := stopAt_sane h.toSane
  rw [hf] at hsane
  obtain ⟨e, he, happly⟩ := parseRequestLine_effect s.startLine (lineTo got s k)
  have hwithin := he.toWithin
  rw [hend] at hwithin
  obtain ⟨r, hr, hturned⟩ := turn_requestLine stat hsane hst
  have hturn := turn_of_requestLine stat hat hst happly
  rw [hturn] at hr
  cases hr
  refine ⟨_, _, hturn, apply_tracks h h0 hf hwithin ⟨?_, ?_⟩ hturned.sane, rfl, ?_, fun chunk => ?_⟩
  · rcases he.code s.toHead with ⟨-, hkeep⟩ | ⟨-, hheader, -⟩
    · rw [hkeep, hst]
      nofun
    · rw [hheader]
      nofun
  · rw [he.rest]
    exact h.noBody.2
  · split_ifs <;> nofun
  · have hturn' := turn_of_requestLine stat (at_read h hk chunk hat hend) hst happly
    rw [hturn', apply_read h hk hwithin]
    rfl

/-- What a header does where there are no bodies: the empty line is the end of the request, and of
all the bytes. -/
theorem header_effect (hw : Plain whole) (hgot : whole = got ++ rest) (h : Tracks got s)
    (hf : found s = (.LINE_OK, k)) (hst : s.checkState = .CHECK_STATE_HEADER) {e : Effect} {a b : ℕ}
    (he : e.Headers (lineTo got s k) a b) :
    (e.head s.toHead).checkState = .CHECK_STATE_HEADER ∧ (e.head s.toHead).contentLength = 0 ∧
      e.code s.toHead = (if lineTo got s k = [] then .GET_REQUEST else .NO_REQUEST) ∧
      (lineTo got s k = [] → rest = []) := by
  have h0 : NUL ∉ got := fun hmem => hw.noNUL (hgot ▸ List.mem_append_left _ hmem)
  obtain ⟨-, -, hsplit, -⟩ := found_ok h h0 hf
  obtain ⟨pre, hpre⟩ := h.line hst
  have hnone : s.contentLength = 0 := h.noBody.2
  -- the line among all the bytes
  have hwhole : whole = pre ++ [CR, LF] ++ lineTo got s k ++ [CR, LF] ++ (got.drop (k + 2) ++ rest) := by
    rw [hgot]
    conv_lhs => rw [hsplit, hpre]
    simp only [List.append_assoc]
  refine ⟨?_, ?_, ?_, fun hempty => ?_⟩
  · rw [he.checkState, if_neg fun hc => hc.2 hnone]
    exact hst
  · rcases he.length s.toHead with heq | ⟨hcl, -⟩
    · rw [heq]
      exact hnone
    · rw [hw.noLength _ _ _ hwhole] at hcl
      exact absurd hcl Bool.false_ne_true
  · rw [he.code]
    simp [hnone]
  · rw [hempty, List.append_nil] at hwhole
    exact (List.append_eq_nil_iff.mp (hw.last _ _ hwhole)).2

theorem lineTurn_header (stat : Stat) (hw : Plain whole) (hgot : whole = got ++ rest) (h : Tracks got s)
    (hf : found s = (.LINE_OK, k)) (hst : s.checkState = .CHECK_STATE_HEADER) :
    ∃ ret t, LineTurn stat got rest k s ret t := by
  have h0 : NUL ∉ got := fun hmem => hw.noNUL (hgot ▸ List.mem_append_left _ hmem)
  obtain ⟨hck, hk, hsplit, hat, hend⟩ := found_ok h h0 hf
  have hsane := stopAt_sane h.toSane
  rw [hf] at hsane
  obtain ⟨e, he, happly⟩ := parseHeaders_effect s.startLine (lineTo got s k)
  obtain ⟨hstate, hlength, hcode, hlast⟩ := header_effect hw hgot h hf hst he
  have hwithin := he.toWithin
  rw [hend] at hwithin
  have hbody : (e.head s.toHead).checkState ≠ .CHECK_STATE_CONTENT ∧
      (e.head s.toHead).contentLength = 0 := by
    rw [hstate]
    exact ⟨by decide, hlength⟩
  obtain ⟨r, hr, hturned⟩ := turn_header stat hsane hst
  have hturn := turn_of_header stat hat hst happly
  have hturn' := fun chunk =>
    turn_of_header stat (at_read h hk chunk hat hend) hst happly
  have htracks := apply_tracks h h0 hf hwithin hbody
  have hcode' : (e.apply (nextLine (stopAt s (.LINE_OK, k)))).1 = _ := hcode
  have hstate' : (e.apply (nextLine (stopAt s (.LINE_OK, k)))).2.checkState = _ := hstate
  have hchecked : (e.apply (nextLine (stopAt s (.LINE_OK, k)))).2.checkedIdx = k + 2 := rfl
  simp only [apply_read h hk hwithin] at hturn'
  generalize e.apply (nextLine (stopAt s (.LINE_OK, k))) = v
    at hturn hturn' htracks hcode' hstate' hchecked
  obtain ⟨code, t⟩ := v
  dsimp only at hturn hturn' htracks hcode' hstate' hchecked
  by_cases hline : lineTo got s k = []
  · -- the empty line: the request is done
    obtain rfl : code = .GET_REQUEST := by rw [hcode', if_pos hline]
    rw [if_neg (by decide), if_pos rfl] at hturn
    simp only [reduceCtorEq, if_false, if_true] at hturn'
    have hr' := hr
    rw [hturn] at hr'
    obtain ⟨ret, hret, hpair⟩ := bind_eq_ok.mp hr'
    cases hpair
    have ht : Tracks got t := htracks hturned.sane
    refine ⟨some ret, t, hr, ht, hchecked, fun _ => hlast hline, fun chunk => ?_⟩
    have hrequest : t.checkState ≠ .CHECK_STATE_REQUESTLINE := by
      rw [hstate']
      nofun
    rw [hturn' chunk, doRequest_read ht hrequest chunk, hret]
    rfl
  · obtain rfl : code = .NO_REQUEST := by rw [hcode', if_neg hline]
    rw [if_neg (by decide), if_neg (by decide)] at hturn
    simp only [reduceCtorEq, if_false] at hturn'
    rw [hturn] at hr
    cases hr
    exact ⟨none, t, hturn, htracks hturned.sane, hchecked, nofun, hturn'⟩

/-- **A line is parsed as it will be with more bytes behind it.** -/
theorem lineTurn (stat : Stat) (hw : Plain whole) (hgot : whole = got ++ rest) (h : Tracks got s)
    (hf : found s = (.LINE_OK, k)) : ∃ ret t, LineTurn stat got rest k s ret t := by
  cases hst : s.checkState with
  | CHECK_STATE_REQUESTLINE =>
    exact lineTurn_requestLine stat (fun hmem => hw.noNUL (hgot ▸ List.mem_append_left _ hmem)) h hf hst
  | CHECK_STATE_HEADER => exact lineTurn_header stat hw hgot h hf hst
  | CHECK_STATE_CONTENT => exact absurd hst h.noBody.1

/-! ### The loop -/

theorem loop_mono {x : HTTP_CODE × HttpConn} (h : processReadLoop stat n status s = .ok x)
    (q : ℕ) : processReadLoop stat (n + q) status s = .ok x := by
  induction n generalizing s status with
  | zero => cases h
  | succ n ih =>
    rw [show n + 1 + q = n + q + 1 from by omega]
    unfold processReadLoop at h ⊢
    obtain ⟨⟨status', t⟩, htest, h⟩ := bind_eq_ok.mp h
    rw [htest, ok_bind]
    dsimp only at h ⊢
    by_cases hst : status' = .LINE_OK
    · rw [if_pos hst] at h ⊢
      obtain ⟨⟨ret, status'', u⟩, hturn, h⟩ := bind_eq_ok.mp h
      rw [hturn, ok_bind]
      cases ret with
      | some code => exact h
      | none => exact ih h
    · rw [if_neg hst] at h ⊢
      exact h

theorem loopTest_eq (h : s.checkState ≠ .CHECK_STATE_CONTENT) : loopTest status s = parseLine s := by
  unfold loopTest
  rw [if_neg fun hc => h hc.1]

theorem loop_congr {status' : LINE_STATUS} (hs : s.checkState ≠ .CHECK_STATE_CONTENT)
    (ht : t.checkState ≠ .CHECK_STATE_CONTENT) (h : parseLine s = parseLine t) (n : ℕ) :
    processReadLoop stat n status s = processReadLoop stat n status' t := by
  rcases n with _ | n
  · rfl
  · unfold processReadLoop
    rw [loopTest_eq hs, loopTest_eq ht, h]

theorem loop_stop {status' : LINE_STATUS} (hs : s.checkState ≠ .CHECK_STATE_CONTENT)
    (h : parseLine s = .ok (status', t)) (hst : status' ≠ .LINE_OK) (n : ℕ) :
    processReadLoop stat (n + 1) status s = .ok (.NO_REQUEST, t) := by
  unfold processReadLoop
  rw [loopTest_eq hs, h, ok_bind]
  exact if_neg hst

theorem loop_code {u : HttpConn} {code : HTTP_CODE} {status' : LINE_STATUS}
    (hs : s.checkState ≠ .CHECK_STATE_CONTENT) (h : parseLine s = .ok (.LINE_OK, t))
    (hturn : turn stat t = .ok (some code, status', u)) (n : ℕ) :
    processReadLoop stat (n + 1) status s = .ok (code, u) := by
  unfold processReadLoop
  rw [loopTest_eq hs, h, ok_bind]
  dsimp only
  rw [if_pos rfl, hturn]
  rfl

theorem loop_next {u : HttpConn} {status' : LINE_STATUS}
    (hs : s.checkState ≠ .CHECK_STATE_CONTENT) (h : parseLine s = .ok (.LINE_OK, t))
    (hturn : turn stat t = .ok (none, status', u)) (n : ℕ) :
    processReadLoop stat (n + 1) status s = processReadLoop stat n status' u := by
  conv_lhs => unfold processReadLoop
  rw [loopTest_eq hs, h, ok_bind]
  dsimp only
  rw [if_pos rfl, hturn]
  rfl

/-- What a call of the loop does in the bytes received, and what it will do with more of them. -/
structure LoopTracks (stat : Stat) (n : ℕ) (status : LINE_STATUS) (got rest : Bytes) (s : HttpConn)
    (r : HTTP_CODE) (t : HttpConn) : Prop where
  loop : processReadLoop stat n status s = .ok (r, t)
  tracks : Tracks got t
  done : r ≠ .NO_REQUEST → ∀ chunk, s.readIdx + chunk.length < READ_BUFFER_SIZE →
    processReadLoop stat n status (read chunk s) = .ok (r, read chunk t)
  resume : r = .NO_REQUEST → rest ≠ [] → ∀ chunk, s.readIdx + chunk.length < READ_BUFFER_SIZE →
    ∀ m x, processReadLoop stat m .LINE_OK (read chunk t) = .ok x →
      ∃ m', processReadLoop stat m' status (read chunk s) = .ok x

theorem parseLine_read_line (h : Sane s) (hq : s.readIdx + chunk.length < READ_BUFFER_SIZE)
    (hf : found s = (.LINE_OK, k)) :
    parseLine (read chunk s) = .ok (.LINE_OK, read chunk (stopAt s (.LINE_OK, k))) := by
  have hline := parseLine_read h hq (by rw [hf]; nofun)
  rwa [hf] at hline

theorem LineTurn.ends {code : HTTP_CODE} (ht : LineTurn stat got rest k s (some code) t)
    (h : Tracks got s) (hf : found s = (.LINE_OK, k)) :
    LoopTracks stat (n + 1) status got rest s code t := by
  have hcontent := h.noBody.1
  have hread : ∀ chunk, (read chunk s).checkState ≠ .CHECK_STATE_CONTENT := fun _ => hcontent
  have hline := parseLine_found h.toSane
  rw [hf] at hline
  refine ⟨loop_code hcontent hline ht.turn n, ht.tracks, fun _ chunk hq => ?_, fun hno hrest => ?_⟩
  · exact loop_code (hread chunk) (parseLine_read_line h.toSane hq hf) (ht.more chunk) n
  · exact absurd (ht.last (by rw [hno])) hrest

theorem LineTurn.next {u : HttpConn} {r : HTTP_CODE} (ht : LineTurn stat got rest k s none t)
    (h : Tracks got s) (hf : found s = (.LINE_OK, k))
    (hu : LoopTracks stat n .LINE_OK got rest t r u) :
    LoopTracks stat (n + 1) status got rest s r u := by
  have hcontent := h.noBody.1
  have hread : ∀ chunk, (read chunk s).checkState ≠ .CHECK_STATE_CONTENT := fun _ => hcontent
  have hreadIdx : t.readIdx = s.readIdx := ht.tracks.readIdx.trans h.readIdx.symm
  have hline := parseLine_found h.toSane
  rw [hf] at hline
  refine ⟨(loop_next hcontent hline ht.turn n).trans hu.loop, hu.tracks,
    fun hne chunk hq => ?_, fun hno hrest chunk hq m x hx => ?_⟩
  · rw [loop_next (hread chunk) (parseLine_read_line h.toSane hq hf) (ht.more chunk) n]
    exact hu.done hne chunk (by omega)
  · obtain ⟨m', hm'⟩ := hu.resume hno hrest chunk (by omega) m x hx
    refine ⟨m' + 1, ?_⟩
    rw [loop_next (hread chunk) (parseLine_read_line h.toSane hq hf) (ht.more chunk) m']
    exact hm'

/-- What is found will never be a line: the loop stops now, and stops again with more bytes. -/
theorem loopTracks_bad (h : Tracks got s) (hf : (found s).1 = .LINE_BAD) :
    LoopTracks stat (n + 1) status got rest s .NO_REQUEST (stopAt s (found s)) := by
  have hne : (found s).1 ≠ .LINE_OK := by
    rw [hf]
    nofun
  have hstop := stopAt_tracks h hne
  refine ⟨loop_stop h.noBody.1 (parseLine_found h.toSane) hne n, hstop,
    fun hno => absurd rfl hno, fun _ _ chunk hq m x hx => ⟨1, ?_⟩⟩
  have hfirst := parseLine_read h.toSane hq (by rw [hf]; nofun)
  have hagain := parseLine_read_bad h.toSane hq hf
  have hbefore : (read chunk s).checkState ≠ .CHECK_STATE_CONTENT := h.noBody.1
  have hafter : (read chunk (stopAt s (found s))).checkState ≠ .CHECK_STATE_CONTENT := hstop.noBody.1
  rcases m with _ | m
  · cases hx
  · rw [loop_stop hafter hagain (by decide) m] at hx
    rw [loop_stop hbefore hfirst hne 0]
    exact hx

/-- The line has no end yet: with more bytes the scan goes on where it stopped. -/
theorem loopTracks_open (h : Tracks got s) (hf : (found s).1 = .LINE_OPEN) :
    LoopTracks stat (n + 1) status got rest s .NO_REQUEST (stopAt s (found s)) := by
  have hne : (found s).1 ≠ .LINE_OK := by
    rw [hf]
    nofun
  have hstop := stopAt_tracks h hne
  refine ⟨loop_stop h.noBody.1 (parseLine_found h.toSane) hne n, hstop,
    fun hno => absurd rfl hno, fun _ _ chunk hq m x hx => ⟨m, ?_⟩⟩
  have hbefore : (read chunk s).checkState ≠ .CHECK_STATE_CONTENT := h.noBody.1
  have hafter : (read chunk (stopAt s (found s))).checkState ≠ .CHECK_STATE_CONTENT := hstop.noBody.1
  rw [loop_congr hbefore hafter (parseLine_read_open h.toSane hq hf) m]
  exact hx

/-- **The loop goes on where it stopped.**  Induction on the turns: a line is parsed as it will be
with more bytes behind it, and where no line is found, the scan will go on or stay. -/
theorem loop_tracks (hw : Plain whole) (hgot : whole = got ++ rest) (h : Tracks got s)
    (hn : s.readIdx - s.checkedIdx < n) (status : LINE_STATUS) :
    ∃ r t, LoopTracks stat n status got rest s r t := by
  have h0 : NUL ∉ got := fun hmem => hw.noNUL (hgot ▸ List.mem_append_left _ hmem)
  induction n generalizing s status with
  | zero => omega
  | succ n ih =>
    cases hf : (found s).1 with
    | LINE_OK =>
      obtain ⟨k, hk⟩ : ∃ k, found s = (.LINE_OK, k) := ⟨(found s).2, by rw [← hf]⟩
      obtain ⟨ret, t, ht⟩ := lineTurn stat hw hgot h hk
      cases ret with
      | some code => exact ⟨code, t, ht.ends h hk⟩
      | none =>
        obtain ⟨hck, hkl, -⟩ := found_ok h h0 hk
        have hleft : t.readIdx - t.checkedIdx < n := by
          have hlen := h.readIdx
          have hlen' := ht.tracks.readIdx
          rw [ht.checkedIdx]
          omega
        obtain ⟨r, u, hu⟩ := ih ht.tracks hleft .LINE_OK
        exact ⟨r, u, ht.next h hk hu⟩
    | LINE_BAD => exact ⟨_, _, loopTracks_bad h hf⟩
    | LINE_OPEN => exact ⟨_, _, loopTracks_open h hf⟩

/-! ### Calls -/

theorem processRead_of_loop {x y : HTTP_CODE × HttpConn} (hy : processRead stat s = .ok y)
    (hx : processReadLoop stat n .LINE_OK s = .ok x) : processRead stat s = .ok x := by
  have h1 := loop_mono hx (2 * (s.readIdx - s.checkedIdx) + 2)
  have h2 := loop_mono (n := 2 * (s.readIdx - s.checkedIdx) + 2) hy n
  rw [Nat.add_comm, h1] at h2
  rw [hy, Except.ok.inj h2]

theorem processRead_tracks (stat : Stat) (hw : Plain whole) (hgot : whole = got ++ rest) (h : Tracks got s) :
    ∃ r t, LoopTracks stat (2 * (s.readIdx - s.checkedIdx) + 2) .LINE_OK got rest s r t :=
  loop_tracks hw hgot h (by omega) .LINE_OK

/-- **The chunks are parsed as if they had come at once.**  Induction on the chunks. -/
theorem feed_tracks (stat : Stat) {chunks : List Bytes} (hw : Plain whole)
    (hgot : whole = got ++ (chunk ++ chunks.flatten)) (h : Tracks got s)
    (hne : ∀ c ∈ chunks, c ≠ []) :
    ∃ r t later, feed stat (chunk :: chunks) s = .ok (r, t) ∧
      processRead stat (read (chunk ++ chunks.flatten) s) = .ok (r, read later t) ∧
      ∃ got', Tracks got' t := by
  induction chunks generalizing chunk got s with
  | nil =>
    have hlen := congrArg List.length hgot
    rw [List.flatten_nil, List.append_nil] at hgot ⊢
    rw [List.flatten_nil, List.append_nil, List.length_append] at hlen
    have hq : s.readIdx + chunk.length < READ_BUFFER_SIZE := by
      rw [h.readIdx, ← hlen]
      exact hw.short
    obtain ⟨r, t, ht⟩ := processRead_tracks stat hw
      (hgot.trans (List.append_nil _).symm) (read_tracks h hq)
    have hcall : processRead stat (read chunk s) = .ok (r, t) := ht.loop
    refine ⟨r, t, [], ?_, by rw [read_nil, hcall], _, ht.tracks⟩
    rw [feed, hcall, ok_bind]
    dsimp only
    by_cases hr : r = .NO_REQUEST
    · rw [if_pos hr, hr]
      rfl
    · rw [if_neg hr]
      rfl
  | cons c cs ih =>
    rw [List.flatten_cons] at hgot ⊢
    have hrest : c ++ cs.flatten ≠ [] := by
      intro hnil
      exact hne c List.mem_cons_self (List.append_eq_nil_iff.mp hnil).1
    generalize hall : c ++ cs.flatten = rest at *
    have hlen := congrArg List.length hgot
    rw [List.length_append, List.length_append] at hlen
    have hshort := hw.short
    have hidx := h.readIdx
    have hq : s.readIdx + chunk.length < READ_BUFFER_SIZE := by omega
    have hq' : (read chunk s).readIdx + rest.length < READ_BUFFER_SIZE := by
      show s.readIdx + chunk.length + rest.length < _
      omega
    rw [← List.append_assoc] at hgot
    have hs := read_tracks h hq
    obtain ⟨r, t, ht⟩ := processRead_tracks stat hw hgot hs
    have hcall : processRead stat (read chunk s) = .ok (r, t) := ht.loop
    obtain ⟨y, hy⟩ : ∃ y, processRead stat (read rest (read chunk s)) = .ok y := by
      obtain ⟨r', t', ht'⟩ := processRead_tracks stat hw
        (hgot.trans (List.append_nil _).symm) (read_tracks hs hq')
      exact ⟨_, ht'.loop⟩
    rw [feed, hcall, ok_bind, ← read_read]
    dsimp only
    by_cases hr : r = .NO_REQUEST
    · rw [if_pos hr]
      have hgot' : whole = got ++ chunk ++ (c ++ cs.flatten) := by
        rw [hall]
        exact hgot
      obtain ⟨r', t', later, hfeed, hcall', htracks⟩ :=
        ih hgot' ht.tracks fun d hd => hne d (List.mem_cons_of_mem _ hd)
      rw [hall] at hcall'
      obtain ⟨m, hm⟩ := ht.resume hr hrest rest hq' _ _ hcall'
      exact ⟨r', t', later, hfeed, processRead_of_loop hy hm, htracks⟩
    · rw [if_neg hr]
      exact ⟨r, t, rest, rfl, processRead_of_loop hy (ht.done hr rest hq'), _, ht.tracks⟩

theorem text_read (later : Bytes) {ptr : Option ℕ} (h : Tracks got s)
    (hends : EndsBefore s.readBuf s.startLine ptr) : text (read later s) ptr = text s ptr := by
  cases ptr with
  | none => rfl
  | some i =>
    obtain ⟨z, hi, hz, hnul⟩ := hends i rfl
    have hstart := h.start_le
    have hchecked := h.checked_le
    have hshort := h.short
    obtain ⟨str, hat, hle⟩ := Strings.exists_at hi (by omega) hnul
    have hat' : At (read later s).readBuf i str := by
      refine hat.congr fun j _ hj => ?_
      exact splice_of_lt (by omega)
    show some (cstring _ i) = some (cstring _ i)
    rw [hat.cstring, hat'.cstring]

/-- **Parsing does not depend on chunking.**  The last result is that of one call on all the bytes, and
the parser ends in the same state. -/
theorem feed_eq_processRead (stat : Stat) {chunks : List Bytes} (hne : ∀ c ∈ chunks, c ≠ [])
    (h : Plain chunks.flatten) :
    ∃ r t t', feed stat chunks init = .ok (r, t) ∧
      processRead stat (read chunks.flatten init) = .ok (r, t') ∧
      t.checkState = t'.checkState ∧ t.linger = t'.linger ∧ t.startLine = t'.startLine ∧
      t.checkedIdx = t'.checkedIdx ∧ text t t.url = text t' t'.url ∧
      text t t.version = text t' t'.version ∧ text t t.host = text t' t'.host := by
  rcases chunks with _ | ⟨c, cs⟩
  · refine ⟨.NO_REQUEST, init, init, rfl, ?_, rfl, rfl, rfl, rfl, rfl, rfl, rfl⟩
    rw [List.flatten_nil, read_nil]
    rfl
  · obtain ⟨r, t, later, hfeed, hcall, got, ht⟩ := feed_tracks stat h rfl init_tracks
      fun d hd => hne d (List.mem_cons_of_mem _ hd)
    exact ⟨r, t, read later t, hfeed, hcall, rfl, rfl, rfl, rfl, (text_read later ht ht.urlEnds).symm,
      (text_read later ht ht.versionEnds).symm, (text_read later ht ht.hostEnds).symm⟩

/-- `Plain` can be checked place by place. -/
theorem plain_of_forall (h0 : NUL ∉ whole) (hshort : whole.length < READ_BUFFER_SIZE)
    (hlength : ∀ i ∈ List.range whole.length, (whole.drop i).take 2 = [CR, LF] →
      isContentLength (whole.drop (i + 2)) = false)
    (hlast : ∀ i ∈ List.range whole.length, (whole.drop i).take 4 = [CR, LF, CR, LF] →
      whole.length ≤ i + 4) : Plain whole := by
  refine ⟨h0, hshort, fun pre line post hsplit => ?_, fun pre post hsplit => ?_⟩
  · have hmem : pre.length ∈ List.range whole.length := by
      rw [List.mem_range, hsplit]
      simp only [List.length_append, List.length_cons, List.length_nil]
      omega
    have hdrop : whole.drop pre.length = [CR, LF] ++ (line ++ [CR, LF] ++ post) := by
      rw [hsplit]
      simp
    have hnot := hlength _ hmem (by rw [hdrop]; rfl)
    rw [← List.drop_drop, hdrop] at hnot
    by_contra hcl
    rw [Bool.not_eq_false] at hcl
    have hlen := le_of_sameText hcl rfl
    have hsame : isContentLength ([CR, LF] ++ (line ++ [CR, LF] ++ post)).tail.tail =
        isContentLength line := by
      unfold isContentLength
      show sameText (List.take 15 (line ++ [CR, LF] ++ post)) _ = _
      rw [List.append_assoc, List.take_append_of_le_length hlen]
    rw [← hsame] at hcl
    exact Bool.false_ne_true (hnot.symm.trans hcl)
  · have hmem : pre.length ∈ List.range whole.length := by
      rw [List.mem_range, hsplit]
      simp only [List.length_append, List.length_cons, List.length_nil]
      omega
    have hdrop : whole.drop pre.length = [CR, LF, CR, LF] ++ post := by
      rw [hsplit]
      simp
    have hle := hlast _ hmem (by rw [hdrop]; rfl)
    rw [hsplit] at hle
    simp only [List.length_append, List.length_cons, List.length_nil] at hle
    exact List.eq_nil_of_length_eq_zero (by omega)

/-- A request cut inside the first line end, inside a name and inside the last line end. -/
theorem feed_eq_processRead_cut :
    let chunks := [ascii "GET /a HTTP/1.1\r", ascii "\nHo", ascii "st: b\r\n\r", ascii "\n"]
    ∃ r t t', feed (fun _ => some 4) chunks init = .ok (r, t) ∧
      processRead (fun _ => some 4) (read chunks.flatten init) = .ok (r, t') ∧
      t.checkState = t'.checkState ∧ t.linger = t'.linger ∧ t.startLine = t'.startLine ∧
      t.checkedIdx = t'.checkedIdx ∧ text t t.url = text t' t'.url ∧
      text t t.version = text t' t'.version ∧ text t t.host = text t' t'.host := by
  intro chunks
  refine feed_eq_processRead _ (by decide +kernel) (plain_of_forall ?_ ?_ ?_ ?_)
  · decide +kernel
  · decide +kernel
  · decide +kernel
  · decide +kernel

end ReactorServer.Conn.Chunks
