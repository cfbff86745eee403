import ReactorServer.Conn.Announcing

/-!
# Lengths that fit

`parseContent` adds the length a client has announced to the place of the scanner, and clears the
byte that far behind the line.  A connection parses in bounds whatever arrives, and however it is cut,
if and only if every length that is announced fits (`in_bounds_iff`): the headers and the request line
are always in bounds, and so is a body of a length that can be added to any index; a body of a greater
length is never complete, and the scanner comes to where the sum overflows or it does not.
-/

namespace ReactorServer.Conn.Lengths

open ReactorServer.Cpp ReactorServer.Lib.Runs
open ReactorServer.Conn.Strings ReactorServer.Conn.Parser ReactorServer.Conn.Calls
open ReactorServer.Conn.Bounds ReactorServer.Conn.Chunks ReactorServer.Conn.RequestLine
open ReactorServer.Conn.Heads ReactorServer.Conn.Bodies ReactorServer.Conn.Announcing

variable {stat : Stat} {s t : HttpConn} {m k p : ℕ} {c n : ℤ} {status : LINE_STATUS}
  {l u x y R W ahead rest chunk : Bytes} {cs : List Bytes}

/-! ### Calls that follow -/

/-- A call has ended: if there is no answer, the next chunk is read. -/
def goOn (stat : Stat) (chunks : List Bytes) (r : HTTP_CODE × HttpConn) :
    Except Fault (HTTP_CODE × HttpConn) :=
  if r.1 = .NO_REQUEST then feed stat chunks r.2 else pure r

theorem feed_cons (stat : Stat) (chunk : Bytes) (cs : List Bytes) (s : HttpConn) :
    feed stat (chunk :: cs) s = processRead stat (read chunk s) >>= goOn stat cs := by
  rw [feed]
  refine congrArg _ (funext fun r => ?_)
  cases r
  rfl

theorem goOn_answer {r : HTTP_CODE × HttpConn} (h : r.1 ≠ .NO_REQUEST) :
    ∃ r', goOn stat cs r = .ok r' := ⟨r, if_neg h⟩

/-! ### Bodies that are never complete -/

theorem byte_drop {i j : ℕ} (h : AtLine y p s) (hi : i < (y.drop j).length) :
    (y.drop j)[i]? = some (s.readBuf (p + j + i)) := by
  have hlen := h.readIdx
  rw [h.start] at hlen
  rw [List.length_drop] at hi
  rw [List.getElem?_drop, byte_of_atLine h (by omega), Nat.add_assoc]

/-- The scanner stops in the middle of a line, or at a malformed line end. -/
theorem stays_found {j : ℕ} (h : AtLine y p s) (hne : (found s).1 ≠ .LINE_OK)
    (hj : (found s).2 = p + j) : Stays (y.drop j) := by
  have hscan := scanned_atLine h
  have hlen := h.readIdx
  rw [h.start] at hlen
  have hdrop : (y.drop j).length = y.length - j := List.length_drop
  cases hstatus : (found s).1 with
  | LINE_OK => exact absurd hstatus hne
  | LINE_BAD =>
    obtain ⟨hk, ⟨hcr, hk', hnolf⟩ | hlf⟩ := hscan.bad hstatus
    · rw [hj] at hcr hnolf
      refine Or.inr (Or.inr ⟨?_, ?_⟩)
      · rw [byte_drop h (by omega), Nat.add_zero, hcr]
      · rw [byte_drop h (by omega)]
        exact fun heq => hnolf (Option.some.inj heq)
    · rw [hj] at hlf
      refine Or.inr (Or.inl ?_)
      rw [byte_drop h (by omega), Nat.add_zero, hlf]
  | LINE_OPEN =>
    rcases hscan.opn hstatus with hk | ⟨hk, hcr⟩
    · exact Or.inl (List.drop_eq_nil_of_le (by omega))
    · rw [hj] at hcr
      refine Or.inr (Or.inr ⟨?_, ?_⟩)
      · rw [byte_drop h (by omega), Nat.add_zero, hcr]
      · rw [List.getElem?_eq_none (by omega)]
        nofun

theorem found_stops (h : AtLine y p s) (hne : (found s).1 ≠ .LINE_OK) :
    ∃ x rest, y = x ++ rest ∧ IsLine x ∧ Stays rest ∧
      AtLine rest (p + x.length) (nextLine (stopAt s (found s))) := by
  have hscan := scanned_atLine h
  have hlen := h.readIdx
  have hle := hscan.le
  have hend := hscan.le_end
  have hreceived := stop_received h.toReceived hne
  rw [h.start] at hlen
  obtain ⟨j, hj⟩ := Nat.exists_eq_add_of_le hle
  have hjlen : j ≤ y.length := by omega
  have hxlen : (y.take j).length = j := List.length_take_of_le hjlen
  refine ⟨y.take j, y.drop j, (List.take_append_drop j y).symm, ?_, stays_found h hne hj, ?_⟩
  · have hline : ∀ a ∈ y.take j, a ≠ CR ∧ a ≠ LF := by
      intro a ha
      obtain ⟨i, hi, rfl⟩ := List.getElem_of_mem ha
      have hfresh := h.fresh i (by omega)
      rw [h.start] at hfresh
      rw [List.getElem_take, ← hfresh]
      exact hscan.passed (p + i) (by omega) (by omega)
    exact ⟨fun hm => (hline _ hm).1 rfl, fun hm => (hline _ hm).2 rfl⟩
  · rw [stopAt_of_ne hne] at hreceived ⊢
    have hsane : Sane (nextLine { s with checkedIdx := (found s).2 }) :=
      hreceived.toSane.clear [] hreceived.url hreceived.length
    refine ⟨⟨hsane, ?_, fun i hi => ?_, fun i hi hlt => ?_⟩, ?_, ?_⟩
    · show s.readIdx = (found s).2 + _
      rw [List.length_drop]
      omega
    · show s.readBuf ((found s).2 + i) = _
      have hbyte := byte_drop h hi
      rw [List.getElem?_eq_getElem hi] at hbyte
      rw [hj]
      exact (Option.some.inj hbyte).symm
    · have hlt' : (found s).2 + i < (found s).2 := hlt
      omega
    · show (found s).2 = _
      rw [hxlen, hj]
    · show (found s).2 = _
      rw [hxlen, hj]

/-- The connection is in a body that does not fit into the buffer.  The scanner is at `p`, before
`y`. -/
structure InLarge (p : ℕ) (n : ℤ) (y : Bytes) (s : HttpConn) : Prop extends Sane s where
  state : s.checkState = .CHECK_STATE_CONTENT
  bodyLength : s.contentLength = n
  large : INT_MAX - READ_BUFFER_SIZE < n
  ahead : AtLine y p (nextLine s)

theorem InLarge.outstanding (h : InLarge p n y s) : Outstanding s := by
  have hshort := h.short
  have hlarge := h.large
  have hmax : (2 * READ_BUFFER_SIZE : ℤ) ≤ INT_MAX := by decide
  refine ⟨h.toSane, h.state, ?_⟩
  rw [h.bodyLength]
  omega

theorem InLarge.turn_ok (stat : Stat) (h : InLarge p n y s) (hp : p + n ≤ INT_MAX) :
    turn stat s = .ok (none, .LINE_OPEN, nextLine s) := by
  rcases h.outstanding.turn stat with ⟨hturn, -⟩ | ⟨hover, -⟩
  · exact hturn
  · have hchecked : s.checkedIdx = p := h.ahead.checked
    rw [h.bodyLength, hchecked] at hover
    omega

theorem InLarge.turn_error (stat : Stat) (h : InLarge p n y s) (hp : INT_MAX < p + n) :
    ∃ f, turn stat s = .error f := by
  have hchecked : s.checkedIdx = p := h.ahead.checked
  obtain ⟨f, hf, -⟩ := (turn_content stat h.toSane h.state).2 fun hfits => by
    have hhigh := hfits.2
    rw [h.bodyLength, hchecked] at hhigh
    omega
  exact ⟨f, hf⟩

theorem InLarge.read (h : InLarge p n y s) (hq : s.readIdx + chunk.length < READ_BUFFER_SIZE) :
    InLarge p n (y ++ chunk) (read chunk s) where
  toSane := read_sane h.toSane hq
  state := h.state
  bodyLength := h.bodyLength
  large := h.large
  ahead := ⟨read_received h.ahead.toReceived hq, h.ahead.start, h.ahead.checked⟩

theorem InLarge.withLine (h : InLarge p n y s) (hy : y = l ++ CR :: LF :: rest) (hl : IsLine l) :
    InLarge (p + l.length + 2) n rest (withLine (nextLine s) l) := by
  have hat := h.ahead
  have hsane := withLine_sane hat.toReceived hy hl
  have hnext : Sane (nextLine (Heads.withLine (nextLine s) l)) :=
    hsane.clear [] hsane.url hsane.length
  have hwithin : Effect.Within ⟨fun _ => .NO_REQUEST, id, []⟩ (nextLine s).startLine
      ((nextLine s).startLine + (lineText l).length) :=
    ⟨nofun, fun _ => Or.inl rfl, fun _ => Or.inl rfl, fun _ => Or.inl rfl⟩
  have hreceived := apply_received hat.toReceived hy hwithin hnext
  refine ⟨hsane, h.state, h.bodyLength, h.large, hreceived, ?_, ?_⟩
  · show s.checkedIdx + l.length + 2 = _
    rw [show s.checkedIdx = p from hat.checked]
  · show s.checkedIdx + l.length + 2 = _
    rw [show s.checkedIdx = p from hat.checked]

/-- How a call that has begun to scan the body ends. -/
inductive Scans (p : ℕ) (n : ℤ) (y : Bytes) : Except Fault (HTTP_CODE × HttpConn) → Prop
  /-- a line of the body ends where the sum overflows -/
  | overflows {f : Fault} {x rest : Bytes} (hy : y = x ++ CR :: LF :: rest) (hx : Passed x)
      (hover : INT_MAX < p + x.length + 2 + n) : Scans p n y (.error f)
  /-- the scanner stops -/
  | stops {t : HttpConn} {x rest : Bytes} (hy : y = x ++ rest) (hx : Passed x) (hrest : Stays rest)
      (ht : InLarge (p + x.length) n rest t) (hlines : ∀ x' rest', y = x' ++ CR :: LF :: rest' →
        Passed x' → p + x'.length + 2 + n ≤ INT_MAX) : Scans p n y (.ok (.NO_REQUEST, t))

theorem Scans.line {r : Except Fault (HTTP_CODE × HttpConn)} (hl : IsLine l)
    (hp : (p + l.length + 2 : ℕ) + n ≤ INT_MAX) (h : Scans (p + l.length + 2) n rest r) :
    Scans p n (l ++ CR :: LF :: rest) r := by
  have hsplit : ∀ x, l ++ CR :: LF :: x = l ++ [CR, LF] ++ x := fun x => by simp
  have hlen : (l ++ [CR, LF]).length = l.length + 2 := by simp
  cases h with
  | @overflows f x y hy hx hover =>
    have hbytes : l ++ CR :: LF :: rest = l ++ [CR, LF] ++ x ++ CR :: LF :: y := by
      rw [hy]
      simp
    refine .overflows hbytes ((passed_line hl).append hx) ?_
    rw [List.length_append, hlen]
    omega
  | @stops t x y hy hx hrest ht hlines =>
    have hbytes : l ++ CR :: LF :: rest = l ++ [CR, LF] ++ x ++ y := by
      rw [hy]
      simp
    refine .stops hbytes ((passed_line hl).append hx) hrest ?_ ?_
    · rw [List.length_append, hlen, show p + (l.length + 2 + x.length) = p + l.length + 2 + x.length
        from by omega]
      exact ht
    · intro x' rest' heq hx'
      rw [hsplit] at heq
      rcases (passed_line hl).line_end heq hx' with hle | ⟨z, rfl, hz, hpassed⟩
      · omega
      · have hline := hlines z rest' hz hpassed
        rw [List.length_append, hlen]
        omega

/-- The scan of a body that is never complete.  Induction on the turns. -/
theorem large_scans (stat : Stat) (h : InLarge p n y s) (hp : p + n ≤ INT_MAX)
    (hm : y.length + 1 ≤ m) :
    Scans p n y (processReadLoop stat m .LINE_OPEN (nextLine s)) := by
  induction m generalizing s p y with
  | zero => omega
  | succ m ih =>
    have hat := h.ahead
    have htest : loopTest .LINE_OPEN (nextLine s) =
        .ok ((found (nextLine s)).1, stopAt (nextLine s) (found (nextLine s))) := by
      unfold loopTest
      rw [if_neg (fun hc => nomatch hc.2), parseLine_found hat.toSane]
    unfold processReadLoop
    rw [htest, ok_bind]
    dsimp only
    by_cases hok : (found (nextLine s)).1 = .LINE_OK
    · obtain ⟨l, rest, hl, rfl, hk⟩ := exists_line hat.toReceived
        (show found (nextLine s) = (.LINE_OK, (found (nextLine s)).2) from by rw [← hok])
      have hnext := h.withLine rfl hl
      rw [if_pos hok, found_line hat.toReceived rfl hl]
      change Scans p n _ (turn stat (Heads.withLine (nextLine s) l) >>= _)
      by_cases hover : ((p + l.length + 2 : ℕ) : ℤ) + n ≤ INT_MAX
      · rw [hnext.turn_ok stat hover, ok_bind]
        have hm' : rest.length + 1 ≤ m := by
          rw [List.length_append, List.length_cons, List.length_cons] at hm
          omega
        exact (ih hnext hover hm').line hl hover
      · obtain ⟨f, hf⟩ := hnext.turn_error stat (Int.not_le.mp hover)
        rw [hf]
        refine .overflows rfl (passed_of_isLine hl) ?_
        omega
    · obtain ⟨x, rest, rfl, hx, hrest, hahead⟩ := found_stops hat hok
      rw [if_neg hok]
      have hsane := stopAt_sane hat.toSane
      rw [stopAt_of_ne hok] at hsane hahead ⊢
      refine .stops rfl (passed_of_isLine hx) hrest ⟨hsane, h.state, h.bodyLength, h.large, hahead⟩ ?_
      -- there is no line in what has been passed
      intro x' rest' heq hx'
      have hpassed : Passed (x' ++ [CR, LF]) := hx'.append (.line .nil)
      have hsplit : x ++ rest = (x' ++ [CR, LF]) ++ rest' := by simpa using heq
      have hle := (passed_of_isLine hx).furthest hrest hsplit hpassed
      rcases List.append_eq_append_iff.mp heq with ⟨z, rfl, -⟩ | ⟨z, rfl, hz⟩
      · simp only [List.length_append, List.length_cons, List.length_nil] at hle
        omega
      · rcases z with _ | ⟨a, z⟩
        · simp only [List.length_append, List.length_cons, List.length_nil] at hle
          omega
        · obtain ⟨rfl, -⟩ := List.cons.inj hz
          exact absurd (List.mem_append_right _ List.mem_cons_self) hx.1

theorem InLarge.sizes (h : InLarge p n y s) : s.checkedIdx = p ∧ s.readIdx = p + y.length := by
  have hread : s.readIdx = s.checkedIdx + y.length := h.ahead.readIdx
  have hchecked : s.checkedIdx = p := h.ahead.checked
  exact ⟨hchecked, by omega⟩

theorem large_call (stat : Stat) (h : InLarge p n y s) (hover : p + n ≤ INT_MAX)
    (hm : y.length + 2 ≤ m) : Scans p n y (processReadLoop stat m .LINE_OK s) := by
  obtain ⟨m, rfl⟩ : ∃ m', m = m' + 1 := ⟨m - 1, by omega⟩
  rw [loop_body h.state, h.turn_ok stat hover]
  exact large_scans stat h hover (by omega)

theorem large_error (stat : Stat) (h : InLarge p n y s) (hover : INT_MAX < p + n) (hm : 0 < m) :
    ∃ f, processReadLoop stat m .LINE_OK s = .error f := by
  obtain ⟨m, rfl⟩ : ∃ m', m = m' + 1 := ⟨m - 1, by omega⟩
  obtain ⟨f, hf⟩ := h.turn_error stat hover
  rw [loop_body h.state, hf]
  exact ⟨f, rfl⟩

theorem not_ok_error {α β : Type} {f : Fault} {g : α → Except Fault β} :
    ¬∃ r, ((.error f : Except Fault α) >>= g) = .ok r := by
  rintro ⟨r, hr⟩
  cases hr

/-- **In a body that is never complete** the calls go on if and only if the length fits.  Induction
on the chunks. -/
theorem large_goes (stat : Stat) (h : InLarge p n y s) (hover : p + n ≤ INT_MAX)
    (hp : p = k + x.length) (hx : Passed x) (h0 : 0 ≤ k + n) (hm : y.length + 2 ≤ m)
    (hlen : s.readIdx + cs.flatten.length < READ_BUFFER_SIZE) :
    (∃ r, (processReadLoop stat m .LINE_OK s >>= goOn stat cs) = .ok r) ↔
      ∀ pre post, cs = pre ++ post → FitsBehind k n (x ++ y ++ pre.flatten) (post ≠ []) := by
  induction cs generalizing s p x y m with
  | nil =>
    have hscans := large_call stat h hover hm
    generalize processReadLoop stat m .LINE_OK s = r at hscans
    cases hscans with
    | overflows hy hx' hover' =>
      refine iff_of_false not_ok_error fun hfits => ?_
      have hfit := hfits [] [] rfl
      rw [List.flatten_nil, List.append_nil] at hfit
      exact not_fits_of_over hp hx hy hx' hover' hfit
    | stops hy hx' hrest ht hlines =>
      refine iff_of_true ⟨_, rfl⟩ fun pre post hcs => ?_
      obtain ⟨rfl, rfl⟩ := List.append_eq_nil_iff.mp hcs.symm
      rw [List.flatten_nil, List.append_nil]
      exact fits_of_scans hp hx h0 hover hy hx' hrest hlines fun hne => absurd rfl hne
  | cons chunk cs ih =>
    have hscans := large_call stat h hover hm
    have hread := h.sizes.2
    generalize processReadLoop stat m .LINE_OK s = r at hscans
    rw [List.flatten_cons, List.length_append] at hlen
    rw [forall_split_cons, List.flatten_nil, List.append_nil]
    cases hscans with
    | overflows hy hx' hover' =>
      exact iff_of_false not_ok_error fun hfits => not_fits_of_over hp hx hy hx' hover' hfits.1
    | @stops t x' rest hy hx' hrest ht hlines =>
      obtain ⟨htchecked, htread⟩ := ht.sizes
      have hsize := congrArg List.length hy
      rw [List.length_append] at hsize
      have hq : t.readIdx + chunk.length < READ_BUFFER_SIZE := by omega
      have hnext := ht.read hq
      obtain ⟨hchecked', hread'⟩ := hnext.sizes
      rw [ok_bind]
      change (∃ r, feed stat (chunk :: cs) t = .ok r) ↔ _
      rw [feed_cons, processRead]
      by_cases hover' : ((p + x'.length : ℕ) : ℤ) + n ≤ INT_MAX
      · have hfirst : FitsBehind k n (x ++ y) (chunk :: cs ≠ []) :=
          fits_of_scans hp hx h0 hover hy hx' hrest hlines fun _ => hover'
        rw [ih hnext hover' (x := x ++ x') (by rw [List.length_append]; omega) (hx.append hx')
          (by omega) (by show t.readIdx + chunk.length + _ < _; omega), and_iff_right hfirst]
        simp only [hy, List.flatten_cons, List.append_assoc]
      · obtain ⟨f, hf⟩ := large_error stat hnext (Int.not_le.mp hover') (Nat.succ_pos _)
        rw [hf]
        refine iff_of_false not_ok_error fun hfits => hover' ?_
        have hscanned := hfits.1.scanned (by simp) (x ++ x') rest (by rw [hy, List.append_assoc])
          (hx.append hx')
        rw [List.length_append] at hscanned
        omega

/-! ### Bodies of other lengths -/

theorem parseContent_keeps {j : ℕ} {r : HTTP_CODE} (h : parseContent j s = .ok (r, t)) :
    t.toHead = s.toHead ∧ t.startLine = s.startLine := by
  unfold parseContent at h
  obtain ⟨received, -, h⟩ := bind_eq_ok.mp h
  split_ifs at h
  · obtain ⟨v, hv, h⟩ := bind_eq_ok.mp h
    unfold clearAt at hv
    obtain ⟨w, -, hv⟩ := bind_eq_ok.mp hv
    cases hv
    cases h
    exact ⟨rfl, rfl⟩
  · cases h
    exact ⟨rfl, rfl⟩

theorem turn_keeps {r : Option HTTP_CODE × LINE_STATUS × HttpConn} (h : turn stat s = .ok r)
    (hst : s.checkState = .CHECK_STATE_CONTENT) :
    r.2.2.toHead = s.toHead ∧ r.2.2.startLine = s.checkedIdx := by
  unfold turn at h
  obtain ⟨text, -, h⟩ := bind_eq_ok.mp h
  rw [show (nextLine s).checkState = _ from hst] at h
  dsimp only at h
  obtain ⟨⟨ret, v⟩, hv, h⟩ := bind_eq_ok.mp h
  have hkeep := parseContent_keeps hv
  dsimp only at h
  split_ifs at h
  · obtain ⟨code, -, h⟩ := bind_eq_ok.mp h
    cases h
    exact hkeep
  · cases h
    exact hkeep

theorem stopAt_startLine (s : HttpConn) (r : LINE_STATUS × ℕ) :
    (stopAt s r).startLine = s.startLine := by
  obtain ⟨status, k⟩ := r
  cases status <;> rfl

theorem loopTest_startLine {status' : LINE_STATUS} (h : Sane s)
    (htest : loopTest status s = .ok (status', t)) : t.startLine = s.startLine := by
  unfold loopTest at htest
  split_ifs at htest
  · cases htest
    rfl
  · rw [parseLine_found h] at htest
    cases htest
    exact stopAt_startLine s _

/-- The connection is in a body of a length that can be added to any index. -/
structure InSmall (n : ℤ) (s : HttpConn) : Prop extends Sane s where
  state : s.checkState = .CHECK_STATE_CONTENT
  bodyLength : s.contentLength = n
  low : -(s.startLine : ℤ) ≤ n
  small : n ≤ INT_MAX - READ_BUFFER_SIZE

theorem InSmall.congr (h : InSmall n s) (ht : Sane t) (hhead : t.toHead = s.toHead)
    (hstart : s.startLine ≤ t.startLine) : InSmall n t where
  toSane := ht
  state := (congrArg Head.checkState hhead).trans h.state
  bodyLength := (congrArg Head.contentLength hhead).trans h.bodyLength
  low := by
    have hlow := h.low
    omega
  small := h.small

theorem InSmall.turn (stat : Stat) (h : InSmall n s) :
    ∃ r, turn stat s = .ok r ∧ Turned s r ∧ InSmall n r.2.2 := by
  have hshort := h.short
  have hchecked := h.checked_le
  have hsmall := h.small
  have hfits : LengthFits s := by
    rw [LengthFits, h.bodyLength]
    exact ⟨h.low, by omega⟩
  obtain ⟨r, hr, hturned⟩ := (turn_content stat h.toSane h.state).1 hfits
  obtain ⟨hhead, hstart⟩ := turn_keeps hr h.state
  exact ⟨r, hr, hturned, h.congr hturned.sane hhead (hstart ▸ h.start_le)⟩

theorem small_loop (stat : Stat) (h : InSmall n s) (hm : turnsLeft status s ≤ m) :
    ∃ r t, processReadLoop stat m status s = .ok (r, t) ∧ InSmall n t ∧ t.readIdx = s.readIdx := by
  induction m generalizing s status with
  | zero =>
    have := turnsLeft_pos status s
    omega
  | succ m ih =>
    obtain ⟨status', t, htest, ht, hhead, hread, hle, hok⟩ := loopTest_sane h.toSane status
    have hnext := h.congr ht hhead (loopTest_startLine h.toSane htest).ge
    unfold processReadLoop
    rw [htest, ok_bind]
    dsimp only
    by_cases hst : status' = .LINE_OK
    · obtain ⟨⟨ret, status'', v⟩, hturn, hturned, hv⟩ := hnext.turn stat
      rw [if_pos hst, hturn, ok_bind]
      cases ret with
      | some code => exact ⟨code, v, rfl, hv, hturned.readIdx.trans hread⟩
      | none =>
        have hlt := turnsLeft_lt ht hhead hread hle (hok hst) hturned rfl
        dsimp only at hlt hv
        obtain ⟨r, w, hw, hsmall, hread'⟩ := ih hv (Nat.le_of_lt_succ (Nat.lt_of_lt_of_le hlt hm))
        exact ⟨r, w, hw, hsmall, hread'.trans (hturned.readIdx.trans hread)⟩
    · rw [if_neg hst]
      exact ⟨_, t, rfl, hnext, hread⟩

theorem turnsLeft_le (status : LINE_STATUS) (s : HttpConn) :
    turnsLeft status s ≤ 2 * (s.readIdx - s.checkedIdx) + 2 := by
  unfold turnsLeft
  split_ifs <;> omega

/-- The calls go on, whatever comes.  Induction on the chunks. -/
theorem small_goes (stat : Stat) (h : InSmall n s)
    (hm : 2 * (s.readIdx - s.checkedIdx) + 2 ≤ m)
    (hlen : s.readIdx + cs.flatten.length < READ_BUFFER_SIZE) :
    ∃ r, (processReadLoop stat m .LINE_OK s >>= goOn stat cs) = .ok r := by
  induction cs generalizing s m with
  | nil =>
    obtain ⟨r, t, hloop, -, -⟩ := small_loop stat h (Nat.le_trans (turnsLeft_le _ _) hm)
    rw [hloop, ok_bind]
    by_cases hr : r = .NO_REQUEST
    · exact ⟨_, if_pos hr⟩
    · exact goOn_answer hr
  | cons chunk cs ih =>
    obtain ⟨r, t, hloop, ht, hread⟩ := small_loop stat h (Nat.le_trans (turnsLeft_le _ _) hm)
    rw [hloop, ok_bind]
    by_cases hr : r = .NO_REQUEST
    · subst hr
      rw [List.flatten_cons, List.length_append] at hlen
      change ∃ r, feed stat (chunk :: cs) t = .ok r
      rw [feed_cons]
      have hnext : InSmall n (read chunk t) :=
        ht.congr (read_sane ht.toSane (by omega)) rfl (Nat.le_refl _)
      refine ih hnext (Nat.le_refl _) ?_
      show t.readIdx + chunk.length + _ < _
      omega
    · exact goOn_answer hr

/-- **Behind a head with a body** the calls go on if and only if the length fits. -/
theorem body_goes (stat : Stat) (h : AtLine rest k s) (hst : s.checkState = .CHECK_STATE_CONTENT)
    (hm : 2 * (s.readIdx - s.checkedIdx) + 2 ≤ m)
    (hlen : s.readIdx + cs.flatten.length < READ_BUFFER_SIZE) :
    (∃ r, (processReadLoop stat m .LINE_OK s >>= goOn stat cs) = .ok r) ↔
      ∀ pre post, cs = pre ++ post → FitsBehind k s.contentLength (rest ++ pre.flatten) (post ≠ []) := by
  have hread := h.readIdx
  have hchecked := h.checked
  have hmax : (READ_BUFFER_SIZE : ℤ) ≤ INT_MAX := by decide
  rw [h.start] at hread
  by_cases hlow : 0 ≤ k + s.contentLength
  · by_cases hsmall : s.contentLength ≤ INT_MAX - READ_BUFFER_SIZE
    · have hinit : InSmall s.contentLength s :=
        ⟨h.toSane, hst, rfl, by rw [h.start]; omega, hsmall⟩
      refine iff_of_true (small_goes stat hinit hm hlen) fun pre post hcs => ?_
      -- nothing that is received reaches far enough
      have hsize : k + (rest ++ pre.flatten).length < READ_BUFFER_SIZE := by
        rw [hcs, List.flatten_append, List.length_append] at hlen
        rw [List.length_append]
        omega
      refine ⟨hlow, by omega, fun x rest' heq _ => ?_, fun _ x rest' heq _ => ?_⟩
      · rw [heq, List.length_append, List.length_cons, List.length_cons] at hsize
        omega
      · rw [heq, List.length_append] at hsize
        omega
    · have hlarge : InLarge k s.contentLength rest s :=
        ⟨h.toSane, hst, rfl, Int.not_le.mp hsmall,
          nextLine_atLine h (h.toSane.clear [] h.url h.length)⟩
      by_cases hover : k + s.contentLength ≤ INT_MAX
      · have hm' : rest.length + 2 ≤ m := by omega
        have hgoes := large_goes stat hlarge hover (x := []) rfl .nil hlow hm' hlen
        simpa only [List.nil_append] using hgoes
      · obtain ⟨f, hf⟩ := large_error stat hlarge (Int.not_le.mp hover) (Nat.lt_of_lt_of_le
          (Nat.succ_pos _) hm)
        rw [hf]
        exact iff_of_false not_ok_error fun hfits => hover (hfits [] cs rfl).high
  · obtain ⟨f, hf, -⟩ := (turn_content stat h.toSane hst).2 fun hfits => hlow (by
      have := hfits.1
      rw [h.start] at this
      omega)
    obtain ⟨m, rfl⟩ : ∃ m', m = m' + 1 := ⟨m - 1, by omega⟩
    rw [loop_body hst, hf]
    exact iff_of_false not_ok_error fun hfits => hlow (hfits [] cs rfl).low

/-! ### The headers -/

/-- The connection is in the headers, behind the bytes `W`; they have announced `c`, and the url is
`u`. -/
structure InHeader (W ahead : Bytes) (c : ℤ) (u : Bytes) (s : HttpConn) : Prop
    extends Received ahead s where
  state : s.checkState = .CHECK_STATE_HEADER
  bodyLength : s.contentLength = c
  start : s.startLine = W.length
  target : ∃ q, Url q u s

theorem InHeader.read (h : InHeader W ahead c u s)
    (hq : s.readIdx + chunk.length < READ_BUFFER_SIZE) :
    InHeader W (ahead ++ chunk) c u (read chunk s) where
  toReceived := read_received h.toReceived hq
  state := h.state
  bodyLength := h.bodyLength
  start := h.start
  target := by
    obtain ⟨q, hu⟩ := h.target
    exact ⟨q, hu.read h.toSane chunk⟩

theorem InHeader.stop (h : InHeader W ahead c u s) (hne : (found s).1 ≠ .LINE_OK) :
    InHeader W ahead c u (stopAt s (found s)) := by
  have hreceived := stop_received h.toReceived hne
  rw [stopAt_of_ne hne] at hreceived ⊢
  obtain ⟨q, hu⟩ := h.target
  exact ⟨hreceived, h.state, h.bodyLength, h.start, q, hu.url, hu.at_url, hu.before⟩

theorem InHeader.next (h : InHeader W ahead c u s) {c' : ℤ}
    (ht : AtLine rest (s.startLine + l.length + 2) t)
    (hst : t.checkState = .CHECK_STATE_HEADER) (hc : t.contentLength = c') (hu : Url q u t) :
    InHeader (W ++ ended [l]) rest c' u t where
  toReceived := ht.toReceived
  state := hst
  bodyLength := hc
  start := by
    rw [ht.start, h.start, List.length_append, ended_length_one]
    omega
  target := ⟨q, hu⟩

theorem unended_of_found (h : Received ahead s) (hne : (found s).1 ≠ .LINE_OK) :
    Unended (W ++ ahead) W c := by
  intro ls n x hls heq
  rw [List.append_assoc] at heq
  have hahead := List.append_cancel_left heq
  have hline : ∃ l ls', ls = l :: ls' ∧ IsLine l := by
    cases hls with
    | last hl _ => exact ⟨_, _, rfl, hl⟩
    | header hl _ _ => exact ⟨_, _, rfl, hl⟩
  obtain ⟨l, ls', rfl, hl⟩ := hline
  rw [ended_append] at hahead
  exact hne (by rw [found_line h hahead hl])

/-- The calls go on in the headers if and only if the lengths fit. -/
def HeaderGoes (stat : Stat) (u : Bytes) (cs : List Bytes) : Prop :=
  ∀ {s : HttpConn} {m : ℕ} {b : LINE_STATUS} {W ahead : Bytes} {c : ℤ}, InHeader W ahead c u s →
    2 * (s.readIdx - s.checkedIdx) + 2 ≤ m → s.readIdx + cs.flatten.length < READ_BUFFER_SIZE →
    ((∃ r, (processReadLoop stat m b s >>= goOn stat cs) = .ok r) ↔
      Fitting (stat (readFile u) = none) (W ++ ahead) W c cs)

theorem feed_header (hnext : ∀ chunk cs', cs = chunk :: cs' → HeaderGoes stat u cs')
    (h : InHeader W ahead c u s) (hlen : s.readIdx + cs.flatten.length < READ_BUFFER_SIZE) :
    (∃ r, feed stat cs s = .ok r) ↔ ∀ chunk cs', cs = chunk :: cs' →
      Fitting (stat (readFile u) = none) (W ++ ahead ++ chunk) W c cs' := by
  rcases cs with _ | ⟨chunk, cs⟩
  · exact iff_of_true ⟨_, rfl⟩ nofun
  · rw [List.flatten_cons, List.length_append] at hlen
    have hq : s.readIdx + chunk.length < READ_BUFFER_SIZE := by omega
    have hread := h.read hq
    have hgoes := hnext chunk cs rfl hread (b := .LINE_OK) (Nat.le_refl _) (by
      show s.readIdx + chunk.length + _ < _
      omega)
    rw [feed_cons, processRead, hgoes, ← List.append_assoc]
    constructor
    · intro hfits chunk' cs' hcs
      obtain ⟨rfl, rfl⟩ := List.cons.inj hcs
      exact hfits
    · exact fun hall => hall chunk cs rfl

/-- The headers end, and no body has been announced. -/
theorem header_empty (hnext : ∀ chunk cs', cs = chunk :: cs' → HeaderGoes stat u cs')
    (h : InHeader W ahead 0 u s) (hahead : ahead = l ++ CR :: LF :: rest) (hl : IsLine l)
    (hempty : lineText l = []) (hlen : s.readIdx + cs.flatten.length < READ_BUFFER_SIZE) :
    (∃ r, (processReadLoop stat (m + 1) status s >>= goOn stat cs) = .ok r) ↔
      Fitting (stat (readFile u) = none) (W ++ ahead) W 0 cs := by
  have hR : W ++ ahead = W ++ (l ++ CR :: LF :: rest) := by rw [hahead]
  have hR' : W ++ ahead = W ++ ended [l] ++ rest := by
    rw [hahead, List.append_assoc, ended_append]
    rfl
  obtain ⟨q, hu⟩ := h.target
  obtain ⟨t, hturn, ht, hst, hlength, hurl⟩ :=
    turn_empty_line stat h.toReceived hahead hl h.state hempty h.bodyLength hu
  have hafter := h.next ht hst hlength hurl
  rw [loop_code (state_ne_content h.state) (parseLine_line h.toReceived hahead hl) hturn m, ok_bind,
    fitting_empty hl hempty hR]
  by_cases hmissing : stat (readFile u) = none
  · have hcode : fileCode stat u = .NO_REQUEST := by
      by_contra hne
      have hsome := fileCode_ne.mp hne
      rw [hmissing] at hsome
      cases hsome
    have hsame : t.readIdx = s.readIdx := by
      have hreadIdx := h.readIdx
      have htread := ht.readIdx
      rw [ht.start] at htread
      rw [hahead, List.length_append, List.length_cons, List.length_cons] at hreadIdx
      omega
    rw [goOn, if_pos hcode, hR', feed_header hnext hafter (by rw [hsame]; exact hlen)]
    exact (imp_iff_right hmissing).symm
  · refine iff_of_true (goOn_answer ?_) fun habs => absurd habs hmissing
    exact fileCode_ne.mpr (Option.isSome_iff_ne_none.mpr hmissing)

/-- The headers end, and a body follows. -/
theorem header_last (stat : Stat) (cs : List Bytes) (h : InHeader W ahead c u s)
    (hahead : ahead = l ++ CR :: LF :: rest) (hl : IsLine l) (hempty : lineText l = []) (h0 : c ≠ 0)
    (hm : 2 * (s.readIdx - s.checkedIdx) + 2 ≤ m + 1)
    (hlen : s.readIdx + cs.flatten.length < READ_BUFFER_SIZE) :
    (∃ r, (processReadLoop stat (m + 1) status s >>= goOn stat cs) = .ok r) ↔
      Fitting (stat (readFile u) = none) (W ++ ahead) W c cs := by
  have hR : W ++ ahead = W ++ (l ++ CR :: LF :: rest) := by rw [hahead]
  obtain ⟨t, hturn, ht, hst, hlength, -⟩ :=
    turn_last_line stat h.toReceived hahead hl h.state hempty (h.bodyLength ▸ h0)
  have hleft := ht.left h.toReceived hahead
  have hk : s.startLine + l.length + 2 = (W ++ ended [l]).length := by
    rw [List.length_append, ended_length_one, h.start]
    omega
  have hreadIdx := h.readIdx
  have htread := ht.readIdx
  rw [ht.start] at htread
  rw [hahead, List.length_append, List.length_cons, List.length_cons] at hreadIdx
  rw [hk] at ht
  rw [loop_next (state_ne_content h.state) (parseLine_line h.toReceived hahead hl) hturn m,
    body_goes stat ht hst (by omega) (by omega), hlength, h.bodyLength, fitting_last hl hempty hR h0]

/-- A call in the headers.  Induction on the turns. -/
theorem header_call (hnext : ∀ chunk cs', cs = chunk :: cs' → HeaderGoes stat u cs') :
    HeaderGoes stat u cs := by
  intro s m status W ahead c h hm hlen
  induction m generalizing s status W ahead c with
  | zero => omega
  | succ m ih =>
    have hcontent := state_ne_content h.state
    by_cases hok : (found s).1 = .LINE_OK
    · obtain ⟨l, rest, hl, hahead, -⟩ := exists_line h.toReceived
        (show found s = (.LINE_OK, (found s).2) from by rw [← hok])
      by_cases hempty : lineText l = []
      · by_cases h0 : c = 0
        · subst h0
          exact header_empty hnext h hahead hl hempty hlen
        · exact header_last stat cs h hahead hl hempty h0 hm hlen
      · have hR : W ++ ahead = W ++ (l ++ CR :: LF :: rest) := by rw [hahead]
        have hR' : W ++ ahead = W ++ ended [l] ++ rest := by
          rw [hahead, List.append_assoc, ended_append]
          rfl
        obtain ⟨q, hu⟩ := h.target
        obtain ⟨t, hturn, ht, hst, hlength, hurl⟩ :=
          turn_header_line stat h.toReceived hahead hl h.state hempty
        have hafter := h.next ht hst hlength (hurl q u hu)
        have hleft := ht.left h.toReceived hahead
        have hreadIdx := h.readIdx
        have htread := ht.readIdx
        rw [ht.start] at htread
        rw [hahead, List.length_append, List.length_cons, List.length_cons] at hreadIdx
        rw [loop_next hcontent (parseLine_line h.toReceived hahead hl) hturn m,
          ih hafter (by omega) (by omega), fitting_header hl hempty hR, hR', h.bodyLength]
    · rw [loop_stop hcontent (parseLine_found h.toSane) hok m, ok_bind]
      change (∃ r, feed stat cs (stopAt s (found s)) = .ok r) ↔ _
      rw [fitting_unended (unended_of_found h.toReceived hok)]
      refine feed_header hnext (h.stop hok) ?_
      rw [stopAt_of_ne hok]
      exact hlen

/-- Any number of calls.  Induction on the chunks. -/
theorem header_goes (stat : Stat) (u : Bytes) (cs : List Bytes) : HeaderGoes stat u cs := by
  induction cs with
  | nil =>
    refine header_call fun chunk cs' hcs => ?_
    cases hcs
  | cons chunk cs ih =>
    refine header_call fun chunk' cs' hcs => ?_
    obtain ⟨-, rfl⟩ := List.cons.inj hcs
    exact ih

/-! ### The request line -/

/-- The connection has received `R` and found no line in it. -/
structure InRequest (R : Bytes) (s : HttpConn) : Prop extends Received R s where
  state : s.checkState = .CHECK_STATE_REQUESTLINE
  bodyLength : s.contentLength = 0
  start : s.startLine = 0

theorem InRequest.read (h : InRequest R s) (hq : s.readIdx + chunk.length < READ_BUFFER_SIZE) :
    InRequest (R ++ chunk) (read chunk s) :=
  ⟨read_received h.toReceived hq, h.state, h.bodyLength, h.start⟩

theorem InRequest.stop (h : InRequest R s) (hne : (found s).1 ≠ .LINE_OK) :
    InRequest R (stopAt s (found s)) := by
  have hreceived := stop_received h.toReceived hne
  rw [stopAt_of_ne hne] at hreceived ⊢
  exact ⟨hreceived, h.state, h.bodyLength, h.start⟩

theorem request_line (h : InRequest R s) (hl : IsLine l) (hR : R = l ++ CR :: LF :: rest)
    (hm : 2 * (s.readIdx - s.checkedIdx) + 2 ≤ m)
    (hlen : s.readIdx + cs.flatten.length < READ_BUFFER_SIZE) :
    (∃ r, (processReadLoop stat m status s >>= goOn stat cs) = .ok r) ↔ Requested stat R cs := by
  obtain ⟨m, rfl⟩ : ∃ m', m = m' + 1 := ⟨m - 1, by omega⟩
  have hcontent : s.checkState ≠ .CHECK_STATE_CONTENT := by
    rw [h.state]
    decide
  have hparse := parseLine_line h.toReceived hR hl
  have haccepted : ∀ q u, ParsesAt (lineText l) q u →
      ((∃ r, (processReadLoop stat (m + 1) status s >>= goOn stat cs) = .ok r) ↔
        Fitting (stat (readFile u) = none) R (ended [l]) 0 cs) := by
    intro q u hp
    obtain ⟨t, hturn, ht, hst, hlength, hurl⟩ := turn_accepted stat h.toReceived hR hl h.state hp
    have hleft := ht.left h.toReceived hR
    have hread := h.readIdx
    have htread := ht.readIdx
    rw [ht.start] at htread
    rw [hR, List.length_append, List.length_cons, List.length_cons] at hread
    have hheader : InHeader (ended [l]) rest 0 u t :=
      ⟨ht.toReceived, hst, hlength.trans h.bodyLength,
        by rw [ht.start, h.start, ended_length_one]; omega, _, hurl⟩
    have hgoes := header_goes stat u cs hheader (b := .LINE_OK) (m := m) (by omega) (by omega)
    rw [loop_next hcontent hparse hturn m, hgoes, ended_append, hR]
    rfl
  by_cases hp : ∃ u, Parses (lineText l) u
  · obtain ⟨u, hp⟩ := hp
    obtain ⟨q, hp⟩ := exists_parsesAt hp
    constructor
    · intro hgoes l' q' u' hl' hp'
      by_cases hsame : l' = l
      · subst hsame
        exact (haccepted q' u' hp').mp hgoes
      · exact fitting_other hl hl' hsame hR
    · exact fun hall => (haccepted q u hp).mpr (hall l q u hl hp)
  · obtain ⟨t, hturn⟩ := turn_refused stat h.toReceived hR hl h.state fun u hu => hp ⟨u, hu⟩
    rw [loop_code hcontent hparse hturn m, ok_bind]
    have hrefused : HTTP_CODE.BAD_REQUEST ≠ .NO_REQUEST := by decide
    refine iff_of_true (goOn_answer hrefused) fun l' q' u' hl' hp' => ?_
    by_cases hsame : l' = l
    · subst hsame
      exact absurd ⟨u', hp'.parses⟩ hp
    · exact fitting_other hl hl' hsame hR

/-- The calls go on in the request line if and only if the lengths fit. -/
def RequestGoes (stat : Stat) (cs : List Bytes) : Prop :=
  ∀ {s : HttpConn} {m : ℕ} {b : LINE_STATUS} {R : Bytes}, InRequest R s →
    2 * (s.readIdx - s.checkedIdx) + 2 ≤ m → s.readIdx + cs.flatten.length < READ_BUFFER_SIZE →
    ((∃ r, (processReadLoop stat m b s >>= goOn stat cs) = .ok r) ↔ Requested stat R cs)

theorem feed_request (hnext : ∀ chunk cs', cs = chunk :: cs' → RequestGoes stat cs')
    (h : InRequest R s) (hno : ∀ l, IsLine l → ∀ x, R ≠ l ++ CR :: LF :: x)
    (hlen : s.readIdx + cs.flatten.length < READ_BUFFER_SIZE) :
    (∃ r, feed stat cs s = .ok r) ↔ Requested stat R cs := by
  rw [requested_unended hno]
  rcases cs with _ | ⟨chunk, cs⟩
  · exact iff_of_true ⟨_, rfl⟩ nofun
  · rw [List.flatten_cons, List.length_append] at hlen
    have hq : s.readIdx + chunk.length < READ_BUFFER_SIZE := by omega
    have hread := h.read hq
    have hgoes := hnext chunk cs rfl hread (b := .LINE_OK) (Nat.le_refl _) (by
      show s.readIdx + chunk.length + _ < _
      omega)
    rw [feed_cons, processRead, hgoes]
    constructor
    · intro hrequested chunk' cs' hcs
      obtain ⟨rfl, rfl⟩ := List.cons.inj hcs
      exact hrequested
    · exact fun hall => hall chunk cs rfl

theorem request_call (hnext : ∀ chunk cs', cs = chunk :: cs' → RequestGoes stat cs') :
    RequestGoes stat cs := by
  intro s m status R h hm hlen
  have hcontent : s.checkState ≠ .CHECK_STATE_CONTENT := by
    rw [h.state]
    decide
  by_cases hok : (found s).1 = .LINE_OK
  · obtain ⟨l, rest, hl, hR, -⟩ := exists_line h.toReceived
      (show found s = (.LINE_OK, (found s).2) from by rw [← hok])
    exact request_line h hl hR hm hlen
  · obtain ⟨m, rfl⟩ : ∃ m', m = m' + 1 := ⟨m - 1, by omega⟩
    rw [loop_stop hcontent (parseLine_found h.toSane) hok m, ok_bind]
    change (∃ r, feed stat cs (stopAt s (found s)) = .ok r) ↔ _
    refine feed_request hnext (h.stop hok) (fun l hl x hR => hok ?_) ?_
    · rw [found_line h.toReceived hR hl]
    · rw [stopAt_of_ne hok]
      exact hlen

/-- Any number of calls.  Induction on the chunks. -/
theorem request_goes (stat : Stat) (cs : List Bytes) : RequestGoes stat cs := by
  induction cs with
  | nil =>
    refine request_call fun chunk cs' hcs => ?_
    cases hcs
  | cons chunk cs ih =>
    refine request_call fun chunk' cs' hcs => ?_
    obtain ⟨-, rfl⟩ := List.cons.inj hcs
    exact ih

/-! ### The connection -/

theorem init_request : InRequest [] init := ⟨init_received, rfl, rfl, rfl⟩

/-- **Parsing in bounds.**  With a call of `processRead` after each chunk, every access to `readBuf` is
in bounds and no sum overflows if and only if every length that is announced fits. -/
theorem in_bounds_iff (stat : Stat) (chunks : List Bytes)
    (hlen : chunks.flatten.length < READ_BUFFER_SIZE) :
    (∃ r, feed stat chunks init = .ok r) ↔
      ∀ pre post, chunks = pre ++ post → ∀ k n body, Announces stat pre k n body →
        FitsBehind k n body (post ≠ []) := by
  have hnone : ∀ l, IsLine l → ∀ x, ([] : Bytes) ≠ l ++ CR :: LF :: x := by
    intro l _ x heq
    simp at heq
  rw [feed_request (fun _ cs' _ => request_goes stat cs') init_request hnone
    (by rw [show init.readIdx = 0 from rfl]; omega)]
  constructor
  · rintro h pre post hcs k n body ⟨l, q, u, hl, hp, ha⟩
    exact h l q u hl hp pre post hcs k n body ha
  · intro h l q u hl hp pre post hcs k n body ha
    exact h pre post hcs k n body ⟨l, q, u, hl, hp, ha⟩

/-- A body of two bytes, cut in the middle. -/
theorem in_bounds_iff_two :
    (∃ r, feed (fun _ => none)
      [ascii "GET / HTTP/1.1\r\nContent-Length: 2\r\n\r\na", ascii "b"] init = .ok r) ↔
      ∀ pre post, [ascii "GET / HTTP/1.1\r\nContent-Length: 2\r\n\r\na", ascii "b"] = pre ++ post →
        ∀ k n body, Announces (fun _ => none) pre k n body → FitsBehind k n body (post ≠ []) :=
  in_bounds_iff _ _ (by decide)

/-- A negative length makes `parseContent` write before the buffer, and the greatest one makes the sum
overflow. -/
theorem out_of_bounds :
    feed (fun _ => none) [ascii "GET / HTTP/1.1\r\nContent-Length: -9999\r\n\r\n"] init =
      .error .outOfBounds ∧
    feed (fun _ => none) [ascii "GET / HTTP/1.1\r\nContent-Length: 2147483647\r\n\r\n"] init =
      .error .overflow := by
  constructor
  · rfl
  · rfl

end ReactorServer.Conn.Lengths
