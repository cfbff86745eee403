import ReactorServer.Conn.Heads

/-!
# What is answered

`processRead` gives an answer where the first line of what it has received is no request line, or
where a whole request for a file that is there has been received (`Answered`, `answered_iff`).  Where
it gives `NO_REQUEST`, more bytes can bring an answer if and only if the bytes begin something of this
kind that fits into the buffer (`canBeAnswered_iff`).  Bytes with a malformed line end begin nothing
of the kind (`not_canBeAnswered_malformed`), and nor does a whole request for a file that is not there
(`not_canBeAnswered_missing`).
-/

namespace ReactorServer.Conn.Waiting

open ReactorServer.Cpp ReactorServer.Lib.Runs
open ReactorServer.Conn.Strings ReactorServer.Conn.Parser ReactorServer.Conn.Calls
open ReactorServer.Conn.Bounds ReactorServer.Conn.Chunks ReactorServer.Conn.RequestLine
open ReactorServer.Conn.Heads

variable {stat : Stat} {s t : HttpConn} {m q i : ℕ} {c n : ℤ} {status : LINE_STATUS} {r : HTTP_CODE}
  {l u B W ahead body rest : Bytes} {ls : List Bytes}

/-! ### What has an answer -/

/-- A body of the length `n` behind a head of `k` bytes.  A negative length goes back into the head. -/
structure IsBody (k : ℕ) (n : ℤ) (body : Bytes) : Prop where
  inside : 0 ≤ k + n
  length : body.length = n.toNat

/-- A request, with its headers and its body, and the url it is for: where the length goes back into
the url of the request line, it ends there. -/
inductive Request : Bytes → Bytes → Prop
  | whole {l : Bytes} {ls : List Bytes} {q : ℕ} {u : Bytes} {n : ℤ} {body : Bytes} (hl : IsLine l)
      (hp : ParsesAt (lineText l) q u) (hls : Headers 0 ls n)
      (hbody : IsBody (ended (l :: ls)).length n body) :
      Request (ended (l :: ls) ++ body) (cutOff u q ((ended (l :: ls)).length + n).toNat)

/-- **What is answered**: a line that is no request line, and a request for a file that is there. -/
inductive Answered (stat : Stat) : Bytes → Prop
  | refused {l : Bytes} (hl : IsLine l) (hno : ∀ u, ¬Parses (lineText l) u) :
      Answered stat (l ++ [CR, LF])
  | found {W u : Bytes} (hW : Request W u) (hfile : (stat (readFile u)).isSome) : Answered stat W

/-! ### It is answered -/

theorem loop_of_body (stat : Stat) (h : AtLine (body ++ rest) i s)
    (hst : s.checkState = .CHECK_STATE_CONTENT) (hu : Url q u s)
    (hbody : IsBody i s.contentLength body) (m : ℕ) :
    ∃ t, processReadLoop stat (m + 1) .LINE_OK s =
      .ok (fileCode stat (cutOff u q (i + s.contentLength).toNat), t) := by
  have hlen := h.readIdx
  have hinside := hbody.inside
  have hsize := hbody.length
  rw [List.length_append, h.start] at hlen
  have hall : s.contentLength + s.checkedIdx ≤ s.readIdx := by
    rw [h.checked]
    omega
  have hlow : -(s.startLine : ℤ) ≤ s.contentLength := by
    rw [h.start]
    omega
  obtain ⟨t, hturn⟩ := turn_whole stat h.toSane hst hlow hall hu
  rw [h.start] at hturn
  rw [loop_body hst, hturn]
  exact ⟨t, rfl⟩

theorem loop_of_headers (stat : Stat) (hls : Headers c ls n)
    (h : AtLine (ended ls ++ (body ++ rest)) i s) (hst : s.checkState = .CHECK_STATE_HEADER)
    (hc : s.contentLength = c) (hu : Url q u s) (hbody : IsBody (i + (ended ls).length) n body)
    (hm : s.readIdx - s.checkedIdx < m) (status : LINE_STATUS) :
    ∃ t, processReadLoop stat m status s =
      .ok (fileCode stat (cutOff u q ((i + (ended ls).length : ℕ) + n).toNat), t) := by
  induction hls generalizing s i m status with
  | @last c l hl hempty =>
    have hahead : ended [l] ++ (body ++ rest) = l ++ CR :: LF :: (body ++ rest) :=
      ended_append l [] _
    have hlen := ended_length_one l
    obtain ⟨m, rfl⟩ : ∃ k, m = k + 1 := ⟨m - 1, by omega⟩
    have hparse := parseLine_line h.toReceived hahead hl
    have hcontent := state_ne_content hst
    by_cases h0 : c = 0
    · obtain ⟨t, hturn, -⟩ :=
        turn_empty_line stat h.toReceived hahead hl hst hempty (hc.trans h0) hu
      have hbefore := hu.before
      rw [h.start] at hbefore
      rw [cutOff_of_le (by omega)]
      exact ⟨t, loop_code hcontent hparse hturn m⟩
    · obtain ⟨t, hturn, hnext, hbodyState, hlength, hurl⟩ :=
        turn_last_line stat h.toReceived hahead hl hst hempty (by rwa [hc])
      rw [loop_next hcontent hparse hturn m]
      have hleft := hnext.left h.toReceived hahead
      obtain ⟨m, rfl⟩ : ∃ k, m = k + 1 := ⟨m - 1, by omega⟩
      have hend : i + (ended [l]).length = i + l.length + 2 := by omega
      rw [h.start] at hnext
      rw [hend, ← hc, ← hlength] at hbody
      obtain ⟨v, hv⟩ := loop_of_body stat hnext hbodyState (hurl q u hu) hbody m
      rw [hlength, hc, ← hend] at hv
      exact ⟨v, hv⟩
  | @header c n l ls hl hne hls ih =>
    have hahead := ended_append l ls (body ++ rest)
    have hlen := ended_length l ls
    obtain ⟨m, rfl⟩ : ∃ k, m = k + 1 := ⟨m - 1, by omega⟩
    have hparse := parseLine_line h.toReceived hahead hl
    obtain ⟨t, hturn, hnext, hheader, hlength, hurl⟩ :=
      turn_header_line stat h.toReceived hahead hl hst hne
    have hleft := hnext.left h.toReceived hahead
    have hend : i + (ended (l :: ls)).length = i + l.length + 2 + (ended ls).length := by omega
    rw [h.start] at hnext
    rw [hend] at hbody
    rw [loop_next (state_ne_content hst) hparse hturn m]
    have hm' : t.readIdx - t.checkedIdx < m := by omega
    have hfile := ih hnext hheader (hlength.trans (by rw [hc])) (hurl q u hu) hbody hm' .LINE_OK
    rwa [← hend] at hfile

theorem read_init_received (hshort : B.length < READ_BUFFER_SIZE) : Received B (read B init) := by
  have hread : (Parser.init).readIdx + B.length < READ_BUFFER_SIZE := by
    rwa [show (Parser.init).readIdx = 0 from rfl, Nat.zero_add]
  exact read_received init_received hread

theorem processRead_refused (stat : Stat) (hl : IsLine l) (hno : ∀ u, ¬Parses (lineText l) u)
    (rest : Bytes) (hshort : (l ++ [CR, LF] ++ rest).length < READ_BUFFER_SIZE) :
    ∃ t, processRead stat (read (l ++ [CR, LF] ++ rest) init) = .ok (.BAD_REQUEST, t) := by
  have h := read_init_received hshort
  have hahead : l ++ [CR, LF] ++ rest = l ++ CR :: LF :: rest := by simp
  have hcontent : (read (l ++ [CR, LF] ++ rest) init).checkState ≠ .CHECK_STATE_CONTENT := nofun
  obtain ⟨t, hturn⟩ := turn_refused stat h hahead hl rfl hno
  unfold processRead
  exact ⟨t, loop_code hcontent (parseLine_line h hahead hl) hturn _⟩

/-- **A request gets the code of its file**, whatever comes behind. -/
theorem processRead_request (stat : Stat) (hW : Request W u) (rest : Bytes)
    (hshort : (W ++ rest).length < READ_BUFFER_SIZE) :
    ∃ t, processRead stat (read (W ++ rest) init) = .ok (fileCode stat u, t) := by
  have h := read_init_received hshort
  have hcontent : (read (W ++ rest) init).checkState ≠ .CHECK_STATE_CONTENT := nofun
  obtain @⟨l, ls, q, u, n, body, hl, hp, hls, hbody⟩ := hW
  have hahead : ended (l :: ls) ++ body ++ rest = l ++ CR :: LF :: (ended ls ++ (body ++ rest)) := by
    rw [List.append_assoc, ended_append]
  have hlen := ended_length l ls
  obtain ⟨t, hturn, hnext, hheader, hlength, hurl⟩ := turn_accepted stat h hahead hl rfl hp
  have hleft := hnext.left h hahead
  have hend : 0 + l.length + 2 + (ended ls).length = (ended (l :: ls)).length := by omega
  have hstart : (read (ended (l :: ls) ++ body ++ rest) init).startLine = 0 := rfl
  rw [hstart] at hnext hurl
  rw [Nat.zero_add] at hurl
  rw [← hend] at hbody
  unfold processRead
  rw [loop_next hcontent (parseLine_line h hahead hl) hturn]
  rw [← hend]
  exact loop_of_headers stat hls hnext hheader hlength hurl hbody (by omega) .LINE_OK

theorem processRead_answered (hW : Answered stat W) (rest : Bytes)
    (hshort : (W ++ rest).length < READ_BUFFER_SIZE) :
    ∃ r t, processRead stat (read (W ++ rest) init) = .ok (r, t) ∧ r ≠ .NO_REQUEST := by
  cases hW with
  | refused hl hno =>
    obtain ⟨t, ht⟩ := processRead_refused stat hl hno rest hshort
    exact ⟨_, t, ht, by decide⟩
  | found hW hfile =>
    obtain ⟨t, ht⟩ := processRead_request stat hW rest hshort
    exact ⟨_, t, ht, fileCode_ne.mpr hfile⟩

/-! ### Nothing else is -/

theorem no_answer_outstanding (h : Outstanding s)
    (hloop : processReadLoop stat m status s = .ok (r, t)) : r = .NO_REQUEST := by
  induction m generalizing s status with
  | zero => cases hloop
  | succ m ih =>
    obtain ⟨status', v, htest, hsane, hhead, hread, hle, -⟩ := loopTest_sane h.toSane status
    unfold processReadLoop at hloop
    rw [htest, ok_bind] at hloop
    dsimp only at hloop
    by_cases hst : status' = .LINE_OK
    · rw [if_pos hst] at hloop
      rcases (h.mono hsane hhead hread hle).turn stat with ⟨hturn, hnext⟩ | ⟨-, f, hf⟩
      · rw [hturn, ok_bind] at hloop
        exact ih hnext hloop
      · rw [hf] at hloop
        cases hloop
    · rw [if_neg hst] at hloop
      cases hloop
      rfl

theorem body_complete (h : AtLine ahead i s) (hst : s.checkState = .CHECK_STATE_CONTENT)
    (hu : Url q u s) (hloop : processReadLoop stat m .LINE_OK s = .ok (r, t))
    (hr : r ≠ .NO_REQUEST) :
    ∃ body rest, ahead = body ++ rest ∧ IsBody i s.contentLength body ∧
      (stat (readFile (cutOff u q (i + s.contentLength).toNat))).isSome := by
  have hlen := h.readIdx
  rw [h.start] at hlen
  by_cases hall : s.contentLength + s.checkedIdx ≤ s.readIdx
  · rcases m with _ | m
    · cases hloop
    · rw [loop_body hst] at hloop
      by_cases hlow : -(s.startLine : ℤ) ≤ s.contentLength
      · obtain ⟨v, hturn⟩ := turn_whole stat h.toSane hst hlow hall hu
        rw [hturn, ok_bind] at hloop
        cases hloop
        rw [h.checked] at hall
        rw [h.start] at hlow hr
        refine ⟨ahead.take s.contentLength.toNat, ahead.drop s.contentLength.toNat,
          (List.take_append_drop _ _).symm, ⟨by omega, ?_⟩, fileCode_ne.mp hr⟩
        rw [List.length_take]
        omega
      · obtain ⟨f, hf, -⟩ := (turn_content stat h.toSane hst).2 fun hfits => hlow hfits.1
        rw [hf] at hloop
        cases hloop
  · exact absurd (no_answer_outstanding ⟨h.toSane, hst, Int.not_le.mp hall⟩ hloop) hr

theorem last_complete {l tail : Bytes} (h : AtLine ahead i s) (hst : s.checkState = .CHECK_STATE_HEADER)
    (hu : Url q u s) (hl : IsLine l) (hahead : ahead = l ++ CR :: LF :: tail)
    (hempty : lineText l = []) (hloop : processReadLoop stat (m + 1) status s = .ok (r, t))
    (hr : r ≠ .NO_REQUEST) :
    ∃ body rest, ahead = ended [l] ++ (body ++ rest) ∧
      IsBody (i + (ended [l]).length) s.contentLength body ∧
      (stat (readFile (cutOff u q ((i + (ended [l]).length : ℕ) + s.contentLength).toNat))).isSome := by
  have hcontent := state_ne_content hst
  have hparse := parseLine_line h.toReceived hahead hl
  have hlen := ended_length_one l
  by_cases h0 : s.contentLength = 0
  · obtain ⟨v, hturn, -⟩ := turn_empty_line stat h.toReceived hahead hl hst hempty h0 hu
    rw [loop_code hcontent hparse hturn m] at hloop
    cases hloop
    have hbefore := hu.before
    rw [h.start] at hbefore
    refine ⟨[], tail, ?_, ⟨?_, ?_⟩, ?_⟩
    · rw [hahead, ended_append]
      rfl
    · omega
    · rw [h0]
      rfl
    · rw [cutOff_of_le (by omega)]
      exact fileCode_ne.mp hr
  · obtain ⟨v, hturn, hnext, hbody, hlength, hurl⟩ :=
      turn_last_line stat h.toReceived hahead hl hst hempty h0
    rw [loop_next hcontent hparse hturn m] at hloop
    obtain ⟨body, rest, hrest, hcomplete⟩ := body_complete hnext hbody (hurl q u hu) hloop hr
    have hend : i + (ended [l]).length = i + l.length + 2 := by omega
    rw [hlength, h.start, ← hend] at hcomplete
    refine ⟨body, rest, ?_, hcomplete⟩
    rw [hahead, hrest, ended_append]
    rfl

theorem headers_complete (h : AtLine ahead i s) (hst : s.checkState = .CHECK_STATE_HEADER)
    (hu : Url q u s) (hloop : processReadLoop stat m status s = .ok (r, t))
    (hr : r ≠ .NO_REQUEST) :
    ∃ ls n body rest, ahead = ended ls ++ (body ++ rest) ∧ Headers s.contentLength ls n ∧
      IsBody (i + (ended ls).length) n body ∧
      (stat (readFile (cutOff u q ((i + (ended ls).length : ℕ) + n).toNat))).isSome := by
  induction m generalizing s i ahead status with
  | zero => cases hloop
  | succ m ih =>
    have hcontent := state_ne_content hst
    have hline := parseLine_found h.toSane
    by_cases hok : (found s).1 = .LINE_OK
    · -- a line
      obtain ⟨l, tail, hl, hahead, hk⟩ := exists_line h.toReceived
        (show found s = (.LINE_OK, (found s).2) from by rw [← hok])
      by_cases hempty : lineText l = []
      · obtain ⟨body, rest, hrest, hcomplete⟩ := last_complete h hst hu hl hahead hempty hloop hr
        exact ⟨[l], s.contentLength, body, rest, hrest, .last hl hempty, hcomplete⟩
      · have hparse := parseLine_line h.toReceived hahead hl
        have hlen := ended_length_one l
        obtain ⟨v, hturn, hnext, hheader, hlength, hurl⟩ :=
          turn_header_line stat h.toReceived hahead hl hst hempty
        rw [loop_next hcontent hparse hturn m] at hloop
        obtain ⟨ls, n, body, rest, hrest, hls, hcomplete⟩ := ih hnext hheader (hurl q u hu) hloop
        have hend : i + (ended (l :: ls)).length = i + l.length + 2 + (ended ls).length := by
          rw [ended_length]
          omega
        rw [h.start, ← hend] at hcomplete
        rw [hlength] at hls
        refine ⟨l :: ls, n, body, rest, ?_, .header hl hempty hls, hcomplete⟩
        rw [hahead, hrest, ended_append]
    · rw [loop_stop hcontent hline hok m] at hloop
      cases hloop
      exact absurd rfl hr

theorem answered_of_processRead (hshort : B.length < READ_BUFFER_SIZE)
    (h : processRead stat (read B init) = .ok (r, t)) (hr : r ≠ .NO_REQUEST) :
    ∃ W rest, B = W ++ rest ∧ Answered stat W := by
  have hreceived := read_init_received hshort
  have hcontent : (read B init).checkState ≠ .CHECK_STATE_CONTENT := nofun
  have hline := parseLine_found hreceived.toSane
  unfold processRead at h
  by_cases hok : (found (read B init)).1 = .LINE_OK
  · obtain ⟨l, rest, hl, hB, -⟩ := exists_line hreceived
      (show found (read B init) = (.LINE_OK, (found (read B init)).2) from by rw [← hok])
    have hparse := parseLine_line hreceived hB hl
    by_cases hp : ∃ u, Parses (lineText l) u
    · obtain ⟨u, hp⟩ := hp
      obtain ⟨q, hp⟩ := exists_parsesAt hp
      obtain ⟨v, hturn, hnext, hheader, hlength, hurl⟩ := turn_accepted stat hreceived hB hl rfl hp
      rw [loop_next hcontent hparse hturn] at h
      obtain ⟨ls, n, body, rest, hrest, hls, hbody, hfile⟩ :=
        headers_complete hnext hheader hurl h hr
      have hend : 0 + l.length + 2 + (ended ls).length = (ended (l :: ls)).length := by
        rw [ended_length]
        omega
      rw [show (read B init).startLine = 0 from rfl, hend] at hbody hfile
      rw [Nat.zero_add] at hfile
      rw [hlength] at hls
      refine ⟨ended (l :: ls) ++ body, rest, ?_, .found (.whole hl hp hls hbody) hfile⟩
      rw [hB, hrest, List.append_assoc, ended_append]
    · refine ⟨l ++ [CR, LF], rest, ?_, .refused hl fun u hu => hp ⟨u, hu⟩⟩
      rw [hB]
      simp
  · rw [loop_stop hcontent hline hok] at h
    cases h
    exact absurd rfl hr

/-- **An answer is given** if and only if what has been received begins with something that has
one. -/
theorem answered_iff (stat : Stat) (hshort : B.length < READ_BUFFER_SIZE) :
    (∃ r t, processRead stat (read B init) = .ok (r, t) ∧ r ≠ .NO_REQUEST) ↔
      ∃ W rest, B = W ++ rest ∧ Answered stat W := by
  constructor
  · rintro ⟨r, t, h, hr⟩
    exact answered_of_processRead hshort h hr
  · rintro ⟨W, rest, rfl, hW⟩
    exact processRead_answered hW rest hshort

/-! ### Malformed line ends -/

/-- A `LF` that is not behind a `CR`, or a `CR` that is not before a `LF`. -/
def Malformed (bad : Bytes) : Prop :=
  ∃ l r, IsLine l ∧ (bad = l ++ LF :: r ∨ ∃ b, b ≠ LF ∧ bad = l ++ CR :: b :: r)

theorem Malformed.append {bad : Bytes} (h : Malformed bad) (X : Bytes) : Malformed (bad ++ X) := by
  obtain ⟨l, r, hl, rfl | ⟨b, hb, rfl⟩⟩ := h
  · exact ⟨l, r ++ X, hl, Or.inl (by simp)⟩
  · exact ⟨l, r ++ X, hl, Or.inr ⟨b, hb, by simp⟩⟩

theorem Malformed.ne {bad : Bytes} (h : Malformed bad) (hl : IsLine l) :
    bad ≠ l ++ CR :: LF :: rest := by
  obtain ⟨l', r, hl', rfl | ⟨b, hb, rfl⟩⟩ := h
  · intro heq
    have hends := (line_unique hl' hl (Or.inr rfl) (Or.inl rfl) heq).2.1
    exact absurd hends (by decide)
  · intro heq
    have hends := (line_unique hl' hl (Or.inl rfl) (Or.inl rfl) heq).2.2
    exact hb (List.cons.inj hends).1

theorem malformed_headers {hs : List Bytes} {bad : Bytes}
    (hhs : ∀ l ∈ hs, IsLine l ∧ lineText l ≠ []) (hbad : Malformed bad) (hls : Headers c ls n) :
    ended hs ++ bad ≠ ended ls ++ rest := by
  induction hs generalizing c ls with
  | nil =>
    intro heq
    cases hls with
    | last hl _ =>
      rw [ended_append] at heq
      exact hbad.ne hl heq
    | header hl _ _ =>
      rw [ended_append] at heq
      exact hbad.ne hl heq
  | cons h hs ih =>
    obtain ⟨hh, hne⟩ := hhs h List.mem_cons_self
    have hhs' : ∀ l ∈ hs, IsLine l ∧ lineText l ≠ [] := fun l hl => hhs l (List.mem_cons_of_mem _ hl)
    intro heq
    rw [ended_append] at heq
    cases hls with
    | last hl hempty =>
      rw [ended_append] at heq
      obtain ⟨rfl, -, -⟩ := line_unique hh hl (Or.inl rfl) (Or.inl rfl) heq
      exact hne hempty
    | header hl _ hls =>
      rw [ended_append] at heq
      obtain ⟨-, -, hrest⟩ := line_unique hh hl (Or.inl rfl) (Or.inl rfl) heq
      exact ih hhs' hls (List.cons.inj hrest).2

theorem malformed_ne {bad : Bytes} (hls : ∀ l ∈ ls, IsLine l ∧ lineText l ≠ [])
    (hfirst : ∀ l ∈ ls.head?, ∃ u, Parses (lineText l) u) (hbad : Malformed bad)
    (hW : Answered stat W) : ended ls ++ bad ≠ W ++ rest := by
  have hline : ∃ l W', IsLine l ∧ W = l ++ CR :: LF :: W' ∧
      ((∃ u, Parses (lineText l) u) → ∃ ls n body, Headers 0 ls n ∧ W' = ended ls ++ body) := by
    cases hW with
    | @refused l hl hno => exact ⟨l, [], hl, rfl, fun ⟨u, hu⟩ => absurd hu (hno u)⟩
    | found hW _ =>
      obtain @⟨l, ls, q, u, n, body, hl, hp, hls, hbody⟩ := hW
      exact ⟨l, ended ls ++ body, hl, ended_append l ls body, fun _ => ⟨ls, n, body, hls, rfl⟩⟩
  obtain ⟨l', W', hl', rfl, hheaders⟩ := hline
  intro heq
  rw [List.append_assoc] at heq
  rcases ls with _ | ⟨l, ls⟩
  · exact hbad.ne hl' heq
  · rw [ended_append] at heq
    obtain ⟨rfl, -, hrest⟩ :=
      line_unique (hls l List.mem_cons_self).1 hl' (Or.inl rfl) (Or.inl rfl) heq
    obtain ⟨ls', n, body, hls', rfl⟩ := hheaders (hfirst l rfl)
    have htail : ended ls ++ bad = ended ls' ++ body ++ rest := (List.cons.inj hrest).2
    rw [List.append_assoc] at htail
    exact malformed_headers (fun l hl => hls l (List.mem_cons_of_mem _ hl)) hbad hls' htail

/-! ### More bytes -/

/-- More bytes can bring an answer. -/
def CanBeAnswered (stat : Stat) (B : Bytes) : Prop :=
  ∃ X, X ≠ [] ∧ (B ++ X).length < READ_BUFFER_SIZE ∧
    ∃ r t, processRead stat (read (B ++ X) init) = .ok (r, t) ∧ r ≠ .NO_REQUEST

/-- **A malformed line end is never answered.** -/
theorem not_canBeAnswered_malformed {bad : Bytes} (hls : ∀ l ∈ ls, IsLine l ∧ lineText l ≠ [])
    (hfirst : ∀ l ∈ ls.head?, ∃ u, Parses (lineText l) u) (hbad : Malformed bad) :
    ¬CanBeAnswered stat (ended ls ++ bad) := by
  rintro ⟨X, -, hlen, hX⟩
  obtain ⟨W, rest, hsplit, hW⟩ := (answered_iff stat hlen).mp hX
  rw [List.append_assoc] at hsplit
  exact malformed_ne hls hfirst (hbad.append X) hW hsplit

theorem not_canBeAnswered_missing (hW : Request W u) (hfile : stat (readFile u) = none) :
    ¬CanBeAnswered stat (W ++ rest) := by
  rintro ⟨X, -, hlen, r, t, hX, hr⟩
  rw [List.append_assoc] at hX hlen
  obtain ⟨v, hv⟩ := processRead_request stat hW (rest ++ X) hlen
  rw [hX] at hv
  cases hv
  have hsome := fileCode_ne.mp hr
  rw [hfile] at hsome
  cases hsome

/-- **`NO_REQUEST` is for what is not complete** if and only if the bytes begin something, not more
than the buffer holds, that has an answer. -/
theorem canBeAnswered_iff (hshort : B.length < READ_BUFFER_SIZE)
    (h : processRead stat (read B init) = .ok (.NO_REQUEST, t)) :
    CanBeAnswered stat B ↔
      ∃ X, X ≠ [] ∧ (B ++ X).length < READ_BUFFER_SIZE ∧ Answered stat (B ++ X) := by
  constructor
  · rintro ⟨X, -, hlen, hX⟩
    obtain ⟨W, rest, hsplit, hW⟩ := (answered_iff stat hlen).mp hX
    rcases List.append_eq_append_iff.mp hsplit with ⟨Y, rfl, rfl⟩ | ⟨Y, rfl, -⟩
    · rw [← List.append_assoc, List.length_append] at hlen
      refine ⟨Y, ?_, by omega, hW⟩
      -- `B` has no answer itself
      rintro rfl
      rw [List.append_nil] at hW
      obtain ⟨r, v, hv, hr⟩ := processRead_answered hW [] (by rwa [List.append_nil])
      rw [List.append_nil, h] at hv
      cases hv
      exact hr rfl
    · obtain ⟨r, v, hv, hr⟩ := processRead_answered hW Y hshort
      rw [h] at hv
      cases hv
      exact absurd rfl hr
  · rintro ⟨X, hne, hlen, hX⟩
    exact ⟨X, hne, hlen, (answered_iff stat hlen).mpr ⟨_, [], (List.append_nil _).symm, hX⟩⟩

theorem canBeAnswered_iff_method :
    ∃ t, processRead (fun _ => none) (read (ascii "GET") init) = .ok (.NO_REQUEST, t) ∧
      (CanBeAnswered (fun _ => none) (ascii "GET") ↔
        ∃ X, X ≠ [] ∧ (ascii "GET" ++ X).length < READ_BUFFER_SIZE ∧
          Answered (fun _ => none) (ascii "GET" ++ X)) :=
  ⟨_, rfl, canBeAnswered_iff (by decide) rfl⟩

/-- Half a line end in the headers, and a request for a file that is not there. -/
theorem not_waits :
    (∃ t, processRead (fun _ => none) (read (ascii "GET / HTTP/1.1\r\nHost\n") init) =
        .ok (.NO_REQUEST, t) ∧
      ¬CanBeAnswered (fun _ => none) (ascii "GET / HTTP/1.1\r\nHost\n")) ∧
    ∃ t, processRead (fun _ => none) (read (ascii "GET / HTTP/1.1\r\n\r\n") init) =
        .ok (.NO_REQUEST, t) ∧
      ¬CanBeAnswered (fun _ => none) (ascii "GET / HTTP/1.1\r\n\r\n") := by
  have hline : IsLine (ascii "GET / HTTP/1.1") := by
    constructor <;> decide
  have hparses : ParsesAt (lineText (ascii "GET / HTTP/1.1")) 4 (ascii "/") :=
    ⟨ascii "GET", [SP], [47], [SP], ascii "HTTP/1.1",
      ⟨rfl, by decide, ⟨by decide, List.forall_mem_singleton.mpr (by decide)⟩,
        ⟨by decide, List.forall_mem_singleton.mpr (by decide)⟩,
        ⟨by decide, List.forall_mem_singleton.mpr (by decide)⟩, by decide⟩, .path rfl, rfl⟩
  refine ⟨⟨_, rfl, ?_⟩, _, rfl, ?_⟩
  · show ¬CanBeAnswered _ (ended [ascii "GET / HTTP/1.1"] ++ ascii "Host\n")
    refine not_canBeAnswered_malformed ?_ ?_ ⟨ascii "Host", [], ?_, Or.inl rfl⟩
    · rw [List.forall_mem_singleton]
      exact ⟨hline, by decide⟩
    · rintro l hl
      obtain rfl := Option.some.inj hl
      exact ⟨_, hparses.parses⟩
    · constructor <;> decide
  · show ¬CanBeAnswered _ (ended [ascii "GET / HTTP/1.1", []] ++ [] ++ [])
    refine not_canBeAnswered_missing (.whole hline hparses (.last ?_ rfl) ⟨by decide, rfl⟩) rfl
    constructor <;> decide

end ReactorServer.Conn.Waiting
