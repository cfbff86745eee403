import ReactorServer.Conn.Heads
import ReactorServer.Lib.Follow
import Mathlib.Data.List.TakeDrop

/-!
# The file that is served

`doRequest` puts the root and the url into `readFile`, which has `FILENAME_LEN` bytes, and gives it to
`stat` and `open`.  The copy of the url is cut where `readFile` is full, and its end is the last byte
of the `memset` of `init`.

`serving` is `connMachine` with `readFile`, the url of the request line that has been accepted, and
what has been given to `stat`.  `serves_iff`: in a run the file asked for is the one that is given,
if and only if no url is too long and no `parseContent` writes into it.
-/

namespace ReactorServer.Conn.Serving

open ReactorServer.Cpp ReactorServer.Lib.Runs ReactorServer.Lib.Follow
open ReactorServer.Conn.Strings ReactorServer.Conn.Parser ReactorServer.Conn.Calls
open ReactorServer.Conn.Bounds ReactorServer.Conn.RequestLine ReactorServer.Conn.Heads
open ReactorServer.Conn.Chunks ReactorServer.Conn.Access

/-! ### The array -/

/-- `readFile[FILENAME_LEN]`. -/
structure FileName where
  bytes : Bytes
  length_eq : bytes.length = FILENAME_LEN

/-- `memset(readFile, '\0', FILENAME_LEN)`. -/
def FileName.zero : FileName := ⟨List.replicate FILENAME_LEN NUL, List.length_replicate⟩

/-- The bytes `bs` from the index `i` on. -/
def FileName.put (name : FileName) (i : ℕ) (bs : Bytes) : Except Fault FileName :=
  if h : i + bs.length ≤ FILENAME_LEN then
    .ok ⟨name.bytes.take i ++ (bs ++ name.bytes.drop (i + bs.length)), by
      have := name.length_eq
      simp only [List.length_append, List.length_take, List.length_drop]
      omega⟩
  else .error .outOfBounds

/-- The string in `readFile`. -/
def FileName.cstring (name : FileName) : Except Fault Bytes :=
  if NUL ∈ name.bytes then .ok (name.bytes.takeWhile (· ≠ NUL)) else .error .outOfBounds

/-- What `strncpy` takes from `p`: `n` bytes, with `NUL`s behind the end of the string. -/
def strncpyFrom (m : Buffer) : ℕ → ℕ → Except Fault Bytes
  | 0, _ => pure []
  | n + 1, p => do
    let b ← readAt m p
    if b = NUL then pure (List.replicate (n + 1) NUL)
    else do
      let bs ← strncpyFrom m n (p + 1)
      pure (b :: bs)

/-! ### The file -/

/-- `doRequest`: the code, and `readFile`. -/
def doRequest (stat : Stat) (s : HttpConn) (name : FileName) :
    Except Fault (HTTP_CODE × FileName) := do
  let name ← name.put 0 (docRoot ++ [NUL])
  let len := docRoot.length
  match s.url with
  | none => throw .outOfBounds
  | some url =>
    let name ← name.put len (← strncpyFrom s.readBuf (FILENAME_LEN - len - 1) url)
    match stat (← name.cstring) with
    | none => pure (.NO_REQUEST, name)
    | some st_mode =>
      if st_mode &&& S_IROTH = 0 then pure (.FORBIDDEN_REQUEST, name)
      else if st_mode &&& S_IFMT = S_IFDIR then pure (.BAD_REQUEST, name)
      else pure (.FILE_REQUEST, name)

/-- The body of the loop of `processRead`, and `readFile` if it calls `doRequest`. -/
def turn (stat : Stat) (s : HttpConn) (name : FileName) :
    Except Fault ((Option HTTP_CODE × LINE_STATUS × HttpConn) × Option FileName) := do
  let text := s.startLine
  let s := nextLine s
  let _ ← Strings.cstring s.readBuf text
  match s.checkState with
  | .CHECK_STATE_REQUESTLINE =>
    let (ret, s) ← parseRequestLine text s
    if ret = .BAD_REQUEST then pure ((some .BAD_REQUEST, .LINE_OK, s), none)
    else pure ((none, .LINE_OK, s), none)
  | .CHECK_STATE_HEADER =>
    let (ret, s) ← parseHeaders text s
    if ret = .BAD_REQUEST then pure ((some .BAD_REQUEST, .LINE_OK, s), none)
    else if ret = .GET_REQUEST then do
      let (code, name) ← doRequest stat s name
      pure ((some code, .LINE_OK, s), some name)
    else pure ((none, .LINE_OK, s), none)
  | .CHECK_STATE_CONTENT =>
    let (ret, s) ← parseContent text s
    if ret = .GET_REQUEST then do
      let (code, name) ← doRequest stat s name
      pure ((some code, .LINE_OK, s), some name)
    else pure ((none, .LINE_OPEN, s), none)

/-! ### The steps -/

structure State where
  proc : Process
  readFile : FileName
  /-- the url of the request line that has been accepted -/
  asked : Bytes
  /-- `readFile`, if the last step has given it to `stat` and `open` -/
  given : Option FileName

/-- The string that `url` points to. -/
def urlText (s : HttpConn) : Bytes :=
  match s.url.map (Strings.cstring s.readBuf) with
  | some (.ok u) => u
  | _ => []

/-- The request line has just been accepted. -/
def Accepted (s t : HttpConn) : Prop :=
  s.checkState = .CHECK_STATE_REQUESTLINE ∧ t.checkState = .CHECK_STATE_HEADER

instance (s t : HttpConn) : Decidable (Accepted s t) := inferInstanceAs (Decidable (_ ∧ _))

def step (stat : Stat) (u : State) : Act → Except Fault State
  | .init => do
    let proc ← Bounds.step stat u.proc .init
    pure ⟨proc, .zero, [], none⟩
  | .turn => do
    let ((ret, status, t), given) ← turn stat u.proc.conn u.readFile
    pure ⟨⟨t, if ret.isSome then .idle else .testing status⟩, given.getD u.readFile,
      if Accepted u.proc.conn t then urlText t else u.asked, given⟩
  | a => do
    let proc ← Bounds.step stat u.proc a
    pure { u with proc := proc, given := none }

def serving (stat : Stat) : Machine State Act Fault where
  enabled u := enabled u.proc
  step := step stat

instance (stat : Stat) (u : State) (a : Act) : Decidable ((serving stat).enabled u a) :=
  inferInstanceAs (Decidable (enabled u.proc a))

/-- The connection after `init`. -/
def start : State := ⟨Bounds.start, .zero, [], none⟩

/-- **The file asked for is served**: what is given to `stat` and `open` is terminated in its array, and
is the root and the whole url. -/
def Serves (u : State) : Prop :=
  ∀ name, u.given = some name → name.cstring = .ok (docRoot ++ u.asked)

/-- The turn calls `doRequest`. -/
def Requests (s : HttpConn) : Prop :=
  match s.checkState with
  | .CHECK_STATE_REQUESTLINE => False
  | .CHECK_STATE_HEADER => s.readBuf s.startLine = NUL ∧ s.contentLength = 0
  | .CHECK_STATE_CONTENT => s.contentLength + s.checkedIdx ≤ s.readIdx

/-- `parseContent` would write into the url `u`. -/
def CutsOff (s : HttpConn) (u : Bytes) : Prop :=
  s.checkState = .CHECK_STATE_CONTENT ∧ ∃ q, s.url = some q ∧
    (q : ℤ) ≤ s.startLine + s.contentLength ∧ s.startLine + s.contentLength < q + u.length

/-- **The url fits and stays whole** where `doRequest` is called. -/
def Whole (u : State) (a : Act) : Prop :=
  a = .turn → Requests u.proc.conn →
    docRoot.length + u.asked.length < FILENAME_LEN ∧ ¬CutsOff u.proc.conn u.asked

variable {stat : Stat} {s t : HttpConn} {m : Buffer} {name : FileName} {u v : State} {a : Act}
  {as : List Act} {p q n i z : ℕ} {line url w : Bytes} {ret : Option HTTP_CODE}
  {status : LINE_STATUS} {given : Option FileName}

/-! ### The copy -/

theorem root_fits : docRoot.length + 1 < FILENAME_LEN := by decide

theorem noNUL_docRoot : NUL ∉ docRoot := by decide

theorem strncpyFrom_eq (h : At m p url) (n : ℕ) :
    strncpyFrom m n p = .ok (url.take n ++ List.replicate (n - url.length) NUL) := by
  induction n generalizing p url with
  | zero => simp [strncpyFrom, pure_eq_ok]
  | succ n ih =>
    rw [strncpyFrom, h.readAt, ok_bind]
    cases url with
    | nil => rfl
    | cons b url =>
      obtain ⟨-, hb, hrest⟩ := h
      rw [if_neg (show (b :: url).headD NUL ≠ NUL from hb), ih hrest, ok_bind]
      simp [pure_eq_ok]

/-- The last byte is the one of the `memset`. -/
def FileName.Terminated (name : FileName) : Prop := name.bytes.drop (FILENAME_LEN - 1) = [NUL]

theorem zero_terminated : FileName.zero.Terminated := rfl

theorem put_terminated {bs : Bytes} (h : name.Terminated) (hlen : i + bs.length < FILENAME_LEN) :
    ∃ name', name.put i bs = .ok name' ∧ name'.Terminated ∧
      name'.bytes = name.bytes.take i ++ (bs ++ name.bytes.drop (i + bs.length)) := by
  refine ⟨_, dif_pos (Nat.le_of_lt hlen), ?_, rfl⟩
  have hsize := name.length_eq
  show List.drop _ (_ ++ (_ ++ _)) = _
  rw [List.drop_append, List.drop_append, List.drop_drop, List.drop_eq_nil_of_le (by simp; omega),
    List.drop_eq_nil_of_le (by simp; omega), ← h]
  simp only [List.nil_append, List.length_take]
  congr 1
  omega

/-- The name is cut behind what `readFile` has room for. -/
theorem cstring_of_append {pre rest : Bytes} (hpre : NUL ∉ pre) (h : name.bytes = pre ++ NUL :: rest) :
    name.cstring = .ok pre := by
  unfold FileName.cstring
  rw [h, if_pos (by simp), List.takeWhile_append_of_pos (fun b hb => ?_)]
  · simp
  · have hne : b ≠ NUL := fun heq => hpre (heq ▸ hb)
    simpa using hne

theorem copied (h : name.Terminated) (hat : At s.readBuf q url) :
    ∃ name₁ bs name₂, name.put 0 (docRoot ++ [NUL]) = .ok name₁ ∧
      strncpyFrom s.readBuf (FILENAME_LEN - docRoot.length - 1) q = .ok bs ∧
      name₁.put docRoot.length bs = .ok name₂ ∧ name₂.Terminated ∧
      name₂.cstring = .ok (readFile url) := by
  have hroot := root_fits
  generalize hn : FILENAME_LEN - docRoot.length - 1 = n
  have hfirst : 0 + (docRoot ++ [NUL]).length < FILENAME_LEN := by
    rw [List.length_append, List.length_singleton]
    omega
  obtain ⟨name₁, h1, hterm₁, hbytes₁⟩ := put_terminated h hfirst
  have hlen : (url.take n ++ List.replicate (n - url.length) NUL).length = n := by
    simp only [List.length_append, List.length_take, List.length_replicate]
    omega
  have hsecond : docRoot.length + (url.take n ++ List.replicate (n - url.length) NUL).length <
      FILENAME_LEN := by omega
  obtain ⟨name₂, h2, hterm₂, hbytes₂⟩ := put_terminated hterm₁ hsecond
  refine ⟨name₁, _, name₂, h1, strncpyFrom_eq hat n, h2, hterm₂, ?_⟩
  · -- the root is what is left of the first copy, and the last byte of the `memset`
    have hend : docRoot.length + n = FILENAME_LEN - 1 := by omega
    have hroot₁ : name₁.bytes.take docRoot.length = docRoot := by
      rw [hbytes₁]
      simp
    rw [hroot₁, hlen, hend, hterm₁] at hbytes₂
    have hnul : NUL ∉ readFile url := by
      rw [readFile, List.mem_append, not_or]
      exact ⟨noNUL_docRoot, fun hmem => hat.noNUL (List.mem_of_mem_take hmem)⟩
    obtain ⟨rest, hrest⟩ : ∃ rest, List.replicate (n - url.length) NUL ++ [NUL] = NUL :: rest :=
      ⟨_, List.replicate_succ'.symm.trans List.replicate_succ⟩
    have hbytes : name₂.bytes = readFile url ++ NUL :: rest := by
      rw [hbytes₂, ← hrest, readFile, hn]
      simp only [List.append_assoc]
    exact cstring_of_append hnul hbytes

/-- **`doRequest`** asks for the file of as much of the url as there is room for. -/
theorem doRequest_eq (stat : Stat) (h : name.Terminated) (hurl : s.url = some q)
    (hat : At s.readBuf q url) :
    ∃ name', doRequest stat s name = .ok (fileCode stat url, name') ∧ name'.Terminated ∧
      name'.cstring = .ok (readFile url) := by
  obtain ⟨name₁, bs, name₂, h1, hbs, h2, hterm, hcstring⟩ := copied h hat
  refine ⟨name₂, ?_, hterm, hcstring⟩
  unfold doRequest fileCode
  rw [h1, ok_bind, hurl]
  dsimp only
  rw [hbs, ok_bind, h2, ok_bind, hcstring, ok_bind]
  cases stat (readFile url) with
  | none => rfl
  | some st_mode =>
    dsimp only
    split_ifs <;> rfl

theorem readFile_eq_iff (hle : url.length ≤ w.length) :
    readFile url = docRoot ++ w ↔ docRoot.length + w.length < FILENAME_LEN ∧ url = w := by
  have hroot := root_fits
  rw [readFile, List.append_cancel_left_eq]
  constructor
  · intro h
    have hlen := congrArg List.length h
    rw [List.length_take] at hlen
    rw [List.take_of_length_le (by omega)] at h
    exact ⟨by omega, h⟩
  · rintro ⟨hfits, rfl⟩
    exact List.take_of_length_le (by omega)

theorem cutOff_eq_iff : cutOff url q z = url ↔ ¬(q ≤ z ∧ z < q + url.length) := by
  unfold cutOff
  split_ifs with hz
  · exact iff_of_true rfl (by omega)
  · rw [List.take_eq_self_iff]
    omega

/-! ### One turn -/

/-- What the call of `doRequest` at the end of a turn adds. -/
def finish (stat : Stat) (name : FileName) (t : HttpConn) :
    Except Fault ((Option HTTP_CODE × LINE_STATUS × HttpConn) × Option FileName) := do
  let (code, name) ← doRequest stat t name
  pure ((some code, .LINE_OK, t), some name)

theorem turn_requestLine (stat : Stat) (name : FileName) (hat : At s.readBuf s.startLine line)
    (hst : s.checkState = .CHECK_STATE_REQUESTLINE) :
    turn stat s name = .ok ((if (requestEffect s.startLine line).code s.toHead = .BAD_REQUEST
      then some .BAD_REQUEST else none, .LINE_OK,
      ((requestEffect s.startLine line).apply (nextLine s)).2), none) := by
  have hparse := parseRequestLine_eq (s := nextLine s) (holds_whole hat) hat
  rw [parseRequestLine_whole] at hparse
  unfold turn
  dsimp only
  rw [At.cstring (show At (nextLine s).readBuf _ _ from hat), ok_bind,
    show (nextLine s).checkState = _ from hst]
  dsimp only
  rw [hparse, ok_bind]
  show (if (requestEffect s.startLine line).code s.toHead = .BAD_REQUEST then _ else _) = _
  split_ifs <;> rfl

theorem turn_header (stat : Stat) (name : FileName) (hat : At s.readBuf s.startLine line)
    (hst : s.checkState = .CHECK_STATE_HEADER) :
    turn stat s name = (
      let t := ((headersEffect s.startLine line).apply (nextLine s)).2
      if line = [] ∧ s.contentLength = 0 then finish stat name t
      else .ok ((none, .LINE_OK, t), none)) := by
  have hcode := (headersEffect_headers s.startLine line).code s.toHead
  unfold turn
  dsimp only
  rw [At.cstring (show At (nextLine s).readBuf _ _ from hat), ok_bind,
    show (nextLine s).checkState = _ from hst]
  dsimp only
  rw [parseHeaders_eq (s := nextLine s) hat, ok_bind]
  show (if (headersEffect s.startLine line).code s.toHead = .BAD_REQUEST then _ else
    if (headersEffect s.startLine line).code s.toHead = .GET_REQUEST then _ else _) = _
  by_cases hend : line = [] ∧ s.contentLength = 0
  · rw [hcode, if_pos hend, if_neg (by decide), if_pos rfl]
    exact (if_pos hend).symm
  · rw [hcode, if_neg hend, if_neg (by decide), if_neg (by decide)]
    exact (if_neg hend).symm

theorem turn_content (stat : Stat) (name : FileName) (h : Sane s)
    (hst : s.checkState = .CHECK_STATE_CONTENT) (hfits : LengthFits s) :
    turn stat s name = (
      let t := nextLine s
      if s.contentLength + s.checkedIdx ≤ s.readIdx then
        finish stat name { t with readBuf := clear [(s.startLine + s.contentLength).toNat] s.readBuf }
      else .ok ((none, .LINE_OPEN, t), none)) := by
  obtain ⟨line, hat, -⟩ := h.exists_at (Nat.le_trans h.start_le h.checked_le)
  unfold turn
  dsimp only
  rw [At.cstring (show At (nextLine s).readBuf _ _ from hat), ok_bind,
    show (nextLine s).checkState = _ from hst]
  dsimp only
  rw [parseContent_eq (s := nextLine s) h.length h.start_le h.short hfits.1 hfits.2, ok_bind]
  by_cases hall : s.contentLength + s.checkedIdx ≤ s.readIdx
  · have hall' : (nextLine s).contentLength + (nextLine s).checkedIdx ≤ (nextLine s).readIdx := hall
    rw [if_pos hall']
    exact (if_pos hall).symm
  · have hall' : ¬(nextLine s).contentLength + (nextLine s).checkedIdx ≤ (nextLine s).readIdx := hall
    rw [if_neg hall']
    exact (if_neg hall).symm

theorem finish_eq (stat : Stat) (h : name.Terminated) (hurl : t.url = some q)
    (hat : At t.readBuf q url) : ∃ name', finish stat name t =
      .ok ((some (fileCode stat url), .LINE_OK, t), some name') ∧ name'.Terminated ∧
      name'.cstring = .ok (readFile url) := by
  obtain ⟨name', hdo, hterm, hcstring⟩ := doRequest_eq stat h hurl hat
  refine ⟨name', ?_, hterm, hcstring⟩
  unfold finish
  rw [hdo]
  rfl

theorem finish_refines (stat : Stat) (h : name.Terminated) (hurl : t.url = some q)
    (hat : At t.readBuf q url) : Prod.fst <$> finish stat name t =
      (do pure (some (← Parser.doRequest stat t), .LINE_OK, t)) := by
  obtain ⟨name', hfinish, -⟩ := finish_eq stat h hurl hat
  rw [hfinish, Heads.doRequest_eq stat hurl hat]
  rfl

theorem exists_url (h : Sane s) (hst : s.checkState ≠ .CHECK_STATE_REQUESTLINE) (zs : List ℕ) :
    ∃ q url, s.url = some q ∧ At (clear zs s.readBuf) q url := by
  obtain ⟨q, hq, hle⟩ := h.url hst
  obtain ⟨url, hat, -⟩ := Strings.exists_at hle h.short (clear_of_eq (h.blank _ (Nat.le_refl _)))
  exact ⟨q, url, hq, hat⟩

/-- **The turns are those of the parser.** -/
theorem turn_refines (stat : Stat) (hname : name.Terminated) (h : Sane s) :
    Prod.fst <$> turn stat s name = Parser.turn stat s := by
  obtain ⟨line, hat, -⟩ := h.exists_at (Nat.le_trans h.start_le h.checked_le)
  cases hst : s.checkState with
  | CHECK_STATE_REQUESTLINE =>
    rw [turn_requestLine stat name hat hst, turn_of_requestLine stat hat hst fun t ht => by
      rw [← parseRequestLine_whole]
      exact parseRequestLine_eq (holds_whole ht) ht]
    rfl
  | CHECK_STATE_HEADER =>
    have he := headersEffect_headers s.startLine line
    rw [turn_header stat name hat hst, turn_of_header stat hat hst fun t ht => parseHeaders_eq ht]
    show _ = (if (headersEffect s.startLine line).code s.toHead = .BAD_REQUEST then _ else
      if (headersEffect s.startLine line).code s.toHead = .GET_REQUEST then _ else _)
    dsimp only
    by_cases hend : line = [] ∧ s.contentLength = 0
    · obtain ⟨q, url, hurl, hat'⟩ := exists_url h (by rw [hst]; nofun)
        (headersEffect s.startLine line).zeros
      have hurl' : ((headersEffect s.startLine line).apply (nextLine s)).2.url = some q :=
        (he.target _).trans hurl
      rw [if_pos hend, he.code, if_pos hend, if_neg (by decide), if_pos rfl]
      exact finish_refines stat hname hurl' hat'
    · rw [if_neg hend, he.code, if_neg hend, if_neg (by decide), if_neg (by decide)]
      rfl
  | CHECK_STATE_CONTENT =>
    by_cases hfits : LengthFits s
    · rw [turn_content stat name h hst hfits, turn_of_content hat hst,
        parseContent_eq (s := nextLine s) h.length h.start_le h.short hfits.1 hfits.2, ok_bind]
      dsimp only
      by_cases hall : s.contentLength + s.checkedIdx ≤ s.readIdx
      · have hall' : (nextLine s).contentLength + (nextLine s).checkedIdx ≤ (nextLine s).readIdx :=
          hall
        obtain ⟨q, url, hurl, hat'⟩ := exists_url h (by rw [hst]; nofun)
          [(s.startLine + s.contentLength).toNat]
        rw [if_pos hall, if_pos hall']
        dsimp only
        rw [if_pos rfl]
        exact finish_refines (t := { nextLine s with
          readBuf := clear [(s.startLine + s.contentLength).toNat] s.readBuf }) stat hname hurl hat'
      · have hall' : ¬(nextLine s).contentLength + (nextLine s).checkedIdx ≤ (nextLine s).readIdx :=
          hall
        rw [if_neg hall, if_neg hall']
        rfl
    · obtain ⟨f, hf, -⟩ := parseContent_error (s := nextLine s) h.length h.checked_le hfits
      rw [turn_of_content hat hst]
      unfold turn
      dsimp only
      rw [At.cstring (show At (nextLine s).readBuf _ _ from hat), ok_bind,
        show (nextLine s).checkState = _ from hst]
      dsimp only
      rw [hf]
      rfl

/-- A line has been found before `checkedIdx`, where the next turn parses one. -/
def HasLine (s : HttpConn) : Prop := s.checkState ≠ .CHECK_STATE_CONTENT →
  ∃ line, At s.readBuf s.startLine line ∧ s.startLine + line.length < s.checkedIdx

/-- What a turn does with the url, and with `readFile`. -/
inductive Turned (s t : HttpConn) : Option FileName → Prop
  /-- a request line, which may be accepted -/
  | request (hst : s.checkState = .CHECK_STATE_REQUESTLINE)
      (hurl : t.checkState ≠ .CHECK_STATE_REQUESTLINE → t.checkState = .CHECK_STATE_HEADER ∧
        ∃ q u line, Url q u t ∧ At s.readBuf s.startLine line ∧ Parses line u) : Turned s t none
  /-- anything else before the end of the request -/
  | more (hst : s.checkState ≠ .CHECK_STATE_REQUESTLINE) (hreq : ¬Requests s)
      (hurl : ∀ q w, Url q w s → Url q w t) : Turned s t none
  /-- the end -/
  | file {name : FileName} (hst : s.checkState ≠ .CHECK_STATE_REQUESTLINE) (hreq : Requests s)
      (hname : name.Terminated) (hurl : ∀ q w, Url q w s → ∃ w', Url q w' t ∧
        w'.length ≤ w.length ∧ (w' = w ↔ ¬CutsOff s w) ∧ name.cstring = .ok (readFile w')) :
      Turned s t (some name)

theorem accepted_url (hat : At s.readBuf s.startLine line)
    (hend : s.startLine + line.length < s.checkedIdx) (h : Parses line w) :
    ∃ q, Url q w ((requestEffect s.startLine line).apply (nextLine s)).2 := by
  obtain ⟨M, S₁, T, S₂, V, hline, hu⟩ := h
  obtain ⟨hurl, hat'⟩ := url_of_grammar (s := nextLine s) hat hline hu
  have hin := url_in_line hline hu
  refine ⟨_, hurl, hat', ?_⟩
  show _ < s.checkedIdx
  omega

theorem turn_conn (hname : name.Terminated) (h : Sane s)
    {r : (Option HTTP_CODE × LINE_STATUS × HttpConn) × Option FileName}
    (hturn : turn stat s name = .ok r) : Parser.turn stat s = .ok r.1 := by
  rw [← turn_refines stat hname h, hturn]
  rfl

theorem requests_header (hat : At s.readBuf s.startLine line)
    (hst : s.checkState = .CHECK_STATE_HEADER) :
    Requests s ↔ line = [] ∧ s.contentLength = 0 := by
  have hnul : s.readBuf s.startLine = NUL ↔ line = [] := by
    cases line with
    | nil => exact iff_of_true hat.2 rfl
    | cons b line => exact iff_of_false (fun h => hat.2.1 (hat.1.symm.trans h)) nofun
  unfold Requests
  rw [hst]
  exact and_congr_left' hnul

theorem turned_request (hat : At s.readBuf s.startLine line)
    (hend : s.startLine + line.length < s.checkedIdx) (hst : s.checkState = .CHECK_STATE_REQUESTLINE)
    (hturn : turn stat s name = .ok ((ret, status, t), given)) : Turned s t given := by
  rw [turn_requestLine stat name hat hst] at hturn
  cases hturn
  refine .request hst fun hne => ?_
  rcases (requestEffect_requests s.startLine line).code s.toHead with ⟨-, hkeep⟩ | ⟨hok, hst', -⟩
  · exact absurd (hkeep.trans hst) hne
  · obtain ⟨u, hu⟩ := parses_of_accepted hok
    obtain ⟨q, hurl⟩ := accepted_url hat hend hu
    exact ⟨hst', q, u, line, hurl, hat, hu⟩

theorem turned_header (hname : name.Terminated) (h : Sane s) (hat : At s.readBuf s.startLine line)
    (hst : s.checkState = .CHECK_STATE_HEADER)
    (hturn : turn stat s name = .ok ((ret, status, t), given)) : Turned s t given := by
  have hst' : s.checkState ≠ .CHECK_STATE_REQUESTLINE := by
    rw [hst]
    nofun
  have he := headersEffect_headers s.startLine line
  have hkeep : ∀ q w, Url q w s → Url q w ((headersEffect s.startLine line).apply (nextLine s)).2 :=
    fun q w hw => hw.effect h.start_le he.toWithin he.target
  rw [turn_header stat name hat hst] at hturn
  dsimp only at hturn
  by_cases hend : line = [] ∧ s.contentLength = 0
  · obtain ⟨q, url, hurl, hat'⟩ := exists_url h hst' (headersEffect s.startLine line).zeros
    obtain ⟨name', hfinish, hterm, hcstring⟩ := finish_eq
      (t := ((headersEffect s.startLine line).apply (nextLine s)).2) stat hname
      ((he.target _).trans hurl) hat'
    rw [if_pos hend, hfinish] at hturn
    cases hturn
    refine .file hst' ((requests_header hat hst).mpr hend) hterm fun q' w hw => ?_
    obtain rfl : q' = q := Option.some.inj (hw.url.symm.trans hurl)
    obtain rfl : w = url := (hkeep q' w hw).at_url.unique hat'
    refine ⟨w, hkeep q' w hw, Nat.le_refl _, iff_of_true rfl fun hcut => ?_, hcstring⟩
    have hcontent := hcut.1
    rw [hst] at hcontent
    cases hcontent
  · rw [if_neg hend] at hturn
    cases hturn
    exact .more hst' (mt (requests_header hat hst).mp hend) hkeep

theorem turned_content (hname : name.Terminated) (h : Sane s)
    (hst : s.checkState = .CHECK_STATE_CONTENT)
    (hturn : turn stat s name = .ok ((ret, status, t), given)) : Turned s t given := by
  have hst' : s.checkState ≠ .CHECK_STATE_REQUESTLINE := by
    rw [hst]
    nofun
  have hfits : LengthFits s := by
    by_contra hlen
    obtain ⟨f, hf, -⟩ := (Bounds.turn_content stat h hst).2 hlen
    rw [turn_conn hname h hturn] at hf
    cases hf
  have hstart := h.start_le
  have hreq : Requests s ↔ s.contentLength + s.checkedIdx ≤ s.readIdx := by
    unfold Requests
    rw [hst]
  rw [turn_content stat name h hst hfits] at hturn
  dsimp only at hturn
  by_cases hall : s.contentLength + s.checkedIdx ≤ s.readIdx
  · generalize hz : (s.startLine + s.contentLength).toNat = z at hturn
    obtain ⟨q, url, hurl, hat'⟩ := exists_url h hst' [z]
    obtain ⟨name', hfinish, hterm, hcstring⟩ := finish_eq
      (t := { nextLine s with readBuf := clear [z] s.readBuf }) stat hname hurl hat'
    rw [if_pos hall, hfinish] at hturn
    cases hturn
    refine .file hst' (hreq.mpr hall) hterm fun q' w hw => ?_
    obtain rfl : q' = q := Option.some.inj (hw.url.symm.trans hurl)
    obtain rfl : cutOff w q' z = url := (at_cutOff hw.at_url z).unique hat'
    have hle := cutOff_length w q' z
    have hbefore := hw.before
    refine ⟨_, ⟨hurl, hat', ?_⟩, hle, ?_, hcstring⟩
    · show q' + (cutOff w q' z).length < s.checkedIdx
      omega
    · have hlow := hfits.1
      rw [cutOff_eq_iff, CutsOff, hurl]
      refine not_congr ⟨fun hin => ⟨hst, q', rfl, by omega, by omega⟩, ?_⟩
      rintro ⟨-, q, hq, h1, h2⟩
      obtain rfl := Option.some.inj hq
      omega
  · rw [if_neg hall] at hturn
    cases hturn
    refine .more hst' (mt hreq.mp hall) fun q w hw => ⟨hw.url, hw.at_url, ?_⟩
    have hbefore := hw.before
    show q + w.length < s.checkedIdx
    omega

/-- **One turn.** -/
theorem turn_turned (hname : name.Terminated) (h : Sane s) (hline : HasLine s)
    (hturn : turn stat s name = .ok ((ret, status, t), given)) : Turned s t given := by
  cases hst : s.checkState with
  | CHECK_STATE_REQUESTLINE =>
    obtain ⟨line, hat, hend⟩ := hline (by rw [hst]; nofun)
    exact turned_request hat hend hst hturn
  | CHECK_STATE_HEADER =>
    obtain ⟨line, hat, -⟩ := hline (by rw [hst]; nofun)
    exact turned_header hname h hat hst hturn
  | CHECK_STATE_CONTENT => exact turned_content hname h hst hturn

/-! ### The condition of the loop -/

theorem parseLine_tested (h : Sane s) (hline : parseLine s = .ok (status, t)) :
    (status = .LINE_OK → HasLine t) ∧ ∀ q w, Url q w s → Url q w t := by
  have hscan := scanLine_scanned s.readBuf (s.readIdx - s.checkedIdx) s.checkedIdx
  have hstart := h.start_le
  have hshort := h.short
  have hchecked := h.checked_le
  rw [parseLine_found h, found] at hline
  have hle := hscan.le
  have hok := hscan.ok
  generalize scanLine s.readBuf (s.readIdx - s.checkedIdx) s.checkedIdx = r at hline hle hok
  obtain ⟨status, k⟩ := r
  dsimp only at hle hok hline
  cases hline
  refine ⟨?_, fun q w hw => ?_⟩
  · rintro rfl _
    obtain ⟨hk, -, -⟩ := hok rfl
    obtain ⟨line, hat, hlen⟩ := Strings.exists_at (p := s.startLine) (z := k)
      (m := clear [k, k + 1] s.readBuf) (by omega) (by omega) (clear_self _ _ _)
    refine ⟨line, hat, ?_⟩
    show s.startLine + line.length < k + 2
    omega
  · have hbefore := hw.before
    cases status with
    | LINE_OK =>
      refine ⟨hw.url, hw.at_url.congr fun i _ hi => clear_of_notMem fun hz => ?_, hbefore⟩
      rcases List.mem_pair.mp hz with heq | heq <;> omega
    | _ => exact ⟨hw.url, hw.at_url, hbefore⟩

theorem loopTest_tested {status' : LINE_STATUS} (h : Sane s)
    (htest : loopTest status s = .ok (status', t)) :
    (status' = .LINE_OK → HasLine t) ∧ ∀ q w, Url q w s → Url q w t := by
  unfold loopTest at htest
  split_ifs at htest with hcontent
  · cases htest
    exact ⟨fun _ hne => absurd hcontent.1 hne, fun _ _ hw => hw⟩
  · exact parseLine_tested h htest

/-! ### Runs -/

/-- What holds in every run. -/
structure Valid (u : State) : Prop where
  sane : Sane u.proc.conn
  terminated : u.readFile.Terminated
  line : u.proc.phase = .turning → HasLine u.proc.conn

/-- What holds as long as the url is whole. -/
structure Keeps (u : State) : Prop extends Valid u where
  url : u.proc.conn.checkState ≠ .CHECK_STATE_REQUESTLINE → ∃ q, Url q u.asked u.proc.conn
  serves : Serves u

theorem start_keeps : Keeps start where
  sane := init_sane
  terminated := zero_terminated
  line := nofun
  url := fun h => absurd rfl h
  serves := fun _ => nofun

theorem test_cases (ha : (serving stat).enabled u .test) (hs : step stat u .test = .ok v) :
    ∃ status status' t, loopTest status u.proc.conn = .ok (status', t) ∧
      v = { u with proc := ⟨t, if status' = .LINE_OK then .turning else .idle⟩, given := none } := by
  obtain ⟨proc, hproc, hv⟩ := bind_eq_ok.mp hs
  cases hv
  have hen : u.proc.phase.isTesting = true := ha
  unfold Bounds.step at hproc
  dsimp only at hproc
  cases hphase : u.proc.phase with
  | testing status =>
    rw [hphase] at hproc
    obtain ⟨⟨status', t⟩, htest, hproc⟩ := bind_eq_ok.mp hproc
    cases hproc
    exact ⟨status, status', t, htest, rfl⟩
  | _ =>
    rw [hphase] at hen
    cases hen

theorem turn_cases (hs : step stat u .turn = .ok v) : ∃ ret status t given,
    turn stat u.proc.conn u.readFile = .ok ((ret, status, t), given) ∧
      v = ⟨⟨t, if ret.isSome then .idle else .testing status⟩, given.getD u.readFile,
        if Accepted u.proc.conn t then urlText t else u.asked, given⟩ := by
  obtain ⟨⟨⟨ret, status, t⟩, given⟩, hturn, hv⟩ := bind_eq_ok.mp hs
  cases hv
  exact ⟨ret, status, t, given, hturn, rfl⟩

/-- **The steps are those of the parser.** -/
theorem step_refines (h : Valid u) (a : Act) :
    State.proc <$> step stat u a = Bounds.step stat u.proc a := by
  cases a with
  | turn =>
    unfold step Bounds.step
    dsimp only
    rw [← turn_refines stat h.terminated h.sane]
    cases turn stat u.proc.conn u.readFile <;> rfl
  | test =>
    show _ <$> (Bounds.step stat u.proc .test >>= _) = _
    cases Bounds.step stat u.proc .test <;> rfl
  | _ => rfl

theorem step_valid (h : Valid u) (ha : (serving stat).enabled u a) (hs : step stat u a = .ok v) :
    Valid v := by
  have hproc : Bounds.step stat u.proc a = .ok v.proc := by
    rw [← step_refines h, hs]
    rfl
  have hsane : Sane v.proc.conn := by
    rcases step_sane stat h.sane ha with ⟨-, w, hw, hsane⟩ | ⟨-, f, hf⟩
    · rw [hproc] at hw
      cases hw
      exact hsane
    · rw [hproc] at hf
      cases hf
  cases a with
  | read chunk =>
    cases hs
    refine ⟨hsane, h.terminated, fun hphase => ?_⟩
    exact absurd (ha.1.symm.trans hphase) nofun
  | init =>
    cases hs
    exact ⟨hsane, zero_terminated, fun hphase => absurd (Eq.trans (Eq.symm ha) hphase) nofun⟩
  | processRead =>
    cases hs
    exact ⟨hsane, h.terminated, nofun⟩
  | test =>
    obtain ⟨status, status', t, htest, rfl⟩ := test_cases ha hs
    refine ⟨hsane, h.terminated, fun hphase => (loopTest_tested h.sane htest).1 ?_⟩
    by_contra hne
    exact absurd ((if_neg hne).symm.trans hphase) nofun
  | turn =>
    obtain ⟨ret, status, t, given, hturn, rfl⟩ := turn_cases hs
    refine ⟨hsane, ?_, fun hphase => ?_⟩
    · cases turn_turned h.terminated h.sane (h.line ha) hturn with
      | file _ _ hname _ => exact hname
      | _ => exact h.terminated
    · cases ret with
      | none => cases hphase
      | some code => cases hphase

/-- **The runs are those of `connMachine`.** -/
theorem runs_refine {pr : Process} (h : Valid u) :
    (∃ v, Run (serving stat) u as v ∧ v.proc = pr) ↔ Run (connMachine stat) u.proc as pr := by
  induction as generalizing u with
  | nil =>
    constructor
    · rintro ⟨v, hrun, rfl⟩
      cases hrun
      exact .nil _
    · intro hrun
      cases hrun
      exact ⟨u, .nil u, rfl⟩
  | cons a as ih =>
    constructor
    · rintro ⟨v, hrun, hproc⟩
      obtain ⟨ha, w, hs, hrun⟩ := run_cons.mp hrun
      have hstep : Bounds.step stat u.proc a = .ok w.proc := by
        rw [← step_refines h, show step stat u a = .ok w from hs]
        rfl
      exact .cons ha hstep ((ih (step_valid h ha hs)).mp ⟨v, hrun, hproc⟩)
    · intro hrun
      obtain ⟨ha, w, hs, hrun⟩ := run_cons.mp hrun
      have hmap : State.proc <$> step stat u a = .ok w := (step_refines h a).trans hs
      cases hstep : step stat u a with
      | error f =>
        rw [hstep] at hmap
        cases hmap
      | ok w' =>
        rw [hstep] at hmap
        cases hmap
        obtain ⟨v, hrun', hproc⟩ := (ih (step_valid h ha hstep)).mpr hrun
        exact ⟨v, .cons ha hstep hrun', hproc⟩

theorem urlText_eq (h : Url q w s) : urlText s = w := by
  unfold urlText
  rw [h.url, Option.map_some, h.at_url.cstring]

theorem asked_same (hst : s.checkState ≠ .CHECK_STATE_REQUESTLINE) (url w : Bytes) :
    (if Accepted s t then url else w) = w := if_neg fun h => hst h.1

/-- `readFile` where `doRequest` has been called, for the url that is asked for. -/
theorem file_serves {name' : FileName} {w' : Bytes} (hle : w'.length ≤ w.length)
    (hcstring : name'.cstring = .ok (readFile w')) :
    name'.cstring = .ok (docRoot ++ w) ↔ docRoot.length + w.length < FILENAME_LEN ∧ w' = w := by
  rw [hcstring, Except.ok.injEq]
  exact readFile_eq_iff hle

theorem step_keeps (h : Keeps u) (ha : (serving stat).enabled u a) (hs : step stat u a = .ok v)
    (hwhole : Whole u a) : Keeps v := by
  have hvalid := step_valid h.toValid ha hs
  cases a with
  | read chunk =>
    cases hs
    refine ⟨hvalid, fun hst => ?_, fun _ => nofun⟩
    obtain ⟨q, hurl⟩ := h.url hst
    exact ⟨q, hurl.read h.sane chunk⟩
  | init =>
    cases hs
    exact ⟨hvalid, fun hst => absurd rfl hst, fun _ => nofun⟩
  | processRead =>
    cases hs
    exact ⟨hvalid, h.url, fun _ => nofun⟩
  | test =>
    obtain ⟨status, status', t, htest, rfl⟩ := test_cases ha hs
    refine ⟨hvalid, fun hst => ?_, fun _ => nofun⟩
    obtain ⟨_, _, htest', -, hhead, -⟩ := loopTest_sane h.sane status
    rw [htest] at htest'
    cases htest'
    obtain ⟨q, hurl⟩ := h.url (by rwa [← show t.checkState = _ from congrArg Head.checkState hhead])
    exact ⟨q, (loopTest_tested h.sane htest).2 q _ hurl⟩
  | turn =>
    obtain ⟨ret, status, t, given, hturn, rfl⟩ := turn_cases hs
    cases turn_turned h.terminated h.sane (h.line ha) hturn with
    | request hst hurl =>
      refine ⟨hvalid, fun hst' => ?_, fun _ => nofun⟩
      obtain ⟨hheader, q, w, -, hw, -⟩ := hurl hst'
      refine ⟨q, ?_⟩
      show Url q (if _ then _ else _) t
      rw [if_pos ⟨hst, hheader⟩, urlText_eq hw]
      exact hw
    | more hst hreq hurl =>
      refine ⟨hvalid, fun _ => ?_, fun _ => nofun⟩
      obtain ⟨q, hw⟩ := h.url hst
      refine ⟨q, ?_⟩
      show Url q (if _ then _ else _) t
      rw [asked_same hst]
      exact hurl q _ hw
    | @file name hst hreq hname hurl =>
      obtain ⟨q, hw⟩ := h.url hst
      obtain ⟨w', hw', hle, hcut, hcstring⟩ := hurl q _ hw
      obtain ⟨hfits, hnot⟩ := hwhole rfl hreq
      refine ⟨hvalid, fun _ => ⟨q, ?_⟩, fun name' hname' => ?_⟩
      · show Url q (if _ then _ else _) t
        rw [asked_same hst, ← hcut.mpr hnot]
        exact hw'
      · cases hname'
        show name.cstring = .ok (docRoot ++ if _ then _ else _)
        rw [asked_same hst]
        exact (file_serves hle hcstring).mpr ⟨hfits, hcut.mpr hnot⟩

theorem step_broken (h : Keeps u) (ha : (serving stat).enabled u a) (hs : step stat u a = .ok v)
    (hwhole : ¬Whole u a) : ¬Serves v := by
  unfold Whole at hwhole
  rw [Classical.not_imp, Classical.not_imp] at hwhole
  obtain ⟨rfl, hreq, hbroken⟩ := hwhole
  obtain ⟨ret, status, t, given, hturn, rfl⟩ := turn_cases hs
  intro hserves
  cases turn_turned h.terminated h.sane (h.line ha) hturn with
  | request hst _ =>
    unfold Requests at hreq
    rw [hst] at hreq
    exact hreq
  | more _ hnot _ => exact hnot hreq
  | @file name hst _ _ hurl =>
    obtain ⟨q, hw⟩ := h.url hst
    obtain ⟨w', -, hle, hcut, hcstring⟩ := hurl q _ hw
    have hserved : name.cstring = .ok (docRoot ++ if _ then _ else _) := hserves name rfl
    rw [asked_same hst] at hserved
    obtain ⟨hfits, hsame⟩ := (file_serves hle hcstring).mp hserved
    exact hbroken ⟨hfits, hcut.mp hsame⟩

/-- **The file that was asked for is served** in a run, if and only if in each of its calls of
`doRequest` the url fits in `readFile` behind the root and no byte of it has been overwritten. -/
theorem serves_iff (h : Run (serving stat) start as u) :
    Throughout (serving stat) Serves start as ↔ Run (restrict (serving stat) Whole) start as u :=
  throughout_iff (J := Keeps) (fun _ => Keeps.serves)
    (fun _ _ _ hkeeps ha hs => step_keeps hkeeps ha hs)
    (fun _ _ _ hkeeps ha hs => step_broken hkeeps ha hs) h start_keeps

/-- The url that is asked for is the one of the request line. -/
theorem accepted_asked (h : Run (serving stat) start as u) (hs : (serving stat).step u .turn = .ok v)
    (ha : (serving stat).enabled u .turn) (hacc : Accepted u.proc.conn v.proc.conn) :
    ∃ line, At u.proc.conn.readBuf u.proc.conn.startLine line ∧ Parses line v.asked := by
  have hu : Valid u := h.invariant (fun _ _ _ hv ha hs => step_valid hv ha hs) start_keeps.toValid
  obtain ⟨ret, status, t, given, hturn, rfl⟩ := turn_cases hs
  have hheader : t.checkState ≠ .CHECK_STATE_REQUESTLINE := by
    rw [show t.checkState = _ from hacc.2]
    nofun
  cases turn_turned hu.terminated hu.sane (hu.line ha) hturn with
  | request hst hurl =>
    obtain ⟨-, q, w, line, hw, hat, hparses⟩ := hurl hheader
    refine ⟨line, hat, ?_⟩
    show Parses line (if _ then _ else _)
    rw [if_pos hacc, urlText_eq hw]
    exact hparses
  | more hst => exact absurd hacc.1 hst
  | file hst => exact absurd hacc.1 hst

/-! ### Requests -/

/-- One `read`, and the turns for a head of two lines. -/
def visit (chunk : Bytes) : List Act := [.read chunk, .processRead, .test, .turn, .test, .turn]

/-- Every path is a file that others may read. -/
def anyFile : Stat := fun _ => some 33188

/-- What is given to `stat`, and the url that is asked for. -/
def asks (u : State) : Option (Option Bytes × Bytes) :=
  u.given.map fun name => (name.cstring.toOption, u.asked)

theorem exists_run {α : Type*} {f : State → α} {b : α}
    (h : ((serving stat).exec start as).map f = some b) :
    ∃ u, Run (serving stat) start as u ∧ f u = b := by
  obtain ⟨u, hu, hf⟩ := Option.map_eq_some_iff.mp h
  exact ⟨u, run_iff_exec.mpr hu, hf⟩

/-- The file `/work/ab`. -/
theorem serves_iff_ab : ∃ u, asks u = some (some (ascii "/work/ab"), ascii "/ab") ∧
    (Throughout (serving anyFile) Serves start (visit (ascii "GET /ab HTTP/1.1\r\n\r\n")) ↔
      Run (restrict (serving anyFile) Whole) start (visit (ascii "GET /ab HTTP/1.1\r\n\r\n")) u) := by
  have hexec : ((serving anyFile).exec start (visit (ascii "GET /ab HTTP/1.1\r\n\r\n"))).map asks =
      some (some (some (ascii "/work/ab"), ascii "/ab")) := by
    decide +kernel
  obtain ⟨u, hrun, hasks⟩ := exists_run hexec
  exact ⟨u, hasks, serves_iff hrun⟩

theorem serves_asks {path : Option Bytes} (h : Serves u) (hasks : asks u = some (path, w)) :
    path = some (docRoot ++ w) := by
  obtain ⟨name, hname, hpair⟩ := Option.map_eq_some_iff.mp hasks
  have hserved := h name hname
  cases hpair
  rw [hserved]
  rfl

/-- A url of 195 bytes. -/
def long : Bytes := ascii "/" ++ List.replicate 194 97

/-- The last byte of a long url is lost, and so is what a negative length reaches. -/
theorem not_serves :
    (∃ u, Run (serving anyFile) start (visit (ascii "GET " ++ long ++ ascii " HTTP/1.1\r\n\r\n")) u ∧
      asks u = some (some (docRoot ++ long.take 194), long) ∧ ¬Serves u) ∧
    ∃ u, Run (serving anyFile) start
        (visit (ascii "GET /ab HTTP/1.1\r\nContent-Length: -35\r\n\r\n") ++
          [.test, .turn, .test, .turn]) u ∧
      asks u = some (some (ascii "/work/a"), ascii "/ab") ∧ ¬Serves u := by
  constructor
  · have hexec : ((serving anyFile).exec start
        (visit (ascii "GET " ++ long ++ ascii " HTTP/1.1\r\n\r\n"))).map asks =
          some (some (some (docRoot ++ long.take 194), long)) := by
      decide +kernel
    obtain ⟨u, hrun, hasks⟩ := exists_run hexec
    refine ⟨u, hrun, hasks, fun h => ?_⟩
    have hlen := congrArg (Option.map List.length) (serves_asks h hasks)
    revert hlen
    decide +kernel
  · have hexec : ((serving anyFile).exec start
        (visit (ascii "GET /ab HTTP/1.1\r\nContent-Length: -35\r\n\r\n") ++
          [.test, .turn, .test, .turn])).map asks =
        some (some (some (ascii "/work/a"), ascii "/ab")) := by
      decide +kernel
    obtain ⟨u, hrun, hasks⟩ := exists_run hexec
    refine ⟨u, hrun, hasks, fun h => ?_⟩
    have hpath := serves_asks h hasks
    revert hpath
    decide

end ReactorServer.Conn.Serving
