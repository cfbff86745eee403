import ReactorServer.Conn.Serving
import ReactorServer.Conn.Sending
import ReactorServer.Http.Replies
import Mathlib.Data.List.ModifyLast

/-!
# The requests of one connection

An `HttpConn` from `init` to `closeConn`: when its descriptor can be read, `read` and `process` are
called, and when it can be written, `write`; the descriptor is watched for one event at a time, and
watched again by `modFd`.  Where a call returns false the caller closes the connection.

The members are those of a new connection again when a response is completed, so that an answer
depends on nothing but what has been received since the last one (`session_isolated`), and what is
sent is made up of the beginnings of the answers that `writev` has taken (`session_sent`).  Where each
`writev` takes all it is given, the client reads the answers back (`session_read`).
-/

namespace ReactorServer.Conn.Session

open ReactorServer.Cpp ReactorServer.Lib ReactorServer.Lib.Runs ReactorServer.Lib.Lines
open ReactorServer.Lib.Frames ReactorServer.Http.Response ReactorServer.Http.Replies
open ReactorServer.Conn.Strings ReactorServer.Conn.Parser ReactorServer.Conn.Serving
open ReactorServer.Conn.Writer ReactorServer.Conn.Sending

/-! ### What surrounds the connection -/

/-- What a `recv` returns: bytes, none of them at the end of the stream or where there is no room, or
`-1` with an `errno`. -/
inductive Recv
  | data (chunk : Bytes)
  | failed (e : Errno)
  deriving DecidableEq, Repr

/-- The file system: the `st_mode` and the content of a path where `stat` succeeds. -/
abbrev Files := Bytes → Option (ℕ × Bytes)

def statOf (files : Files) : Stat := fun path => (files path).map Prod.fst

/-- What `doRequest` has mapped when it returns `FILE_REQUEST`. -/
def fileOf (files : Files) (s : Parser.HttpConn) : Bytes :=
  ((files (readFile (urlText s))).map Prod.snd).getD []

/-- The file that the code stands for. -/
def fileFor (code : HTTP_CODE) (files : Files) (s : Parser.HttpConn) : Bytes :=
  if code = .FILE_REQUEST then fileOf files s else []

/-- What one call of `read` and of `process` finds. -/
structure Visit where
  recvs : List Recv
  files : Files

/-- A response that `processWrite` has assembled: the visits it answers, the code and the file it is
made from, its text, and the numbers of bytes that `writev` has taken of it. -/
structure Answer where
  visits : List Visit
  code : HTTP_CODE
  linger : Bool
  file : Bytes
  text : Bytes
  counts : List ℕ

/-- `writev` takes some of its bytes. -/
def Answer.take (ns : List ℕ) (a : Answer) : Answer := { a with counts := a.counts ++ ns }

/-- With every count the bytes from the first one on. -/
def Answer.pieces (a : Answer) : Bytes := a.counts.flatMap a.text.take

/-! ### The connection -/

/-- `HttpConn`; `linger` is one member, which the parser sets and the rest reads.  `armed` is the event
that the descriptor is watched for, `visits` are those since `init`, and `sent` is what the kernel has
taken. -/
structure HttpConn where
  sockFd : ℤ
  parser : Parser.HttpConn
  sender : Sender
  armed : Option Event
  userCount : ℤ
  visits : List Visit
  sent : Bytes
  log : List Answer

/-- The half that writes, after `init`. -/
def blank (e : Errno) (file : Bytes) (iv : List Iovec) : Sender where
  writeBuf := fun _ => NUL
  writeIdx := 0
  linger := false
  file := file
  iv := iv
  mapped := false
  errno := e
  armed := []
  taken := []

/-- `init(sockFd, addr)` on a new object, and the caller's `addFd`. -/
def start (sockFd : ℤ) : HttpConn :=
  ⟨sockFd, Parser.init, blank .other [] [], some .EPOLLIN, 1, [], [], []⟩

/-- The loop of `read`; the results it has not used are left. -/
def readLoop : List Recv → Parser.HttpConn → Except Fault (Bool × List Recv × Parser.HttpConn)
  | [], _ => .error .starved
  | .data [] :: rs, s => pure (false, rs, s)
  | .data (b :: bs) :: rs, s => readLoop rs (Parser.read (b :: bs) s)
  | .failed e :: rs, s => pure (decide (e = .EAGAIN), rs, s)

def read (rs : List Recv) (s : Parser.HttpConn) :
    Except Fault (Bool × List Recv × Parser.HttpConn) :=
  if READ_BUFFER_SIZE < s.readIdx then pure (false, rs, s) else readLoop rs s

namespace HttpConn

def closeConn (s : HttpConn) : HttpConn :=
  if s.sockFd ≠ -1 then { s with sockFd := -1, userCount := s.userCount - 1 } else s

/-- `modFd(epollFd, sockFd, ev)`, which fails for the descriptor `-1`. -/
def modFd (ev : Event) (s : HttpConn) : HttpConn :=
  if s.sockFd = -1 then s else { s with armed := some ev }

/-- The half that writes, as `processWrite` finds it. -/
def writer (readRet : HTTP_CODE) (files : Files) (s : HttpConn) : Writer.HttpConn :=
  { s.sender.toHttpConn with
    linger := s.parser.linger
    file := if readRet = .FILE_REQUEST then fileOf files s.parser else s.sender.file }

/-- The record of what `processWrite` has assembled. -/
def record (readRet : HTTP_CODE) (files : Files) (out : Writer.HttpConn) (s : HttpConn) : Answer :=
  ⟨s.visits, readRet, s.parser.linger, fileFor readRet files s.parser, out.output, []⟩

def process (files : Files) (s : HttpConn) : Except Fault HttpConn := do
  let (readRet, parser) ← processRead (statOf files) s.parser
  let s := { s with parser := parser }
  if readRet = .NO_REQUEST then pure (s.modFd .EPOLLIN)
  else
    let (writeRet, out) := (s.writer readRet files).processWrite readRet
    let s := { s with
      sender := { s.sender with
        toHttpConn := out, mapped := s.sender.mapped || decide (readRet = HTTP_CODE.FILE_REQUEST) }
      log := if writeRet then s.log ++ [s.record readRet files out] else s.log }
    let s := if !writeRet then s.closeConn else s
    pure (s.modFd .EPOLLOUT)

end HttpConn

/-- The byte at a place. -/
def byteAt (s : Sender) : Place → UInt8
  | (.writeBuf, i) => s.writeBuf i
  | (.fileAddress, i) => s.file.getD i NUL

namespace HttpConn

/-- The connection after a `write` that has left its second half as `t`.  Where `write` calls `init`,
and nowhere else, `writeIdx` is `0` in the end; `init` is for both halves. -/
def wrote (rs : List Result) (t : Sender) (s : HttpConn) : HttpConn :=
  { s with
    sender := t
    parser := if t.writeIdx = 0 then Parser.init else s.parser
    visits := if t.writeIdx = 0 then [] else s.visits
    armed := t.armed.getLast?
    sent := s.sent ++ t.taken.map (byteAt s.sender)
    log := s.log.modifyLast (Answer.take (counts rs)) }

/-- `write`, with what its `writev`s return. -/
def write (rs : List Result) (s : HttpConn) : Except Fault (Bool × List Result × HttpConn) := do
  let (ret, rest, t) ← Sender.write rs { s.sender with armed := [], taken := [] }
  pure (ret, rest, s.wrote rs t)

end HttpConn

/-! ### Its runs -/

inductive Act
  /-- the descriptor can be read -/
  | readable (v : Visit)
  /-- the descriptor can be written -/
  | writable (rs : List Result)

/-- What the `recv`s of one `read` may return when there is room for `n` bytes. -/
def Receives : ℕ → List Recv → Prop
  | _, [] => True
  | n, .data chunk :: rs => chunk.length ≤ n ∧ Receives (n - chunk.length) rs
  | n, .failed _ :: rs => Receives n rs

/-- At least one byte is taken and at most all of them, or `writev` fails. -/
def Takes (s : Sender) : Result → Prop
  | .count n => 0 < n ∧ n ≤ s.places.length
  | .failed _ => True

def enabled (s : HttpConn) : Act → Prop
  | .readable v => s.sockFd ≠ -1 ∧ s.armed = some .EPOLLIN ∧
      Receives (READ_BUFFER_SIZE - s.parser.readIdx) v.recvs
  | .writable rs => s.sockFd ≠ -1 ∧ s.armed = some .EPOLLOUT ∧ ∀ r ∈ rs, Takes s.sender r

def step (s : HttpConn) : Act → Except Fault HttpConn
  | .readable v => do
    let (ok, rest, parser) ← read v.recvs s.parser
    let s := { s with parser := parser, armed := none, visits := s.visits ++ [v] }
    if rest ≠ [] then throw .starved
    else if ok then s.process v.files
    else pure s.closeConn
  | .writable rs => do
    let (ok, rest, s) ← { s with armed := none }.write rs
    if rest ≠ [] then throw .starved
    else if ok then pure s
    else pure s.closeConn

def sessionMachine : Machine HttpConn Act Fault where
  enabled := enabled
  step := step

instance : ∀ n rs, Decidable (Receives n rs)
  | _, [] => inferInstanceAs (Decidable True)
  | n, .data chunk :: rs =>
    haveI : Decidable (Receives (n - chunk.length) rs) := instDecidableReceives _ rs
    inferInstanceAs (Decidable (_ ∧ _))
  | n, .failed _ :: rs =>
    haveI : Decidable (Receives n rs) := instDecidableReceives n rs
    inferInstanceAs (Decidable (Receives n rs))

instance (s : Sender) : ∀ r, Decidable (Takes s r)
  | .count _ => inferInstanceAs (Decidable (_ ∧ _))
  | .failed _ => inferInstanceAs (Decidable True)

instance (s : HttpConn) : ∀ a, Decidable (sessionMachine.enabled s a)
  | .readable _ => inferInstanceAs (Decidable (_ ∧ _ ∧ _))
  | .writable _ => inferInstanceAs (Decidable (_ ∧ _ ∧ _))

variable {s t s' : HttpConn} {w out : Writer.HttpConn} {code : HTTP_CODE} {file : Bytes} {fd : ℤ}

/-! ### What `processWrite` assembles -/

/-- A page that is sent: its status line and its body. -/
structure Page where
  status : ℤ
  title : Bytes
  body : Bytes

/-- The page for a code and the file that has been mapped. -/
def pageOf (file : Bytes) : HTTP_CODE → Option Page
  | .INTERNAL_ERROR => some ⟨500, error_500_title, error_500_form⟩
  | .BAD_REQUEST => some ⟨400, error_400_title, error_400_form⟩
  | .NO_REQUEST => some ⟨404, error_404_title, error_404_form⟩
  | .FORBIDDEN_REQUEST => some ⟨403, error_403_title, error_403_form⟩
  | .FILE_REQUEST => if file = [] then none else some ⟨200, ok_200_title, file⟩
  | _ => none

namespace Page

def statusLine (p : Page) : Bytes := Writer.statusLine p.status p.title

def lines (p : Page) (linger : Bool) : List Bytes :=
  headLines p.statusLine (truncate p.body.length) linger

def text (p : Page) (linger : Bool) : Bytes :=
  headText p.statusLine (truncate p.body.length) linger ++ p.body

end Page

/-- The page is in `iv`. -/
structure Assembled (p : Page) (linger : Bool) (t : Writer.HttpConn) : Prop where
  output : t.output = p.text linger
  linger : t.linger = linger
  writeIdx : 0 < t.writeIdx
  inFile : ∀ v ∈ t.iv, v.iov_base = .fileAddress → v.iov_len ≤ t.file.length

@[simp] theorem addResponse_linger (x : Bytes) (w : Writer.HttpConn) :
    (w.addResponse x).2.linger = w.linger := by
  unfold HttpConn.addResponse
  split_ifs
  · rfl
  · dsimp only
    split_ifs <;> rfl

@[simp] theorem addResponse_file (x : Bytes) (w : Writer.HttpConn) :
    (w.addResponse x).2.file = w.file := by
  unfold HttpConn.addResponse
  split_ifs
  · rfl
  · dsimp only
    split_ifs <;> rfl

theorem text_pos (p : Page) (linger : Bool) : p.body.length < (p.text linger).length := by
  unfold Page.text headText
  simp only [HttpConn.CRLF, List.length_append, List.length_cons, List.length_nil]
  omega

theorem length_output_page (h : out.iv = [⟨.writeBuf, out.writeIdx⟩]) :
    out.output.length = out.writeIdx := by
  unfold HttpConn.output
  rw [h, List.flatMap_singleton]
  simp [HttpConn.bytesOf]

theorem length_output_file
    (h : out.iv = [⟨.writeBuf, out.writeIdx⟩, ⟨.fileAddress, out.file.length⟩]) :
    out.output.length = out.writeIdx + out.file.length := by
  unfold HttpConn.output
  rw [h]
  simp [HttpConn.bytesOf]

theorem assembled_page {p : Page} (h0 : w.writeIdx = 0) (hl : p.statusLine.length ≤ 100)
    (hf : p.body.length ≤ 100) :
    ∃ t, w.page p.status p.title p.body = (true, t) ∧ Assembled p w.linger t := by
  obtain ⟨t, ht, hout⟩ := page_spec h0 hl hf
  have hsize : truncate p.body.length = p.body.length :=
    (truncate_eq _).mpr ⟨by unfold INT_MIN; omega, by unfold INT_MAX; omega⟩
  have hiv : t.iv = [⟨.writeBuf, t.writeIdx⟩] ∧ t.linger = w.linger := by
    have hpage := ht
    unfold HttpConn.page at hpage
    dsimp only at hpage
    split_ifs at hpage
    · obtain ⟨-, rfl⟩ := Prod.mk.inj hpage
      exact ⟨rfl, by simp [HttpConn.addStatusLine, HttpConn.addHeaders, HttpConn.addContentLength,
        HttpConn.addLinger, HttpConn.addBlankLine, HttpConn.addContent]⟩
    · cases hpage
  have houtput : t.output = p.text w.linger := by
    rw [hout, Page.text, hsize]
    rfl
  refine ⟨t, ht, houtput, hiv.2, ?_, ?_⟩
  · rw [← length_output_page hiv.1, houtput]
    exact Nat.zero_lt_of_lt (text_pos p _)
  · rw [hiv.1]
    rintro v hv hbase
    rw [List.mem_singleton.mp hv] at hbase
    cases hbase

theorem assembled_file (h0 : w.writeIdx = 0) (hne : w.file ≠ []) :
    ∃ t, w.processWrite .FILE_REQUEST = (true, t) ∧
      Assembled ⟨200, ok_200_title, w.file⟩ w.linger t := by
  obtain ⟨t, ht, hout⟩ := file_spec h0 hne
  have hiv : t.iv = [⟨.writeBuf, t.writeIdx⟩, ⟨.fileAddress, t.file.length⟩] ∧
      t.linger = w.linger ∧ t.file = w.file := by
    have hwrite := ht
    unfold HttpConn.processWrite at hwrite
    dsimp only at hwrite
    rw [if_pos (fun h => hne (List.eq_nil_of_length_eq_zero h))] at hwrite
    obtain ⟨-, rfl⟩ := Prod.mk.inj hwrite
    simp [HttpConn.addStatusLine, HttpConn.addHeaders, HttpConn.addContentLength,
      HttpConn.addLinger, HttpConn.addBlankLine]
  obtain ⟨hiv, hlinger, hfile⟩ := hiv
  refine ⟨t, ht, hout, hlinger, ?_, ?_⟩
  · have hlen := text_pos ⟨200, ok_200_title, w.file⟩ w.linger
    have hoff := length_output_file hiv
    rw [hout, hfile] at hoff
    have hlen : w.file.length < t.writeIdx + w.file.length := hoff ▸ hlen
    omega
  · rw [hiv]
    intro v hv hbase
    rcases List.mem_pair.mp hv with rfl | rfl
    · cases hbase
    · exact Nat.le_refl _

/-- **`processWrite` assembles the page for the code**, or refuses. -/
theorem processWrite_cases (h0 : w.writeIdx = 0) (code : HTTP_CODE) :
    (pageOf w.file code = none ∧ (w.processWrite code).1 = false) ∨
      ∃ p t, pageOf w.file code = some p ∧ w.processWrite code = (true, t) ∧
        Assembled p w.linger t := by
  have hpage : ∀ p : Page, pageOf w.file code = some p → p.statusLine.length ≤ 100 →
      p.body.length ≤ 100 → w.processWrite code = w.page p.status p.title p.body →
      ∃ p t, pageOf w.file code = some p ∧ w.processWrite code = (true, t) ∧
        Assembled p w.linger t := by
    intro p hp hl hf heq
    obtain ⟨t, ht, hasm⟩ := assembled_page h0 hl hf
    exact ⟨p, t, hp, heq.trans ht, hasm⟩
  cases code with
  | INTERNAL_ERROR => exact Or.inr (hpage _ rfl (by decide) (by decide) rfl)
  | BAD_REQUEST => exact Or.inr (hpage _ rfl (by decide) (by decide) rfl)
  | NO_REQUEST => exact Or.inr (hpage _ rfl (by decide) (by decide) rfl)
  | FORBIDDEN_REQUEST => exact Or.inr (hpage _ rfl (by decide) (by decide) rfl)
  | FILE_REQUEST =>
    by_cases hnil : w.file = []
    · exact Or.inl ⟨if_pos hnil, file_empty hnil⟩
    · obtain ⟨t, ht, hasm⟩ := assembled_file h0 hnil
      exact Or.inr ⟨_, t, if_neg hnil, ht, hasm⟩
  | GET_REQUEST => exact Or.inl ⟨rfl, rfl⟩
  | NO_RESOURCE => exact Or.inl ⟨rfl, rfl⟩
  | _REQUEST => exact Or.inl ⟨rfl, rfl⟩
  | CLOSED_CONNECTION => exact Or.inl ⟨rfl, rfl⟩

/-! ### What `write` does -/

variable {x y : Sender} {rs rest : List Result} {ret : Bool}

/-- The bytes at the places that `iv` designates are what is to be sent. -/
theorem map_places (h : ∀ v ∈ x.iv, v.iov_base = .fileAddress → v.iov_len ≤ x.file.length) :
    x.places.map (byteAt x) = x.output := by
  unfold Sender.places HttpConn.output
  rw [List.map_flatMap]
  refine List.flatMap_congr fun v hv => ?_
  rw [List.map_map]
  unfold HttpConn.bytesOf
  cases hbase : v.iov_base with
  | writeBuf => rfl
  | fileAddress =>
    refine List.ext_getElem ?_ fun i h1 h2 => ?_
    · simp [h v hv hbase]
    · rw [List.length_map, List.length_range] at h1
      have hi : i < x.file.length := Nat.lt_of_lt_of_le h1 (h v hv hbase)
      simp [byteAt, hi]

/-- How a call of `write` ends. -/
inductive Ends (x y : Sender) : Bool → Prop
  /-- there was no room for the rest -/
  | waits (same : y.toHttpConn = x.toHttpConn) (armed : y.armed = x.armed ++ [.EPOLLOUT]) :
    Ends x y true
  /-- completion is reported, and `init` has been called -/
  | completes (same : y.toHttpConn = x.init.toHttpConn) (armed : y.armed = x.armed ++ [.EPOLLIN]) :
    Ends x y true
  /-- the connection is to be closed -/
  | closes (same : y.toHttpConn = x.toHttpConn) : Ends x y false

theorem writev_same (r : Result) (x : Sender) : (x.writev r).2.toHttpConn = x.toHttpConn ∧
    (x.writev r).2.armed = x.armed := by
  cases r with
  | count n => exact ⟨rfl, rfl⟩
  | failed e => exact ⟨rfl, rfl⟩

theorem Ends.of_same {z : Sender} (h : Ends x y ret) (hsame : x.toHttpConn = z.toHttpConn)
    (harmed : x.armed = z.armed) : Ends z y ret := by
  cases h with
  | waits same armed => exact .waits (same.trans hsame) (armed.trans (by rw [harmed]))
  | completes same armed =>
    refine .completes (same.trans ?_) (armed.trans (by rw [harmed]))
    unfold Sender.init
    rw [hsame]
  | closes same => exact .closes (same.trans hsame)

theorem writeLoop_ends (rs : List Result) : ∀ (a b : ℤ) (x : Sender),
    x.writeLoop rs a b = .ok (ret, rest, y) → Ends x y ret := by
  induction rs with
  | nil => intro a b x h; cases h
  | cons r rs ih =>
    intro a b x h
    obtain ⟨hsame, harmed⟩ := writev_same r x
    rw [Sender.writeLoop] at h
    dsimp only at h
    by_cases hneg : (x.writev r).1 ≤ -1
    · rw [if_pos hneg] at h
      split_ifs at h
      · cases h
        exact .waits hsame (by rw [← harmed]; rfl)
      · cases h
        exact .closes hsame
    · rw [if_neg hneg] at h
      obtain ⟨a', -, h⟩ := bind_eq_ok.mp h
      obtain ⟨b', -, h⟩ := bind_eq_ok.mp h
      by_cases hdone : a' ≤ b'
      · rw [if_pos hdone] at h
        split_ifs at h
        · cases h
          refine .completes ?_ (by rw [← harmed]; rfl)
          unfold Sender.init
          rw [← hsame]
          rfl
        · cases h
          exact .closes hsame
      · rw [if_neg hdone] at h
        exact (ih a' b' _ h).of_same hsame harmed

theorem write_ends (h : x.write rs = .ok (ret, rest, y)) (hidx : 0 < x.writeIdx) :
    Ends x y ret := by
  unfold Sender.write at h
  rw [if_neg (Nat.ne_of_gt hidx)] at h
  exact writeLoop_ends rs _ _ x h

/-! ### What `process` does -/

variable {files : Files} {p : Parser.HttpConn} {v : Visit} {a : Answer}

theorem pageOf_writer (s : HttpConn) (code : HTTP_CODE) (files : Files) :
    pageOf (s.writer code files).file code = pageOf (fileFor code files s.parser) code := by
  unfold HttpConn.writer fileFor
  cases code <;> rfl

/-- The page of an answer. -/
def IsAnswer (a : Answer) (p : Page) : Prop :=
  pageOf a.file a.code = some p ∧ a.text = p.text a.linger

/-- The response is ready to be sent. -/
structure Writing (s : HttpConn) : Prop where
  armed : s.armed = some .EPOLLOUT
  answer : ∃ l a, s.log = l ++ [a] ∧ s.sender.output = a.text
  writeIdx : 0 < s.sender.writeIdx
  inFile : ∀ v ∈ s.sender.iv, v.iov_base = .fileAddress → v.iov_len ≤ s.sender.file.length

/-- The answer to what has been parsed. -/
def answerOf (s : HttpConn) (files : Files) (code : HTTP_CODE) (p : Parser.HttpConn) (page : Page) :
    Answer :=
  ⟨s.visits, code, p.linger, fileFor code files p, page.text p.linger, []⟩

/-- What becomes of a connection whose parser has come to `p` with the result `code`: it waits for more,
is closed, or has an answer. -/
inductive Processed (files : Files) (code : HTTP_CODE) (p : Parser.HttpConn) (s s' : HttpConn) : Prop
  | waits (hcode : code = .NO_REQUEST) (eq : s' = { s with parser := p, armed := some .EPOLLIN })
  | closes (hcode : code ≠ .NO_REQUEST) (hpage : pageOf (fileFor code files p) code = none)
    (sockFd : s'.sockFd = -1) (log : s'.log = s.log)
  | answers (hcode : code ≠ .NO_REQUEST) (page : Page)
    (hpage : pageOf (fileFor code files p) code = some page) (sockFd : s'.sockFd = s.sockFd)
    (writing : Writing s') (log : s'.log = s.log ++ [answerOf s files code p page])

/-- **What `process` does** where nothing has been printed. -/
theorem process_spec {code : HTTP_CODE} (h0 : s.sender.writeIdx = 0) (hopen : s.sockFd ≠ -1)
    (hread : processRead (statOf files) s.parser = .ok (code, p)) :
    ∃ s', s.process files = .ok s' ∧ s'.sent = s.sent ∧ s'.visits = s.visits ∧
      Processed files code p s s' := by
  unfold HttpConn.process
  rw [hread, ok_bind]
  dsimp only
  by_cases hno : code = .NO_REQUEST
  · rw [if_pos hno]
    refine ⟨_, rfl, ?_⟩
    unfold HttpConn.modFd
    rw [if_neg hopen]
    exact ⟨rfl, rfl, .waits hno rfl⟩
  · rw [if_neg hno]
    refine ⟨_, rfl, ?_⟩
    have hpage := pageOf_writer { s with parser := p } code files
    rcases processWrite_cases (w := HttpConn.writer code files { s with parser := p }) h0 code with
      ⟨hnone, hfalse⟩ | ⟨page, out, hsome, hwrite, hasm⟩
    · rw [hfalse]
      simp only [HttpConn.modFd, HttpConn.closeConn, hopen, ne_eq, not_false_eq_true, if_true,
        Bool.not_false, Bool.false_eq_true, if_false]
      exact ⟨trivial, trivial, .closes hno (hpage ▸ hnone) rfl rfl⟩
    · rw [hwrite]
      simp only [HttpConn.modFd, hopen, Bool.not_true, Bool.false_eq_true, if_false, if_true]
      have htext : HttpConn.record code files out { s with parser := p } =
          answerOf s files code p page := by
        unfold HttpConn.record
        rw [hasm.output]
        rfl
      rw [htext]
      exact ⟨trivial, trivial, .answers hno page (hpage ▸ hsome) rfl
        ⟨rfl, ⟨_, _, rfl, hasm.output⟩, hasm.writeIdx, hasm.inFile⟩ rfl⟩

/-! ### The invariant -/

/-- A new connection gives the same answer to the same visits. -/
def Isolated (fd : ℤ) (a : Answer) : Prop :=
  ∃ t, Run sessionMachine (start fd) (a.visits.map .readable) t ∧ t.log = [{ a with counts := [] }]

/-- A new connection that has come as far as this one since `init`. -/
structure Twin (s t : HttpConn) : Prop where
  parser : t.parser = s.parser
  visits : t.visits = s.visits
  sockFd : t.sockFd = s.sockFd
  armed : t.armed = s.armed
  writeIdx : t.sender.writeIdx = 0
  log : t.log = []

/-- A request is being received. -/
structure Reading (fd : ℤ) (s : HttpConn) : Prop where
  armed : s.armed = some .EPOLLIN
  writeIdx : s.sender.writeIdx = 0
  twin : ∃ t, Run sessionMachine (start fd) (s.visits.map .readable) t ∧ Twin s t

/-- **The invariant of the connection.** -/
structure Served (fd : ℤ) (s : HttpConn) : Prop where
  isolated : ∀ a ∈ s.log, Isolated fd a
  answers : ∀ a ∈ s.log, ∃ p, IsAnswer a p
  sent : s.sent = s.log.flatMap Answer.pieces
  phase : s.sockFd = -1 ∨ s.sockFd = fd ∧ (Reading fd s ∨ Writing s)

theorem reading_start (fd : ℤ) : Reading fd (start fd) where
  armed := rfl
  writeIdx := rfl
  twin := ⟨start fd, .nil _, rfl, rfl, rfl, rfl, rfl, rfl⟩

theorem served_start (fd : ℤ) : Served fd (start fd) where
  isolated _ ha := absurd ha List.not_mem_nil
  answers _ ha := absurd ha List.not_mem_nil
  sent := rfl
  phase := Or.inr ⟨rfl, Or.inl (reading_start fd)⟩

/-- A visit: the connection is closed, or what has been read is processed. -/
theorem readable_cases (hs : step s (.readable v) = .ok s') : ∃ ok p,
    read v.recvs s.parser = .ok (ok, [], p) ∧
    ((ok = false ∧ s' =
        { s with parser := p, armed := none, visits := s.visits ++ [v] }.closeConn) ∨
      (ok = true ∧
        { s with parser := p, armed := none, visits := s.visits ++ [v] }.process v.files =
          .ok s')) := by
  obtain ⟨⟨ok, rest, p⟩, hread, hs⟩ := bind_eq_ok.mp hs
  dsimp only at hs
  by_cases hrest : rest = []
  · subst hrest
    rw [if_neg (fun h => h rfl)] at hs
    refine ⟨ok, p, hread, ?_⟩
    cases ok with
    | false => exact Or.inl ⟨rfl, (Except.ok.inj hs).symm⟩
    | true => exact Or.inr ⟨rfl, hs⟩
  · rw [if_pos hrest] at hs
    cases hs

/-- What a visit to a connection that is receiving a request does; the twin is visited too. -/
theorem reading_step (hr : Reading fd s) (hfd : s.sockFd = fd)
    (he : enabled s (.readable v)) (hs : step s (.readable v) = .ok s') : s'.sent = s.sent ∧
    ((s'.sockFd = -1 ∧ s'.log = s.log) ∨
      (s'.sockFd = fd ∧ Reading fd s' ∧ s'.log = s.log) ∨
      (s'.sockFd = fd ∧ Writing s' ∧ ∃ a p, s'.log = s.log ++ [a] ∧ IsAnswer a p ∧
        a.counts = [] ∧ Isolated fd a)) := by
  obtain ⟨t, hrun, htwin⟩ := hr.twin
  obtain ⟨ok, p, hread, ⟨-, rfl⟩ | ⟨rfl, hprocess⟩⟩ := readable_cases hs
  · simp only [HttpConn.closeConn, he.1, ne_eq, not_false_eq_true, if_true]
    exact ⟨trivial, Or.inl ⟨trivial, trivial⟩⟩
  obtain ⟨⟨code, p'⟩, hparse, -⟩ := bind_eq_ok.mp hprocess
  obtain ⟨s'', hs'', hsent, hvisits, hcases⟩ := process_spec
    (s := { s with parser := p, armed := none, visits := s.visits ++ [v] }) hr.writeIdx he.1 hparse
  obtain rfl : s' = s'' := Except.ok.inj (hprocess.symm.trans hs'')
  refine ⟨hsent, ?_⟩
  -- the twin can be visited, and reads and parses the same
  have htopen : t.sockFd ≠ -1 := htwin.sockFd ▸ he.1
  have hte : enabled t (.readable v) := by
    refine ⟨htopen, htwin.armed.trans he.2.1, ?_⟩
    rw [htwin.parser]
    exact he.2.2
  obtain ⟨t', ht', -, htvisits, htcases⟩ := process_spec
    (s := { t with parser := p, armed := none, visits := t.visits ++ [v] }) htwin.writeIdx htopen hparse
  have hts : step t (.readable v) = .ok t' :=
    bind_eq_ok.mpr ⟨(true, [], p), htwin.parser.symm ▸ hread, ht'⟩
  have hvisited : s'.visits = s.visits ++ [v] := hvisits
  have htrun : Run sessionMachine (start fd) ((s.visits ++ [v]).map .readable) t' := by
    rw [List.map_append]
    exact hrun.append (.cons hte hts (.nil _))
  cases hcases with
  | waits hcode heq =>
    cases htcases with
    | waits _ hteq =>
      have htw : Twin s' t' := by
        rw [heq, hteq]
        exact ⟨rfl, by rw [htwin.visits], htwin.sockFd, rfl, htwin.writeIdx, htwin.log⟩
      refine Or.inr (Or.inl ⟨heq ▸ hfd, ⟨?_, ?_, t', hvisited ▸ htrun, htw⟩, ?_⟩)
      · rw [heq]
      · rw [heq]
        exact hr.writeIdx
      · rw [heq]
    | closes hno => exact absurd hcode hno
    | answers hno => exact absurd hcode hno
  | closes hcode hpage hsock hlog => exact Or.inl ⟨hsock, hlog⟩
  | answers hcode page hpage hsock hwriting hlog =>
    refine Or.inr (Or.inr ⟨hsock.trans hfd, hwriting, _, page, hlog, ⟨hpage, rfl⟩, rfl, t', htrun, ?_⟩)
    cases htcases with
    | waits hno => exact absurd hno hcode
    | closes _ hnone =>
      rw [hpage] at hnone
      cases hnone
    | answers _ page' hpage' _ _ htlog =>
      obtain rfl : page = page' := Option.some.inj (hpage.symm.trans hpage')
      rw [htlog]
      show t.log ++ [answerOf _ _ _ _ _] = _
      rw [htwin.log]
      unfold answerOf
      dsimp only
      rw [htwin.visits]
      rfl

theorem writable_cases (hs : step s (.writable rs) = .ok s') : ∃ ok y,
    Sender.write rs { s.sender with armed := [], taken := [] } = .ok (ok, [], y) ∧
    s' = if ok then s.wrote rs y else (s.wrote rs y).closeConn := by
  obtain ⟨⟨ok, rest, s₁⟩, hwrite, hs⟩ := bind_eq_ok.mp hs
  obtain ⟨⟨ret, rest', y⟩, hsend, hwrite⟩ := bind_eq_ok.mp hwrite
  obtain ⟨rfl, hrests⟩ := Prod.mk.inj (Except.ok.inj hwrite)
  obtain ⟨rfl, rfl⟩ := Prod.mk.inj hrests
  dsimp only at hs
  by_cases hrest : rest' = []
  · subst hrest
    rw [if_neg (fun h => h rfl)] at hs
    refine ⟨ret, y, hsend, ?_⟩
    cases ret with
    | false => exact (Except.ok.inj hs).symm
    | true => exact (Except.ok.inj hs).symm
  · rw [if_pos hrest] at hs
    cases hs

/-- **What `write` does** to a connection that has an answer. -/
theorem writing_step (hw : Writing s) (hfd : s.sockFd = fd) (hopen : s.sockFd ≠ -1)
    (hs : step s (.writable rs) = .ok s') : ∃ l a, s.log = l ++ [a] ∧
    s'.log = l ++ [a.take (counts rs)] ∧ s'.sent = s.sent ++ (counts rs).flatMap a.text.take ∧
    (s'.sockFd = -1 ∨ s'.sockFd = fd ∧ (Reading fd s' ∨ Writing s')) := by
  obtain ⟨l, a, hlog, hout⟩ := hw.answer
  obtain ⟨ok, y, hsend, hs'⟩ := writable_cases hs
  obtain ⟨used, hused, htook⟩ := write_took hsend
  obtain rfl : rs = used := hused.trans (List.append_nil used)
  have hends := write_ends hsend hw.writeIdx
  have hlog' : (s.wrote rs y).log = l ++ [a.take (counts rs)] := by
    show s.log.modifyLast _ = _
    rw [hlog, List.modifyLast_concat]
  have hsent' : (s.wrote rs y).sent = s.sent ++ (counts rs).flatMap a.text.take := by
    have htaken := htook.taken
    dsimp only at htaken
    show s.sent ++ y.taken.map _ = _
    rw [htaken, List.nil_append, List.map_flatMap, ← hout, ← map_places hw.inFile]
    simp only [List.map_take]
    rfl
  refine ⟨l, a, hlog, ?_⟩
  cases hends with
  | waits same armed =>
    rw [if_pos rfl] at hs'
    subst hs'
    refine ⟨hlog', hsent', Or.inr ⟨hfd, Or.inr ⟨?_, ⟨l, _, hlog', ?_⟩, ?_, ?_⟩⟩⟩
    · show y.armed.getLast? = _
      rw [armed]
      rfl
    · show y.output = _
      rw [same]
      exact hout
    · show 0 < y.writeIdx
      rw [same]
      exact hw.writeIdx
    · show ∀ v ∈ y.iv, v.iov_base = .fileAddress → v.iov_len ≤ y.file.length
      rw [same]
      exact hw.inFile
  | completes same armed =>
    rw [if_pos rfl] at hs'
    subst hs'
    have hidx : y.writeIdx = 0 := by rw [same]; rfl
    have hparser : (s.wrote rs y).parser = Parser.init := if_pos hidx
    have hvisits : (s.wrote rs y).visits = [] := if_pos hidx
    have harmed : (s.wrote rs y).armed = some .EPOLLIN := by
      show y.armed.getLast? = _
      rw [armed]
      rfl
    refine ⟨hlog', hsent', Or.inr ⟨hfd, Or.inl ⟨harmed, hidx, start fd, ?_, ?_⟩⟩⟩
    · rw [hvisits]
      exact .nil _
    · exact ⟨hparser.symm, hvisits.symm, hfd.symm, harmed.symm, rfl, rfl⟩
  | closes same =>
    rw [if_neg Bool.false_ne_true] at hs'
    have hclosed : s' = { s.wrote rs y with sockFd := -1, userCount := s.userCount - 1 } :=
      hs'.trans (if_pos hopen)
    subst hclosed
    exact ⟨hlog', hsent', Or.inl rfl⟩

theorem served_step {act : Act} (h : Served fd s) (he : enabled s act) (hs : step s act = .ok s') :
    Served fd s' := by
  cases act with
  | readable v =>
    obtain hclosed | ⟨hfd, hr | hw⟩ := h.phase
    · exact absurd hclosed he.1
    · obtain ⟨hsent, hcases⟩ := reading_step hr hfd he hs
      rcases hcases with ⟨hclosed, hlog⟩ | ⟨hfd', hr', hlog⟩ | ⟨hfd', hw', a, p, hlog, hp, hnone, hiso⟩
      · exact ⟨hlog ▸ h.isolated, hlog ▸ h.answers, by rw [hsent, hlog, h.sent], Or.inl hclosed⟩
      · exact ⟨hlog ▸ h.isolated, hlog ▸ h.answers, by rw [hsent, hlog, h.sent],
          Or.inr ⟨hfd', Or.inl hr'⟩⟩
      · refine ⟨?_, ?_, ?_, Or.inr ⟨hfd', Or.inr hw'⟩⟩
        · rw [hlog]
          exact List.forall_mem_append.mpr ⟨h.isolated, List.forall_mem_singleton.mpr hiso⟩
        · rw [hlog]
          exact List.forall_mem_append.mpr ⟨h.answers, List.forall_mem_singleton.mpr ⟨p, hp⟩⟩
        · rw [hsent, hlog, h.sent, List.flatMap_append, List.flatMap_singleton, Answer.pieces, hnone,
            List.flatMap_nil, List.append_nil]
    · exact absurd (hw.armed.symm.trans he.2.1) (by decide)
  | writable rs =>
    obtain hclosed | ⟨hfd, hr | hw⟩ := h.phase
    · exact absurd hclosed he.1
    · exact absurd (hr.armed.symm.trans he.2.1) (by decide)
    · obtain ⟨l, a, hlog, hlog', hsent, hphase⟩ := writing_step hw hfd he.1 hs
      have hisolated := h.isolated
      have hanswers := h.answers
      rw [hlog] at hisolated hanswers
      have hil := (List.forall_mem_append.mp hisolated).1
      have hal := (List.forall_mem_append.mp hanswers).1
      have hia : Isolated fd (a.take (counts rs)) := hisolated a (by simp)
      have haa : ∃ p, IsAnswer (a.take (counts rs)) p := hanswers a (by simp)
      refine ⟨?_, ?_, ?_, hphase⟩
      · rw [hlog']
        exact List.forall_mem_append.mpr ⟨hil, List.forall_mem_singleton.mpr hia⟩
      · rw [hlog']
        exact List.forall_mem_append.mpr ⟨hal, List.forall_mem_singleton.mpr haa⟩
      · rw [hsent, hlog', h.sent, hlog]
        simp [Answer.pieces, Answer.take]

theorem served_run {acts : List Act} (h : Run sessionMachine (start fd) acts s) : Served fd s :=
  h.invariant (I := Served fd) (fun _ _ _ hI he hs => served_step hI he hs) (served_start fd)

/-! ### Two requests on one connection -/

/-- Two files. -/
def twoFiles : Files := fun path =>
  if path = ascii "/work/a" then some (33188, ascii "hello")
  else if path = ascii "/work/b" then some (33188, ascii "bye") else none

/-- The first request comes in two pieces, and there is no room for its answer at first. -/
def twoRequests : List Act :=
  [.readable ⟨[.data (ascii "GET /a HTTP/1.1\r\nConnec"), .failed .EAGAIN], twoFiles⟩,
    .readable ⟨[.data (ascii "tion: keep-alive\r\n\r\n"), .failed .EAGAIN], twoFiles⟩,
    .writable [.failed .EAGAIN], .writable [.count 67],
    .readable ⟨[.data (ascii "GET /b HTTP/1.1\r\n\r\n"), .failed .EAGAIN], twoFiles⟩,
    .writable [.count 60]]

/-- What the answers are made from, the lengths of their texts, and what has been taken of them. -/
def summary (s : HttpConn) : List (Bytes × ℕ × List ℕ) :=
  s.log.map fun a => (a.file, a.text.length, a.counts)

theorem exists_two : ∃ s, Run sessionMachine (start 5) twoRequests s ∧
    summary s = [(ascii "hello", 67, [67]), (ascii "bye", 60, [60])] := by
  have hexec : (sessionMachine.exec (start 5) twoRequests).map summary =
      some [(ascii "hello", 67, [67]), (ascii "bye", 60, [60])] := by
    decide +kernel
  obtain ⟨s, hs, hsummary⟩ := Option.map_eq_some_iff.mp hexec
  exact ⟨s, run_iff_exec.mpr hs, hsummary⟩

variable {acts : List Act}

/-! ### Isolation -/

/-- **Every answer is that of a new connection.**  Whatever has been received and answered before, the
code, the linger flag, the file and the text of an answer are those that a new connection comes to when
it is given what has been received since the last answer was completed, in the same pieces. -/
theorem session_isolated (h : Run sessionMachine (start fd) acts s) : ∀ a ∈ s.log,
    ∃ t, Run sessionMachine (start fd) (a.visits.map .readable) t ∧
      t.log = [{ a with counts := [] }] :=
  (served_run h).isolated

theorem session_isolated_two : ∃ s, Run sessionMachine (start 5) twoRequests s ∧
    summary s = [(ascii "hello", 67, [67]), (ascii "bye", 60, [60])] ∧
    ∀ a ∈ s.log, ∃ t, Run sessionMachine (start 5) (a.visits.map .readable) t ∧
      t.log = [{ a with counts := [] }] := by
  obtain ⟨s, hrun, hsummary⟩ := exists_two
  exact ⟨s, hrun, hsummary, session_isolated hrun⟩

/-- **What is sent**: of one answer after another the beginnings that `writev` has taken; each answer is
the page for its code. -/
theorem session_sent (h : Run sessionMachine (start fd) acts s) :
    s.sent = s.log.flatMap (fun a => a.counts.flatMap a.text.take) ∧
    ∀ a ∈ s.log, ∃ p, pageOf a.file a.code = some p ∧ a.text = p.text a.linger :=
  ⟨(served_run h).sent, (served_run h).answers⟩

theorem session_sent_two : ∃ s, Run sessionMachine (start 5) twoRequests s ∧
    summary s = [(ascii "hello", 67, [67]), (ascii "bye", 60, [60])] ∧
    s.sent = s.log.flatMap fun a => a.counts.flatMap a.text.take := by
  obtain ⟨s, hrun, hsummary⟩ := exists_two
  exact ⟨s, hrun, hsummary, (session_sent hrun).1⟩

/-! ### What the client reads -/

/-- The page as the client sees it. -/
def Page.message (p : Page) (linger : Bool) : Message := ⟨p.lines linger, p.body⟩

theorem isStatusLine_page {page : Page} (hp : pageOf file code = some page) :
    IsStatusLine page.statusLine := by
  have h200 : IsStatusLine (statusLine 200 ok_200_title) :=
    isStatusLine_statusLine 200 ⟨by decide, by decide⟩
  have h400 : IsStatusLine (statusLine 400 error_400_title) := isStatusLine_statusLine 400 fits_400.clean
  have h403 : IsStatusLine (statusLine 403 error_403_title) := isStatusLine_statusLine 403 fits_403.clean
  have h404 : IsStatusLine (statusLine 404 error_404_title) :=
    isStatusLine_statusLine 404 ⟨by decide, by decide⟩
  have h500 : IsStatusLine (statusLine 500 error_500_title) := isStatusLine_statusLine 500 fits_500.clean
  unfold pageOf at hp
  split at hp
  · obtain rfl := Option.some.inj hp
    exact h500
  · obtain rfl := Option.some.inj hp
    exact h400
  · obtain rfl := Option.some.inj hp
    exact h404
  · obtain rfl := Option.some.inj hp
    exact h403
  · split_ifs at hp
    obtain rfl := Option.some.inj hp
    exact h200
  · cases hp

theorem length_pageOf {page : Page} (hp : pageOf file code = some page) :
    page.body.length ≤ max file.length 100 := by
  unfold pageOf at hp
  split at hp
  · obtain rfl := Option.some.inj hp
    exact (fits_500.form_le).trans (le_max_right _ _)
  · obtain rfl := Option.some.inj hp
    exact (fits_400.form_le).trans (le_max_right _ _)
  · obtain rfl := Option.some.inj hp
    exact Nat.le_trans (by decide) (le_max_right _ _)
  · obtain rfl := Option.some.inj hp
    exact (fits_403.form_le).trans (le_max_right _ _)
  · split_ifs at hp
    obtain rfl := Option.some.inj hp
    exact le_max_left _ _
  · cases hp

theorem contentLength_lines {page : Page} (hsize : (page.body.length : ℤ) ≤ INT_MAX) (linger : Bool) :
    contentLength (page.lines linger) = some page.body.length := by
  have hint : truncate page.body.length = page.body.length :=
    (truncate_eq _).mpr ⟨by unfold INT_MIN; omega, hsize⟩
  have hfield : lengthField.isPrefixOf (lengthField ++ ascii (toString page.body.length)) = true :=
    List.isPrefixOf_iff_prefix.mpr (List.prefix_append _ _)
  have htail : (page.lines linger).tail =
      [lengthField ++ ascii (toString page.body.length), lingerLine linger] := by
    unfold Page.lines
    rw [hint]
    rfl
  unfold contentLength
  rw [htail, List.find?_cons_of_pos hfield, Option.map_some, List.drop_left,
    Http.Framing.decimal_toString]

/-- **A page whose size is an `int` is read** when its last byte has come. -/
theorem reads_page {page : Page} (hline : IsStatusLine page.statusLine)
    (hsize : (page.body.length : ℤ) ≤ INT_MAX) (linger : Bool) :
    Reads nextMessage (page.text linger) (page.message linger) := by
  have htext : page.text linger =
      block CR LF (page.lines linger) ++ CR :: LF :: page.body := by
    unfold Page.text headText
    rw [List.append_assoc]
    rfl
  rw [htext]
  exact reads_block (solid_headLines hline _ linger) (contentLength_lines hsize linger)

theorem pieces_whole {l : List Answer}
    (h : ∀ a ∈ l, a.counts = [] ∨ a.counts = [a.text.length]) :
    l.flatMap Answer.pieces = ((l.filter (·.counts ≠ [])).map Answer.text).flatten := by
  induction l with
  | nil => rfl
  | cons a l ih =>
    have hrest := ih fun b hb => h b (List.mem_cons_of_mem _ hb)
    rw [List.flatMap_cons, hrest]
    rcases h a List.mem_cons_self with hnone | hall
    · rw [List.filter_cons_of_neg (by simp [hnone]), Answer.pieces, hnone, List.flatMap_nil,
        List.nil_append]
    · rw [List.filter_cons_of_pos (by simp [hall]), List.map_cons, List.flatten_cons, Answer.pieces,
        hall, List.flatMap_singleton, List.take_length]

/-- **The client reads the answers back**, if every `writev` that takes anything takes all it is given and
no file is larger than an `int` can say: it gets the pages of the answers that have gone out, in order,
and there is nothing left. -/
theorem session_read (h : Run sessionMachine (start fd) acts s)
    (hwhole : ∀ a ∈ s.log, a.counts = [] ∨ a.counts = [a.text.length])
    (hsize : ∀ a ∈ s.log, (a.file.length : ℤ) ≤ INT_MAX) :
    (readAll nextMessage s.sent).1.map some =
      (s.log.filter (·.counts ≠ [])).map (fun a => (pageOf a.file a.code).map (·.message a.linger)) ∧
    (readAll nextMessage s.sent).2 = [] := by
  have hserved := served_run h
  have hpages : ∀ a ∈ s.log.filter (·.counts ≠ []), ∃ m,
      (pageOf a.file a.code).map (·.message a.linger) = some m ∧ Reads nextMessage a.text m := by
    intro a ha
    have hmem := (List.mem_filter.mp ha).1
    obtain ⟨page, hpage, htext⟩ := hserved.answers a hmem
    refine ⟨page.message a.linger, by rw [hpage]; rfl, ?_⟩
    rw [htext]
    refine reads_page (isStatusLine_page hpage) ?_ _
    have hlen := length_pageOf hpage
    have hfile := hsize a hmem
    unfold INT_MAX at hfile ⊢
    omega
  obtain ⟨ms, hms, hreads⟩ : ∃ ms : List Message,
      (s.log.filter (·.counts ≠ [])).map (fun a => (pageOf a.file a.code).map (·.message a.linger)) =
        ms.map some ∧
      List.Forall₂ (Reads nextMessage) ((s.log.filter (·.counts ≠ [])).map Answer.text) ms := by
    generalize s.log.filter (·.counts ≠ []) = l at hpages
    clear hserved hwhole hsize h
    induction l with
    | nil => exact ⟨[], rfl, .nil⟩
    | cons a l ih =>
      obtain ⟨m, hm, hread⟩ := hpages a List.mem_cons_self
      obtain ⟨ms, hms, hreads⟩ := ih fun b hb => hpages b (List.mem_cons_of_mem _ hb)
      exact ⟨m :: ms, by rw [List.map_cons, List.map_cons, hm, hms], .cons hread hreads⟩
  have hall : readAll nextMessage s.sent = (ms, []) := by
    have hsent := hserved.sent.trans (pieces_whole hwhole)
    rw [hsent, ← List.append_nil (List.flatten _)]
    exact readAll_flatten hreads rfl
  rw [hall]
  exact ⟨hms.symm, rfl⟩

theorem session_read_two : ∃ s, Run sessionMachine (start 5) twoRequests s ∧
    summary s = [(ascii "hello", 67, [67]), (ascii "bye", 60, [60])] ∧
    (readAll nextMessage s.sent).2 = [] := by
  obtain ⟨s, hrun, hsummary⟩ := exists_two
  have hlog : ∀ a ∈ s.log, (a.file, a.text.length, a.counts) ∈ summary s := fun a ha =>
    List.mem_map_of_mem ha
  rw [hsummary] at hlog
  refine ⟨s, hrun, hsummary, (session_read hrun (fun a ha => ?_) (fun a ha => ?_)).2⟩
  · rcases List.mem_pair.mp (hlog a ha) with h | h <;> simp_all
  · rcases List.mem_pair.mp (hlog a ha) with h | h <;> obtain ⟨hfile, -⟩ := Prod.mk.inj h <;>
      rw [hfile] <;> decide

end ReactorServer.Conn.Session
