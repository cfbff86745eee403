import ReactorServer.Conn.Calls
import ReactorServer.Http.Framing

/-!
# The response of a connection

`processWrite` prints a head into `writeBuf` and lists in `iv` what is to be sent: the buffer alone,
with a page behind the head, or the buffer and the file that has been mapped.  Two things go wrong
with files.  The size of the file is passed on as an `int`, and the branch for the empty file has no
`break`: it prints a page and falls into `default`.  Every other response is well formed
(`assembles_iff`).
-/

namespace ReactorServer.Conn.Writer

open ReactorServer.Cpp ReactorServer.Lib.Lines ReactorServer.Conn.Strings
open ReactorServer.Conn.Parser (HTTP_CODE splice)
open ReactorServer.Http.Response ReactorServer.Http.Framing

/-! ### The members -/

/-- `HttpConn::WRITE_BUFFER_SIZE`. -/
def WRITE_BUFFER_SIZE : ℕ := 1024

/-- Where an `iovec` begins. -/
inductive Base
  | writeBuf
  | fileAddress
  deriving DecidableEq, Repr

/-- `struct iovec`. -/
structure Iovec where
  iov_base : Base
  iov_len : ℕ
  deriving DecidableEq, Repr

/-- `HttpConn`, as far as it writes.  `file` is what is mapped at `fileAddress`, `st_size` bytes;
`iv` is the list of the first `ivCount` entries. -/
structure HttpConn where
  writeBuf : Buffer
  writeIdx : ℕ
  linger : Bool
  file : Bytes
  iv : List Iovec

namespace HttpConn

/-! ### Printing -/

/-- What `vsnprintf(&m[i], size, ..)` leaves in the buffer when the text is `text`. -/
def vsnprintf (m : Buffer) (i size : ℕ) (text : Bytes) : Buffer :=
  if size = 0 then m else splice m i (text.take (size - 1) ++ [NUL])

/-- `addResponse`, with the text the format and its arguments give. -/
def addResponse (text : Bytes) (s : HttpConn) : Bool × HttpConn :=
  if WRITE_BUFFER_SIZE ≤ s.writeIdx then (false, s)
  else
    let size := WRITE_BUFFER_SIZE - 1 - s.writeIdx
    let len := text.length
    let s := { s with writeBuf := vsnprintf s.writeBuf s.writeIdx size text }
    if size ≤ len then (false, s) else (true, { s with writeIdx := s.writeIdx + len })

/-- `"\r\n"`. -/
def CRLF : Bytes := [CR, LF]

/-- `%d`. -/
def intText (n : ℤ) : Bytes := ascii (toString n)

def addStatusLine (status : ℤ) (title : Bytes) : HttpConn → Bool × HttpConn :=
  addResponse (ascii "HTTP/1.1" ++ ascii " " ++ intText status ++ ascii " " ++ title ++ CRLF)

def addContentLength (len : ℤ) : HttpConn → Bool × HttpConn :=
  addResponse (ascii "Content-Length: " ++ intText len ++ CRLF)

def addLinger (s : HttpConn) : Bool × HttpConn :=
  s.addResponse (ascii "Connection: " ++
    (if s.linger then ascii "keep-alive" else ascii "close") ++ CRLF)

def addBlankLine : HttpConn → Bool × HttpConn := addResponse CRLF

/-- `addHeaders` returns nothing, and no caller looks at what it returns. -/
def addHeaders (len : ℤ) (s : HttpConn) : HttpConn :=
  let s := (s.addContentLength len).2
  let s := s.addLinger.2
  s.addBlankLine.2

def addContent (content : Bytes) : HttpConn → Bool × HttpConn := addResponse content

/-! ### The response -/

/-- The branch of `processWrite` for a code with a page, and what follows the `switch`. -/
def page (status : ℤ) (title form : Bytes) (s : HttpConn) : Bool × HttpConn :=
  let s := (s.addStatusLine status title).2
  let s := s.addHeaders form.length
  let (ok, s) := s.addContent form
  if ok then (true, { s with iv := [⟨.writeBuf, s.writeIdx⟩] }) else (false, s)

/-- The page for the empty file. -/
def okString : Bytes := ascii "<html><body>Welcome</body></html>"

/-- `processWrite`.  The argument of `addHeaders` is an `int`, and `st_size` is not. -/
def processWrite : HTTP_CODE → HttpConn → Bool × HttpConn
  | .INTERNAL_ERROR, s => s.page 500 error_500_title error_500_form
  | .BAD_REQUEST, s => s.page 400 error_400_title error_400_form
  | .NO_REQUEST, s => s.page 404 error_404_title error_404_form
  | .FORBIDDEN_REQUEST, s => s.page 403 error_403_title error_403_form
  | .FILE_REQUEST, s =>
    let st_size := s.file.length
    let s := (s.addStatusLine 200 ok_200_title).2
    if st_size ≠ 0 then
      let s := s.addHeaders (truncate st_size)
      (true, { s with iv := [⟨.writeBuf, s.writeIdx⟩, ⟨.fileAddress, st_size⟩] })
    else
      let s := s.addHeaders okString.length
      let (ok, s) := s.addContent okString
      if !ok then (false, s)
      -- there is no `break`: this is `default`
      else (false, s)
  | _, s => (false, s)

/-- What an `iovec` designates. -/
def bytesOf (s : HttpConn) (v : Iovec) : Bytes :=
  match v.iov_base with
  | .writeBuf => (List.range v.iov_len).map s.writeBuf
  | .fileAddress => s.file.take v.iov_len

/-- What is to be sent. -/
def output (s : HttpConn) : Bytes := s.iv.flatMap s.bytesOf

end HttpConn

variable {s t u : HttpConn} {text x y body : Bytes} {code : HTTP_CODE} {status : ℤ}
  {title form : Bytes} {n : ℤ}

open HttpConn

/-! ### What has been printed -/

/-- The text in the buffer. -/
def printed (s : HttpConn) : Bytes := (List.range s.writeIdx).map s.writeBuf

/-- From `s` to `t` the text has been printed, and nothing else has changed. -/
structure Prints (text : Bytes) (s t : HttpConn) : Prop where
  writeIdx : t.writeIdx = s.writeIdx + text.length
  printed : printed t = Writer.printed s ++ text
  linger : t.linger = s.linger
  file : t.file = s.file

theorem printed_nil (h0 : s.writeIdx = 0) : printed s = [] := by
  unfold printed
  rw [h0, List.range_zero, List.map_nil]

theorem Prints.trans (h : Prints x s t) (h' : Prints y t u) : Prints (x ++ y) s u := by
  refine ⟨?_, ?_, h'.linger.trans h.linger, h'.file.trans h.file⟩
  · rw [h'.writeIdx, h.writeIdx, List.length_append, Nat.add_assoc]
  · rw [h'.printed, h.printed, List.append_assoc]

theorem addResponse_prints (text : Bytes) (h : s.writeIdx + text.length < WRITE_BUFFER_SIZE - 1) :
    (s.addResponse text).1 = true ∧ Prints text s (s.addResponse text).2 := by
  have h1 : ¬WRITE_BUFFER_SIZE ≤ s.writeIdx := by omega
  have h2 : ¬WRITE_BUFFER_SIZE - 1 - s.writeIdx ≤ text.length := by omega
  have h3 : ¬WRITE_BUFFER_SIZE - 1 - s.writeIdx = 0 := by omega
  unfold addResponse
  rw [if_neg h1]
  dsimp only
  rw [if_neg h2]
  refine ⟨rfl, rfl, ?_, rfl, rfl⟩
  have htake : text.take (WRITE_BUFFER_SIZE - 1 - s.writeIdx - 1) = text :=
    List.take_of_length_le (by omega)
  unfold Writer.printed vsnprintf
  dsimp only
  rw [if_neg h3, htake, List.range_add, List.map_append, List.map_map]
  congr 1
  · refine List.map_congr_left fun i hi => ?_
    exact Calls.splice_of_lt (List.mem_range.mp hi)
  · refine List.ext_getElem (by simp) fun i hi hi' => ?_
    rw [List.getElem_map, List.getElem_range, Function.comp_apply,
      Calls.splice_add (by rw [List.length_append]; omega), List.getElem_append_left hi']

/-! ### Numbers -/

theorem length_ascii (v : String) : (ascii v).length = v.length := by
  unfold ascii
  rw [List.length_map, String.length_toList]

theorem length_decimal {k : ℕ} (h : k < 10 ^ 10) : (ascii (toString k)).length ≤ 10 := by
  rw [length_ascii]
  exact (Nat.length_repr_le_iff (by decide)).mpr h

theorem toString_negSucc (k : ℕ) : toString (Int.negSucc k) = "-" ++ toString (k + 1) := rfl

theorem intText_negSucc (k : ℕ) : intText (.negSucc k) = 45 :: ascii (toString (k + 1)) := by
  unfold intText ascii
  rw [toString_negSucc, String.toList_append, List.map_append]
  rfl

/-- An `int` has eleven characters at most. -/
theorem length_intText (h1 : INT_MIN ≤ n) (h2 : n ≤ INT_MAX) : (intText n).length ≤ 11 := by
  unfold INT_MIN at h1
  unfold INT_MAX at h2
  cases n with
  | ofNat k =>
    have hk : (k : ℤ) ≤ 2 ^ 31 - 1 := h2
    have := length_decimal (k := k) (by omega)
    show (ascii (toString k)).length ≤ 11
    omega
  | negSucc k =>
    have := length_decimal (k := k + 1) (by omega)
    rw [intText_negSucc, List.length_cons]
    omega

/-- Only the number itself is printed like a size. -/
theorem intText_inj {k : ℕ} (h : intText n = ascii (toString k)) : n = k := by
  cases n with
  | ofNat m =>
    have h' : ascii (toString m) = ascii (toString k) := h
    have := congrArg Http.Framing.decimal h'
    rw [decimal_toString, decimal_toString] at this
    rw [this]
    rfl
  | negSucc m =>
    rw [intText_negSucc] at h
    have hdigit := isDigit_toString k 45 (h ▸ List.mem_cons_self)
    exact absurd hdigit (by decide)

/-! ### The head -/

/-- The status line. -/
def statusLine (status : ℤ) (title : Bytes) : Bytes :=
  ascii "HTTP/1.1" ++ ascii " " ++ intText status ++ ascii " " ++ title

def lengthLine (len : ℤ) : Bytes := ascii "Content-Length: " ++ intText len

def lingerLine (linger : Bool) : Bytes :=
  ascii "Connection: " ++ if linger then ascii "keep-alive" else ascii "close"

/-- The lines of a head. -/
def headLines (l : Bytes) (len : ℤ) (linger : Bool) : List Bytes :=
  [l, lengthLine len, lingerLine linger]

/-- The lines and the empty line. -/
def headText (l : Bytes) (len : ℤ) (linger : Bool) : Bytes :=
  block CR LF (headLines l len linger) ++ CRLF

theorem length_statusLine (h1 : INT_MIN ≤ status) (h2 : status ≤ INT_MAX) :
    (statusLine status title).length ≤ 21 + title.length := by
  have h11 := length_intText h1 h2
  have h8 : (ascii "HTTP/1.1").length = 8 := length_ascii _
  have hblank : (ascii " ").length = 1 := length_ascii _
  unfold statusLine
  simp only [List.length_append]
  omega

theorem length_lingerLine (linger : Bool) : (lingerLine linger).length ≤ 22 := by
  cases linger <;> decide

theorem length_lengthLine (h1 : INT_MIN ≤ n) (h2 : n ≤ INT_MAX) : (lengthLine n).length ≤ 27 := by
  have := length_intText h1 h2
  have h16 : (ascii "Content-Length: ").length = 16 := length_ascii _
  unfold lengthLine
  rw [List.length_append]
  omega

theorem addLinger_prints (h : s.writeIdx + 24 < WRITE_BUFFER_SIZE - 1) :
    Prints (lingerLine s.linger ++ CRLF) s s.addLinger.2 := by
  have h22 := length_lingerLine s.linger
  have hcrlf : CRLF.length = 2 := rfl
  refine (addResponse_prints (lingerLine s.linger ++ CRLF) ?_).2
  rw [List.length_append]
  omega

theorem addHeaders_prints (h1 : INT_MIN ≤ n) (h2 : n ≤ INT_MAX)
    (hs : s.writeIdx + 55 < WRITE_BUFFER_SIZE - 1) :
    Prints (block CR LF [lengthLine n, lingerLine s.linger] ++ CRLF) s (s.addHeaders n) := by
  have h27 := length_lengthLine h1 h2
  have h22 := length_lingerLine s.linger
  have hcrlf : CRLF.length = 2 := rfl
  have hlength : Prints (lengthLine n ++ CRLF) s (s.addContentLength n).2 :=
    (addResponse_prints _ (by rw [List.length_append]; omega)).2
  have hidx := hlength.writeIdx
  rw [List.length_append] at hidx
  have hlinger := addLinger_prints (s := (s.addContentLength n).2) (by omega)
  have hidx' := hlinger.writeIdx
  rw [hlength.linger, List.length_append] at hidx'
  have hblank : Prints CRLF (s.addContentLength n).2.addLinger.2 (s.addHeaders n) :=
    (addResponse_prints _ (by omega)).2
  rw [hlength.linger] at hlinger
  have htext : block CR LF [lengthLine n, lingerLine s.linger] ++ CRLF =
      lengthLine n ++ CRLF ++ (lingerLine s.linger ++ CRLF ++ CRLF) := by
    simp [block, CRLF]
  rw [htext]
  exact hlength.trans (hlinger.trans hblank)

/-- **The head**, printed into an empty buffer. -/
theorem head_prints (h0 : s.writeIdx = 0) (hl : (statusLine status title).length ≤ 100)
    (h1 : INT_MIN ≤ n) (h2 : n ≤ INT_MAX) :
    Prints (headText (statusLine status title) n s.linger) s
        ((s.addStatusLine status title).2.addHeaders n) ∧
      ((s.addStatusLine status title).2.addHeaders n).writeIdx ≤ 157 := by
  have hcrlf : CRLF.length = 2 := rfl
  have hw : WRITE_BUFFER_SIZE = 1024 := rfl
  have hstatus : Prints (statusLine status title ++ CRLF) s (s.addStatusLine status title).2 :=
    (addResponse_prints _ (by rw [List.length_append]; omega)).2
  have hidx := hstatus.writeIdx
  rw [List.length_append] at hidx
  have hrest := addHeaders_prints (s := (s.addStatusLine status title).2) h1 h2 (by omega)
  rw [hstatus.linger] at hrest
  have htext : headText (statusLine status title) n s.linger =
      statusLine status title ++ CRLF ++ (block CR LF [lengthLine n, lingerLine s.linger] ++ CRLF) := by
    simp [headText, headLines, block, CRLF]
  have h27 := length_lengthLine h1 h2
  have h22 := length_lingerLine s.linger
  have hlast := hrest.writeIdx
  simp only [block, List.flatMap_cons, List.flatMap_nil, List.length_append, List.length_cons,
    List.length_nil] at hlast
  refine ⟨htext ▸ hstatus.trans hrest, by omega⟩

/-! ### Responses -/

/-- A line that announces the length of the body. -/
def announces (l : Bytes) : Bool := (ascii "Content-Length:").isPrefixOf l

/-- A head of lines that an empty line ends, with one line `Content-Length`, and as many bytes as it
says. -/
structure IsResponse (out body : Bytes) : Prop where
  head : ∃ ls, Solid CR LF ls ∧ out = block CR LF ls ++ CR :: LF :: body ∧
    ls.filter announces = [ascii "Content-Length: " ++ ascii (toString body.length)]

/-- The status line cannot be taken for something else. -/
structure IsStatusLine (l : Bytes) : Prop where
  ne_nil : l ≠ []
  clean : Clean CR LF l
  announces : announces l = false

theorem clean_intText (n : ℤ) : Clean CR LF (intText n) := by
  have hdigits : ∀ k : ℕ, Clean CR LF (ascii (toString k)) := fun k =>
    ⟨fun h => absurd (isDigit_toString k _ h) (by decide),
      fun h => absurd (isDigit_toString k _ h) (by decide)⟩
  cases n with
  | ofNat k => exact hdigits k
  | negSucc k =>
    rw [intText_negSucc, clean_cons]
    exact ⟨by decide, by decide, hdigits (k + 1)⟩

/-- A title without line ends makes a status line. -/
theorem isStatusLine_statusLine (status : ℤ) (htitle : Clean CR LF title) :
    IsStatusLine (statusLine status title) := by
  have hversion : Clean CR LF (ascii "HTTP/1.1") := ⟨by decide, by decide⟩
  have hblank : Clean CR LF (ascii " ") := ⟨by decide, by decide⟩
  refine ⟨?_, ?_, rfl⟩
  · unfold statusLine
    simp [ascii]
  · unfold statusLine
    simp only [clean_append]
    exact ⟨⟨⟨⟨hversion, hblank⟩, clean_intText status⟩, hblank⟩, htitle⟩

theorem solid_headLines {l : Bytes} (hl : IsStatusLine l) (n : ℤ) (linger : Bool) :
    Solid CR LF (headLines l n linger) := by
  have hlength : lengthLine n ≠ [] ∧ Clean CR LF (lengthLine n) := by
    unfold lengthLine
    refine ⟨by simp [ascii], ?_⟩
    rw [clean_append]
    exact ⟨by unfold Clean; decide, clean_intText n⟩
  have hlinger : lingerLine linger ≠ [] ∧ Clean CR LF (lingerLine linger) := by
    unfold Clean
    cases linger <;> decide
  intro x hx
  simp only [headLines, List.mem_cons, List.not_mem_nil, or_false] at hx
  rcases hx with rfl | rfl | rfl
  · exact ⟨hl.ne_nil, hl.clean⟩
  · exact hlength
  · exact hlinger

theorem filter_headLines {l : Bytes} (hl : IsStatusLine l) (n : ℤ) (linger : Bool) :
    (headLines l n linger).filter announces = [lengthLine n] := by
  have hlength : announces (lengthLine n) = true := by
    unfold announces lengthLine
    rw [List.isPrefixOf_iff_prefix]
    have hsp : ascii "Content-Length: " = ascii "Content-Length:" ++ [SP] := by decide
    rw [hsp, List.append_assoc]
    exact List.prefix_append _ _
  have hlinger : announces (lingerLine linger) = false := by cases linger <;> decide
  unfold headLines
  rw [List.filter_cons_of_neg (by simp [hl.announces]), List.filter_cons_of_pos hlength,
    List.filter_cons_of_neg (by simp [hlinger]), List.filter_nil]

/-- **The length that is announced**: a text with such a head is a response if and only if the number
in it is the length of what follows. -/
theorem isResponse_headText {l : Bytes} (hl : IsStatusLine l) {linger : Bool} :
    IsResponse (headText l n linger ++ body) x ↔ x = body ∧ n = body.length := by
  have hsolid := solid_headLines hl n linger
  have hout : headText l n linger ++ body = block CR LF (headLines l n linger) ++ CR :: LF :: body := by
    simp [headText, CRLF]
  rw [hout]
  constructor
  · rintro ⟨ls, hls, heq, hfilter⟩
    obtain ⟨rfl, rfl⟩ := block_inj hsolid hls heq
    rw [filter_headLines hl] at hfilter
    refine ⟨rfl, intText_inj ?_⟩
    exact List.append_cancel_left (List.cons.inj hfilter).1
  · rintro ⟨rfl, rfl⟩
    exact ⟨_, hsolid, rfl, filter_headLines hl _ _⟩

theorem page_spec (h0 : s.writeIdx = 0) (hl : (statusLine status title).length ≤ 100)
    (hf : form.length ≤ 100) : ∃ t, s.page status title form = (true, t) ∧
      t.output = headText (statusLine status title) form.length s.linger ++ form := by
  have hw : WRITE_BUFFER_SIZE = 1024 := rfl
  obtain ⟨hhead, hidx⟩ := head_prints (n := form.length) h0 hl (by unfold INT_MIN; omega)
    (by unfold INT_MAX; omega)
  obtain ⟨hok, hform⟩ := addResponse_prints form
    (s := (s.addStatusLine status title).2.addHeaders form.length) (by omega)
  have hall := (hhead.trans hform).printed
  rw [printed_nil h0, List.nil_append] at hall
  unfold HttpConn.page addContent
  dsimp only
  rw [hok, if_pos rfl]
  refine ⟨_, rfl, ?_⟩
  rw [← hall]
  unfold output
  rw [List.flatMap_singleton]
  rfl

/-- The file is sent behind a head that gives its size as an `int`. -/
theorem file_spec (h0 : s.writeIdx = 0) (hne : s.file ≠ []) :
    ∃ t, processWrite .FILE_REQUEST s = (true, t) ∧
      t.output = headText (statusLine 200 ok_200_title) (truncate s.file.length) s.linger ++
        s.file := by
  have hsize : s.file.length ≠ 0 := fun h => hne (List.eq_nil_of_length_eq_zero h)
  obtain ⟨hmin, hmax⟩ := truncate_mem s.file.length
  have hline : (statusLine 200 ok_200_title).length ≤ 100 := by decide
  obtain ⟨hhead, -⟩ := head_prints h0 hline hmin hmax
  have hall := hhead.printed
  rw [printed_nil h0, List.nil_append] at hall
  unfold processWrite
  dsimp only
  rw [if_pos hsize]
  refine ⟨_, rfl, ?_⟩
  have hfile : ((s.addStatusLine 200 ok_200_title).2.addHeaders (truncate s.file.length)).file =
      s.file := hhead.file
  rw [← hall]
  unfold output
  rw [List.flatMap_cons, List.flatMap_singleton]
  refine congrArg _ ?_
  show List.take _ (HttpConn.file _) = _
  rw [hfile, List.take_length]

theorem file_empty (hnil : s.file = []) : (processWrite .FILE_REQUEST s).1 = false := by
  unfold processWrite
  dsimp only
  rw [hnil, if_neg (by simp)]
  split_ifs <;> rfl

/-- The codes `process` passes on. -/
def passedOn : List HTTP_CODE := [.BAD_REQUEST, .FORBIDDEN_REQUEST, .INTERNAL_ERROR, .FILE_REQUEST]

/-- A response is assembled, with the file for its body when there is one. -/
def Assembles (code : HTTP_CODE) (s : HttpConn) : Prop :=
  ∃ t body, processWrite code s = (true, t) ∧ IsResponse t.output body ∧
    (code = .FILE_REQUEST → s.file ≠ [] → body = s.file)

/-- What is asked of a page: its title is the end of a line, and it fits into the buffer. -/
structure Fits (status : ℤ) (title form : Bytes) : Prop where
  status_ge : INT_MIN ≤ status
  status_le : status ≤ INT_MAX
  clean : Clean CR LF title
  title_le : title.length ≤ 79
  form_le : form.length ≤ 100

theorem fits_400 : Fits 400 error_400_title error_400_form := by
  refine ⟨by decide, by decide, ⟨by decide, by decide⟩, by decide, ?_⟩
  simp [error_400_form, ascii]

theorem fits_403 : Fits 403 error_403_title error_403_form := by
  refine ⟨by decide, by decide, ⟨by decide, by decide⟩, by decide, ?_⟩
  simp [error_403_form, ascii]

theorem fits_500 : Fits 500 error_500_title error_500_form := by
  refine ⟨by decide, by decide, ⟨by decide, by decide⟩, by decide, ?_⟩
  simp [error_500_form, ascii]

theorem assembles_page (h0 : s.writeIdx = 0) (hcode : code ≠ .FILE_REQUEST)
    (hpage : processWrite code s = s.page status title form)
    (hfits : Fits status title form) : Assembles code s := by
  have hlen : (statusLine status title).length ≤ 100 := by
    have hline : (statusLine status title).length ≤ 21 + title.length :=
      length_statusLine hfits.status_ge hfits.status_le
    have := hfits.title_le
    omega
  obtain ⟨t, ht, hout⟩ := page_spec h0 hlen hfits.form_le
  refine ⟨t, form, hpage.trans ht, ?_, fun h => absurd h hcode⟩
  rw [hout]
  exact (isResponse_headText (isStatusLine_statusLine status hfits.clean)).mpr ⟨rfl, rfl⟩

theorem truncate_eq (n : ℤ) : truncate n = n ↔ INT_MIN ≤ n ∧ n ≤ INT_MAX := by
  unfold truncate INT_MIN INT_MAX
  omega

/-- **Response assembly.**  For every code that `process` passes on and every file, `processWrite`
assembles a response if and only if, where a file was asked for, the file is not empty and its size
is an `int`. -/
theorem assembles_iff (h0 : s.writeIdx = 0) (hcode : code ∈ passedOn) :
    Assembles code s ↔
      (code = .FILE_REQUEST → 0 < s.file.length ∧ (s.file.length : ℤ) ≤ INT_MAX) := by
  by_cases hfile : code = .FILE_REQUEST
  · subst hfile
    have hstatus : IsStatusLine (statusLine 200 ok_200_title) :=
      isStatusLine_statusLine 200 ⟨by decide, by decide⟩
    constructor
    · rintro ⟨t, body, hok, hresp, hbody⟩ -
      have hne : s.file ≠ [] := by
        intro hnil
        have := file_empty hnil
        rw [hok] at this
        cases this
      obtain ⟨t', ht', hout⟩ := file_spec h0 hne
      rw [hok] at ht'
      cases ht'
      rw [hout, isResponse_headText hstatus, truncate_eq] at hresp
      exact ⟨List.length_pos_iff.mpr hne, hresp.2.2⟩
    · intro h
      obtain ⟨hpos, hmax⟩ := h rfl
      have hne : s.file ≠ [] := List.length_pos_iff.mp hpos
      obtain ⟨t, ht, hout⟩ := file_spec h0 hne
      refine ⟨t, s.file, ht, ?_, fun _ _ => rfl⟩
      rw [hout, isResponse_headText hstatus, truncate_eq]
      exact ⟨rfl, by unfold INT_MIN; omega, hmax⟩
  · refine iff_of_true ?_ fun h => absurd h hfile
    simp only [passedOn, List.mem_cons, List.not_mem_nil, or_false] at hcode
    rcases hcode with rfl | rfl | rfl | rfl
    · exact assembles_page h0 hfile (by rw [processWrite]) fits_400
    · exact assembles_page h0 hfile (by rw [processWrite]) fits_403
    · exact assembles_page h0 hfile (by rw [processWrite]) fits_500
    · exact absurd rfl hfile

/-- A connection that has printed nothing, with a file. -/
def fresh (file : Bytes) : HttpConn := ⟨fun _ => NUL, 0, false, file, []⟩

theorem assembles_iff_small : Assembles .FILE_REQUEST (fresh (ascii "hello")) ↔
    (HTTP_CODE.FILE_REQUEST = .FILE_REQUEST → 0 < 5 ∧ (5 : ℤ) ≤ INT_MAX) :=
  assembles_iff rfl (by decide)

/-- **The empty file** is refused: `processWrite` has printed a page for it and returns false. -/
theorem not_assembles_empty : .FILE_REQUEST ∈ passedOn ∧ (fresh []).writeIdx = 0 ∧
    ¬Assembles .FILE_REQUEST (fresh []) := by
  refine ⟨by decide, rfl, ?_⟩
  rintro ⟨t, body, hok, -⟩
  have := file_empty (s := fresh []) rfl
  rw [hok] at this
  cases this

end ReactorServer.Conn.Writer
