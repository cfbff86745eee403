import ReactorServer.Http.Parsing

/-!
# What the parser accepts

A complete head is a request line, header lines and an empty line, each ended by `CR LF`.  A parser
should report a request only for a complete head (`Accepts`).  This one refuses a request line that
is none; whatever else it meets it reports as a request, be it a line that has not ended, a stray
`CR` or `LF`, or a header without a colon (`reported_of_not_refused`).  So it does what it should on
the buffers with a bad request line and on those that begin with a complete head (`accepts_iff`).
-/

namespace ReactorServer.Http.Acceptance

open ReactorServer.Cpp ReactorServer.Lib.Lines
open ReactorServer.Http.Request ReactorServer.Http.Context ReactorServer.Http.Parsing

variable {u l rest : Bytes} {hs : List Bytes} {code : HttpCode} {c : HttpContext}

/-! ### Heads -/

/-- A request line and header lines with a colon. -/
structure IsHead (l : Bytes) (hs : List Bytes) : Prop where
  requestLine : ∃ M T V, IsRequestLine l M T V
  clean : Clean CR LF l
  headers : ∀ h ∈ hs, Clean CR LF h ∧ COLON ∈ h

/-- The text of the head, up to its empty line. -/
def headText (l : Bytes) (hs : List Bytes) : Bytes := block CR LF (l :: hs) ++ [CR, LF]

/-- The buffer begins with a complete head. -/
def Complete (u : Bytes) : Prop := ∃ l hs rest, IsHead l hs ∧ u = headText l hs ++ rest

/-- The buffer is a part of a complete head, cut off before its end. -/
def Truncated (u : Bytes) : Prop := ∃ l hs w, IsHead l hs ∧ w ≠ [] ∧ u ++ w = headText l hs

/-- Before the first empty line there is a `CR` or an `LF` that is not part of a pair, or a header
line without a colon. -/
def Malformed (u : Bytes) : Prop :=
  (∃ ls v, Solid CR LF ls ∧ u = block CR LF ls ++ v ∧ scan CR LF v = .bad) ∨
  ∃ l ls h rest, Solid CR LF (l :: (ls ++ [h])) ∧ COLON ∉ h ∧
    u = block CR LF (l :: (ls ++ [h])) ++ rest

/-- The first line is complete, and is no request line. -/
def Refused (u : Bytes) : Prop :=
  ∃ l rest, u = l ++ CR :: LF :: rest ∧ Clean CR LF l ∧ ∀ M T V, ¬IsRequestLine l M T V

/-- What the parser should report of a buffer. -/
structure Accepts (u : Bytes) (code : HttpCode) : Prop where
  complete : code = .GET_REQUEST → Complete u
  malformed : Malformed u → code = .BAD_REQUEST
  truncated : Truncated u → code ≠ .GET_REQUEST

theorem IsHead.solid (h : IsHead l hs) : Solid CR LF (l :: hs) := by
  intro x hx
  rcases List.mem_cons.mp hx with rfl | hx
  · obtain ⟨M, T, V, hline⟩ := h.requestLine
    refine ⟨fun h0 => ?_, h.clean⟩
    rw [hline.eq] at h0
    simp at h0
  · obtain ⟨hclean, hcolon⟩ := h.headers x hx
    exact ⟨List.ne_nil_of_mem hcolon, hclean⟩

theorem headText_append (l : Bytes) (hs : List Bytes) (rest : Bytes) :
    headText l hs ++ rest = block CR LF (l :: hs) ++ CR :: LF :: rest := by
  simp [headText]

/-! ### Complete heads are neither malformed nor cut off -/

theorem scan_block {ls : List Bytes} (h : Solid CR LF ls) (rest : Bytes) :
    ∃ l v, scan CR LF (block CR LF ls ++ CR :: LF :: rest) = .line l v := by
  rcases ls with _ | ⟨l, ls⟩
  · exact ⟨[], rest, rfl⟩
  · rw [block_cons]
    exact ⟨l, _, scan_line (h l List.mem_cons_self).2 _⟩

theorem not_malformed (h : Complete u) : ¬Malformed u := by
  obtain ⟨l, hs, rest, hhead, rfl⟩ := h
  rw [headText_append]
  rintro (⟨ls, v, hls, hu, hv⟩ | ⟨l', ls, g, rest', hls, hg, hu⟩)
  · rcases block_eq_block hhead.solid hls hu with ⟨m, hm, hrest⟩ | ⟨m, hm, rfl⟩
    · obtain rfl := block_ne_emptyLine (hm ▸ hls).right hrest
      obtain rfl : CR :: LF :: rest = v := hrest
      cases hv
    · obtain ⟨x, y, hxy⟩ := scan_block (hm ▸ hhead.solid).right rest
      rw [hxy] at hv
      cases hv
  · have hmem : g ∈ hs := by
      rcases block_eq_block hhead.solid hls hu with ⟨m, hm, hrest⟩ | ⟨m, hm, -⟩
      · obtain rfl := block_ne_emptyLine (hm ▸ hls).right hrest
        rw [List.append_nil] at hm
        rw [← (List.cons.inj hm).2]
        simp
      · rw [(List.cons.inj hm).2]
        simp
    exact hg (hhead.headers g hmem).2

theorem not_truncated (h : Complete u) : ¬Truncated u := by
  obtain ⟨l, hs, rest, hhead, rfl⟩ := h
  rintro ⟨l', hs', w, hhead', hw, heq⟩
  rw [List.append_assoc, headText_append] at heq
  obtain ⟨-, hrest⟩ := block_inj hhead.solid hhead'.solid heq
  exact hw (List.append_eq_nil_iff.mp hrest).2

theorem not_refused (h : Complete u) : ¬Refused u := by
  obtain ⟨l, hs, rest, hhead, rfl⟩ := h
  rintro ⟨l', rest', heq, hclean, hno⟩
  rw [headText_append, block_cons] at heq
  have h1 := scan_line hhead.clean (block CR LF hs ++ CR :: LF :: rest)
  rw [heq, scan_line hclean] at h1
  obtain ⟨rfl, -⟩ := Scan.line.inj h1
  obtain ⟨M, T, V, hline⟩ := hhead.requestLine
  exact hno M T V hline

/-! ### What is reported -/

theorem refused_reported (hu : Refused u)
    (h : (HttpContext.new.setBuffer u).parseRequest = .ok (code, c)) : code = .BAD_REQUEST := by
  obtain ⟨l, rest, rfl, hclean, hno⟩ := hu
  obtain ⟨c', h', -⟩ := parseRequest_refused hclean hno rest
  rw [h'] at h
  cases h
  rfl

/-- **Everything but a bad request line is reported as a request.** -/
theorem reported_of_not_refused (hu : ¬Refused u)
    (h : (HttpContext.new.setBuffer u).parseRequest = .ok (code, c)) : code = .GET_REQUEST := by
  by_cases hs : ∃ l rest, scan CR LF u = .line l rest
  · obtain ⟨l, rest, hs⟩ := hs
    obtain ⟨rfl, hl⟩ := scan_eq_line.mp hs
    by_cases hline : ∃ M T V, IsRequestLine l M T V
    · obtain ⟨M, T, V, hline⟩ := hline
      obtain ⟨q, v, hq, -, -, heq, hv⟩ := requestLine_split hl hline rest
      rw [heq] at h
      rcases hv with hv | hv
      · obtain ⟨c', h', -⟩ := parseRequest_ended hq hv
        rw [h'] at h
        cases h
        rfl
      · rw [parseRequest_trailing hq hv] at h
        cases h
    · simp only [not_exists] at hline
      exact absurd ⟨l, rest, rfl, hl, hline⟩ hu
  · simp only [not_exists] at hs
    obtain ⟨c', h', -⟩ := parseRequest_noLine hs
    rw [h'] at h
    cases h
    rfl

/-- **When the parser reports what it should**: on a bad request line, and on a complete head. -/
theorem accepts_iff (u : Bytes) (code : HttpCode) (c : HttpContext)
    (h : (HttpContext.new.setBuffer u).parseRequest = .ok (code, c)) :
    Accepts u code ↔ Refused u ∨ Complete u := by
  constructor
  · intro hacc
    by_cases hu : Refused u
    · exact Or.inl hu
    · exact Or.inr (hacc.complete (reported_of_not_refused hu h))
  · rintro (hu | hu)
    · obtain rfl := refused_reported hu h
      exact ⟨nofun, fun _ => rfl, fun _ => nofun⟩
    · exact ⟨fun _ => hu, fun hm => absurd hm (not_malformed hu),
        fun ht => absurd ht (not_truncated hu)⟩

/-- A request without headers. -/
theorem accepts_iff_plain : ∃ code c,
    (HttpContext.new.setBuffer (ascii "GET / HTTP/1.0\r\n\r\n")).parseRequest = .ok (code, c) ∧
    (Accepts (ascii "GET / HTTP/1.0\r\n\r\n") code ↔
      Refused (ascii "GET / HTTP/1.0\r\n\r\n") ∨ Complete (ascii "GET / HTTP/1.0\r\n\r\n")) :=
  ⟨_, _, rfl, accepts_iff _ _ _ rfl⟩

/-- **A head that is cut off is reported**: of `GET / HTTP/1.1` and an empty line only the first
line has arrived. -/
theorem accepts_truncated : ∃ c,
    (HttpContext.new.setBuffer (ascii "GET / HTTP/1.1\r\n")).parseRequest = .ok (.GET_REQUEST, c) ∧
    ¬Accepts (ascii "GET / HTTP/1.1\r\n") .GET_REQUEST := by
  have hline : IsRequestLine (ascii "GET / HTTP/1.1") (ascii "GET") (ascii "/") (ascii "HTTP/1.1") :=
    ⟨by decide, by decide, by decide, by decide, by decide, by decide⟩
  have hhead : IsHead (ascii "GET / HTTP/1.1") [] :=
    ⟨⟨_, _, _, hline⟩, by unfold Clean; decide, nofun⟩
  refine ⟨_, rfl, fun hacc => hacc.truncated ⟨_, _, [CR, LF], hhead, nofun, rfl⟩ rfl⟩

end ReactorServer.Http.Acceptance
