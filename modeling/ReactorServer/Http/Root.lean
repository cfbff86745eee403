import ReactorServer.Lib.Paths
import ReactorServer.Http.Parsing
import ReactorServer.Http.Server

/-!
# The files that are served

`defaultHttpCB` looks for the path of the request behind `/root`.  The parser accepts any path, so
that what it looks for may be anywhere: the path need not begin with a slash, and `..` may lead out
of `/root`.  It is under `/root` if and only if the names that `..` takes away are the path's own,
or the path comes back to `/root` (`served_under_root`).
-/

namespace ReactorServer.Http.Root

open ReactorServer.Cpp ReactorServer.Lib.Lines ReactorServer.Lib.Paths
open ReactorServer.Http.Request ReactorServer.Http.Response ReactorServer.Http.Context
open ReactorServer.Http.Server ReactorServer.Http.Parsing

variable {u l : Bytes} {host host' : Host} {req : HttpRequest} {c : HttpContext}

def SLASH : UInt8 := 47
def DOT : UInt8 := 46

/-! ### The path that is looked for -/

/-- The argument of `stat` and of the `ifstream`. -/
def filePath (req : HttpRequest) : Bytes := cstr (ascii "/root" ++ req.path)

theorem defaultHttpCB_congr (h : host.stat (filePath req) = host'.stat (filePath req))
    (r : HttpResponse) : defaultHttpCB host req r = defaultHttpCB host' req r := by
  unfold filePath at h
  unfold defaultHttpCB
  rw [h]

/-- The second word of the first line, up to a question mark. -/
def requestPath (u : Bytes) : Bytes :=
  match scan CR LF u with
  | .line l _ => (((l.dropWhile (· ≠ SP)).drop 1).takeWhile (· ≠ SP)).takeWhile (· ≠ QUESTION)
  | _ => []

theorem secondWord {M T V : Bytes} (h : IsRequestLine l M T V) :
    ((l.dropWhile (· ≠ SP)).drop 1).takeWhile (· ≠ SP) = T := by
  have hdrop : ∀ {M : Bytes} (v : Bytes), SP ∉ M → (M ++ SP :: v).dropWhile (· ≠ SP) = SP :: v := by
    intro M v hM
    induction M with
    | nil => simp
    | cons a M ih =>
      have h1 : a ≠ SP := fun h => hM (h ▸ List.mem_cons_self)
      rw [List.cons_append, List.dropWhile_cons_of_pos (by simpa using h1)]
      exact ih fun h => hM (List.mem_cons_of_mem _ h)
  rw [h.eq, hdrop _ h.method, List.drop_succ_cons, List.drop_zero]
  exact takeWhile_sep h.target V

theorem request_path (h : (HttpContext.new.setBuffer u).parseRequest = .ok (.GET_REQUEST, c)) :
    c.request.path = requestPath u := by
  unfold requestPath
  by_cases hs : ∃ l rest, scan CR LF u = .line l rest
  · obtain ⟨l, rest, hs⟩ := hs
    rw [hs]
    obtain ⟨rfl, hl⟩ := scan_eq_line.mp hs
    by_cases hline : ∃ M T V, IsRequestLine l M T V
    · obtain ⟨M, T, V, hline⟩ := hline
      obtain ⟨q, v, hq, -, rfl, heq, hv⟩ := requestLine_split hl hline rest
      rw [heq] at h
      rcases hv with hv | hv
      · obtain ⟨c', h', hreq, -⟩ := parseRequest_ended hq hv
        rw [h'] at h
        cases h
        dsimp only
        rw [secondWord hline, hreq]
        rfl
      · rw [parseRequest_trailing hq hv] at h
        cases h
    · simp only [not_exists] at hline
      obtain ⟨c', h', -⟩ := parseRequest_refused hl hline rest
      rw [h'] at h
      cases h
  · simp only [not_exists] at hs
    obtain ⟨c', h', hreq⟩ := parseRequest_noLine hs
    rw [h'] at h
    cases h
    rw [hreq]
    split
    · rename_i l rest hline
      exact absurd hline (hs l rest)
    · rfl

/-! ### Paths under the root -/

/-- Behind `/root`, the path takes no more names away than it has brought; or it takes all of them
away, comes back to a segment `root`, and from there on takes away only its own. -/
def Confined (path : Bytes) : Prop :=
  ∃ pre post, (cstr (ascii "/root" ++ path)).splitOn SLASH = pre ++ ascii "root" :: post ∧
    depth DOT 0 pre = 0 ∧ Within DOT 0 post

/-- The plain case: a slash, and segments that take away only their own. -/
theorem confined_of_within {path : Bytes} (hpath : NUL ∉ path)
    (h : Within DOT 0 (path.splitOn SLASH)) : Confined (SLASH :: path) := by
  have hcstr : cstr (ascii "/root" ++ SLASH :: path) = [] ++ SLASH :: (ascii "root" ++ SLASH :: path) := by
    refine List.takeWhile_eq_self_iff.mpr fun b hb => ?_
    have hroot : NUL ∉ ascii "/root" := by decide
    have hb' : b ≠ NUL := by
      rcases List.mem_append.mp hb with hb | hb
      · exact fun h0 => hroot (h0 ▸ hb)
      · rcases List.mem_cons.mp hb with rfl | hb
        · decide
        · exact fun h0 => hpath (h0 ▸ hb)
    simpa using hb'
  refine ⟨[[]], path.splitOn SLASH, ?_, rfl, h⟩
  rw [hcstr, List.splitOn_append_cons_self_of_not_mem (by decide),
    List.splitOn_append_cons_self_of_not_mem (by decide)]
  rfl

/-- **What is served is under `/root`** if and only if the path of the request is confined, for
every buffer the parser accepts; and no other file is looked at. -/
theorem served_under_root (u : Bytes) (c : HttpContext)
    (h : (HttpContext.new.setBuffer u).parseRequest = .ok (.GET_REQUEST, c)) :
    (Under SLASH (ascii "root") (normalize SLASH DOT (filePath c.request)) ↔
      Confined (requestPath u)) ∧
    ∀ host host' r, host.stat (filePath c.request) = host'.stat (filePath c.request) →
      defaultHttpCB host c.request r = defaultHttpCB host' c.request r := by
  refine ⟨?_, fun host host' r hstat => defaultHttpCB_congr hstat r⟩
  rw [normalize_under_iff (by decide) (by decide), filePath, request_path h]
  rfl

theorem served_under_root_plain : ∃ c,
    (HttpContext.new.setBuffer (ascii "GET / HTTP/1.0\r\n\r\n")).parseRequest =
      .ok (.GET_REQUEST, c) ∧
    (Under SLASH (ascii "root") (normalize SLASH DOT (filePath c.request)) ↔
      Confined (requestPath (ascii "GET / HTTP/1.0\r\n\r\n"))) ∧
    ∀ host host' r, host.stat (filePath c.request) = host'.stat (filePath c.request) →
      defaultHttpCB host c.request r = defaultHttpCB host' c.request r :=
  ⟨_, rfl, served_under_root _ _ rfl⟩

/-- `GET /../etc/passwd HTTP/1.1` with a `Connection` header. -/
def climbing : Head := ⟨ascii "GET", ascii "/../etc/passwd", ascii "HTTP/1.1",
  [⟨ascii "Connection", ascii " ", ascii "close"⟩]⟩

theorem climbing_wf : climbing.WF where
  clean := by unfold Clean; decide
  method_ne_nil := by decide
  method := by decide
  target := by decide
  length := by decide
  version := by decide
  headers := by
    intro h hh
    obtain rfl := List.mem_singleton.mp hh
    exact ⟨by unfold Clean; decide, by decide,
      fun b hb => by rw [List.mem_singleton.mp hb]; rfl, by decide, by decide⟩

/-- **A path that leads out**: `/etc/passwd` is served. -/
theorem served_outside : ∃ c,
    (HttpContext.new.setBuffer
      (ascii "GET /../etc/passwd HTTP/1.1\r\nConnection: close\r\n\r\n")).parseRequest =
      .ok (.GET_REQUEST, c) ∧
    normalize SLASH DOT (filePath c.request) = ascii "/etc/passwd" ∧
    ¬Under SLASH (ascii "root") (normalize SLASH DOT (filePath c.request)) := by
  obtain ⟨c, hparse, hreq, -⟩ := parseRequest_ended climbing_wf (ended_emptyLine [])
  have hnormal : normalize SLASH DOT (filePath c.request) = ascii "/etc/passwd" := by
    rw [hreq]
    decide
  refine ⟨c, hparse, hnormal, ?_⟩
  rw [hnormal]
  rintro (h | ⟨rest, h⟩)
  · exact absurd h (by decide)
  · exact absurd (List.cons.inj (List.cons.inj h).2).1 (by decide)

end ReactorServer.Http.Root
