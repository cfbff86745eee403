import ReactorServer.Conn.Calls
import ReactorServer.Lib.Lines
import Mathlib.Data.List.TakeWhile

/-!
# The grammar of the request line

`parseRequestLine` cuts its line up in place: it looks for a blank, ends the token there, and skips
to the next one.  It accepts the lines of the grammar `Parses` and no others, finds the url the
grammar gives, and touches nothing but its line and the `NUL` that ends it
(`parseRequestLine_grammar`).
-/

namespace ReactorServer.Conn.RequestLine

open ReactorServer.Cpp ReactorServer.Lib.Lines ReactorServer.Conn.Strings ReactorServer.Conn.Parser
open ReactorServer.Conn.Access ReactorServer.Conn.Calls

variable {line M S S₁ T S₂ V R u : Bytes} {s t : HttpConn} {p k : ℕ} {h : Head}

/-! ### The grammar -/

/-- A method, a target and a version, with spaces and tabs between them. -/
structure IsRequestLine (line M S₁ T S₂ V : Bytes) : Prop where
  eq : line = M ++ (S₁ ++ (T ++ (S₂ ++ V)))
  method : sameText M (ascii "GET") = true
  gap₁ : S₁ ≠ [] ∧ ∀ b ∈ S₁, b ∈ blanks
  target : T ≠ [] ∧ ∀ b ∈ T, b ∉ blanks
  gap₂ : S₂ ≠ [] ∧ ∀ b ∈ S₂, b ∈ blanks
  version : sameText V (ascii "HTTP/1.1") = true

/-- The url of a target: the target itself, or what begins with the first `/` behind `http://`. -/
inductive UrlOf : Bytes → Bytes → Prop
  | path {T : Bytes} (h : T.head? = some 47) : UrlOf T T
  | absolute {scheme host path : Bytes} (hscheme : sameText scheme (ascii "http://") = true)
      (hhost : 47 ∉ host) (hpath : path.head? = some 47) : UrlOf (scheme ++ (host ++ path)) path

/-- The line is a request line with the url `u`. -/
def Parses (line u : Bytes) : Prop :=
  ∃ M S₁ T S₂ V, IsRequestLine line M S₁ T S₂ V ∧ UrlOf T u

/-! ### Blanks and case -/

theorem contains_blanks {b : UInt8} : blanks.contains b = true ↔ b ∈ blanks := List.contains_iff_mem

theorem tolower_mem {s t : Bytes} (h : sameText s t = true) {b : UInt8} (hb : b ∈ s) :
    tolower b ∈ t.map tolower := by
  rw [← of_decide_eq_true h]
  exact List.mem_map_of_mem hb

theorem notMem_blanks {s t : Bytes} (h : sameText s t = true)
    (hsp : tolower SP ∉ t.map tolower) (htab : tolower 9 ∉ t.map tolower) {b : UInt8}
    (hb : b ∈ s) : b ∉ blanks := by
  have hmem := tolower_mem h hb
  intro hblank
  rcases List.mem_pair.mp hblank with rfl | rfl
  · exact hsp hmem
  · exact htab hmem

theorem length_of_sameText {s t : Bytes} (h : sameText s t = true) : s.length = t.length := by
  have := congrArg List.length (of_decide_eq_true h)
  rwa [List.length_map, List.length_map] at this

theorem findIdx?_blank (hM : ∀ b ∈ M, b ∉ blanks) (hS : S ≠ [] ∧ ∀ b ∈ S, b ∈ blanks) (R : Bytes) :
    (M ++ (S ++ R)).findIdx? (blanks.contains ·) = some M.length := by
  obtain ⟨b, S, rfl⟩ := List.exists_cons_of_ne_nil hS.1
  have hb : blanks.contains b = true := contains_blanks.mpr (hS.2 b List.mem_cons_self)
  have hnone : M.findIdx? (blanks.contains ·) = none := by
    rw [List.findIdx?_eq_none_iff]
    intro c hc
    rw [Bool.eq_false_iff]
    exact fun h => hM c hc (contains_blanks.mp h)
  rw [List.findIdx?_append, hnone, List.cons_append, List.findIdx?_cons, hb]
  simp

/-- What comes next is no blank. -/
def Solid (R : Bytes) : Prop := ∀ b ∈ R.head?, b ∉ blanks

theorem leading_append (hS : ∀ b ∈ S, b ∈ blanks) (hR : Solid R) : leading (S ++ R) = S.length := by
  unfold leading
  rw [List.takeWhile_append_of_pos fun b hb => contains_blanks.mpr (hS b hb)]
  have hnil : R.takeWhile (blanks.contains ·) = [] := by
    rcases R with _ | ⟨b, R⟩
    · rfl
    · exact List.takeWhile_cons_of_neg fun h => hR b rfl (contains_blanks.mp h)
  rw [hnil, List.append_nil]

theorem targetAt_append (hS : S ≠ [] ∧ ∀ b ∈ S, b ∈ blanks) (hR : Solid R) :
    targetAt (M ++ (S ++ R)) M.length = M.length + S.length ∧
      (M ++ (S ++ R)).drop (targetAt (M ++ (S ++ R)) M.length) = R := by
  obtain ⟨b, S, rfl⟩ := List.exists_cons_of_ne_nil hS.1
  have hdrop : (M ++ (b :: S ++ R)).drop (M.length + 1) = S ++ R := by
    rw [← List.drop_drop, List.drop_left]
    rfl
  have hlead := leading_append (fun c hc => hS.2 c (List.mem_cons_of_mem b hc)) hR
  have hat : targetAt (M ++ (b :: S ++ R)) M.length = M.length + (b :: S).length := by
    unfold targetAt
    rw [hdrop, hlead, List.length_cons]
    omega
  refine ⟨hat, ?_⟩
  rw [hat, ← List.append_assoc, ← List.length_append, List.drop_left]

theorem cut_blank (hk : line.findIdx? (blanks.contains ·) = some k) :
    ∃ S, (S ≠ [] ∧ ∀ b ∈ S, b ∈ blanks) ∧ (∀ b ∈ line.take k, b ∉ blanks) ∧
      line = line.take k ++ (S ++ line.drop (targetAt line k)) := by
  obtain ⟨hlt, hb, hbefore⟩ := List.findIdx?_eq_some_iff_getElem.mp hk
  refine ⟨(line)[k] :: (line.drop (k + 1)).takeWhile (blanks.contains ·), ⟨by simp, ?_⟩, ?_, ?_⟩
  · intro b hmem
    rcases List.mem_cons.mp hmem with rfl | hmem
    · exact contains_blanks.mp hb
    · exact contains_blanks.mp (List.mem_takeWhile_imp hmem)
  · intro b hmem hblank
    obtain ⟨i, hi, rfl⟩ := List.getElem_of_mem hmem
    rw [List.length_take] at hi
    rw [List.getElem_take] at hblank
    exact hbefore i (by omega) (contains_blanks.mpr hblank)
  · have hrest : line.drop (targetAt line k) = (line.drop (k + 1)).dropWhile (blanks.contains ·) := by
      unfold targetAt leading
      rw [← List.drop_drop, drop_length_takeWhile]
    rw [hrest, List.cons_append, List.takeWhile_append_dropWhile, ← List.drop_eq_getElem_cons hlt,
      List.take_append_drop]

/-! ### The url -/

theorem contains_slash {b : UInt8} : ([47] : Bytes).contains b = true ↔ b = 47 := by simp

/-- A target of the grammar passes the checks, and its url is found. -/
theorem urlOk_of_urlOf (h : UrlOf T u) : urlOk T = true ∧ ∃ k, urlOf T = some k ∧ T.drop k = u := by
  rcases h with h | @⟨scheme, host, u, hscheme, hhost, hpath⟩
  · have hno : ¬sameText (T.take 7) ((ascii "http://").take 7) = true := by
      intro hsame
      obtain ⟨T', rfl⟩ : ∃ T', T = 47 :: T' := by
        rcases T with _ | ⟨b, T'⟩
        · cases h
        · exact ⟨T', by rw [Option.some.inj h]⟩
      have hhead : some (tolower 47) = some (tolower 104) :=
        congrArg List.head? (of_decide_eq_true hsame)
      exact absurd hhead (by decide)
    have hurl : urlOf T = some 0 := if_neg hno
    refine ⟨?_, 0, hurl, rfl⟩
    unfold urlOk
    rw [hurl, Option.any_some, List.drop_zero, List.headD_eq_head?_getD, h]
    rfl
  · have hlen : scheme.length = 7 := length_of_sameText hscheme
    obtain ⟨path, rfl⟩ : ∃ path, u = 47 :: path := by
      rcases u with _ | ⟨b, path⟩
      · cases hpath
      · exact ⟨path, by rw [Option.some.inj hpath]⟩
    have hnone : host.findIdx? ([47].contains ·) = none := by
      rw [List.findIdx?_eq_none_iff]
      intro b hb
      rw [Bool.eq_false_iff]
      exact fun h => hhost (contains_slash.mp h ▸ hb)
    have hurl : urlOf (scheme ++ (host ++ 47 :: path)) = some (7 + host.length) := by
      have hwhole : (ascii "http://").take 7 = ascii "http://" := rfl
      unfold urlOf
      rw [hwhole, ← hlen, List.take_left, List.drop_left, hlen, List.findIdx?_append, hnone,
        if_pos hscheme]
      simp [List.findIdx?_cons]
    have hdrop : (scheme ++ (host ++ 47 :: path)).drop (7 + host.length) = 47 :: path := by
      rw [← hlen, ← List.drop_drop, List.drop_left, List.drop_left]
    refine ⟨?_, _, hurl, hdrop⟩
    unfold urlOk
    rw [hurl, Option.any_some, hdrop]
    rfl

theorem exists_urlOf (h : urlOk T = true) : ∃ u, UrlOf T u := by
  unfold urlOk at h
  cases hurl : urlOf T with
  | none =>
    rw [hurl] at h
    cases h
  | some k =>
    rw [hurl, Option.any_some] at h
    have hslash := of_decide_eq_true h
    unfold urlOf at hurl
    split_ifs at hurl with hhttp
    · obtain ⟨j, hj, rfl⟩ := Option.map_eq_some_iff.mp hurl
      obtain ⟨hlt, hb, hbefore⟩ := List.findIdx?_eq_some_iff_getElem.mp hj
      have hsplit : T = T.take 7 ++ ((T.drop 7).take j ++ (T.drop 7).drop j) := by
        rw [List.take_append_drop, List.take_append_drop]
      rw [hsplit]
      refine ⟨_, .absolute hhttp ?_ ?_⟩
      · intro hmem
        obtain ⟨i, hi, heq⟩ := List.getElem_of_mem hmem
        rw [List.length_take] at hi
        rw [List.getElem_take] at heq
        exact hbefore i (by omega) (contains_slash.mpr heq)
      · rw [List.head?_drop, List.getElem?_eq_getElem hlt, contains_slash.mp hb]
    · obtain rfl := Option.some.inj hurl
      rcases T with _ | ⟨b, T⟩
      · exact absurd hslash (by decide)
      · exact ⟨_, .path (congrArg some hslash)⟩

/-! ### The parser -/

/-- **A line of the grammar**: the place of the target, and what is done with the line. -/
theorem requestEffect_of_grammar (hline : IsRequestLine line M S₁ T S₂ V) (p : ℕ) :
    requestEffect p line =
      Effect.andThen ⟨fun _ => .NO_REQUEST, fun h => { h with method := .GET }, [p + M.length]⟩
        ((cutVersion (p + (M.length + S₁.length)) (T ++ (S₂ ++ V)) T.length).andThen
          (checkUrlEffect (p + (M.length + S₁.length)) T)) := by
  have hM : ∀ b ∈ M, b ∉ blanks := fun b hb => notMem_blanks hline.method (by decide) (by decide) hb
  have hV : Solid V := by
    intro b hb
    exact notMem_blanks hline.version (by decide) (by decide) (List.mem_of_mem_head? hb)
  have hT : Solid (T ++ (S₂ ++ V)) := by
    obtain ⟨b, T', hcons⟩ := List.exists_cons_of_ne_nil hline.target.1
    intro c hc
    rw [hcons] at hc
    obtain rfl := Option.some.inj hc
    exact hline.target.2 _ (hcons ▸ List.mem_cons_self)
  obtain ⟨hat, hdrop⟩ := targetAt_append (M := M) hline.gap₁ hT
  obtain ⟨hat', hdrop'⟩ := targetAt_append (M := T) hline.gap₂ hV
  have hversion : versionOf (T ++ (S₂ ++ V)) T.length = V := by
    unfold versionOf
    rw [List.drop_drop]
    exact hdrop'
  have htarget : targetEffect (p + (M.length + S₁.length)) (T ++ (S₂ ++ V)) =
      (cutVersion (p + (M.length + S₁.length)) (T ++ (S₂ ++ V)) T.length).andThen
        (checkUrlEffect (p + (M.length + S₁.length)) T) := by
    unfold targetEffect
    rw [findIdx?_blank hline.target.2 hline.gap₂]
    dsimp only
    rw [hversion, if_pos hline.version, List.take_left]
  rw [hline.eq]
  unfold requestEffect
  rw [findIdx?_blank hM hline.gap₁]
  dsimp only
  rw [List.take_left, if_pos hline.method, hat, ← htarget]
  congr 2
  rw [← hat, hdrop]

theorem parses_of_accepted (hcode : (requestEffect p line).code h = .NO_REQUEST) :
    ∃ u, Parses line u := by
  unfold requestEffect at hcode
  cases hk : line.findIdx? (blanks.contains ·) with
  | none =>
    rw [hk] at hcode
    cases hcode
  | some k =>
    rw [hk] at hcode
    dsimp only at hcode
    split_ifs at hcode with hget
    -- the method is accepted
    have hcode : (targetEffect _ _).code _ = .NO_REQUEST := hcode
    obtain ⟨S₁, hgap₁, -, hline⟩ := cut_blank hk
    unfold targetEffect at hcode
    cases hj : (line.drop (targetAt line k)).findIdx? (blanks.contains ·) with
    | none =>
      rw [hj] at hcode
      cases hcode
    | some j =>
      rw [hj] at hcode
      dsimp only at hcode
      split_ifs at hcode with hversion
      · -- so is the version
        obtain ⟨S₂, hgap₂, htarget, hrest⟩ := cut_blank hj
        have hversionOf : versionOf (line.drop (targetAt line k)) j =
            (line.drop (targetAt line k)).drop (targetAt (line.drop (targetAt line k)) j) :=
          List.drop_drop
        have hok : urlOk ((line.drop (targetAt line k)).take j) = true := by
          by_contra hno
          have hbad : HTTP_CODE.BAD_REQUEST = .NO_REQUEST := (if_neg hno).symm.trans hcode
          cases hbad
        obtain ⟨u, hu⟩ := exists_urlOf hok
        refine ⟨u, _, _, _, _, _, ⟨?_, hget, hgap₁, ⟨?_, htarget⟩, hgap₂, hversion⟩, hu⟩
        · rw [hversionOf, ← hrest]
          exact hline
        · rintro hnil
          rw [hnil] at hok
          exact absurd hok (by decide)
      · cases hcode

theorem url_of_grammar (hat : At s.readBuf p line) (hline : IsRequestLine line M S₁ T S₂ V)
    (hu : UrlOf T u) :
    ((requestEffect p line).apply s).2.url =
        some (p + (M.length + S₁.length + (T.length - u.length))) ∧
      At ((requestEffect p line).apply s).2.readBuf
        (p + (M.length + S₁.length + (T.length - u.length))) u := by
  obtain ⟨-, k, hk, hdrop⟩ := urlOk_of_urlOf hu
  have hplace : p + (M.length + S₁.length) + k =
      p + (M.length + S₁.length + (T.length - u.length)) := by
    have hle := urlOf_le hk
    rw [← hdrop, List.length_drop]
    omega
  have hbuf : At (clear [p + M.length, p + (M.length + S₁.length) + T.length] s.readBuf)
      (p + (M.length + S₁.length)) T := by
    have hdropped : line.drop (M.length + S₁.length) = T ++ (S₂ ++ V) := by
      rw [hline.eq, ← List.drop_drop, List.drop_left, List.drop_left]
    have hpos : M.length < M.length + S₁.length := by
      have := List.length_pos_iff.mpr hline.gap₁.1
      omega
    have hle : M.length + S₁.length ≤ line.length := by
      rw [hline.eq, List.length_append, List.length_append]
      omega
    have hrest := (hat.drop hle).update_of_lt (k := p + M.length) (b := NUL) (by omega)
    rw [hdropped] at hrest
    have htake := hrest.take (k := T.length) (by simp)
    rwa [List.take_left] at htake
  have hurl := hbuf.drop (urlOf_le hk)
  rw [hdrop] at hurl
  rw [requestEffect_of_grammar hline, ← hplace]
  refine ⟨?_, hurl⟩
  show (urlOf T).map _ = _
  rw [hk]
  rfl

theorem url_in_line (hline : IsRequestLine line M S₁ T S₂ V) (hu : UrlOf T u) :
    M.length + S₁.length + (T.length - u.length) + u.length ≤ line.length := by
  have hsize := congrArg List.length hline.eq
  have hle : u.length ≤ T.length := by
    obtain ⟨-, k, -, hdrop⟩ := urlOk_of_urlOf hu
    rw [← hdrop, List.length_drop]
    omega
  simp only [List.length_append] at hsize
  omega

/-- **The grammar of the request line.**  A line is accepted if and only if it is `M S₁ T S₂ V` as
the grammar has it, and then the url is the one of `T`; any other line gives `BAD_REQUEST` and leaves
the state as it was.  No byte but those of the line and its end is read or written. -/
theorem parseRequestLine_grammar (hat : At s.readBuf p line) :
    ∃ code t, Window.parseRequestLine ⟨p, p + line.length + 1⟩ p s = .ok (code, t) ∧
      parseRequestLine p s = .ok (code, t) ∧
      (code = .NO_REQUEST ∧ t.checkState = .CHECK_STATE_HEADER ↔ ∃ u, Parses line u) ∧
      (∀ u, Parses line u → ∃ q, t.url = some q ∧ At t.readBuf q u) ∧
      ((∀ u, ¬Parses line u) → code = .BAD_REQUEST ∧ t.checkState = s.checkState) := by
  refine ⟨_, _, parseRequestLine_eq (holds_self p line) hat, ?_, ?_, ?_, ?_⟩
  · rw [← parseRequestLine_whole]
    exact parseRequestLine_eq (holds_whole hat) hat
  · constructor
    · exact fun h => parses_of_accepted h.1
    · rintro ⟨u, M, S₁, T, S₂, V, hline, hu⟩
      have hok := (urlOk_of_urlOf hu).1
      rw [requestEffect_of_grammar hline]
      exact ⟨if_pos hok, if_pos hok⟩
  · rintro u ⟨M, S₁, T, S₂, V, hline, hu⟩
    exact ⟨_, url_of_grammar hat hline hu⟩
  · intro hno
    rcases (requestEffect_requests p line).code s.toHead with hbad | ⟨hcode, -⟩
    · exact hbad
    · obtain ⟨u, hu⟩ := parses_of_accepted hcode
      exact absurd hu (hno u)

/-- An absolute url, between blanks of both kinds. -/
theorem parseRequestLine_absolute : ∃ code t,
    Window.parseRequestLine ⟨0, 30⟩ 0 (read (ascii "get \tHTTP://h/a/b \t  http/1.1") init) =
      .ok (code, t) ∧
    parseRequestLine 0 (read (ascii "get \tHTTP://h/a/b \t  http/1.1") init) = .ok (code, t) ∧
    (code = .NO_REQUEST ∧ t.checkState = .CHECK_STATE_HEADER ↔
      ∃ u, Parses (ascii "get \tHTTP://h/a/b \t  http/1.1") u) ∧
    (∀ u, Parses (ascii "get \tHTTP://h/a/b \t  http/1.1") u →
      ∃ q, t.url = some q ∧ At t.readBuf q u) ∧
    ((∀ u, ¬Parses (ascii "get \tHTTP://h/a/b \t  http/1.1") u) →
      code = .BAD_REQUEST ∧ t.checkState = .CHECK_STATE_REQUESTLINE) :=
  parseRequestLine_grammar (p := 0) (s := read (ascii "get \tHTTP://h/a/b \t  http/1.1") init)
    (cstring_eq_ok.mp rfl)

end ReactorServer.Conn.RequestLine
