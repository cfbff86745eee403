import ReactorServer.Http.Response
import ReactorServer.Lib.Lines

/-!
# The text of a response

`HttpResponse.toString` writes a status line, the lines about the connection, the header map, an
empty line and the body.  `Framed r` says that nothing in the response can be taken for a line end,
or for the end of a header name; then the text is a block of solid lines (`toString_eq`), its first
empty line ends the head, and everything is read off it (`framing`).
-/

namespace ReactorServer.Http.Framing

open ReactorServer.Cpp ReactorServer.Lib.Lines
open ReactorServer.Http.Request ReactorServer.Http.Response
open ReactorServer.Http.Response.HttpResponse

variable {r r' : HttpResponse}

/-! ### Decimal numbers -/

/-- The value of a row of decimal digits. -/
def decimal (ds : Bytes) : ℕ := ds.foldl (fun n b => 10 * n + (b.toNat - 48)) 0

def isDigit (b : UInt8) : Bool := 48 ≤ b && b ≤ 57

theorem toNat_of_isDigit {c : Char} (h : c.isDigit = true) :
    48 ≤ c.toNat ∧ c.toNat ≤ 57 ∧ (UInt8.ofNat c.toNat).toNat = c.toNat := by
  have h' : 48 ≤ c.toNat ∧ c.toNat ≤ 57 := by
    simpa [Char.isDigit, UInt32.le_iff_toNat_le] using h
  refine ⟨h'.1, h'.2, ?_⟩
  rw [UInt8.toNat_ofNat']
  omega

theorem decimal_map {cs : List Char} (h : ∀ c ∈ cs, c.isDigit = true) (n : ℕ) :
    (cs.map fun c => UInt8.ofNat c.toNat).foldl (fun n b => 10 * n + (b.toNat - 48)) n =
      Nat.ofDigitChars 10 cs n := by
  induction cs generalizing n with
  | nil => rfl
  | cons c cs ih =>
    rw [Nat.ofDigitChars_cons, List.map_cons, List.foldl_cons,
      ih fun c' hc' => h c' (List.mem_cons_of_mem _ hc'),
      (toNat_of_isDigit (h c List.mem_cons_self)).2.2]
    rfl

theorem toList_toString (n : ℕ) : (ToString.toString n).toList = Nat.toDigits 10 n := by
  show (Nat.repr n).toList = _
  simp [Nat.repr]

/-- Printing a number and reading it. -/
theorem decimal_toString (n : ℕ) : decimal (ascii (ToString.toString n)) = n := by
  unfold decimal ascii
  rw [toList_toString, decimal_map fun c hc => Nat.isDigit_of_mem_toDigits (by decide) (by decide) hc]
  exact Nat.ofDigitChars_ten_toDigits

theorem isDigit_toString (n : ℕ) : ∀ b ∈ ascii (ToString.toString n), isDigit b = true := by
  intro b hb
  unfold ascii at hb
  rw [toList_toString] at hb
  obtain ⟨c, hc, rfl⟩ := List.mem_map.mp hb
  obtain ⟨h1, h2, h3⟩ :=
    toNat_of_isDigit (Nat.isDigit_of_mem_toDigits (by decide) (by decide) hc)
  simp only [isDigit, UInt8.le_iff_toNat_le, Bool.and_eq_true, decide_eq_true_eq, h3]
  exact ⟨h1, h2⟩

/-! ### Lines -/

/-- The status line. -/
def status (r : HttpResponse) : Bytes :=
  r.version ++ ascii " " ++ r.responseCode ++ ascii " " ++ r.responseMsg

/-- The lines between the status line and the headers of the map. -/
def fixedLines (r : HttpResponse) : List Bytes :=
  if r.closeConnection then [ascii "Connection: close"]
  else [ascii "Content-Length: " ++ ascii (ToString.toString r.getBodySize),
    ascii "Connection: Keep-Alive"]

/-- The line of one header. -/
def mapLine (h : Bytes × Bytes) : Bytes := h.1 ++ ascii ": " ++ h.2

/-- The lines of the head. -/
def lines (r : HttpResponse) : List Bytes :=
  status r :: (fixedLines r ++ r.headers.toList.map mapLine)

/-- The head, with the empty line that ends it. -/
def head (r : HttpResponse) : Bytes := block CR LF (lines r) ++ CRLF

theorem toString_eq (r : HttpResponse) :
    r.toString = block CR LF (lines r) ++ CR :: LF :: r.body := by
  have hmap : r.headers.toList.flatMap headerLine =
      block CR LF (r.headers.toList.map mapLine) := by
    unfold block
    rw [List.flatMap_map]
    rfl
  have hfixed : r.connectionLines = block CR LF (fixedLines r) := by
    unfold connectionLines fixedLines block
    split_ifs <;> simp [CRLF]
  unfold HttpResponse.toString lines
  rw [hmap, hfixed, block_cons, block_append]
  simp [statusLine, status, CRLF]

/-- No line end anywhere, and no colon in a header name. -/
structure Framed (r : HttpResponse) : Prop where
  version : Clean CR LF r.version
  code : Clean CR LF r.responseCode
  message : Clean CR LF r.responseMsg
  headers : ∀ h ∈ r.headers.toList, Clean CR LF h.1 ∧ COLON ∉ h.1 ∧ Clean CR LF h.2

theorem Framed.solid (h : Framed r) : Solid CR LF (lines r) := by
  have hspace : Clean CR LF (ascii " ") := by unfold Clean; decide
  have hcolon : Clean CR LF (ascii ": ") := by unfold Clean; decide
  intro l hl
  rcases List.mem_cons.mp hl with rfl | hl
  · refine ⟨fun h0 => ?_, ?_⟩
    · have := congrArg List.length h0
      simp [status, ascii] at this
    · simp only [status, clean_append]
      exact ⟨⟨⟨⟨h.version, hspace⟩, h.code⟩, hspace⟩, h.message⟩
  rcases List.mem_append.mp hl with hl | hl
  · unfold fixedLines at hl
    split_ifs at hl with hc
    · obtain rfl := List.mem_singleton.mp hl
      exact ⟨by decide, by unfold Clean; decide⟩
    · rcases List.mem_cons.mp hl with rfl | hl
      · have hdigit : ∀ b, isDigit b = true → b ≠ CR ∧ b ≠ LF := by
          intro b hb
          constructor
          · rintro rfl; exact absurd hb (by decide)
          · rintro rfl; exact absurd hb (by decide)
        refine ⟨fun h0 => ?_, ?_⟩
        · have := congrArg List.length h0
          simp [ascii] at this
        · rw [clean_append]
          exact ⟨by unfold Clean; decide,
            fun hm => (hdigit _ (isDigit_toString _ _ hm)).1 rfl,
            fun hm => (hdigit _ (isDigit_toString _ _ hm)).2 rfl⟩
      · obtain rfl := List.mem_singleton.mp hl
        exact ⟨by decide, by unfold Clean; decide⟩
  · obtain ⟨kv, hkv, rfl⟩ := List.mem_map.mp hl
    obtain ⟨h1, -, h2⟩ := h.headers kv hkv
    refine ⟨fun h0 => ?_, ?_⟩
    · have := congrArg List.length h0
      simp [mapLine, ascii] at this
    · simp only [mapLine, clean_append]
      exact ⟨⟨h1, hcolon⟩, h2⟩

/-! ### Reading it back -/

/-- Name and value are read off the line. -/
theorem mapLine_inj {k v k' v' : Bytes} (hk : COLON ∉ k) (hk' : COLON ∉ k')
    (h : mapLine (k, v) = mapLine (k', v')) : (k, v) = (k', v') := by
  have hline : ∀ k v : Bytes, mapLine (k, v) = k ++ COLON :: (SP :: v) := by
    intro k v
    show k ++ [58, 32] ++ v = _
    simp [COLON, SP]
  rw [hline, hline] at h
  have hlen : k.length = k'.length := by
    have := congrArg (List.idxOf COLON) h
    rwa [List.idxOf_append_of_notMem hk, List.idxOf_append_of_notMem hk', List.idxOf_cons_self,
      List.idxOf_cons_self, Nat.add_zero, Nat.add_zero] at this
  obtain ⟨rfl, hv⟩ := List.append_inj h hlen
  obtain rfl := (List.cons.inj (List.cons.inj hv).2).2
  rfl

theorem map_mapLine_inj {hs hs' : List (Bytes × Bytes)} (h : ∀ kv ∈ hs, COLON ∉ kv.1)
    (h' : ∀ kv ∈ hs', COLON ∉ kv.1) (heq : hs.map mapLine = hs'.map mapLine) : hs = hs' := by
  induction hs generalizing hs' with
  | nil => exact (List.map_eq_nil_iff.mp heq.symm).symm
  | cons kv hs ih =>
    rcases hs' with _ | ⟨kv', hs'⟩
    · cases heq
    · obtain ⟨h1, h2⟩ := List.cons.inj heq
      have hkv := mapLine_inj (h kv List.mem_cons_self) (h' kv' List.mem_cons_self) h1
      rw [show kv = kv' from hkv, ih (fun x hx => h x (List.mem_cons_of_mem _ hx))
        (fun x hx => h' x (List.mem_cons_of_mem _ hx)) h2]

/-- The second line says whether the connection is closed. -/
theorem fixedLines_inj {ls ls' : List Bytes}
    (h : fixedLines r ++ ls = fixedLines r' ++ ls') :
    r.closeConnection = r'.closeConnection ∧ ls = ls' := by
  have hne : ∀ n : ℕ, ascii "Connection: close" ≠
      ascii "Content-Length: " ++ ascii (ToString.toString n) := by
    intro n h0
    have h3 : (ascii "Connection: close")[3]? =
        (ascii "Content-Length: " ++ ascii (ToString.toString n))[3]? := by rw [h0]
    rw [List.getElem?_append_left (by decide)] at h3
    exact absurd h3 (by decide)
  unfold fixedLines at h
  split_ifs at h with h1 h2 h2
  · exact ⟨h1.trans h2.symm, (List.cons.inj h).2⟩
  · exact absurd (List.cons.inj h).1 (hne _)
  · exact absurd (List.cons.inj h).1.symm (hne _)
  · have h1' : r.closeConnection = false := by simpa using h1
    have h2' : r'.closeConnection = false := by simpa using h2
    exact ⟨h1'.trans h2'.symm, (List.cons.inj (List.cons.inj h).2).2⟩

/-- **Response framing.**  The first empty line is the end of the head and what follows is the body;
between status line and header map there is the length of the body, unless the connection is
closed; and status line, fate of the connection, header map and body are read off the text. -/
theorem framing (r : HttpResponse) (h : Framed r) :
    (∃ pre, head r = pre ++ CRLF ++ CRLF ∧ r.toString = head r ++ r.body ∧
      ∀ pre' post, r.toString = pre' ++ CRLF ++ CRLF ++ post → pre.length ≤ pre'.length) ∧
    (∃ fixed, head r = block CR LF (status r :: (fixed ++ r.headers.toList.map mapLine)) ++ CRLF ∧
      (r.closeConnection = false → ∃ ds,
        fixed.filter (ascii "Content-Length: ").isPrefixOf = [ascii "Content-Length: " ++ ds] ∧
        ds ≠ [] ∧ (∀ b ∈ ds, isDigit b = true) ∧ decimal ds = r.body.length)) ∧
    ∀ r', Framed r' → r.toString = r'.toString → status r = status r' ∧
      r.closeConnection = r'.closeConnection ∧ r.headers = r'.headers ∧ r.body = r'.body := by
  have hhead : r.toString = head r ++ r.body := by
    rw [toString_eq, head, List.append_assoc]
    rfl
  have hlines : lines r ≠ [] := List.cons_ne_nil _ _
  obtain ⟨pre, hpre, hfirst⟩ := first_emptyLine (show CR ≠ LF by decide) hlines h.solid
  refine ⟨⟨pre, by rw [head, hpre]; rfl, hhead, fun pre' post heq => ?_⟩,
    ⟨fixedLines r, rfl, fun hc => ?_⟩, fun r' h' heq => ?_⟩
  · refine hfirst r.body pre' post ?_
    rw [← toString_eq, heq, List.append_assoc, List.append_assoc]
    rfl
  · refine ⟨ascii (ToString.toString r.body.length), ?_, fun h0 => ?_, isDigit_toString _,
      decimal_toString _⟩
    · have hlen : (ascii "Content-Length: ").isPrefixOf
          (ascii "Content-Length: " ++ ascii (ToString.toString r.getBodySize)) = true :=
        List.isPrefixOf_iff_prefix.mpr (List.prefix_append _ _)
      unfold fixedLines
      rw [hc, if_neg Bool.false_ne_true, List.filter_cons_of_pos hlen]
      rfl
    · have hpos := Nat.length_toDigits_pos (b := 10) (n := r.body.length)
      rw [← toList_toString] at hpos
      have := congrArg List.length h0
      simp only [ascii, List.length_map, List.length_nil] at this
      omega
  · rw [toString_eq, toString_eq] at heq
    obtain ⟨hlines, hbody⟩ := block_inj h.solid h'.solid heq
    obtain ⟨hstatus, hrest⟩ := List.cons.inj hlines
    obtain ⟨hclose, hmap⟩ := fixedLines_inj hrest
    have hpairs := map_mapLine_inj (fun kv hkv => (h.headers kv hkv).2.1)
      (fun kv hkv => (h'.headers kv hkv).2.1) hmap
    exact ⟨hstatus, hclose, Std.ExtTreeMap.toList_inj.mp hpairs, hbody⟩

/-- A page whose body looks like the end of a head. -/
def page : HttpResponse :=
  ⟨ascii "HTTP/1.1", ascii "200", ok_200_title, CRLF ++ CRLF,
    (∅ : Headers).insert (ascii "Server") (ascii "47.96.106.37:9000"), false⟩

theorem framing_page :
    (∃ pre, head page = pre ++ CRLF ++ CRLF ∧ page.toString = head page ++ page.body ∧
      ∀ pre' post, page.toString = pre' ++ CRLF ++ CRLF ++ post → pre.length ≤ pre'.length) ∧
    ∃ fixed, head page =
        block CR LF (status page :: (fixed ++ page.headers.toList.map mapLine)) ++ CRLF ∧
      (page.closeConnection = false → ∃ ds,
        fixed.filter (ascii "Content-Length: ").isPrefixOf = [ascii "Content-Length: " ++ ds] ∧
        ds ≠ [] ∧ (∀ b ∈ ds, isDigit b = true) ∧ decimal ds = page.body.length) := by
  have h : Framed page :=
    { version := by unfold Clean; decide
      code := by unfold Clean; decide
      message := by unfold Clean; decide
      headers := by
        intro kv hkv
        obtain rfl : kv = (ascii "Server", ascii "47.96.106.37:9000") := List.mem_singleton.mp hkv
        exact ⟨by unfold Clean; decide, by decide, by unfold Clean; decide⟩ }
  exact ⟨(framing page h).1, (framing page h).2.1⟩

end ReactorServer.Http.Framing
