import ReactorServer.Http.Parsing
import ReactorServer.Http.Server

/-!
# What a request is answered

The response to a request depends on its version, its path and whether the connection is closed
after it (`respond_eq`), and on nothing less: two heads that are answered alike whatever files there
are agree in the three (`alike_of_respond`).
-/

namespace ReactorServer.Http.Answer

open ReactorServer.Cpp ReactorServer.Lib.Lines
open ReactorServer.Http.Request ReactorServer.Http.Response ReactorServer.Http.Parsing
open ReactorServer.Http.Server

variable {host : Host} {q r : Head}

/-! ### The response -/

/-- The value of the `Connection` header. -/
def connection (q : Head) : Option Bytes := q.request.headers[ascii "Connection"]?

/-- The server closes the connection after its response to the request. -/
def closesAfter (q : Head) : Bool := closes ((connection q).getD []) q.version

/-- The response to the request. -/
def respond (host : Host) (q : Head) : Bytes :=
  (defaultHttpCB host q.request (.new (closesAfter q))).toString

/-- Code, message and body of the response to a request for the path. -/
def page (host : Host) (path : Bytes) : Bytes × Bytes × Bytes :=
  match host.stat (cstr (ascii "/root" ++ path)) with
  | none => (ascii "400", error_404_title, error_404_form)
  | some file =>
    if ¬file.othersMayRead then (ascii "403", error_403_title, error_403_form)
    else if file.directory then (ascii "400", error_400_title, error_400_form)
    else (ascii "200", ok_200_title, file.content)

/-- The headers of every response. -/
def serverHeaders (contentType : Bytes) : Headers :=
  ((∅ : Headers).insert (ascii "Server") (ascii "47.96.106.37:9000")).insert
    (ascii "Content-Type") contentType

/-- The response depends on the version, the path and whether the connection is closed. -/
theorem defaultHttpCB_eq {req : HttpRequest} (h : req.requestCode = .GET_REQUEST) (close : Bool) :
    defaultHttpCB host req (.new close) =
      ⟨req.version, (page host req.path).1, (page host req.path).2.1, (page host req.path).2.2,
        serverHeaders (contentType req.path), close⟩ := by
  unfold defaultHttpCB page
  rw [if_neg (not_not.mpr h)]
  dsimp only
  cases host.stat (cstr (ascii "/root" ++ req.path)) with
  | none => rfl
  | some file =>
    dsimp only
    split_ifs <;> rfl

theorem respond_eq (host : Host) (q : Head) : respond host q =
    HttpResponse.toString ⟨q.version, (page host q.request.path).1, (page host q.request.path).2.1,
      (page host q.request.path).2.2, serverHeaders (contentType q.request.path), closesAfter q⟩ := by
  unfold respond
  rw [defaultHttpCB_eq rfl]
  rfl

/-- The two are answered alike: the method does not matter, nor do other headers. -/
def Alike (q r : Head) : Prop :=
  q.request.path = r.request.path ∧ q.version = r.version ∧ closesAfter q = closesAfter r

theorem respond_congr (h : Alike q r) (host : Host) : respond host q = respond host r := by
  obtain ⟨h1, h2, h3⟩ := h
  rw [respond_eq, respond_eq, h1, h2, h3]

/-! ### Responses that differ -/

/-- No file has any content. -/
def Tiny (host : Host) : Prop := ∀ path file, host.stat path = some file → file.content = []

/-- No files. -/
def nowhere : Host := ⟨fun _ => none, 0⟩

/-- One file. -/
def only (path : Bytes) : Host := ⟨fun p => if p = path then some ⟨true, false, []⟩ else none, 0⟩

theorem tiny_nowhere : Tiny nowhere := nofun

theorem tiny_only (path : Bytes) : Tiny (only path) := by
  intro p file h
  have h' : (if p = path then some (⟨true, false, []⟩ : File) else none) = some file := h
  split_ifs at h'
  rw [← Option.some.inj h']

/-- The response behind its version. -/
def tail (host : Host) (q : Head) : Bytes :=
  HttpResponse.toString ⟨[], (page host q.request.path).1, (page host q.request.path).2.1,
    (page host q.request.path).2.2, serverHeaders (contentType q.request.path), closesAfter q⟩

theorem respond_tail (host : Host) (q : Head) : respond host q = q.version ++ tail host q := by
  rw [respond_eq]
  simp [tail, HttpResponse.toString, HttpResponse.statusLine, HttpResponse.connectionLines,
    HttpResponse.getBodySize]

theorem respond_inj (hq : q.version.length = 8) (hr : r.version.length = 8)
    (h : respond host q = respond host r) : q.version = r.version ∧ tail host q = tail host r := by
  rw [respond_tail, respond_tail] at h
  exact List.append_inj h (hq.trans hr.symm)

/-- The response says whether the connection is closed. -/
theorem closesAfter_of_tail (h : tail nowhere q = tail nowhere r) :
    closesAfter q = closesAfter r := by
  have hpage : ∀ path, page nowhere path = (ascii "400", error_404_title, error_404_form) :=
    fun _ => rfl
  have hget : ∀ q, (tail nowhere q)[19]? = some (if closesAfter q then 110 else 116) := by
    intro q
    unfold tail
    rw [hpage]
    cases closesAfter q <;> rfl
  have h19 := congrArg (·[19]?) h
  simp only [hget] at h19
  cases hq : closesAfter q <;> cases hr : closesAfter r <;> simp [hq, hr] at h19 ⊢

theorem cstr_of_noNUL {s : Bytes} (h : NUL ∉ s) : cstr s = s := by
  refine List.takeWhile_eq_self_iff.mpr fun b hb => ?_
  simp only [decide_eq_true_eq]
  rintro rfl
  exact h hb

/-- The response says whether there is a file. -/
theorem path_of_tail (hq : NUL ∉ q.request.path) (hr : NUL ∉ r.request.path)
    (h : tail (only (ascii "/root" ++ r.request.path)) q =
      tail (only (ascii "/root" ++ r.request.path)) r) : q.request.path = r.request.path := by
  have hroot : ∀ {path : Bytes}, NUL ∉ path → cstr (ascii "/root" ++ path) = ascii "/root" ++ path :=
    fun hp => cstr_of_noNUL (by
      rw [List.mem_append, not_or]
      exact ⟨by decide, hp⟩)
  by_contra hne
  have hpageq : page (only (ascii "/root" ++ r.request.path)) q.request.path =
      (ascii "400", error_404_title, error_404_form) := by
    unfold page only
    rw [hroot hq]
    simp only [List.append_cancel_left_eq, hne, if_false]
  have hpager : page (only (ascii "/root" ++ r.request.path)) r.request.path =
      (ascii "200", ok_200_title, []) := by
    unfold page only
    rw [hroot hr]
    simp
  have hdigit : ∀ (m b : Bytes) (hs : Headers) (close : Bool),
      (HttpResponse.toString ⟨[], ascii "400", m, b, hs, close⟩)[1]? = some 52 ∧
        (HttpResponse.toString ⟨[], ascii "200", m, b, hs, close⟩)[1]? = some 50 :=
    fun _ _ _ _ => ⟨rfl, rfl⟩
  have h1 := congrArg (·[1]?) h
  unfold tail at h1
  rw [hpageq, hpager] at h1
  have h2 : (some 52 : Option UInt8) = some 50 :=
    ((hdigit _ _ _ _).1.symm.trans h1).trans (hdigit _ _ _ _).2
  exact absurd h2 (by decide)

/-- **Heads that are answered alike whatever files there are** have version, path and fate of the
connection in common. -/
theorem alike_of_respond (hq : q.version.length = 8) (hr : r.version.length = 8)
    (hq' : NUL ∉ q.request.path) (hr' : NUL ∉ r.request.path)
    (h : ∀ host, Tiny host → respond host q = respond host r) : Alike q r := by
  obtain ⟨h1, h2⟩ := respond_inj hq hr (h nowhere tiny_nowhere)
  obtain ⟨-, h3⟩ := respond_inj hq hr (h _ (tiny_only (ascii "/root" ++ r.request.path)))
  exact ⟨path_of_tail hq' hr' h3, h1, closesAfter_of_tail h2⟩

/-! ### Responses that fit -/

/-- The pages of a host without content. -/
def pages : List (Bytes × Bytes × Bytes) :=
  [(ascii "400", error_404_title, error_404_form), (ascii "403", error_403_title, error_403_form),
    (ascii "400", error_400_title, error_400_form), (ascii "200", ok_200_title, [])]

def contentTypes : List Bytes :=
  [ascii "image/jpeg charset=utf-8", ascii "application/pdf", ascii "text/html charset=utf-8"]

theorem page_mem (h : Tiny host) (path : Bytes) : page host path ∈ pages := by
  unfold page
  cases hf : host.stat (cstr (ascii "/root" ++ path)) with
  | none => simp [pages]
  | some file =>
    dsimp only
    rw [h _ _ hf]
    split_ifs <;> simp [pages]

theorem contentType_mem (path : Bytes) : contentType path ∈ contentTypes := by
  unfold contentType
  split_ifs <;> simp [contentTypes]

/-- Without content a response is short. -/
theorem length_tail (h : Tiny host) (q : Head) : (tail host q).length ≤ 1000 := by
  have hall : ∀ p ∈ pages, ∀ ct ∈ contentTypes, ∀ close : Bool,
      (HttpResponse.toString ⟨[], p.1, p.2.1, p.2.2, serverHeaders ct, close⟩).length ≤ 1000 := by
    decide +kernel
  exact hall _ (page_mem h _) _ (contentType_mem _) _

theorem length_respond (h : Tiny host) (hq : q.version.length = 8) :
    ((respond host q).length : ℤ) ≤ INT_MAX := by
  have := length_tail h q
  rw [respond_tail, List.length_append, hq]
  unfold INT_MAX
  omega

end ReactorServer.Http.Answer
