import ReactorServer.Http.Framing
import ReactorServer.Lib.Frames

/-!
# Reading responses back

What a client reads from a connection on which several responses come one after another: the head up
to its first empty line, then as many bytes as its `Content-Length` says.  A response without one
ends with the connection, and a client has to wait for that.  At any time the client has read the
first of the responses, and nothing else (`replies_read`).
-/

namespace ReactorServer.Http.Replies

open ReactorServer.Cpp ReactorServer.Lib ReactorServer.Lib.Lines ReactorServer.Lib.Frames
open ReactorServer.Http.Request ReactorServer.Http.Response ReactorServer.Http.Framing

variable {r : HttpResponse} {rs : List HttpResponse} {u body : Bytes} {ls : List Bytes}

/-! ### The client -/

/-- A response as the client sees it. -/
structure Message where
  lines : List Bytes
  body : Bytes
  deriving DecidableEq

def lengthField : Bytes := ascii "Content-Length: "

/-- The value of the first `Content-Length` behind the status line. -/
def contentLength (ls : List Bytes) : Option ℕ :=
  (ls.tail.find? lengthField.isPrefixOf).map fun l => decimal (l.drop lengthField.length)

/-- One response, when all of it has come. -/
def nextMessage (u : Bytes) : Option (Message × Bytes) :=
  match Frames.head CR LF u with
  | none => none
  | some (ls, v) =>
    match contentLength ls with
    | none => none
    | some n => if n ≤ v.length then some (⟨ls, v.take n⟩, v.drop n) else none

/-- The response as it is meant. -/
def message (r : HttpResponse) : Message := ⟨lines r, r.body⟩

/-- The text of responses, one after another. -/
def text (rs : List HttpResponse) : Bytes := (rs.map (·.toString)).flatten

/-- The response says how long it is. -/
structure KeptAlive (r : HttpResponse) : Prop where
  framed : Framed r
  keepAlive : r.closeConnection = false

/-- The response ends with the connection. -/
structure Last (r : HttpResponse) : Prop where
  framed : Framed r
  close : r.closeConnection = true
  noLength : ∀ h ∈ r.headers.toList, lengthField.isPrefixOf (mapLine h) = false

/-! ### One response -/

theorem contentLength_keepAlive (h : r.closeConnection = false) :
    contentLength (lines r) = some r.body.length := by
  have hlen : lengthField.isPrefixOf (lengthField ++ ascii (ToString.toString r.getBodySize)) = true :=
    List.isPrefixOf_iff_prefix.mpr (List.prefix_append _ _)
  have hlines : (lines r).tail = (lengthField ++ ascii (ToString.toString r.getBodySize)) ::
      ascii "Connection: Keep-Alive" :: r.headers.toList.map mapLine := by
    show fixedLines r ++ _ = _
    unfold fixedLines
    rw [h, if_neg Bool.false_ne_true]
    rfl
  unfold contentLength
  rw [hlines, List.find?_cons_of_pos hlen, Option.map_some, List.drop_left, decimal_toString]
  rfl

theorem contentLength_last (h : Last r) : contentLength (lines r) = none := by
  have hclose : lengthField.isPrefixOf (ascii "Connection: close") = false := by decide
  have hlines : (lines r).tail = ascii "Connection: close" :: r.headers.toList.map mapLine := by
    show fixedLines r ++ _ = _
    unfold fixedLines
    rw [h.close, if_pos rfl]
    rfl
  have hnone : (lines r).tail.find? lengthField.isPrefixOf = none := by
    refine List.find?_eq_none.mpr fun l hl => ?_
    rw [hlines] at hl
    rcases List.mem_cons.mp hl with rfl | hl
    · rw [hclose]
      exact Bool.false_ne_true
    · obtain ⟨kv, hkv, rfl⟩ := List.mem_map.mp hl
      rw [h.noLength kv hkv]
      exact Bool.false_ne_true
  unfold contentLength
  rw [hnone]
  rfl

/-- A beginning of a response ends in its head or in its body. -/
theorem prefix_cases (h : u <+: block CR LF ls ++ CR :: LF :: body) :
    (∃ v, v ≠ [] ∧ u ++ v = block CR LF ls ++ [CR, LF]) ∨
      ∃ b, b <+: body ∧ u = block CR LF ls ++ CR :: LF :: b := by
  have hsplit : block CR LF ls ++ CR :: LF :: body = (block CR LF ls ++ [CR, LF]) ++ body := by
    rw [List.append_assoc]
    rfl
  rw [hsplit] at h
  rcases List.prefix_or_prefix_of_prefix h (List.prefix_append _ body) with hshort | ⟨b, rfl⟩
  · obtain ⟨v, hv⟩ := hshort
    by_cases hnil : v = []
    · refine Or.inr ⟨[], List.nil_prefix, ?_⟩
      rw [← hv, hnil, List.append_nil]
    · exact Or.inl ⟨v, hnil, hv⟩
  · refine Or.inr ⟨b, (List.prefix_append_right_inj _).mp h, ?_⟩
    rw [List.append_assoc]
    rfl

theorem nextMessage_head (h : Solid CR LF ls) (v : Bytes) :
    nextMessage (block CR LF ls ++ CR :: LF :: v) =
      match contentLength ls with
      | none => none
      | some n => if n ≤ v.length then some (⟨ls, v.take n⟩, v.drop n) else none := by
  unfold nextMessage
  rw [head_block h]

theorem nextMessage_short (h : Solid CR LF ls) {v : Bytes} (hv : v ≠ [])
    (hu : u ++ v = block CR LF ls ++ [CR, LF]) : nextMessage u = none := by
  unfold nextMessage
  rw [head_short h hv hu]

/-- **A response that says how long it is** is read when its last byte has come. -/
theorem reads_block (h : Solid CR LF ls) (hlen : contentLength ls = some body.length) :
    Reads nextMessage (block CR LF ls ++ CR :: LF :: body) ⟨ls, body⟩ where
  nonempty := by simp
  whole := by
    intro v
    rw [List.append_assoc]
    show nextMessage (block CR LF ls ++ CR :: LF :: (body ++ v)) = _
    rw [nextMessage_head h, hlen]
    simp
  short := by
    intro u v hv hne
    rcases prefix_cases ⟨v, hv⟩ with ⟨w, hw, hhead⟩ | ⟨b, hb, rfl⟩
    · exact nextMessage_short h hw hhead
    · have hshort : b.length < body.length := by
        have htotal := congrArg List.length hv
        simp only [List.length_append, List.length_cons] at htotal
        have := List.length_pos_iff.mpr hne
        omega
      rw [nextMessage_head h, hlen]
      exact if_neg (by omega)

theorem reads_keptAlive (h : KeptAlive r) : Reads nextMessage r.toString (message r) := by
  rw [toString_eq]
  exact reads_block h.framed.solid (contentLength_keepAlive h.keepAlive)

/-- The client waits for the end of the connection. -/
theorem nextMessage_last (h : Last r) (hu : u <+: r.toString) : nextMessage u = none := by
  rw [toString_eq] at hu
  rcases prefix_cases hu with ⟨v, hv, hhead⟩ | ⟨b, -, rfl⟩
  · exact nextMessage_short h.framed.solid hv hhead
  · rw [nextMessage_head h.framed.solid, contentLength_last h]

/-! ### A stream of them -/

/-- The text of the response that ends the connection, if there is one. -/
def ending (last : Option HttpResponse) : Bytes := (last.map (·.toString)).getD []

theorem nextMessage_ending {last : Option HttpResponse} (h : ∀ r ∈ last, Last r)
    (hu : u <+: ending last) : nextMessage u = none := by
  cases last with
  | none =>
    rw [List.prefix_nil.mp hu]
    rfl
  | some r => exact nextMessage_last (h r rfl) hu

theorem reads_all (h : ∀ r ∈ rs, KeptAlive r) :
    List.Forall₂ (Reads nextMessage) (rs.map (·.toString)) (rs.map message) := by
  induction rs with
  | nil => exact .nil
  | cons r rs ih =>
    exact .cons (reads_keptAlive (h r List.mem_cons_self))
      (ih fun r' hr' => h r' (List.mem_cons_of_mem _ hr'))

/-- **Responses are read back.**  Of responses that say how long they are, and perhaps a last one
that ends with the connection, the client has at any time read the first ones, each with its head and
its body, and what it still waits with is the rest of what has come; in the end it has read them all
and waits with the last one. -/
theorem replies_read {last : Option HttpResponse} (h : ∀ r ∈ rs, KeptAlive r)
    (hlast : ∀ r ∈ last, Last r) :
    readAll nextMessage (text rs ++ ending last) = (rs.map message, ending last) ∧
    ∀ u, u <+: text rs ++ ending last → ∃ k rest, k ≤ rs.length ∧ u = text (rs.take k) ++ rest ∧
      readAll nextMessage u = ((rs.take k).map message, rest) := by
  refine ⟨readAll_flatten (reads_all h) (nextMessage_ending hlast (List.prefix_refl _)), ?_⟩
  intro u hu
  obtain ⟨k, rest, hk, h1, h2⟩ := readAll_prefix (reads_all h)
    (fun v hv => nextMessage_ending hlast hv) hu
  rw [List.length_map] at hk
  rw [← List.map_take] at h1 h2
  exact ⟨k, rest, hk, h1, h2⟩

/-! ### Three responses on one connection -/

/-- A response without headers of its own. -/
def plain (close : Bool) (body : String) : HttpResponse :=
  ⟨ascii "HTTP/1.1", ascii "200", ok_200_title, ascii body, ∅, close⟩

theorem framed_plain (close : Bool) (body : String) : Framed (plain close body) where
  version := show Clean CR LF (ascii "HTTP/1.1") by unfold Clean; decide
  code := show Clean CR LF (ascii "200") by unfold Clean; decide
  message := show Clean CR LF ok_200_title by unfold Clean; decide
  headers := fun h hh => by cases hh

/-- Of the second response only the head and one byte have come, then all the rest. -/
theorem replies_read_three :
    readAll nextMessage (text [plain false "one", plain false "two"] ++
        ending (some (plain true "three"))) =
      ([plain false "one", plain false "two"].map message, (plain true "three").toString) ∧
    ∃ k rest, k ≤ 2 ∧
      text [plain false "one"] ++ (plain false "two").toString.take 60 =
        text ([plain false "one", plain false "two"].take k) ++ rest ∧
      readAll nextMessage (text [plain false "one"] ++ (plain false "two").toString.take 60) =
        (([plain false "one", plain false "two"].take k).map message, rest) := by
  have hkept : ∀ r ∈ [plain false "one", plain false "two"], KeptAlive r := by
    intro r hr
    rcases List.mem_cons.mp hr with rfl | hr
    · exact ⟨framed_plain _ _, rfl⟩
    · obtain rfl := List.mem_singleton.mp hr
      exact ⟨framed_plain _ _, rfl⟩
  have hlast : ∀ r ∈ some (plain true "three"), Last r := by
    rintro r ⟨⟩
    exact ⟨framed_plain _ _, rfl, fun h hh => by cases hh⟩
  obtain ⟨h1, h2⟩ := replies_read hkept hlast
  refine ⟨h1, h2 _ ?_⟩
  have htext : text [plain false "one", plain false "two"] =
      text [plain false "one"] ++ (plain false "two").toString := by
    simp [text]
  rw [htext, List.append_assoc, List.prefix_append_right_inj]
  exact (List.take_prefix _ _).trans (List.prefix_append _ _)

end ReactorServer.Http.Replies
