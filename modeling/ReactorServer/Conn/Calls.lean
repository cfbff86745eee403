import ReactorServer.Conn.Access

/-!
# What the calls of the parser do

`parseLine` is a scan of the buffer (`scanLine`) that ends a complete line with `NUL`s
(`parseLine_eq`).  The parsers of the lines read one string and nothing else: what they do depends
on this string and its place alone, they write `NUL`s into it, and the pointers they set point into
it (`parseRequestLine_effect`, `parseHeaders_effect`).
-/

namespace ReactorServer.Conn.Calls

open ReactorServer.Cpp ReactorServer.Lib.Runs ReactorServer.Conn.Strings ReactorServer.Conn.Parser
open ReactorServer.Conn.Access

variable {m m' : Buffer} {s t : HttpConn} {p n c i k : ℕ} {status : LINE_STATUS} {line : Bytes}
  {h : Head} {w : Window}

/-! ### Writing `NUL`s -/

/-- The buffer with these bytes set to `NUL`. -/
def clear : List ℕ → Buffer → Buffer
  | [], m => m
  | z :: zs, m => clear zs (Function.update m z NUL)

theorem clear_of_notMem {zs : List ℕ} (hi : i ∉ zs) : clear zs m i = m i := by
  induction zs generalizing m with
  | nil => rfl
  | cons z zs ih =>
    rw [List.mem_cons, not_or] at hi
    rw [clear, ih hi.2, Function.update_of_ne hi.1]

theorem clear_of_eq {zs : List ℕ} (h0 : m i = NUL) : clear zs m i = NUL := by
  induction zs generalizing m with
  | nil => exact h0
  | cons z zs ih =>
    refine ih ?_
    by_cases hz : i = z
    · rw [hz, Function.update_self]
    · rw [Function.update_of_ne hz, h0]

theorem clear_self (z : ℕ) (zs : List ℕ) (m : Buffer) : clear (z :: zs) m z = NUL := by
  rw [clear]
  exact clear_of_eq (Function.update_self _ _ _)

/-- A byte is left alone or becomes `NUL`. -/
theorem clear_eq_or (zs : List ℕ) (m : Buffer) (i : ℕ) : clear zs m i = m i ∨ clear zs m i = NUL := by
  induction zs generalizing m with
  | nil => exact Or.inl rfl
  | cons z zs ih =>
    by_cases hz : i = z
    · right
      rw [hz]
      exact clear_self _ _ _
    · have := ih (Function.update m z NUL)
      rwa [Function.update_of_ne hz] at this

theorem clear_append (zs zs' : List ℕ) (m : Buffer) :
    clear (zs ++ zs') m = clear zs' (clear zs m) := by
  induction zs generalizing m with
  | nil => rfl
  | cons z zs ih => exact ih _

theorem clearAt_of_lt (hi : i < READ_BUFFER_SIZE) :
    clearAt i s = .ok { s with readBuf := Function.update s.readBuf i NUL } := by
  unfold clearAt
  rw [writeAt_of_lt hi]
  rfl

/-! ### New bytes -/

theorem splice_of_lt {r : ℕ} {chunk : Bytes} (hi : i < r) : splice m r chunk i = m i :=
  if_neg (Nat.not_le.mpr hi)

theorem splice_of_le {r : ℕ} {chunk : Bytes} (hi : r + chunk.length ≤ i) :
    splice m r chunk i = m i := by
  unfold splice
  rw [if_pos (by omega), List.getD_eq_getElem?_getD, List.getElem?_eq_none (by omega)]
  rfl

theorem splice_add {r : ℕ} {chunk : Bytes} (hk : k < chunk.length) :
    splice m r chunk (r + k) = chunk[k] := by
  unfold splice
  rw [if_pos (by omega), List.getD_eq_getElem?_getD, show r + k - r = k from by omega,
    List.getElem?_eq_getElem hk]
  rfl

/-- The new bytes are behind the old ones. -/
theorem splice_getElem {r p : ℕ} {old chunk : Bytes} (hr : r = p + old.length)
    (hi : i < (old ++ chunk).length) (hm : ∀ h : i < old.length, m (p + i) = old[i]) :
    splice m r chunk (p + i) = (old ++ chunk)[i] := by
  rw [List.length_append] at hi
  by_cases hlt : i < old.length
  · rw [splice_of_lt (by omega), List.getElem_append_left hlt, hm hlt]
  · obtain ⟨j, rfl⟩ := Nat.exists_eq_add_of_le (Nat.le_of_not_lt hlt)
    rw [show p + (old.length + j) = r + j from by omega, splice_add (by omega),
      List.getElem_append_right (by omega)]
    simp

/-! ### The line scanner -/

/-- What `parseLine` finds in the `n` bytes from `c` on, and where it stops. -/
def scanLine (m : Buffer) : ℕ → ℕ → LINE_STATUS × ℕ
  | 0, c => (.LINE_OPEN, c)
  | n + 1, c =>
    if m c = CR then
      if n = 0 then (.LINE_OPEN, c)
      else if m (c + 1) = LF then (.LINE_OK, c)
      else (.LINE_BAD, c)
    else if m c = LF then (.LINE_BAD, c)
    else scanLine m n (c + 1)

/-- The connection when the scan has stopped there. -/
def stopAt (s : HttpConn) : LINE_STATUS × ℕ → HttpConn
  | (.LINE_OK, k) => { s with readBuf := clear [k, k + 1] s.readBuf, checkedIdx := k + 2 }
  | (_, k) => { s with checkedIdx := k }

/-- The scanner has not passed a `CR`. -/
def Behind (s : HttpConn) : Prop := ∀ i, i + 1 = s.checkedIdx → s.readBuf i ≠ CR

/-- **`parseLine` is the scan.**  That the byte before a `LF` is a `CR` never happens: the scanner
would have stopped there. -/
theorem parseLine_eq (hr : s.readIdx ≤ READ_BUFFER_SIZE) (hb : Behind s) :
    parseLine s =
      .ok ((scanLine s.readBuf (s.readIdx - s.checkedIdx) s.checkedIdx).1,
        stopAt s (scanLine s.readBuf (s.readIdx - s.checkedIdx) s.checkedIdx)) := by
  unfold parseLine
  generalize hn : s.readIdx - s.checkedIdx = n
  induction n generalizing s with
  | zero => rfl
  | succ n ih =>
    have hc : s.checkedIdx < READ_BUFFER_SIZE := by omega
    rw [parseLineLoop, readAt_of_lt hc, ok_bind, scanLine]
    by_cases hcr : s.readBuf s.checkedIdx = CR
    · rw [if_pos hcr, if_pos hcr]
      by_cases hlast : s.checkedIdx + 1 = s.readIdx
      · rw [if_pos hlast, if_pos (by omega)]
        rfl
      · have hc' : s.checkedIdx + 1 < READ_BUFFER_SIZE := by omega
        rw [if_neg hlast, if_neg (by omega), readAt_of_lt hc', ok_bind]
        by_cases hlf : s.readBuf (s.checkedIdx + 1) = LF
        · rw [if_pos hlf, if_pos hlf, clearAt_of_lt hc, ok_bind, clearAt_of_lt hc']
          rfl
        · rw [if_neg hlf, if_neg hlf]
          rfl
    · rw [if_neg hcr, if_neg hcr]
      by_cases hlf : s.readBuf s.checkedIdx = LF
      · rw [if_pos hlf, if_pos hlf]
        by_cases hone : 1 < s.checkedIdx
        · have hbefore := hb (s.checkedIdx - 1) (by omega)
          rw [if_pos hone, readAt_of_lt (by omega)]
          simp [hbefore, stopAt]
        · rw [if_neg hone]
          rfl
      · rw [if_neg hlf, if_neg hlf]
        refine ih (s := { s with checkedIdx := s.checkedIdx + 1 }) hr (fun i hi => ?_) ?_
        · obtain rfl : i = s.checkedIdx := Nat.succ.inj hi
          exact hcr
        · show s.readIdx - (s.checkedIdx + 1) = n
          omega

/-- Where the scan stops, and what it has passed. -/
structure Scanned (m : Buffer) (n c : ℕ) (status : LINE_STATUS) (k : ℕ) : Prop where
  le : c ≤ k
  le_end : k ≤ c + n
  passed : ∀ i, c ≤ i → i < k → m i ≠ CR ∧ m i ≠ LF
  ok : status = .LINE_OK → k + 2 ≤ c + n ∧ m k = CR ∧ m (k + 1) = LF
  bad : status = .LINE_BAD →
    k < c + n ∧ (m k = CR ∧ k + 1 < c + n ∧ m (k + 1) ≠ LF ∨ m k = LF)
  opn : status = .LINE_OPEN → k = c + n ∨ k + 1 = c + n ∧ m k = CR

theorem scanLine_scanned (m : Buffer) (n c : ℕ) :
    Scanned m n c (scanLine m n c).1 (scanLine m n c).2 := by
  induction n generalizing c with
  | zero =>
    exact ⟨Nat.le_refl _, Nat.le_refl _, fun i h1 h2 => absurd h1 (Nat.not_le.mpr h2), nofun, nofun,
      fun _ => Or.inl rfl⟩
  | succ n ih =>
    have hnone : ∀ i, c ≤ i → i < c → m i ≠ CR ∧ m i ≠ LF := fun _ _ _ => by omega
    rw [scanLine]
    by_cases hcr : m c = CR
    · rw [if_pos hcr]
      by_cases h0 : n = 0
      · rw [if_pos h0]
        exact ⟨Nat.le_refl _, by omega, hnone, nofun, nofun, fun _ => Or.inr ⟨by omega, hcr⟩⟩
      · rw [if_neg h0]
        by_cases hlf : m (c + 1) = LF
        · rw [if_pos hlf]
          exact ⟨Nat.le_refl _, by omega, hnone, fun _ => ⟨by omega, hcr, hlf⟩, nofun, nofun⟩
        · rw [if_neg hlf]
          exact ⟨Nat.le_refl _, by omega, hnone, nofun,
            fun _ => ⟨by omega, Or.inl ⟨hcr, by omega, hlf⟩⟩, nofun⟩
    · rw [if_neg hcr]
      by_cases hlf : m c = LF
      · rw [if_pos hlf]
        exact ⟨Nat.le_refl _, by omega, hnone, nofun, fun _ => ⟨by omega, Or.inr hlf⟩, nofun⟩
      · rw [if_neg hlf]
        have hrest := ih (c + 1)
        have hend : c + 1 + n = c + (n + 1) := by omega
        refine ⟨Nat.le_of_succ_le hrest.le, hend ▸ hrest.le_end, fun i h1 h2 => ?_,
          hend ▸ hrest.ok, hend ▸ hrest.bad, hend ▸ hrest.opn⟩
        rcases Nat.eq_or_lt_of_le h1 with rfl | h1
        · exact ⟨hcr, hlf⟩
        · exact hrest.passed i h1 h2

/-! ### The parsers of the lines -/

/-- What a parser of lines does when its line is given: the code it returns, how it sets the members
of `Head`, and where it writes `NUL`. -/
structure Effect where
  code : Head → HTTP_CODE
  head : Head → Head
  zeros : List ℕ

def Effect.apply (e : Effect) (s : HttpConn) : HTTP_CODE × HttpConn :=
  (e.code s.toHead, { s with toHead := e.head s.toHead, readBuf := clear e.zeros s.readBuf })

/-- The pointer is the old one or points between `a` and `b`. -/
def Moved (a b : ℕ) (q q' : Option ℕ) : Prop := q' = q ∨ ∀ i, q' = some i → a ≤ i ∧ i ≤ b

/-- The parser stays between `a` and `b`. -/
structure Effect.Within (e : Effect) (a b : ℕ) : Prop where
  zeros : ∀ z ∈ e.zeros, a ≤ z ∧ z < b
  url : ∀ h, Moved a b h.url (e.head h).url
  version : ∀ h, Moved a b h.version (e.head h).version
  host : ∀ h, Moved a b h.host (e.head h).host

theorem moved_some {a b : ℕ} {q : Option ℕ} (h1 : a ≤ i) (h2 : i ≤ b) : Moved a b q (some i) := by
  refine Or.inr fun j hj => ?_
  obtain rfl := Option.some.inj hj
  exact ⟨h1, h2⟩

theorem moved_none {a b : ℕ} {q : Option ℕ} : Moved a b q none := Or.inr fun _ => nofun

theorem Moved.trans {a b : ℕ} {q q' q'' : Option ℕ} (h : Moved a b q q') (h' : Moved a b q' q'') :
    Moved a b q q'' := by
  rcases h' with rfl | h'
  · exact h
  · exact Or.inr h'

theorem Moved.mono {a b a' b' : ℕ} {q q' : Option ℕ} (h : Moved a b q q') (ha : a' ≤ a)
    (hb : b ≤ b') : Moved a' b' q q' := by
  refine h.imp_right fun h i hi => ?_
  obtain ⟨h1, h2⟩ := h i hi
  exact ⟨Nat.le_trans ha h1, Nat.le_trans h2 hb⟩

theorem Effect.Within.mono {e : Effect} {a b a' b' : ℕ} (he : e.Within a b) (ha : a' ≤ a)
    (hb : b ≤ b') : e.Within a' b' := by
  refine ⟨fun z hz => ?_, fun h => (he.url h).mono ha hb, fun h => (he.version h).mono ha hb,
    fun h => (he.host h).mono ha hb⟩
  have := he.zeros z hz
  omega

/-- First `d`, then `e`, which gives the code. -/
def Effect.andThen (d e : Effect) : Effect :=
  ⟨fun h => e.code (d.head h), fun h => e.head (d.head h), d.zeros ++ e.zeros⟩

theorem Effect.andThen_apply (d e : Effect) (s : HttpConn) :
    (d.andThen e).apply s = e.apply (d.apply s).2 := by
  unfold Effect.apply Effect.andThen
  rw [clear_append]

theorem Effect.Within.andThen {d e : Effect} {a b : ℕ} (hd : d.Within a b) (he : e.Within a b) :
    (d.andThen e).Within a b := by
  refine ⟨fun z hz => ?_, fun h => (hd.url h).trans (he.url _),
    fun h => (hd.version h).trans (he.version _), fun h => (hd.host h).trans (he.host _)⟩
  exact (List.mem_append.mp hz).elim (hd.zeros z) (he.zeros z)

/-- What the end of `parseRequestLine` does with the target. -/
structure Effect.Checks (e : Effect) (a b : ℕ) : Prop where
  zeros : e.zeros = []
  url : ∀ h, ∀ i, (e.head h).url = some i → a ≤ i ∧ i ≤ b
  rest : ∀ h, (e.head h).version = h.version ∧ (e.head h).host = h.host ∧
    (e.head h).contentLength = h.contentLength
  code : ∀ h, e.code h = .BAD_REQUEST ∧ (e.head h).checkState = h.checkState ∨
    e.code h = .NO_REQUEST ∧ (e.head h).checkState = .CHECK_STATE_HEADER ∧
      ∃ u, (e.head h).url = some u ∧ a ≤ u ∧ u ≤ b

theorem findIdx_lt {f : UInt8 → Bool} (hk : line.findIdx? f = some k) : k < line.length :=
  (List.findIdx?_eq_some_iff_getElem.mp hk).1

/-- What agrees with a text has its length at least. -/
theorem le_of_sameText {t : Bytes} (h : sameText (line.take n) (t.take n) = true)
    (ht : t.length = n) : n ≤ line.length := by
  have := congrArg List.length (of_decide_eq_true h)
  rw [List.length_map, List.length_map, List.length_take, List.length_take, ht] at this
  omega

/-- Where in the target the url begins: at a `/`, where there is one behind a scheme. -/
def urlOf (line : Bytes) : Option ℕ :=
  if sameText (line.take 7) ((ascii "http://").take 7) then
    ((line.drop 7).findIdx? ([47].contains ·)).map (7 + ·)
  else some 0

theorem urlOf_le (hk : urlOf line = some k) : k ≤ line.length := by
  unfold urlOf at hk
  split_ifs at hk with hhttp
  · obtain ⟨j, hj, rfl⟩ := Option.map_eq_some_iff.mp hk
    have := findIdx_lt hj
    rw [List.length_drop] at this
    omega
  · obtain rfl := Option.some.inj hk
    exact Nat.zero_le _

theorem skipHost_eq (hw : w.Holds p line) (hs : At m p line) :
    w.skipHost m p = .ok ((urlOf line).map (p + ·)) := by
  unfold Window.skipHost urlOf
  rw [hw.strncasecmp hs, ok_bind]
  by_cases hhttp : sameText (line.take 7) ((ascii "http://").take 7) = true
  · have hlen := le_of_sameText hhttp rfl
    unfold Window.strchr
    rw [if_pos hhttp, if_pos hhttp, (hw.drop hlen).strpbrk (hs.drop hlen), Option.map_map]
    congr 2
    funext j
    exact Nat.add_assoc _ _ _
  · rw [if_neg hhttp, if_neg hhttp]
    rfl

/-- The url is there, and begins with `/`. -/
def urlOk (line : Bytes) : Bool := (urlOf line).any fun k => (line.drop k).headD NUL = 47

/-- What `checkUrl` does with a target. -/
def checkUrlEffect (p : ℕ) (line : Bytes) : Effect where
  code _ := if urlOk line then .NO_REQUEST else .BAD_REQUEST
  head h := { h with
    url := (urlOf line).map (p + ·)
    checkState := if urlOk line then .CHECK_STATE_HEADER else h.checkState }
  zeros := []

theorem checkUrlEffect_checks (p : ℕ) (line : Bytes) :
    (checkUrlEffect p line).Checks p (p + line.length) := by
  refine ⟨rfl, fun _ i hi => ?_, fun _ => ⟨rfl, rfl, rfl⟩, fun h => ?_⟩
  · obtain ⟨k, hk, rfl⟩ := Option.map_eq_some_iff.mp hi
    have := urlOf_le hk
    omega
  · unfold checkUrlEffect
    cases hok : urlOk line with
    | false => exact Or.inl ⟨rfl, rfl⟩
    | true =>
      cases hk : urlOf line with
      | none => simp [urlOk, hk] at hok
      | some k =>
        have := urlOf_le hk
        exact Or.inr ⟨rfl, rfl, p + k, rfl, by omega, by omega⟩

theorem checkUrl_eq (hw : w.Holds p line) (hs : At s.readBuf p line) :
    w.checkUrl p s = .ok ((checkUrlEffect p line).apply s) := by
  unfold Window.checkUrl checkUrlEffect
  rw [skipHost_eq hw hs, ok_bind]
  cases hk : urlOf line with
  | none =>
    have hok : urlOk line = false := by
      unfold urlOk
      rw [hk]
      rfl
    rw [hok]
    rfl
  | some k =>
    have hat := hs.drop (urlOf_le hk)
    have hok : urlOk line = decide ((line.drop k).headD NUL = 47) := by
      unfold urlOk
      rw [hk]
      rfl
    dsimp only [Option.map_some]
    rw [(hw.drop (urlOf_le hk)).readAt hat, ok_bind]
    by_cases hslash : (line.drop k).headD NUL = 47
    · rw [decide_eq_true hslash] at hok
      rw [if_neg (not_not.mpr hslash), hok]
      rfl
    · rw [decide_eq_false hslash] at hok
      rw [if_pos hslash, hok]
      rfl

/-- What `parseRequestLine` does with the line. -/
structure Effect.Requests (e : Effect) (a b : ℕ) : Prop extends e.Within a b where
  rest : ∀ h, (e.head h).contentLength = h.contentLength
  code : ∀ h, e.code h = .BAD_REQUEST ∧ (e.head h).checkState = h.checkState ∨
    e.code h = .NO_REQUEST ∧ (e.head h).checkState = .CHECK_STATE_HEADER ∧
      ∃ u, (e.head h).url = some u ∧ a ≤ u ∧ u ≤ b

theorem Effect.Checks.requests {e : Effect} {a b : ℕ} (he : e.Checks a b) : e.Requests a b := by
  refine ⟨⟨fun z hz => ?_, fun h => Or.inr (he.url h), fun h => Or.inl (he.rest h).1,
    fun h => Or.inl (he.rest h).2.1⟩, fun h => (he.rest h).2.2, he.code⟩
  rw [he.zeros] at hz
  exact absurd hz List.not_mem_nil

theorem Effect.Requests.mono {e : Effect} {a b a' b' : ℕ} (he : e.Requests a b) (ha : a' ≤ a)
    (hb : b ≤ b') : e.Requests a' b' := by
  refine ⟨he.toWithin.mono ha hb, he.rest, fun h => ?_⟩
  refine (he.code h).imp_right fun ⟨hcode, hstate, u, hu, h1, h2⟩ => ?_
  exact ⟨hcode, hstate, u, hu, Nat.le_trans ha h1, Nat.le_trans h2 hb⟩

/-- The end of the parser decides, where what comes before only sets pointers. -/
theorem Effect.Requests.andThen {d e : Effect} {a b : ℕ} (he : e.Requests a b)
    (hd : d.Within a b) (hkeep : ∀ h, (d.head h).contentLength = h.contentLength ∧
      (d.head h).checkState = h.checkState) : (d.andThen e).Requests a b := by
  refine ⟨hd.andThen he.toWithin, fun h => (he.rest _).trans (hkeep h).1, fun h => ?_⟩
  refine (he.code (d.head h)).imp_left fun ⟨hcode, hstate⟩ => ?_
  exact ⟨hcode, hstate.trans (hkeep h).2⟩

/-- How many blanks a string begins with. -/
def leading (line : Bytes) : ℕ := (line.takeWhile (blanks.contains ·)).length

theorem leading_le (line : Bytes) : leading line ≤ line.length :=
  (List.takeWhile_prefix _).length_le

theorem strspn_blanks (hs : At m p line) : strspn m p blanks = .ok (leading line) := hs.strspn

theorem strspn_leading (hw : w.Holds p line) (hs : At m p line) :
    w.strspn m p blanks = .ok (leading line) := hw.strspn hs

/-- The version is behind the blanks that end the target. -/
def versionOf (line : Bytes) (j : ℕ) : Bytes :=
  (line.drop (j + 1)).drop (leading (line.drop (j + 1)))

/-- What `parseRequestLine` does before it looks at the version. -/
def cutVersion (p : ℕ) (line : Bytes) (j : ℕ) : Effect where
  code _ := .BAD_REQUEST
  head h := { h with url := some p, version := some (p + j + 1 + leading (line.drop (j + 1))) }
  zeros := [p + j]

/-- What `parseRequestLine` does from the target on. -/
def targetEffect (p : ℕ) (line : Bytes) : Effect :=
  match line.findIdx? (blanks.contains ·) with
  | none => ⟨fun _ => .BAD_REQUEST, fun h => { h with url := some p, version := none }, []⟩
  | some j =>
    if sameText (versionOf line j) (ascii "HTTP/1.1") then
      (cutVersion p line j).andThen (checkUrlEffect p (line.take j))
    else cutVersion p line j

theorem targetEffect_requests (p : ℕ) (line : Bytes) :
    (targetEffect p line).Requests p (p + line.length) := by
  have hurl : ∀ q, Moved p (p + line.length) q (some p) := fun q =>
    moved_some (Nat.le_refl _) (Nat.le_add_right _ _)
  unfold targetEffect
  cases hblank : line.findIdx? (blanks.contains ·) with
  | none =>
    exact ⟨⟨nofun, fun _ => hurl _, fun _ => moved_none, fun _ => Or.inl rfl⟩, fun _ => rfl,
      fun _ => Or.inl ⟨rfl, rfl⟩⟩
  | some j =>
    have hj := findIdx_lt hblank
    have hlead := leading_le (line.drop (j + 1))
    have hlen := List.length_drop (i := j + 1) (l := line)
    have hset : (cutVersion p line j).Within p (p + line.length) := by
      refine ⟨?_, fun _ => hurl _, fun _ => moved_some (by omega) (by omega), fun _ => Or.inl rfl⟩
      unfold cutVersion
      rw [List.forall_mem_singleton]
      omega
    dsimp only
    split_ifs
    · have htake := List.length_take_le j line
      exact ((checkUrlEffect_checks p (line.take j)).requests.mono (Nat.le_refl p)
        (by omega)).andThen hset fun _ => ⟨rfl, rfl⟩
    · exact ⟨hset, fun _ => rfl, fun _ => Or.inl ⟨rfl, rfl⟩⟩

theorem parseTarget_eq (hw : w.Holds p line) (hs : At s.readBuf p line) :
    w.parseTarget p s = .ok ((targetEffect p line).apply s) := by
  unfold Window.parseTarget targetEffect
  dsimp only
  rw [hw.strpbrk hs, ok_bind]
  cases hblank : line.findIdx? (blanks.contains ·) with
  | none => rfl
  | some j =>
    -- the version is behind the blanks
    have hj := findIdx_lt hblank
    have hlead := leading_le (line.drop (j + 1))
    have hbehind := hs.drop_succ hj
    have hwbehind : w.Holds (p + j + 1) (line.drop (j + 1)) := hw.drop hj
    dsimp only [Option.map_some]
    rw [hw.clearAt (Nat.le_of_lt hj), ok_bind, strspn_leading hwbehind hbehind, ok_bind,
      (hwbehind.drop hlead).strcasecmp (hbehind.drop hlead), ok_bind]
    show (if sameText (versionOf line j) (ascii "HTTP/1.1") then _ else _) = _
    cases hversion : sameText (versionOf line j) (ascii "HTTP/1.1") with
    | false => rfl
    | true =>
      rw [if_pos rfl, checkUrl_eq (hw.take j) (hs.take (Nat.le_of_lt hj)), if_pos rfl,
        Effect.andThen_apply]
      rfl

/-- Where the target begins, behind the blanks that end the method. -/
def targetAt (line : Bytes) (k : ℕ) : ℕ := k + 1 + leading (line.drop (k + 1))

/-- What `parseRequestLine` does with the line. -/
def requestEffect (p : ℕ) (line : Bytes) : Effect :=
  match line.findIdx? (blanks.contains ·) with
  | none => ⟨fun _ => .BAD_REQUEST, fun h => { h with url := none }, []⟩
  | some k =>
    if sameText (line.take k) (ascii "GET") then
      Effect.andThen ⟨fun _ => .NO_REQUEST, fun h => { h with method := .GET }, [p + k]⟩
        (targetEffect (p + targetAt line k) (line.drop (targetAt line k)))
    else ⟨fun _ => .BAD_REQUEST, fun h => { h with url := some (p + k + 1) }, [p + k]⟩

theorem targetAt_le (hk : k < line.length) : targetAt line k ≤ line.length := by
  have hlead := leading_le (line.drop (k + 1))
  rw [List.length_drop] at hlead
  unfold targetAt
  omega

theorem requestEffect_requests (p : ℕ) (line : Bytes) :
    (requestEffect p line).Requests p (p + line.length) := by
  unfold requestEffect
  cases hblank : line.findIdx? (blanks.contains ·) with
  | none =>
    exact ⟨⟨nofun, fun _ => moved_none, fun _ => Or.inl rfl, fun _ => Or.inl rfl⟩, fun _ => rfl,
      fun _ => Or.inl ⟨rfl, rfl⟩⟩
  | some k =>
    have hk := findIdx_lt hblank
    have htarget := targetAt_le hk
    have hzero : ∀ z ∈ [p + k], p ≤ z ∧ z < p + line.length := by
      rw [List.forall_mem_singleton]
      omega
    dsimp only
    split_ifs
    · have he := targetEffect_requests (p + targetAt line k) (line.drop (targetAt line k))
      rw [List.length_drop] at he
      exact (he.mono (by omega) (by omega)).andThen
        ⟨hzero, fun _ => Or.inl rfl, fun _ => Or.inl rfl, fun _ => Or.inl rfl⟩ fun _ => ⟨rfl, rfl⟩
    · exact ⟨⟨hzero, fun _ => moved_some (by omega) (by omega), fun _ => Or.inl rfl,
        fun _ => Or.inl rfl⟩, fun _ => rfl, fun _ => Or.inl ⟨rfl, rfl⟩⟩

/-- **The parser of the request line** stays in every window that holds its line. -/
theorem parseRequestLine_eq (hw : w.Holds p line) (hs : At s.readBuf p line) :
    w.parseRequestLine p s = .ok ((requestEffect p line).apply s) := by
  unfold Window.parseRequestLine requestEffect
  rw [hw.strpbrk hs, ok_bind]
  cases hblank : line.findIdx? (blanks.contains ·) with
  | none => rfl
  | some k =>
    -- the method is before the blanks, the target behind them
    have hk := findIdx_lt hblank
    have hlead := leading_le (line.drop (k + 1))
    have hbehind := hs.drop_succ hk
    have hwbehind : w.Holds (p + k + 1) (line.drop (k + 1)) := hw.drop hk
    dsimp only [Option.map_some]
    rw [hw.clearAt (Nat.le_of_lt hk), ok_bind,
      (hw.take k).strcasecmp (hs.take (Nat.le_of_lt hk)), ok_bind]
    cases hget : sameText (line.take k) (ascii "GET") with
    | false => rfl
    | true =>
      have htarget : (line.drop (k + 1)).drop (leading (line.drop (k + 1))) =
          line.drop (targetAt line k) := List.drop_drop
      have hplace : p + k + 1 + leading (line.drop (k + 1)) = p + targetAt line k := by
        unfold targetAt
        omega
      have hat := hbehind.drop hlead
      rw [htarget, hplace] at hat
      rw [if_pos rfl, if_pos rfl, strspn_leading hwbehind hbehind, ok_bind, Effect.andThen_apply,
        ← parseTarget_eq (hw.drop (targetAt_le hk)) hat, ← hplace]
      rfl

theorem parseRequestLine_effect (p : ℕ) (line : Bytes) :
    ∃ e : Effect, e.Requests p (p + line.length) ∧
      ∀ s, At s.readBuf p line → parseRequestLine p s = .ok (e.apply s) := by
  refine ⟨requestEffect p line, requestEffect_requests p line, fun s hs => ?_⟩
  rw [← parseRequestLine_whole]
  exact parseRequestLine_eq (holds_whole hs) hs

/-- The line is a `Content-Length` header. -/
def isContentLength (line : Bytes) : Bool :=
  sameText (line.take 15) ((ascii "Content-Length:").take 15)

/-- What `parseHeaders` does with the line. -/
structure Effect.Headers (e : Effect) (line : Bytes) (a b : ℕ) : Prop extends e.Within a b where
  target : ∀ h, (e.head h).url = h.url
  code : ∀ h, e.code h = if line = [] ∧ h.contentLength = 0 then .GET_REQUEST else .NO_REQUEST
  checkState : ∀ h, (e.head h).checkState =
    if line = [] ∧ h.contentLength ≠ 0 then .CHECK_STATE_CONTENT else h.checkState
  length : ∀ h, (e.head h).contentLength = h.contentLength ∨
    isContentLength line = true ∧ INT_MIN ≤ (e.head h).contentLength

theorem value_eq (hs : At s.readBuf p line) : value p s = .ok (p + leading line) := by
  unfold value
  rw [strspn_blanks hs]
  rfl

/-- A header changes neither the state nor the target. -/
theorem Effect.Within.headers {e : Effect} {a b : ℕ} (he : e.Within a b) (hne : line ≠ [])
    (hcode : ∀ h, e.code h = .NO_REQUEST)
    (hkeep : ∀ h, (e.head h).url = h.url ∧ (e.head h).checkState = h.checkState)
    (hlength : ∀ h, (e.head h).contentLength = h.contentLength ∨
      isContentLength line = true ∧ INT_MIN ≤ (e.head h).contentLength) : e.Headers line a b := by
  refine ⟨he, fun h => (hkeep h).1, fun h => ?_, fun h => ?_, hlength⟩
  · rw [if_neg fun h0 => hne h0.1]
    exact hcode h
  · rw [if_neg fun h0 => hne h0.1]
    exact (hkeep h).2

/-- What `parseHeaders` does with a line that is not empty. -/
def parseHeader (text : ℕ) (s : HttpConn) : Except Fault (HTTP_CODE × HttpConn) := do
  if ← strncasecmp s.readBuf text (ascii "Connection:") 11 then
    let text ← value (text + 11) s
    if ← strcasecmp s.readBuf text (ascii "keep-alive") then
      pure (.NO_REQUEST, { s with linger := true })
    else pure (.NO_REQUEST, s)
  else if ← strncasecmp s.readBuf text (ascii "Content-Length:") 15 then
    let text ← value (text + 15) s
    let n ← atol s.readBuf text
    pure (.NO_REQUEST, { s with contentLength := truncate n })
  else if ← strncasecmp s.readBuf text (ascii "Host:") 5 then
    let text ← value (text + 5) s
    pure (.NO_REQUEST, { s with host := some text })
  else do
    let _ ← cstring s.readBuf text
    pure (.NO_REQUEST, s)

theorem parseHeaders_of_ne (hs : At s.readBuf p line) (hne : line ≠ []) :
    parseHeaders p s = parseHeader p s := by
  obtain ⟨b, l, rfl⟩ := List.exists_cons_of_ne_nil hne
  unfold parseHeaders
  rw [hs.readAt, ok_bind, if_neg (show (b :: l).headD NUL ≠ NUL from hs.2.1)]
  rfl

/-- The value of a header, behind a name of `k` bytes and the blanks. -/
def valueOf (line : Bytes) (k : ℕ) : Bytes := (line.drop k).drop (leading (line.drop k))

/-- What a line that is not empty does. -/
def headerEffect (p : ℕ) (line : Bytes) : Effect :=
  if sameText (line.take 11) ((ascii "Connection:").take 11) then
    ⟨fun _ => .NO_REQUEST, fun h => { h with
      linger := sameText (valueOf line 11) (ascii "keep-alive") || h.linger }, []⟩
  else if isContentLength line then
    ⟨fun _ => .NO_REQUEST, fun h => { h with
      contentLength := truncate (atolOf (valueOf line 15)) }, []⟩
  else if sameText (line.take 5) ((ascii "Host:").take 5) then
    ⟨fun _ => .NO_REQUEST, fun h => { h with host := some (p + 5 + leading (line.drop 5)) }, []⟩
  else ⟨fun _ => .NO_REQUEST, id, []⟩

theorem headerEffect_headers (p : ℕ) (hne : line ≠ []) :
    (headerEffect p line).Headers line p (p + line.length) := by
  unfold headerEffect
  by_cases hconn : sameText (line.take 11) ((ascii "Connection:").take 11) = true
  · rw [if_pos hconn]
    exact Effect.Within.headers ⟨nofun, fun _ => Or.inl rfl, fun _ => Or.inl rfl, fun _ => Or.inl rfl⟩
      hne (fun _ => rfl) (fun _ => ⟨rfl, rfl⟩) (fun _ => Or.inl rfl)
  rw [if_neg hconn]
  by_cases hlength : isContentLength line = true
  · rw [if_pos hlength]
    exact Effect.Within.headers ⟨nofun, fun _ => Or.inl rfl, fun _ => Or.inl rfl, fun _ => Or.inl rfl⟩
      hne (fun _ => rfl) (fun _ => ⟨rfl, rfl⟩) (fun _ => Or.inr ⟨hlength, (truncate_mem _).1⟩)
  rw [if_neg hlength]
  by_cases hhost : sameText (line.take 5) ((ascii "Host:").take 5) = true
  · have hlen := le_of_sameText hhost rfl
    have hlead := leading_le (line.drop 5)
    rw [List.length_drop] at hlead
    rw [if_pos hhost]
    exact Effect.Within.headers ⟨nofun, fun _ => Or.inl rfl, fun _ => Or.inl rfl,
        fun _ => moved_some (by omega) (by omega)⟩
      hne (fun _ => rfl) (fun _ => ⟨rfl, rfl⟩) (fun _ => Or.inl rfl)
  · rw [if_neg hhost]
    exact Effect.Within.headers ⟨nofun, fun _ => Or.inl rfl, fun _ => Or.inl rfl, fun _ => Or.inl rfl⟩
      hne (fun _ => rfl) (fun _ => ⟨rfl, rfl⟩) (fun _ => Or.inl rfl)

theorem parseHeader_eq (hs : At s.readBuf p line) :
    parseHeader p s = .ok ((headerEffect p line).apply s) := by
  unfold parseHeader headerEffect
  rw [hs.strncasecmp, ok_bind]
  by_cases hconn : sameText (line.take 11) ((ascii "Connection:").take 11) = true
  · have hbehind := hs.drop (le_of_sameText hconn rfl)
    have hvalue := hbehind.drop (leading_le (line.drop 11))
    rw [if_pos hconn, if_pos hconn, value_eq hbehind, ok_bind, hvalue.strcasecmp, ok_bind]
    show (if sameText (valueOf line 11) (ascii "keep-alive") then _ else _) = _
    generalize sameText (valueOf line 11) (ascii "keep-alive") = keep
    cases keep <;> rfl
  rw [if_neg hconn, if_neg hconn, hs.strncasecmp, ok_bind]
  change (if isContentLength line = true then _ else _) = _
  by_cases hlength : isContentLength line = true
  · have hbehind := hs.drop (le_of_sameText hlength rfl)
    have hvalue := hbehind.drop (leading_le (line.drop 15))
    rw [if_pos hlength, if_pos hlength, value_eq hbehind, ok_bind, hvalue.atol]
    rfl
  rw [if_neg hlength, if_neg hlength, hs.strncasecmp, ok_bind]
  by_cases hhost : sameText (line.take 5) ((ascii "Host:").take 5) = true
  · have hbehind := hs.drop (le_of_sameText hhost rfl)
    rw [if_pos hhost, if_pos hhost, value_eq hbehind]
    rfl
  · rw [if_neg hhost, if_neg hhost, hs.cstring]
    rfl

/-- What the empty line does. -/
def emptyEffect : Effect :=
  ⟨fun h => if h.contentLength = 0 then .GET_REQUEST else .NO_REQUEST,
    fun h => { h with checkState :=
      if h.contentLength = 0 then h.checkState else .CHECK_STATE_CONTENT }, []⟩

/-- What `parseHeaders` does with the line. -/
def headersEffect (p : ℕ) (line : Bytes) : Effect :=
  if line = [] then emptyEffect else headerEffect p line

theorem headersEffect_headers (p : ℕ) (line : Bytes) :
    (headersEffect p line).Headers line p (p + line.length) := by
  unfold headersEffect
  by_cases hne : line = []
  · subst hne
    rw [if_pos rfl]
    exact ⟨⟨nofun, fun _ => Or.inl rfl, fun _ => Or.inl rfl, fun _ => Or.inl rfl⟩, fun _ => rfl,
      fun h => by simp [emptyEffect], fun h => by simp [emptyEffect, ite_not], fun _ => Or.inl rfl⟩
  · rw [if_neg hne]
    exact headerEffect_headers p hne

/-- **The parser of the headers.** -/
theorem parseHeaders_eq (hs : At s.readBuf p line) :
    parseHeaders p s = .ok ((headersEffect p line).apply s) := by
  unfold headersEffect
  by_cases hne : line = []
  · subst hne
    unfold parseHeaders
    rw [hs.readAt, ok_bind, if_pos (show ([] : Bytes).headD NUL = NUL from rfl), if_pos rfl]
    by_cases h0 : s.contentLength = 0
    · rw [if_neg (not_not.mpr h0)]
      simp only [Effect.apply, emptyEffect, clear, if_pos h0, pure_eq_ok]
    · rw [if_pos h0]
      simp only [Effect.apply, emptyEffect, clear, if_neg h0, pure_eq_ok]
  · rw [if_neg hne, parseHeaders_of_ne hs hne]
    exact parseHeader_eq hs

theorem parseHeaders_effect (p : ℕ) (line : Bytes) :
    ∃ e : Effect, e.Headers line p (p + line.length) ∧
      ∀ s, At s.readBuf p line → parseHeaders p s = .ok (e.apply s) :=
  ⟨headersEffect p line, headersEffect_headers p line, fun _ hs => parseHeaders_eq hs⟩

theorem addInt_eq {a b : ℤ} (h1 : INT_MIN ≤ a + b) (h2 : a + b ≤ INT_MAX) :
    addInt a b = .ok (a + b) := if_pos ⟨h1, h2⟩

/-- Where the length fits, `parseContent` writes at most one `NUL`. -/
theorem parseContent_eq (hmin : INT_MIN ≤ s.contentLength) (hp : p ≤ s.checkedIdx)
    (hr : s.readIdx < READ_BUFFER_SIZE) (hlow : -(p : ℤ) ≤ s.contentLength)
    (hhigh : s.contentLength ≤ INT_MAX - s.checkedIdx) :
    parseContent p s = .ok (if s.contentLength + s.checkedIdx ≤ s.readIdx then
      (.GET_REQUEST, { s with readBuf := clear [(p + s.contentLength).toNat] s.readBuf })
      else (.NO_REQUEST, s)) := by
  unfold parseContent
  rw [addInt_eq (by omega) (by omega), ok_bind]
  by_cases hall : s.contentLength + s.checkedIdx ≤ s.readIdx
  · rw [if_pos hall, if_pos hall]
    unfold clearAt writeAt
    rw [if_pos ⟨by omega, by omega⟩]
    rfl
  · rw [if_neg hall, if_neg hall]
    rfl

/-- Where it does not, `parseContent` fails. -/
theorem parseContent_error (hmin : INT_MIN ≤ s.contentLength) (hc : s.checkedIdx ≤ s.readIdx)
    (hlen : ¬(-(p : ℤ) ≤ s.contentLength ∧ s.contentLength ≤ INT_MAX - s.checkedIdx)) :
    ∃ f, parseContent p s = .error f ∧ (f = .outOfBounds ∨ f = .overflow) := by
  unfold parseContent
  by_cases hhigh : s.contentLength + s.checkedIdx ≤ INT_MAX
  · rw [addInt_eq (by omega) hhigh, ok_bind, if_pos (by omega)]
    unfold clearAt writeAt
    rw [if_neg (by omega)]
    exact ⟨_, rfl, Or.inl rfl⟩
  · unfold addInt
    rw [if_neg fun h => hhigh h.2]
    exact ⟨_, rfl, Or.inr rfl⟩

/-! ### One turn -/

variable {stat : Stat}

theorem turn_of_requestLine (stat : Stat) {e : Effect} (hat : At s.readBuf s.startLine line)
    (hst : s.checkState = .CHECK_STATE_REQUESTLINE)
    (he : ∀ t, At t.readBuf s.startLine line → parseRequestLine s.startLine t = .ok (e.apply t)) :
    turn stat s = .ok (if e.code s.toHead = .BAD_REQUEST then some .BAD_REQUEST else none, .LINE_OK,
      (e.apply (nextLine s)).2) := by
  unfold turn
  dsimp only
  rw [At.cstring (show At (nextLine s).readBuf _ _ from hat), ok_bind,
    show (nextLine s).checkState = _ from hst]
  dsimp only
  rw [he (nextLine s) hat, ok_bind]
  show (if e.code s.toHead = .BAD_REQUEST then _ else _) = _
  split_ifs <;> rfl

theorem turn_of_header (stat : Stat) {e : Effect} (hat : At s.readBuf s.startLine line)
    (hst : s.checkState = .CHECK_STATE_HEADER)
    (he : ∀ t, At t.readBuf s.startLine line → parseHeaders s.startLine t = .ok (e.apply t)) :
    turn stat s = (do
      let (ret, t) := e.apply (nextLine s)
      if ret = .BAD_REQUEST then pure (some .BAD_REQUEST, .LINE_OK, t)
      else if ret = .GET_REQUEST then pure (some (← doRequest stat t), .LINE_OK, t)
      else pure (none, .LINE_OK, t)) := by
  unfold turn
  dsimp only
  rw [At.cstring (show At (nextLine s).readBuf _ _ from hat), ok_bind,
    show (nextLine s).checkState = _ from hst]
  dsimp only
  rw [he (nextLine s) hat, ok_bind]

theorem turn_of_content (hat : At s.readBuf s.startLine line)
    (hst : s.checkState = .CHECK_STATE_CONTENT) :
    turn stat s = (do
      let (ret, t) ← parseContent s.startLine (nextLine s)
      if ret = .GET_REQUEST then pure (some (← doRequest stat t), .LINE_OK, t)
      else pure (none, .LINE_OPEN, t)) := by
  unfold turn
  dsimp only
  rw [At.cstring (show At (nextLine s).readBuf _ _ from hat), ok_bind,
    show (nextLine s).checkState = _ from hst]

end ReactorServer.Conn.Calls
