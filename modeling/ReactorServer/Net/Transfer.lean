import ReactorServer.Net.Dispatch

/-!
# What one call moves between the socket and a buffer

One call of `handleRead`, of `handleWrite` and of `sendInLoop`, for everything the kernel can
answer: when what was read is delivered (`delivers_iff`), when the backlog is drained
(`drains_iff`), and when a payload is neither cut nor padded (`carries_iff`).
-/

namespace ReactorServer.Net.Transfer

open ReactorServer.Cpp ReactorServer.Lib.Runs
open ReactorServer.Net.Poller ReactorServer.Net.Poller.EpollPoller ReactorServer.Net.Registration
open ReactorServer.Net.Connection ReactorServer.Net.Connection.TcpConnection
open ReactorServer.Net.Dispatch

variable {κ : Type} {s : TcpConnection κ}

/-! ### Reading -/

/-- What one call of `handleRead` meets on the socket: the pieces it takes, what is left in the
socket behind them, and whether the stream ends there.  Only a full buffer leaves something. -/
structure Arrival where
  chunks : List Bytes
  rest : Bytes
  eof : Bool
  nonempty : [] ∉ chunks
  fits : chunks.flatten.length ≤ READ_BUFFER_SIZE
  left : chunks.flatten.length < READ_BUFFER_SIZE → rest = []

namespace Arrival

/-- The bytes taken from the socket. -/
def taken (a : Arrival) : Bytes := a.chunks.flatten

/-- The results of `read`: behind the pieces `EAGAIN`, or 0 at the end of the stream; 0 too where
the buffer is full and nothing is asked for. -/
def results (a : Arrival) : List ReadResult :=
  a.chunks.map .bytes ++
    [if a.taken.length < READ_BUFFER_SIZE ∧ a.eof = false then .again else .bytes []]

end Arrival

/-- If something was taken, `handleRead` ends with one call of `messageCB_` for exactly this, and
it does not return while there is something left in the socket. -/
def Delivers (s : TcpConnection κ) (a : Arrival) : Prop :=
  (a.taken ≠ [] → ∃ c, s.context = some c ∧ ∀ cb : Callbacks κ, s.handleRead cb a.results =
    cb.messageCB ({ s with readBuf := a.taken }.setContext (c.setBuffer a.taken))) ∧
  ∀ cb t, s.handleRead cb a.results = .ok t → a.rest = []

theorem readLoop_chunks (rs : List ReadResult) : ∀ (chunks : List Bytes) (s : TcpConnection κ),
    [] ∉ chunks → s.readBuf.length + chunks.flatten.length ≤ READ_BUFFER_SIZE →
    s.readLoop (chunks.map .bytes ++ rs) =
      readLoop rs { s with readBuf := s.readBuf ++ chunks.flatten } := by
  intro chunks
  induction chunks with
  | nil =>
    intro s _ _
    rw [List.flatten_nil, List.append_nil]
    rfl
  | cons b chunks ih =>
    intro s hne hfits
    rw [List.flatten_cons, List.length_append] at hfits
    have hb : b ≠ [] := fun h => hne (h ▸ List.mem_cons_self)
    rw [List.map_cons, List.cons_append, readLoop, if_neg hb, if_pos (by omega),
      ih _ (fun h => hne (List.mem_cons_of_mem _ h)) (by rw [List.length_append]; omega),
      List.flatten_cons, List.append_assoc]

/-- The call, for an empty buffer: only `EAGAIN` in front of a full buffer leads to the callback. -/
theorem handleRead_arrival (hs : s.readBuf = []) (a : Arrival) (cb : Callbacks κ) :
    s.handleRead cb a.results =
      if a.taken.length < READ_BUFFER_SIZE ∧ a.eof = false then
        match s.context with
        | none => .error .outOfBounds
        | some c => cb.messageCB ({ s with readBuf := a.taken }.setContext (c.setBuffer a.taken))
      else .ok { s with readBuf := a.taken } := by
  have hfits : s.readBuf.length + a.chunks.flatten.length ≤ READ_BUFFER_SIZE := by
    rw [hs, List.length_nil, Nat.zero_add]
    exact a.fits
  rw [handleRead, Arrival.results, readLoop_chunks _ _ _ a.nonempty hfits, hs, List.nil_append]
  split_ifs with hlast
  · have hroom : a.chunks.flatten.length < READ_BUFFER_SIZE := hlast.1
    rw [readLoop, if_pos hroom]
    rfl
  · rfl

/-- **When what is read is delivered.**  For an empty read buffer and every sequence of results of
`read`: what was taken is handed over in one call, and nothing is left behind by a full buffer, if
and only if nothing was taken, or the reads ended with `EAGAIN` before the buffer was full (and the
connection has its parser). -/
theorem delivers_iff (hs : s.readBuf = []) (a : Arrival) : Delivers s a ↔
    a.taken = [] ∨ a.taken.length < READ_BUFFER_SIZE ∧ a.eof = false ∧ s.context.isSome = true := by
  constructor
  · rintro ⟨hcall, -⟩
    by_cases hnil : a.taken = []
    · exact Or.inl hnil
    · right
      obtain ⟨c, hc, hcb⟩ := hcall hnil
      by_cases hlast : a.taken.length < READ_BUFFER_SIZE ∧ a.eof = false
      · exact ⟨hlast.1, hlast.2, by rw [hc]; rfl⟩
      · -- a callback that does not return tells the two ends apart
        have h := hcb ⟨.ok, fun _ => .error .exception⟩
        rw [handleRead_arrival hs, if_neg hlast] at h
        cases h
  · intro h
    have hlt : a.taken.length < READ_BUFFER_SIZE := by
      rcases h with h | h
      · rw [h]; decide
      · exact h.1
    refine ⟨fun hne => ?_, fun _ _ _ => a.left hlt⟩
    obtain ⟨-, heof, hc⟩ := h.resolve_left hne
    obtain ⟨c, hc⟩ := Option.isSome_iff_exists.mp hc
    refine ⟨c, hc, fun cb => ?_⟩
    rw [handleRead_arrival hs, if_pos ⟨hlt, heof⟩, hc]

theorem delivers_pieces : Delivers ({ TcpConnection.new (EpollPoller.new fun _ => 3) () true true with
      context := some .new })
    ⟨[ascii "GE", ascii "T"], [], false, by decide, by decide, fun _ => rfl⟩ :=
  (delivers_iff rfl _).mpr (Or.inr ⟨by decide, rfl, rfl⟩)

/-- **A request is dropped**: the client sends it and closes its end. -/
theorem delivers_not : ¬Delivers ({ TcpConnection.new (EpollPoller.new fun _ => 3) () true true with
      context := some .new })
    ⟨[ascii "GET"], [], true, by decide, by decide, fun _ => rfl⟩ := by
  rintro ⟨h, -⟩
  obtain ⟨c, -, hcb⟩ := h (by decide)
  have h1 := hcb ⟨.ok, fun _ => .error .exception⟩
  rw [handleRead_arrival rfl, if_neg (by decide)] at h1
  cases h1

/-! ### Draining -/

/-- What `write` may answer to a request of so many bytes. -/
def Legal (request : ℤ) : WriteResult → Prop
  | .count n => if request = 0 then n = 0 else 0 < n ∧ n ≤ request
  | _ => request ≠ 0

instance (request : ℤ) : ∀ r, Decidable (Legal request r)
  | .count n => inferInstanceAs (Decidable (if request = 0 then n = 0 else 0 < n ∧ n ≤ request))
  | .again => inferInstanceAs (Decidable (request ≠ 0))
  | .reset => inferInstanceAs (Decidable (request ≠ 0))
  | .error => inferInstanceAs (Decidable (request ≠ 0))

/-- The first `n` results. -/
def supplied (w : ℕ → WriteResult) (n : ℕ) : List WriteResult := (List.range n).map w

/-- The bytes buffered. -/
def buffered (s : TcpConnection κ) : Bytes := s.backlog s.writeIdx.toNat

def setWriteBuf (m : ℕ → UInt8) (s : TcpConnection κ) : TcpConnection κ := { s with writeBuf := m }

/-- The call returns after so many `write`s, the kernel has accepted the first `k` bytes of the
backlog, the rest of them is the backlog now, and the connection is in the state it was in. -/
def Drains [DecidableEq κ] (s : TcpConnection κ) (w : ℕ → WriteResult) : Prop :=
  ∃ n t k, s.handleWrite observer (supplied w n) = .ok t ∧
    t.accepted = s.accepted ++ (buffered s).take k ∧ buffered t = (buffered s).drop k ∧
    t.state = s.state

/-- It does so whatever the bytes are, so that they are told apart by their places. -/
def DrainsOnce [DecidableEq κ] (s : TcpConnection κ) (w : ℕ → WriteResult) : Prop :=
  ∀ m, Drains (setWriteBuf m s) w

theorem sound_setWriteBuf (h : Sound s) (m : ℕ → UInt8) : Sound (setWriteBuf m s) :=
  ⟨h.registered, h.free, h.nonEvent⟩

variable [DecidableEq κ]

theorem writeLoop_again {cb : Callbacks κ} (hw : s.chan.isWriting) (rs : List WriteResult)
    (a b : ℤ) : ∀ n, s.writeLoop cb (List.replicate n .again ++ rs) a b = s.writeLoop cb rs a b := by
  intro n
  induction n with
  | zero => rfl
  | succ n ih =>
    rw [List.replicate_succ, List.cons_append, writeLoop, if_pos hw]
    exact ih

theorem sendCompleted_drained (h : Sound s) : ∃ t, s.sendCompleted = .ok t ∧
    t.accepted = s.accepted ∧ t.writeIdx = 0 ∧ t.state = s.state := by
  unfold TcpConnection.sendCompleted
  rw [disableWrite, onChannel_setEvents h]
  dsimp only [ok_bind]
  split_ifs <;> exact ⟨_, rfl, rfl, rfl, rfl⟩

/-- What the loop hands to the kernel begins with the first byte of the buffer; where it hands over
nothing it keeps the backlog. -/
theorem writeLoop_accepted {cb : Callbacks κ} {t : TcpConnection κ} {rs : List WriteResult}
    (hlegal : ∀ r ∈ rs, Legal s.writeIdx r) (hidx : s.writeIdx ≠ 0) (a b : ℤ) (h : Sound s)
    (hw : s.chan.isWriting) (ht : s.writeLoop cb rs a b = .ok t) :
    ∃ x, t.accepted = s.accepted ++ x ∧
      (x = [] ∧ t.writeIdx = s.writeIdx ∨ ∃ y, x = s.writeBuf 0 :: y) := by
  induction rs generalizing s a b with
  | nil => cases ht
  | cons r rs ih =>
    have hrs := fun r hr => hlegal r (List.mem_cons_of_mem _ hr)
    cases r with
    | again =>
      rw [writeLoop, if_pos hw] at ht
      exact ih hrs hidx a b h hw ht
    | reset =>
      obtain rfl := Except.ok.inj ht
      exact ⟨[], (List.append_nil _).symm, Or.inl ⟨rfl, rfl⟩⟩
    | error =>
      obtain rfl := Except.ok.inj ht
      exact ⟨[], (List.append_nil _).symm, Or.inl ⟨rfl, rfl⟩⟩
    | count n =>
      have hn := hlegal _ List.mem_cons_self
      rw [Legal, if_neg hidx] at hn
      obtain ⟨y, hfirst⟩ : ∃ y, s.backlog n = s.writeBuf 0 :: y := by
        obtain ⟨n, rfl⟩ := Nat.exists_eq_add_one.mpr hn.1
        rw [backlog, List.range_succ_eq_map, List.map_cons]
        exact ⟨_, rfl⟩
      rw [writeLoop, if_neg (Int.not_lt.mpr hn.2), if_pos hn.1] at ht
      have hu : Sound { s with accepted := s.accepted ++ s.backlog n } :=
        ⟨h.registered, h.free, h.nonEvent⟩
      dsimp only at ht
      split_ifs at ht with hend
      · obtain ⟨u, hu', hacc, -⟩ := sendCompleted_drained hu
        rw [hu'] at ht
        obtain rfl := Except.ok.inj ht
        exact ⟨_, hacc, Or.inr ⟨_, hfirst⟩⟩
      · obtain ⟨x, hx, -⟩ := ih (s := { s with accepted := s.accepted ++ s.backlog n }) hrs hidx _ _
          hu hw ht
        refine ⟨s.backlog n ++ x, by rw [hx, List.append_assoc], Or.inr ⟨y ++ x, ?_⟩⟩
        rw [hfirst, List.cons_append]

theorem handleClose_closed (h : Sound s) {t : TcpConnection κ}
    (ht : s.handleClose observer = .ok t) :
    t.state = .CDisconnected ∧ t.writeIdx = s.writeIdx := by
  rw [handleClose_eq h] at ht
  obtain ⟨⟨⟩, -, ht⟩ := bind_eq_ok.mp ht
  unfold TcpConnection.closeCB at ht
  split at ht
  · obtain ⟨⟨⟩, -, ht⟩ := bind_eq_ok.mp ht
    obtain rfl := Except.ok.inj ht
    exact ⟨rfl, rfl⟩
  · obtain rfl := Except.ok.inj ht
    exact ⟨rfl, rfl⟩

theorem writeLoop_empty (h : Sound s) (hidx : s.writeIdx = 0) {rs : List WriteResult}
    (hlegal : ∀ r ∈ rs, Legal 0 r) (a b : ℤ) (t : TcpConnection κ) :
    s.writeLoop observer rs a b ≠ .ok t := by
  have hzero : ∀ r, Legal 0 r → r = .count 0 := by
    intro r hr
    cases r with
    | count n => rw [show n = 0 from hr]
    | again => exact absurd rfl hr
    | reset => exact absurd rfl hr
    | error => exact absurd rfl hr
  intro ht
  cases rs with
  | nil => cases ht
  | cons r rs =>
    rw [hzero r (hlegal r List.mem_cons_self), writeLoop, if_neg (by rw [hidx]; decide),
      if_neg (Nat.lt_irrefl 0)] at ht
    obtain ⟨u, hu, ht⟩ := bind_eq_ok.mp ht
    have hst : u.state = .CDisconnected ∧ u.writeIdx = 0 := by
      rw [← hidx]
      exact handleClose_closed h hu
    cases rs with
    | nil => cases ht
    | cons r rs =>
      rw [hzero r (hlegal r (by simp)), writeLoop, if_neg (by rw [hst.2]; decide),
        if_neg (Nat.lt_irrefl 0)] at ht
      obtain ⟨v, hv, -⟩ := bind_eq_ok.mp ht
      unfold TcpConnection.handleClose at hv
      obtain ⟨⟨⟩, hassert, -⟩ := bind_eq_ok.mp hv
      rw [Cpp.assert, if_neg (by rw [hst.1]; decide)] at hassert
      cases hassert

theorem supplied_legal {w : ℕ → WriteResult} {request : ℤ} (h : ∀ i, Legal request (w i)) (n : ℕ) :
    ∀ r ∈ supplied w n, Legal request r := by
  intro r hr
  obtain ⟨i, -, rfl⟩ := List.mem_map.mp hr
  exact h i

theorem supplied_again {w : ℕ → WriteResult} {n : ℕ} (h : ∀ i < n, w i = .again) :
    supplied w n = List.replicate n .again := by
  refine List.eq_replicate_iff.mpr ⟨by simp [supplied], fun r hr => ?_⟩
  obtain ⟨i, hi, rfl⟩ := List.mem_map.mp hr
  exact h i (List.mem_range.mp hi)

theorem supplied_split (w : ℕ → WriteResult) {n k : ℕ} (h : n < k) :
    supplied w k = supplied w n ++ w n :: (List.range (k - n - 1)).map fun i => w (n + 1 + i) := by
  obtain ⟨d, rfl⟩ : ∃ d, k = n + 1 + d := ⟨k - n - 1, by omega⟩
  have hd : n + 1 + d - n - 1 = d := by omega
  rw [hd, supplied, List.range_add, List.range_succ, List.map_append, List.map_append, supplied,
    List.append_assoc, List.map_map]
  rfl

theorem handleWrite_supplied {w : ℕ → WriteResult} (hw : s.chan.isWriting) {n k : ℕ}
    (hagain : ∀ i < n, w i = .again) (h : n < k) :
    handleWrite observer (supplied w k) s = s.writeLoop observer
      (w n :: (List.range (k - n - 1)).map fun i => w (n + 1 + i)) s.writeIdx 0 := by
  rw [handleWrite, if_pos hw, supplied_split w h, supplied_again hagain, writeLoop_again hw]

/-- A byte string whose first byte occurs once. -/
def marked : ℕ → UInt8 := fun i => if i = 0 then 1 else 0

theorem drains_of_first (h : Sound s) (hw : s.chan.isWriting) (hidx : 0 < s.writeIdx)
    {w : ℕ → WriteResult} {n : ℕ} (hagain : ∀ i < n, w i = .again)
    (hn : w n = .count s.writeIdx.toNat ∨ w n = .reset ∨ w n = .error) : Drains s w := by
  refine ⟨n + 1, ?_⟩
  rw [handleWrite_supplied hw hagain (Nat.lt_succ_self n)]
  rcases hn with hn | hn | hn
  · have hu : Sound { s with accepted := s.accepted ++ buffered s } :=
      ⟨h.registered, h.free, h.nonEvent⟩
    obtain ⟨t, ht, hacc, hzero, hst⟩ := sendCompleted_drained hu
    refine ⟨t, s.writeIdx.toNat, ?_, ?_, ?_, hst⟩
    · rw [hn, writeLoop, if_neg (by omega), if_pos (by omega), if_pos (by omega)]
      exact ht
    · rw [hacc, List.take_of_length_le (by simp [buffered, backlog])]
    · rw [List.drop_of_length_le (by simp [buffered, backlog]), buffered, hzero]
      rfl
  · rw [hn]
    exact ⟨s, 0, rfl, (List.append_nil _).symm, rfl, rfl⟩
  · rw [hn]
    exact ⟨s, 0, rfl, (List.append_nil _).symm, rfl, rfl⟩

/-- A part of the backlog first, and the loop begins again with its first byte, or stops. -/
theorem first_whole (h : Sound s) (hw : s.chan.isWriting) (hm : s.writeBuf = marked)
    (hidx : 0 < s.writeIdx) {w : ℕ → WriteResult} (hlegal : ∀ i, Legal s.writeIdx (w i)) {n j k : ℕ}
    {t : TcpConnection κ} (hj : w n = .count j) (rs : List WriteResult)
    (hrs : ∀ r ∈ rs, Legal s.writeIdx r)
    (ht : s.writeLoop observer (.count j :: rs) s.writeIdx 0 = .ok t)
    (hacc : t.accepted = s.accepted ++ (buffered s).take k)
    (hrest : buffered t = (buffered s).drop k) : j = s.writeIdx.toNat := by
  have hpart := hlegal n
  rw [hj, Legal, if_neg (by omega)] at hpart
  have hu : Sound { s with accepted := s.accepted ++ s.backlog j } :=
    ⟨h.registered, h.free, h.nonEvent⟩
  rw [writeLoop, if_neg (by omega), if_pos hpart.1] at ht
  have hlen : (buffered s).length = s.writeIdx.toNat := by simp [buffered, backlog]
  have hblen : (s.backlog j).length = j := by simp [backlog]
  dsimp only at ht
  split_ifs at ht with hend
  · -- the loop ends, and keeps nothing
    obtain ⟨u, hu', hacc', hzero, -⟩ := sendCompleted_drained hu
    rw [hu'] at ht
    obtain rfl := Except.ok.inj ht
    have h1 : (buffered u).length = 0 := by simp [buffered, backlog, hzero]
    rw [hrest, List.length_drop, hlen] at h1
    rw [hacc', List.append_cancel_left_eq] at hacc
    have h2 := congrArg List.length hacc
    rw [hblen, List.length_take, hlen] at h2
    omega
  · obtain ⟨x, hx, hcase⟩ := writeLoop_accepted (s := { s with accepted := s.accepted ++ s.backlog j })
      hrs (by show s.writeIdx ≠ 0; omega) _ _ hu hw ht
    rw [hx, List.append_assoc, List.append_cancel_left_eq] at hacc
    rcases hcase with ⟨rfl, hsame⟩ | ⟨y, rfl⟩
    · have h1 : (buffered t).length = s.writeIdx.toNat := by
        simp [buffered, backlog, hsame]
      rw [hrest, List.length_drop, hlen] at h1
      have h2 := congrArg List.length hacc
      rw [List.append_nil, hblen, List.length_take, hlen] at h2
      omega
    · -- the byte behind the first piece is the first one again
      have hat := congrArg (fun l : Bytes => l[j]?) hacc
      rw [List.getElem?_append_right hblen.le, hblen, Nat.sub_self, List.getElem?_cons_zero, hm] at hat
      obtain ⟨hlt, hget⟩ := List.getElem?_eq_some_iff.mp hat.symm
      simp only [buffered, backlog, List.getElem_take, List.getElem_map, List.getElem_range, hm,
        marked, if_neg hpart.1.ne'] at hget
      cases hget

/-- **When the backlog is drained.**  For every backlog that is in `writeBuf_`, every channel that is
interested in writing and every infinite supply of results: the call drains the backlog, each byte
once and in order, or keeps it, and leaves the connection open, if and only if there is a backlog and
the first result other than `EAGAIN` is the whole of it or an error. -/
theorem drains_iff {w : ℕ → WriteResult} (h : Sound s) (hw : s.chan.isWriting)
    (hidx : 0 ≤ s.writeIdx) (_hmax : s.writeIdx ≤ WRITE_BUFFER_SIZE)
    (hlegal : ∀ i, Legal s.writeIdx (w i)) :
    DrainsOnce s w ↔ s.writeIdx ≠ 0 ∧ ∃ n, (∀ i < n, w i = .again) ∧
      (w n = .count s.writeIdx.toNat ∨ w n = .reset ∨ w n = .error) := by
  have hs := sound_setWriteBuf h
  constructor
  · intro hd
    obtain ⟨n, t, k, ht, hacc, hrest, -⟩ := hd marked
    have hw' : (setWriteBuf marked s).chan.isWriting := hw
    have hne : s.writeIdx ≠ 0 := by
      intro h0
      rw [handleWrite, if_pos hw'] at ht
      exact writeLoop_empty (hs marked) h0 (supplied_legal (h0 ▸ hlegal) n) _ _ t ht
    refine ⟨hne, ?_⟩
    have hsome : ∃ i, i < n ∧ w i ≠ .again := by
      by_contra hall
      have hagain : ∀ i < n, w i = .again := fun i hi => by
        by_contra hi'
        exact hall ⟨i, hi, hi'⟩
      rw [handleWrite, if_pos hw', supplied_again hagain, ← List.append_nil (List.replicate _ _),
        writeLoop_again hw'] at ht
      cases ht
    have hfirst : ∀ i < Nat.find hsome, w i = .again := by
      intro i hi
      by_contra hi'
      have hlt := (Nat.find_spec hsome).1
      exact Nat.find_min hsome hi ⟨by omega, hi'⟩
    obtain ⟨hlt, hnot⟩ := Nat.find_spec hsome
    refine ⟨Nat.find hsome, hfirst, ?_⟩
    rw [handleWrite_supplied hw' hfirst hlt] at ht
    cases hi : w (Nat.find hsome) with
    | again => exact absurd hi hnot
    | reset => exact Or.inr (Or.inl rfl)
    | error => exact Or.inr (Or.inr rfl)
    | count j =>
      left
      rw [hi] at ht
      have hj := first_whole (hs marked) hw' rfl (by show 0 < s.writeIdx; omega) hlegal hi _
        (fun r hr => by obtain ⟨i, -, rfl⟩ := List.mem_map.mp hr; exact hlegal _) ht hacc hrest
      rw [hj]
      rfl
  · rintro ⟨hne, n, hagain, hn⟩ m
    exact drains_of_first (hs m) hw (by show 0 < s.writeIdx; omega) hagain hn

/-- A connection with `n` bytes buffered and the channel writing. -/
def buffering (n : ℕ) : TcpConnection Unit :=
  { TcpConnection.new (placed (fun _ => EPOLLOUT) () (.new fun _ => 3)) () true true with
    state := .CConnected, writeIdx := n }

theorem sound_buffering (n : ℕ) : Sound (buffering n) where
  registered := (registered_new _).placed (fun _ => (vacant_new _ _).free) _
  free := free_placed _
  nonEvent := fun h => absurd rfl h

theorem drains_whole : DrainsOnce (buffering 3) fun i => if i < 2 then .again else .count 3 :=
  (drains_iff (sound_buffering 3) (by decide) (by decide) (by decide) fun i => by
    by_cases hi : i < 2
    · rw [if_pos hi]; decide
    · rw [if_neg hi]; decide).mpr
    ⟨by decide, 2, fun i hi => if_pos hi, Or.inl rfl⟩

/-- **A byte is lost**: the kernel takes two of three bytes. -/
theorem drains_short : (∀ i, Legal 3 ((fun _ : ℕ => .count 2) i)) ∧
    ¬DrainsOnce (buffering 3) fun _ => .count 2 := by
  have htwo : Legal 3 (.count 2) := by decide
  have hlegal : ∀ i, Legal 3 ((fun _ : ℕ => .count 2) i) := fun _ => htwo
  refine ⟨hlegal, fun hd => ?_⟩
  obtain ⟨n, t, k, ht, hacc, hrest, -⟩ := hd marked
  cases n with
  | zero => cases ht
  | succ n =>
    rw [handleWrite_supplied (n := 0) (by decide) (fun i hi => absurd hi (Nat.not_lt_zero i))
      (Nat.zero_lt_succ n)] at ht
    have h2 : 2 = 3 := first_whole (n := 0) (sound_setWriteBuf (sound_buffering 3) marked) (by decide) rfl
      (by decide) hlegal rfl _
      (fun r hr => by obtain ⟨i, -, rfl⟩ := List.mem_map.mp hr; exact htwo) ht hacc hrest
    cases h2

/-! ### Sending -/

/-- The bytes of the memory `m` in `[i, i + n)`. -/
def stored (m : ℕ → UInt8) (i n : ℕ) : Bytes := (List.range n).map fun j => m (i + j)

theorem stored_add (m : ℕ → UInt8) (i a b : ℕ) :
    stored m i (a + b) = stored m i a ++ stored m (i + a) b := by
  rw [stored, List.range_add, List.map_append, List.map_map, stored, stored]
  simp only [Function.comp_def, Nat.add_assoc]

theorem poke_before {m : ℕ → UInt8} {i j : ℕ} (b : Bytes) (h : j < i) : poke m i b j = m j :=
  if_neg (Nat.not_le.mpr h)

theorem stored_poke (m : ℕ → UInt8) (i : ℕ) (b : Bytes) : stored (poke m i b) i b.length = b := by
  refine List.ext_getElem (by simp [stored]) fun j h1 h2 => ?_
  simp [stored, poke, List.getElem?_eq_getElem h2]

theorem stored_poke_behind (m : ℕ → UInt8) (i n : ℕ) (b : Bytes) :
    stored (poke m i b) (i + b.length) n = stored m (i + b.length) n := by
  refine List.map_congr_left fun j _ => ?_
  have hout : b[i + b.length + j - i]? = none := List.getElem?_eq_none (by omega)
  rw [poke, if_pos (by omega), hout]
  rfl

theorem cstr_split (b : Bytes) : NUL ∉ b ∧ cstr b = b ∨ ∃ post, b = cstr b ++ NUL :: post := by
  induction b with
  | nil => exact Or.inl ⟨List.not_mem_nil, rfl⟩
  | cons c b ih =>
    by_cases hc : c = NUL
    · right
      exact ⟨b, by simp [cstr, hc]⟩
    · have hcons : cstr (c :: b) = c :: cstr b := by simp [cstr, hc]
      rw [hcons]
      rcases ih with ⟨h1, h2⟩ | ⟨post, h⟩
      · left
        refine ⟨fun hmem => ?_, by rw [h2]⟩
        rcases List.mem_cons.mp hmem with h | h
        · exact hc h.symm
        · exact h1 h
      · right
        exact ⟨post, congrArg (c :: ·) h⟩

theorem cstrAt_drop (buf : Payload) {n : ℤ} (h : 0 ≤ n) :
    buf.cstrAt n = cstr (buf.bytes.drop n.toNat) := by
  rw [Payload.cstrAt, Int.toNat_add h (by decide)]
  rfl

/-- `n` of `sendInLoop`, behind its `write`. -/
def progress (s : TcpConnection κ) (r : WriteResult) : ℤ :=
  if s.chan.isWriting then 0 else
    match r with
    | .count k => k
    | _ => -1

/-- `strcpy` reads the payload at the offset `i`, where the first half of `sendInLoop` ended in
`x`. -/
def Copies (buf : Payload) (x : ℤ × Bool × TcpConnection κ) (i : ℤ) : Prop :=
  ¬x.2.1 = true ∧ x.1 < buf.len ∧ x.1 ≤ i ∧ i ≤ x.1 + (buf.cstrAt x.1).length

/-- What the kernel has accepted and what has been stored are the payload, and the older backlog is
as it was. -/
structure Carried (buf : Payload) (s t : TcpConnection κ) : Prop where
  payload : ∃ taken, t.accepted = s.accepted ++ taken ∧
    taken ++ stored t.writeBuf s.writeIdx.toNat (t.writeIdx - s.writeIdx).toNat = buf.bytes
  backlog : ∀ i : ℕ, i < s.writeIdx → t.writeBuf i = s.writeBuf i
  room : t.writeIdx ≤ WRITE_BUFFER_SIZE

/-- `sendInLoop` carries the payload over and reads nothing outside of it, but for `spare` bytes
behind it. -/
def Carries (spare : ℕ) (s : TcpConnection κ) (buf : Payload) (r : WriteResult) : Prop :=
  (∃ t, sendInLoop buf { s with writes := [r] } = .ok t ∧ Carried buf s t) ∧
  ∀ x, trySend buf { s with writes := [r] } = .ok x → ∀ i, Copies buf x i →
    0 ≤ i ∧ i < buf.len + spare

/-- A rest that `strcpy` copies whole: what is behind its first `NUL` is in the buffer already. -/
structure Fits (spare : ℕ) (s : TcpConnection κ) (rest : Bytes) : Prop where
  terminated : NUL ∈ rest ∨ 0 < spare
  copied : s.writeIdx + (cstr rest).length + 1 ≤ WRITE_BUFFER_SIZE
  room : s.writeIdx + rest.length ≤ WRITE_BUFFER_SIZE
  behind : rest.drop ((cstr rest).length + 1) =
    stored s.writeBuf (s.writeIdx.toNat + (cstr rest).length + 1)
      (rest.length - ((cstr rest).length + 1))

variable {buf : Payload} {r : WriteResult}

/-- What `write` may answer to the payload: a part of it, or `EAGAIN`. -/
def Answers (buf : Payload) (r : WriteResult) : Prop :=
  r = .again ∨ ∃ k ≤ buf.bytes.length, r = .count k

omit [DecidableEq κ] in
theorem progress_le (hr : Answers buf r) : progress s r ≤ buf.len := by
  have hlen : (0 : ℤ) ≤ buf.len := Int.natCast_nonneg _
  unfold progress
  split
  · exact hlen
  · rcases hr with rfl | ⟨k, hk, rfl⟩
    · show (-1 : ℤ) ≤ buf.len
      omega
    · exact Int.ofNat_le.mpr hk

theorem trySend_progress (h : Sound s) (hr : Answers buf r) :
    ∃ t, trySend buf { s with writes := [r] } = .ok (progress s r, false, t) ∧ Sound t ∧
      t.writeBuf = s.writeBuf ∧ t.writeIdx = s.writeIdx ∧
      t.accepted = s.accepted ++ buf.bytes.take (progress s r).toNat := by
  have hw : ({ s with writes := [r] } : TcpConnection κ).chan.isWriting ↔ s.chan.isWriting := Iff.rfl
  unfold progress TcpConnection.trySend
  by_cases hwr : s.chan.isWriting
  · rw [if_pos (hw.mpr hwr), if_pos hwr]
    exact ⟨_, rfl, ⟨h.registered, h.free, h.nonEvent⟩, rfl, rfl, (List.append_nil _).symm⟩
  · rw [if_neg (fun h' => hwr (hw.mp h')), if_neg hwr]
    rcases hr with rfl | ⟨k, hk, rfl⟩
    · have h1 : Sound { s with
          writes := [], calls := s.calls ++ [.direct s.state s.writeIdx buf.len .again] } :=
        ⟨h.registered, h.free, h.nonEvent⟩
      refine ⟨place (· ||| CWriteEvent) { s with
          writes := [], calls := s.calls ++ [.direct s.state s.writeIdx buf.len .again] },
        ?_, h1.place _, rfl, rfl, (List.append_nil _).symm⟩
      simp only [writeDirect, ok_bind, enableWrite, onChannel_setEvents h1, pure_eq_ok]
    · simp only [writeDirect, if_pos hk, ok_bind, Int.toNat_natCast]
      split_ifs
      · exact ⟨_, rfl, ⟨h.registered, h.free, h.nonEvent⟩, rfl, rfl, rfl⟩
      · exact ⟨_, rfl, ⟨h.registered, h.free, h.nonEvent⟩, rfl, rfl, rfl⟩

theorem sendInLoop_whole (h : Sound s) (hr : Answers buf r) (hn : progress s r = buf.len) :
    ∃ t, sendInLoop buf { s with writes := [r] } = .ok t ∧ t.writeBuf = s.writeBuf ∧
      t.writeIdx = s.writeIdx ∧ t.accepted = s.accepted ++ buf.bytes := by
  obtain ⟨t, ht, -, hbuf, hidx, hacc⟩ := trySend_progress h hr
  refine ⟨{ t with readBuf := [] }, ?_, hbuf, hidx, ?_⟩
  · rw [TcpConnection.sendInLoop, ht]
    simp only [ok_bind]
    rw [if_neg (by omega)]
    rfl
  · rw [hacc, hn, Payload.len, Int.toNat_natCast, List.take_length]

omit [DecidableEq κ] in
theorem save_eq {n : ℤ} (h1 : s.writeIdx + (buf.cstrAt n).length + 1 ≤ WRITE_BUFFER_SIZE)
    (h2 : s.writeIdx + (buf.len - n) ≤ INT_MAX) : s.save buf n = .ok { s with
      writeBuf := poke s.writeBuf s.writeIdx.toNat (buf.cstrAt n ++ [NUL])
      writeIdx := s.writeIdx + (buf.len - n) } := by
  have hlen : ((buf.cstrAt n ++ [NUL]).length : ℤ) = (buf.cstrAt n).length + 1 := by simp
  unfold TcpConnection.save
  dsimp only
  rw [if_neg (by omega), if_neg (by omega)]
  rfl

omit [DecidableEq κ] in
theorem save_ok {n : ℤ} {t : TcpConnection κ} (ht : s.save buf n = .ok t) :
    s.writeIdx + (buf.cstrAt n).length + 1 ≤ WRITE_BUFFER_SIZE ∧
      s.writeIdx + (buf.len - n) ≤ INT_MAX := by
  have hlen : ((buf.cstrAt n ++ [NUL]).length : ℤ) = (buf.cstrAt n).length + 1 := by simp
  unfold TcpConnection.save at ht
  dsimp only at ht
  split at ht
  · cases ht
  · split at ht
    · cases ht
    · omega

theorem sendInLoop_save (h : Sound s) (hr : Answers buf r) (hn : progress s r < buf.len)
    (h1 : s.writeIdx + (buf.cstrAt (progress s r)).length + 1 ≤ WRITE_BUFFER_SIZE)
    (h2 : s.writeIdx + (buf.len - progress s r) ≤ INT_MAX) :
    ∃ t, sendInLoop buf { s with writes := [r] } = .ok t ∧
      t.writeBuf = poke s.writeBuf s.writeIdx.toNat (buf.cstrAt (progress s r) ++ [NUL]) ∧
      t.writeIdx = s.writeIdx + (buf.len - progress s r) ∧
      t.accepted = s.accepted ++ buf.bytes.take (progress s r).toNat := by
  obtain ⟨t, ht, hs, hbuf, hidx, hacc⟩ := trySend_progress h hr
  rw [← hidx] at h1 h2
  have hu : Sound { t with
      writeBuf := poke t.writeBuf t.writeIdx.toNat (buf.cstrAt (progress s r) ++ [NUL])
      writeIdx := t.writeIdx + (buf.len - progress s r) } := ⟨hs.registered, hs.free, hs.nonEvent⟩
  rw [TcpConnection.sendInLoop, ht]
  simp only [ok_bind]
  rw [if_pos ⟨Bool.false_ne_true, hn⟩, save_eq h1 h2]
  simp only [ok_bind]
  split
  · exact ⟨_, rfl, by rw [hbuf, hidx], by rw [hidx], hacc⟩
  · rw [enableWrite, onChannel_setEvents hu]
    exact ⟨_, rfl, by rw [← hbuf, ← hidx]; rfl, by rw [← hidx]; rfl, hacc⟩

theorem sendInLoop_room (h : Sound s) (hr : Answers buf r) (hn : progress s r < buf.len)
    {t : TcpConnection κ} (ht : sendInLoop buf { s with writes := [r] } = .ok t) :
    s.writeIdx + (buf.cstrAt (progress s r)).length + 1 ≤ WRITE_BUFFER_SIZE ∧
      s.writeIdx + (buf.len - progress s r) ≤ INT_MAX := by
  obtain ⟨u, hu, -, -, hidx, -⟩ := trySend_progress h hr
  rw [TcpConnection.sendInLoop, hu] at ht
  simp only [ok_bind] at ht
  rw [if_pos ⟨Bool.false_ne_true, hn⟩] at ht
  obtain ⟨v, hv, -⟩ := bind_eq_ok.mp ht
  rw [← hidx]
  exact save_ok hv

/-- What has been stored is the rest of the payload, if it was there behind the first `NUL`. -/
theorem stored_copy (m : ℕ → UInt8) (i : ℕ) (rest : Bytes) :
    stored (poke m i (cstr rest ++ [NUL])) i rest.length = rest ↔
      rest.drop ((cstr rest).length + 1) = stored m (i + (cstr rest).length + 1)
        (rest.length - ((cstr rest).length + 1)) := by
  generalize hc : cstr rest = c
  rcases cstr_split rest with ⟨-, hwhole⟩ | ⟨post, hpost⟩
  · have hrest : rest = c := hwhole.symm.trans hc
    have h0 : rest.length - (rest.length + 1) = 0 := by omega
    rw [← hrest, h0, List.drop_of_length_le (by omega)]
    refine iff_of_true ?_ rfl
    have h1 := stored_poke m i (rest ++ [NUL])
    rw [List.length_append, stored_add] at h1
    exact (List.append_inj h1 (by simp [stored])).1
  · rw [hc] at hpost
    have hlen : rest.length = (c ++ [NUL]).length + post.length := by
      rw [hpost]; simp; omega
    have hdrop : rest.drop (c.length + 1) = post := by
      rw [hpost, List.append_cons, List.drop_left' (by simp)]
    have hpoke := stored_poke m i (c ++ [NUL])
    have hbehind := stored_poke_behind m i post.length (c ++ [NUL])
    have hadd : (c ++ [NUL]).length = c.length + 1 := by simp
    rw [hdrop, hlen, stored_add, hpoke, hbehind, hadd, Nat.add_sub_cancel_left, ← Nat.add_assoc]
    rw [hpost, List.append_cons c NUL post, List.append_cancel_left_eq]
    exact eq_comm

theorem length_cstr_lt (b : Bytes) (spare : ℕ) :
    (cstr b).length < b.length + spare ↔ NUL ∈ b ∨ 0 < spare := by
  rcases cstr_split b with ⟨hnul, hwhole⟩ | ⟨post, hpost⟩
  · rw [hwhole, or_iff_right hnul]
    omega
  · have hl := congrArg List.length hpost
    rw [List.length_append, List.length_cons] at hl
    have hnul : NUL ∈ b := by rw [hpost]; simp
    exact iff_of_true (by omega) (Or.inl hnul)

theorem carries_whole (spare : ℕ) (h : Sound s) (hmax : s.writeIdx ≤ WRITE_BUFFER_SIZE)
    (hr : Answers buf r) (hn : progress s r = buf.len) : Carries spare s buf r := by
  obtain ⟨u, hu, -⟩ := trySend_progress h hr
  obtain ⟨t, ht, hbuf, hidx, hacc⟩ := sendInLoop_whole h hr hn
  refine ⟨⟨t, ht, ⟨buf.bytes, hacc, ?_⟩, fun i _ => by rw [hbuf], by rw [hidx]; exact hmax⟩, ?_⟩
  · rw [hidx, Int.sub_self]
    exact List.append_nil _
  · intro x hx i hcopy
    rw [hu] at hx
    cases hx
    exact absurd hcopy.2.1 (by rw [hn]; exact lt_irrefl _)

theorem Carries.fits {spare : ℕ} (hc : Carries spare s buf r) (h : Sound s) (hr : Answers buf r)
    (hlt : progress s r < buf.len) :
    0 ≤ progress s r ∧ Fits spare s (buf.bytes.drop (progress s r).toNat) := by
  obtain ⟨⟨t, ht, ⟨taken, htaken, hpayload⟩, -, hroom⟩, hreads⟩ := hc
  obtain ⟨u, hu, -⟩ := trySend_progress h hr
  have hlen : buf.len = buf.bytes.length := rfl
  have hfirst := hreads _ hu (progress s r) ⟨Bool.false_ne_true, hlt, le_refl _, by omega⟩
  have hlast := hreads _ hu _ ⟨Bool.false_ne_true, hlt, by omega, le_refl _⟩
  obtain ⟨h1, h2⟩ := sendInLoop_room h hr hlt ht
  obtain ⟨t', ht', hbuf, hidx, hacc⟩ := sendInLoop_save h hr hlt h1 h2
  rw [ht] at ht'
  obtain rfl := Except.ok.inj ht'
  dsimp only at hfirst hlast
  rw [cstrAt_drop buf hfirst.1] at h1 hlast hbuf
  refine ⟨hfirst.1, ?_, h1, ?_, ?_⟩
  · rw [← length_cstr_lt, List.length_drop]
    omega
  · rw [List.length_drop]
    omega
  · rw [← stored_copy, ← hbuf]
    rw [hacc, List.append_cancel_left_eq] at htaken
    rw [← htaken] at hpayload
    have hsplit := hpayload.trans (List.take_append_drop (progress s r).toNat buf.bytes).symm
    rw [List.append_cancel_left_eq] at hsplit
    rw [List.length_drop]
    have hcount : (t.writeIdx - s.writeIdx).toNat = buf.bytes.length - (progress s r).toNat := by
      omega
    rw [← hcount]
    exact hsplit

theorem Fits.carries {spare : ℕ} (hfits : Fits spare s (buf.bytes.drop (progress s r).toNat))
    (h : Sound s) (h0 : 0 ≤ s.writeIdx) (hr : Answers buf r) (h1 : 0 ≤ progress s r)
    (hlt : progress s r < buf.len) : Carries spare s buf r := by
  obtain ⟨u, hu, -⟩ := trySend_progress h hr
  have hlen : buf.len = buf.bytes.length := rfl
  have hroom := hfits.room
  rw [List.length_drop] at hroom
  have hcopied := hfits.copied
  rw [← cstrAt_drop buf h1] at hcopied
  have hsize : (WRITE_BUFFER_SIZE : ℤ) ≤ INT_MAX := by decide
  obtain ⟨t, ht, hbuf, hidx, hacc⟩ := sendInLoop_save h hr hlt hcopied (by omega)
  rw [cstrAt_drop buf h1] at hbuf
  refine ⟨⟨t, ht, ⟨_, hacc, ?_⟩, fun i hi => ?_, by omega⟩, fun x hx i hcopy => ?_⟩
  · have hcount : (t.writeIdx - s.writeIdx).toNat =
        (buf.bytes.drop (progress s r).toNat).length := by
      rw [List.length_drop]; omega
    rw [hbuf, hcount, (stored_copy _ _ _).mpr hfits.behind, List.take_append_drop]
  · rw [hbuf, poke_before _ (by omega)]
  · rw [hu] at hx
    cases hx
    obtain ⟨-, -, hlow, hhigh⟩ := hcopy
    dsimp only at hlow hhigh
    rw [cstrAt_drop buf h1] at hhigh
    have hstop := (length_cstr_lt _ spare).mpr hfits.terminated
    rw [List.length_drop] at hstop
    constructor <;> omega

/-- **When a payload is carried over.**  For every backlog, payload and answer of `write`, and
`n` bytes taken by it: the payload is carried over, and nothing outside of it is read but for
`spare` bytes behind it, if and only if nothing is left, or `n` is not negative and `strcpy` copies
the rest whole. -/
theorem carries_iff (spare : ℕ) (h : Sound s) (h0 : 0 ≤ s.writeIdx)
    (hmax : s.writeIdx ≤ WRITE_BUFFER_SIZE) (hr : Answers buf r) :
    Carries spare s buf r ↔ progress s r = buf.len ∨
      0 ≤ progress s r ∧ progress s r < buf.len ∧
        Fits spare s (buf.bytes.drop (progress s r).toNat) := by
  have hle := progress_le (s := s) hr
  by_cases hn : progress s r = buf.len
  · exact iff_of_true (carries_whole spare h hmax hr hn) (Or.inl hn)
  · have hlt : progress s r < buf.len := lt_of_le_of_ne hle hn
    rw [or_iff_right hn]
    constructor
    · intro hc
      obtain ⟨h1, hfits⟩ := hc.fits h hr hlt
      exact ⟨h1, hlt, hfits⟩
    · rintro ⟨h1, -, hfits⟩
      exact hfits.carries h h0 hr h1 hlt

theorem carries_partly : Carries 0 (TcpConnection.new (EpollPoller.new fun _ => 3) () true true)
    ⟨0, [1, 2, NUL, NUL]⟩ (.count 1) :=
  (carries_iff 0 (sound_start (vacant_new (fun _ => 3) ()) true true) (by decide) (by decide)
    (Or.inr ⟨1, by decide, rfl⟩)).mpr
    (Or.inr ⟨by decide, by decide, ⟨Or.inl (by decide), by decide, by decide, by decide⟩⟩)

/-- **A byte is invented**: the kernel has no room, and `strcpy` begins in front of the payload. -/
theorem carries_not : Answers ⟨0, ascii "ok"⟩ .again ∧
    ¬Carries 0 (TcpConnection.new (EpollPoller.new fun _ => 3) () true true) ⟨0, ascii "ok"⟩
      .again := by
  have hr : Answers ⟨0, ascii "ok"⟩ .again := Or.inl rfl
  refine ⟨hr, fun h => ?_⟩
  obtain ⟨t, ht, -⟩ := trySend_progress (sound_start (vacant_new (fun _ => 3) ()) true true) hr
  have hfront : Copies ⟨0, ascii "ok"⟩ (-1, false, t) (-1) :=
    ⟨Bool.false_ne_true, by show (-1 : ℤ) < 2; decide, le_refl _, by show (-1 : ℤ) ≤ -1 + _; omega⟩
  exact absurd (h.2 _ ht (-1) hfront).1 (by decide)

end ReactorServer.Net.Transfer
