import ReactorServer.Http.Exchange
import Mathlib.Data.List.Forall2

/-!
# Requests and read events

The bytes of a list of requests arrive cut into read events.  The parser starts anew with every
event and every event is answered, so the responses are those to the requests only where the events
are aligned with them (`responses_iff`).
-/

namespace ReactorServer.Http.Segmentation

open ReactorServer.Cpp ReactorServer.Lib.Runs ReactorServer.Lib.Triples
open ReactorServer.Http.Request ReactorServer.Http.Response ReactorServer.Http.Context
open ReactorServer.Http.Server ReactorServer.Http.Parsing ReactorServer.Http.Answer
open ReactorServer.Http.Exchange
open ReactorServer.Net.Poller ReactorServer.Net.Connection ReactorServer.Net.Dispatch

variable {κ : Type} [DecidableEq κ] {s t : TcpConnection κ} {host : Host} {q r : Head}
  {rs : List Head} {e : List Bytes} {evs : List (List Bytes)}

/-! ### Requests, events and their alignment -/

/-- The request is well formed, and does not ask for the connection to be closed. -/
structure IsGet (r : Head) : Prop where
  wf : r.WF
  method : r.method = ascii "GET"
  noNUL : NUL ∉ r.render []
  connection : ∃ v, connection r = some v ∧ v ≠ ascii "close"

/-- The events bring the bytes of the requests, each in one burst or more. -/
structure Cuts (rs : List Head) (evs : List (List Bytes)) : Prop where
  bytes : evs.flatten.flatten = (rs.map (·.render [])).flatten
  event : ∀ e ∈ evs, e ≠ []
  burst : ∀ e ∈ evs, ∀ b ∈ e, b ≠ []
  short : ∀ e ∈ evs, e.flatten.length < READ_BUFFER_SIZE

/-- How many of the requests are complete when `n` bytes have arrived. -/
def arrived : List Head → ℕ → ℕ
  | [], _ => 0
  | r :: rs, n =>
    if (r.render []).length ≤ n then arrived rs (n - (r.render []).length) + 1 else 0

/-- At most one request follows one that closes the connection: the response to it is dropped, but
then the read buffer is not emptied any more. -/
def KeepsOpen : List Head → Prop
  | [] => True
  | r :: rs => (closesAfter r = true → rs.length < 2) ∧ KeepsOpen rs

/-- **The events are aligned with the requests**: there are as many, every event begins with a head
that is answered as its request, and no event comes before its request is complete. -/
structure Aligned (rs : List Head) (evs : List (List Bytes)) : Prop where
  heads : List.Forall₂ (fun e r => ∃ q, Found q e.flatten ∧ Alike q r) evs rs
  keepsOpen : KeepsOpen rs
  arrived : ∀ n, n ≤ rs.length → n ≤ arrived rs (evs.take n).flatten.flatten.length

/-- An established connection of the server, and the results its `write`s will have. -/
def opened (host : Host) (p : EpollPoller κ) (c : κ) (w b : Bool) (writes : List WriteResult) :
    Except Fault (TcpConnection κ) :=
  { TcpConnection.new p c w b with writes := writes }.connectionEstablished (httpServer host)

/-- **One response to each request**, whatever the files are and the writes return: in the end these
are the responses passed to `send`, and at no time are there more than requests that have arrived.
A run in which a response does not fit into the output buffer is not considered. -/
def Responds (p : EpollPoller κ) (c : κ) (w b : Bool) (rs : List Head)
    (evs : List (List Bytes)) : Prop :=
  ∀ host writes,
    Ends OutputFault (fun t => t.passed = rs.map (respond host))
      (opened host p c w b writes >>= serve host evs) ∧
    ∀ n, Ends OutputFault
      (fun t => t.passed.length ≤ arrived rs (evs.take n).flatten.flatten.length)
      (opened host p c w b writes >>= serve host (evs.take n))

/-! ### Aligned events are answered -/

theorem found_render (h : IsGet r) : Found r (r.render []) := by
  obtain ⟨v, hv, -⟩ := h.connection
  exact ⟨h.wf, ⟨_, rfl, ended_emptyLine []⟩, by rw [hv]; rfl⟩

theorem serve_aligned (hheads : List.Forall₂ (fun e r => ∃ q, Found q e.flatten ∧ Alike q r) evs rs)
    (hopen : KeepsOpen rs) (hb : Bursts evs) (h : Clean s)
    (hst : s.state = .CDisconnecting → rs.length ≤ 1) :
    Ends OutputFault (fun t => t.passed = s.passed ++ rs.map (respond host)) (serve host evs s) := by
  induction hheads generalizing s with
  | nil => exact (List.append_nil _).symm
  | @cons e r es rs hhead hheads ih =>
    obtain ⟨q, hq, halike⟩ := hhead
    obtain ⟨hne, hlt, hb'⟩ := bursts_cons hb
    refine (event_answered h hne hlt hq).bind fun t ht => ?_
    have hpassed : t.passed = s.passed ++ [respond host r] := by
      rw [ht.passed, respond_congr halike]
    have hgoal : Ends OutputFault (fun t' => t'.passed = t.passed ++ rs.map (respond host))
        (serve host es t) := by
      rcases h.state with hs | hs
      · -- the connection has been connected: the next event finds it clean
        refine ih hopen.2 hb' (ht.clean hs) fun ht' => ?_
        rw [(ht.connected hs).2] at ht'
        split_ifs at ht' with hc
        exact Nat.lt_succ_iff.mp (hopen.1 (halike.2.2.symm.trans hc))
      · -- it has been shut down: this was the last request
        have hlen := hst hs
        obtain rfl : rs = [] := List.eq_nil_of_length_eq_zero (by rw [List.length_cons] at hlen; omega)
        obtain rfl : es = [] := by cases hheads; rfl
        exact (List.append_nil _).symm
    refine hgoal.imp fun t' ht' => ?_
    rw [ht', hpassed, List.map_cons, List.append_assoc]
    rfl

/-! ### Events that are answered are aligned -/

theorem noNUL_path {u : Bytes} (hu : Found q u) (h : NUL ∉ u) :
    NUL ∉ q.request.path := by
  obtain ⟨v, rfl, -⟩ := hu.split
  intro hmem
  refine h ?_
  have htarget : NUL ∈ q.target := (List.takeWhile_prefix _).subset hmem
  simp [Head.lines, Head.requestLine, htarget]

theorem keepsOpen_of_length (h : rs.length ≤ 1) : KeepsOpen rs := by
  match rs with
  | [] => trivial
  | [r] => exact ⟨fun _ => by simp, trivial⟩
  | _ :: _ :: _ => simp at h

theorem served_cons {e : List Bytes} (hb : Bursts (e :: evs)) (hq : Found q e.flatten)
    (hc : Clean s) (h : serve host (e :: evs) s = .ok t)
    (hpassed : t.passed = s.passed ++ (r :: rs).map (respond host)) :
    ∃ s', Answered host q s s' ∧ serve host evs s' = .ok t ∧ respond host q = respond host r ∧
      t.passed = s'.passed ++ rs.map (respond host) := by
  obtain ⟨hne, hlt, hb'⟩ := bursts_cons hb
  obtain ⟨s', h1, h2⟩ := serve_cons_ok h
  have hans := (event_answered hc hne hlt hq).of_ok h1
  have hpre : s'.passed <+: t.passed := by
    rcases hc.state with hs | hs
    · exact serve_grows hb' (hans.clean hs) h2
    · rw [serve_dirty hb' hq.wf (hans.disconnecting hs).2 hans.context h2]
  obtain ⟨more, hmore⟩ := hpre
  rw [hpassed, hans.passed, List.map_cons, List.append_assoc] at hmore
  have hcons := List.append_cancel_left hmore
  injection hcons with hresp hrest
  refine ⟨s', hans, h2, hresp, ?_⟩
  rw [hpassed, hans.passed, List.map_cons, hresp, List.append_assoc]
  rfl

/-- If the responses are those to the requests whatever files there are, then the events begin with
the requests' heads, one for one. -/
theorem heads_of_served {st : State} (hrs : ∀ r ∈ rs, IsGet r) (hb : Bursts evs)
    (hnul : ∀ e ∈ evs, NUL ∉ e.flatten)
    (h : ∀ host, Tiny host → ∃ s t : TcpConnection κ, Clean s ∧ s.state = st ∧
      serve host evs s = .ok t ∧ t.passed = s.passed ++ rs.map (respond host)) :
    ∃ pre post, evs = pre ++ post ∧
      List.Forall₂ (fun e r => ∃ q, Found q e.flatten ∧ Alike q r) pre rs ∧ KeepsOpen rs ∧
      (st = .CDisconnecting → rs.length ≤ 1) := by
  induction rs generalizing evs st with
  | nil => exact ⟨[], evs, rfl, .nil, trivial, fun _ => Nat.zero_le _⟩
  | cons r rs ih =>
    cases evs with
    | nil =>
      obtain ⟨s, t, -, -, h1, h2⟩ := h nowhere tiny_nowhere
      rw [← Except.ok.inj h1] at h2
      exact absurd h2 (by simp)
    | cons e es =>
      obtain ⟨hne, hlt, hb'⟩ := bursts_cons hb
      -- the head is a matter of the bytes alone
      obtain ⟨q, hq⟩ : ∃ q, Found q e.flatten := by
        obtain ⟨s, t, hc, -, h1, -⟩ := h nowhere tiny_nowhere
        obtain ⟨s', h1, -⟩ := serve_cons_ok h1
        exact event_ok hc hne hlt h1
      have hstep : ∀ host, Tiny host → ∃ s s' t : TcpConnection κ, s.state = st ∧ Clean s ∧
          Answered host q s s' ∧ serve host es s' = .ok t ∧ respond host q = respond host r ∧
          t.passed = s'.passed ++ rs.map (respond host) := by
        intro host hhost
        obtain ⟨s, t, hc, hst, h1, h2⟩ := h host hhost
        obtain ⟨s', hans, h3, hresp, h4⟩ := served_cons hb hq hc h1 h2
        exact ⟨s, s', t, hst, hc, hans, h3, hresp, h4⟩
      have halike : Alike q r := by
        have hr := hrs r List.mem_cons_self
        refine alike_of_respond hq.wf.length hr.wf.length
          (noNUL_path hq (hnul e List.mem_cons_self))
          (noNUL_path (found_render hr) hr.noNUL) fun host hhost => ?_
        obtain ⟨-, -, -, -, -, -, -, h', -⟩ := hstep host hhost
        exact h'
      obtain ⟨s, s', t, hst, hc, hans, h1, -, h2⟩ := hstep nowhere tiny_nowhere
      rcases hc.state with hs | hs
      · have hnext : ∀ host, Tiny host → ∃ s t : TcpConnection κ, Clean s ∧
            s.state = (if closesAfter q then .CDisconnecting else .CConnected) ∧
            serve host es s = .ok t ∧ t.passed = s.passed ++ rs.map (respond host) := by
          intro host hhost
          obtain ⟨a, a', t', ha, ha', hans', h3, -, h4⟩ := hstep host hhost
          have ha'' : a.state = .CConnected := ha.trans (hst.symm.trans hs)
          exact ⟨a', t', hans'.clean ha'', (hans'.connected ha'').2, h3, h4⟩
        obtain ⟨pre, post, hes, hheads, hopen, hlast⟩ :=
          ih (fun r' hr' => hrs r' (List.mem_cons_of_mem _ hr')) hb'
            (fun e' he' => hnul e' (List.mem_cons_of_mem _ he')) hnext
        refine ⟨e :: pre, post, by rw [hes]; rfl, .cons ⟨q, hq, halike⟩ hheads, ⟨?_, hopen⟩, ?_⟩
        · intro hcl
          exact Nat.lt_succ_of_le (hlast (if_pos (halike.2.2.trans hcl)))
        · intro h'
          rw [← hst, hs] at h'
          cases h'
      · -- nothing more is answered
        rw [serve_dirty hb' hq.wf (hans.disconnecting hs).2 hans.context h1] at h2
        have hnil : rs = [] := List.map_eq_nil_iff.mp (List.self_eq_append_right.mp h2)
        subst hnil
        exact ⟨[e], es, rfl, .cons ⟨q, hq, halike⟩ .nil, keepsOpen_of_length (by simp),
          fun _ => by simp⟩

/-! ### The two together -/

omit [DecidableEq κ] in
theorem onConnection_connected (h : s.state = .CConnected) :
    s.onConnection = .ok (s.setContext .new) := if_pos h

theorem opened_ok (host : Host) {p : EpollPoller κ} {c : κ} (hp : Vacant p c) (w b : Bool)
    (writes : List WriteResult) : ∃ s, opened host p c w b writes = .ok s ∧ Clean s ∧
      s.state = .CConnected ∧ s.passed = [] ∧ s.writes = writes ∧ ¬s.chan.isWriting := by
  let a : TcpConnection κ := ({ TcpConnection.new p c w b with writes := writes }).setState .CConnected
  have ha : Sound a := (sound_start hp w b).congr rfl rfl
  have hwriting : ¬a.chan.isWriting := by
    show ¬(p.chan c).isWriting
    rw [hp.new]
    show ¬CNoneEvent &&& CWriteEvent ≠ 0
    decide
  refine ⟨(place (· ||| CReadEvent) a).setContext .new, ?_, ⟨Or.inl rfl, rfl, rfl, ?_⟩, rfl, rfl, rfl,
    fun h => hwriting ((place_isWriting keepsWrite_enableRead).mp h)⟩
  · unfold opened TcpConnection.connectionEstablished
    have hassert : assert .connectionEstablished
        (({ TcpConnection.new p c w b with writes := writes } : TcpConnection κ).state =
          .CConnecting) = .ok () := if_pos rfl
    rw [hassert, ok_bind]
    show (a.onChannel (EpollPoller.setEvents (· ||| CReadEvent)) >>= _) = _
    rw [onChannel_setEvents ha, ok_bind]
    exact onConnection_connected (s := place (· ||| CReadEvent) a) rfl
  · exact (ha.place _).congr rfl rfl

theorem arrived_all {n : ℕ} (h : rs.length ≤ arrived rs n) :
    (rs.map (·.render [])).flatten.length ≤ n := by
  induction rs generalizing n with
  | nil => exact Nat.zero_le _
  | cons r rs ih =>
    rw [arrived] at h
    split_ifs at h with hle
    · have := ih (Nat.le_of_succ_le_succ h)
      rw [List.map_cons, List.flatten_cons, List.length_append]
      omega
    · rw [List.length_cons] at h
      omega

theorem KeepsOpen.take (h : KeepsOpen rs) (n : ℕ) : KeepsOpen (rs.take n) := by
  induction rs generalizing n with
  | nil => rw [List.take_nil]; trivial
  | cons r rs ih =>
    cases n with
    | zero => trivial
    | succ n =>
      refine ⟨fun hc => ?_, ih h.2 n⟩
      have := h.1 hc
      rw [List.length_take]
      omega

theorem bursts_take (h : Bursts evs) (n : ℕ) : Bursts (evs.take n) :=
  ⟨fun e he => h.1 e (List.mem_of_mem_take he), fun e he => h.2 e (List.mem_of_mem_take he)⟩

theorem serve_take (host : Host)
    (hheads : List.Forall₂ (fun e r => ∃ q, Found q e.flatten ∧ Alike q r) evs rs)
    (hopen : KeepsOpen rs) (hb : Bursts evs) (h : Clean s) (hst : s.state = .CConnected) (n : ℕ) :
    Ends OutputFault (fun t => t.passed = s.passed ++ (rs.take n).map (respond host))
      (serve host (evs.take n) s) :=
  serve_aligned (List.forall₂_take n hheads) (hopen.take n) (bursts_take hb n) h fun h' => by
    rw [hst] at h'
    cases h'

theorem Cuts.bursts (h : Cuts rs evs) : Bursts evs := ⟨h.burst, h.short⟩

theorem Cuts.noNUL (h : Cuts rs evs) (hrs : ∀ r ∈ rs, IsGet r) : ∀ e ∈ evs, NUL ∉ e.flatten := by
  intro e he hmem
  have hall : NUL ∈ evs.flatten.flatten := by
    obtain ⟨burst, h1, h2⟩ := List.mem_flatten.mp hmem
    exact List.mem_flatten.mpr ⟨burst, List.mem_flatten.mpr ⟨e, he, h1⟩, h2⟩
  rw [h.bytes] at hall
  obtain ⟨bytes, h1, h2⟩ := List.mem_flatten.mp hall
  obtain ⟨r, hr, rfl⟩ := List.mem_map.mp h1
  exact (hrs r hr).noNUL h2

/-- With no file that has content, and writes that fail for good, nothing is left to go wrong but
the parser. -/
theorem Responds.served {p : EpollPoller κ} {c : κ} {w b : Bool} (hp : Vacant p c)
    (hb : Bursts evs) (h : Responds p c w b rs evs) (hhost : Tiny host) (n : ℕ) :
    ∃ s : TcpConnection κ, Clean s ∧ s.state = .CConnected ∧ s.passed = [] ∧
      (∃ t, serve host evs s = .ok t ∧ t.passed = rs.map (respond host)) ∧
      ∃ t, serve host (evs.take n) s = .ok t ∧
        t.passed.length ≤ arrived rs (evs.take n).flatten.flatten.length := by
  obtain ⟨s, hs, hc, hst, hpassed, hwrites, hw⟩ := opened_ok host hp w b
    (List.replicate evs.length .reset)
  have hquiet : Quiet evs.length s :=
    ⟨hw, by rw [hwrites, List.length_replicate], fun r hr => by
      rw [hwrites] at hr
      exact List.eq_of_mem_replicate hr⟩
  have hquiet' : Quiet (evs.take n).length s :=
    ⟨hw, (List.length_take_le' _ _).trans hquiet.enough, hquiet.reset⟩
  obtain ⟨h1, h2⟩ := h host (List.replicate evs.length .reset)
  have h2 := h2 n
  rw [hs, ok_bind] at h1 h2
  exact ⟨s, hc, hst, hpassed, h1.returns (serve_quiet hhost hb hc.context hquiet),
    h2.returns (serve_quiet hhost (bursts_take hb n) hc.context hquiet')⟩

/-- Where there is one response to each request the events are aligned. -/
theorem aligned_of_responds {p : EpollPoller κ} {c : κ} {w b : Bool} (hp : Vacant p c)
    (hrs : ∀ r ∈ rs, IsGet r) (hcut : Cuts rs evs) (h : Responds p c w b rs evs) :
    Aligned rs evs := by
  have hb := hcut.bursts
  obtain ⟨pre, post, hevs, hheads, hopen, -⟩ := heads_of_served hrs hb (hcut.noNUL hrs)
    fun host hhost => by
      obtain ⟨s, hc, hst, hpassed, ⟨t, h1, h2⟩, -⟩ := h.served hp hb hhost 0
      exact ⟨s, t, hc, hst, h1, by rw [hpassed, h2]; rfl⟩
  have hlen : pre.length = rs.length := hheads.length_eq
  have hbpre : Bursts pre :=
    ⟨fun e he => hb.1 e (hevs ▸ List.mem_append_left _ he),
      fun e he => hb.2 e (hevs ▸ List.mem_append_left _ he)⟩
  have harrived : ∀ n, n ≤ rs.length → n ≤ arrived rs (evs.take n).flatten.flatten.length := by
    intro n hn
    obtain ⟨s, hc, hst, hpassed, -, t, h1, h2⟩ := h.served hp hb tiny_nowhere n
    have htake : evs.take n = pre.take n := by
      rw [hevs, List.take_append_of_le_length (by omega)]
    have h3 := serve_take nowhere hheads hopen hbpre hc hst n
    rw [← htake] at h3
    have h4 := h3.of_ok h1
    rw [h4, hpassed, List.nil_append, List.length_map, List.length_take, Nat.min_eq_left hn] at h2
    exact h2
  have hpost : post = [] := by
    have hall := arrived_all (harrived _ le_rfl)
    rw [← hcut.bytes, ← hlen, hevs, List.take_left' rfl, List.flatten_append, List.flatten_append,
      List.length_append] at hall
    by_contra hne
    obtain ⟨e, es, rfl⟩ := List.exists_cons_of_ne_nil hne
    have he : e ∈ evs := hevs ▸ List.mem_append_right _ List.mem_cons_self
    obtain ⟨burst, bs, rfl⟩ := List.exists_cons_of_ne_nil (hcut.event e he)
    have hburst := List.length_pos_iff.mpr (hcut.burst _ he burst List.mem_cons_self)
    simp only [List.flatten_cons, List.cons_append, List.length_append] at hall
    omega
  rw [hpost, List.append_nil] at hevs
  exact ⟨hevs ▸ hheads, hopen, harrived⟩

theorem responds_of_aligned {p : EpollPoller κ} {c : κ} (hp : Vacant p c) (w b : Bool)
    (hb : Bursts evs) (h : Aligned rs evs) : Responds p c w b rs evs := by
  intro host writes
  obtain ⟨s, hs, hc, hst, hpassed, -⟩ := opened_ok host hp w b writes
  have hlen : evs.length = rs.length := h.heads.length_eq
  rw [hs, ok_bind]
  refine ⟨?_, fun n => ?_⟩
  · refine (serve_aligned h.heads h.keepsOpen hb hc fun h' => ?_).imp fun t ht => ?_
    · rw [hst] at h'
      cases h'
    · rw [ht, hpassed, List.nil_append]
  · rw [ok_bind]
    refine (serve_take host h.heads h.keepsOpen hb hc hst n).imp fun t ht => ?_
    rw [ht, hpassed, List.nil_append, List.length_map, List.length_take]
    rcases Nat.le_total n rs.length with hn | hn
    · rw [Nat.min_eq_left hn]
      exact h.arrived n hn
    · have htake : evs.take n = evs.take rs.length := by
        rw [List.take_of_length_le (by omega), List.take_of_length_le (by omega)]
      rw [Nat.min_eq_right hn, htake]
      exact h.arrived _ le_rfl

/-- **Segmentation.**  There is one response to each request if and only if the read events are
aligned with the requests. -/
theorem responses_iff {p : EpollPoller κ} {c : κ} (hp : Vacant p c) (w b : Bool)
    (hrs : ∀ r ∈ rs, IsGet r) (hcut : Cuts rs evs) :
    Responds p c w b rs evs ↔ Aligned rs evs :=
  ⟨aligned_of_responds hp hrs hcut, responds_of_aligned hp w b hcut.bursts⟩

/-! ### Requests in events of their own, and a request in two -/

theorem arrived_own {n : ℕ} (hn : n ≤ rs.length) :
    n ≤ arrived rs ((rs.map fun r => [r.render []]).take n).flatten.flatten.length := by
  induction rs generalizing n with
  | nil => exact hn
  | cons r rs ih =>
    cases n with
    | zero => exact Nat.zero_le _
    | succ n =>
      have := ih (Nat.le_of_succ_le_succ hn)
      simp only [List.map_cons, List.take_succ_cons, List.flatten_cons, List.singleton_append,
        List.length_append]
      rw [arrived, if_pos (by omega), Nat.add_sub_cancel_left]
      omega

theorem aligned_own (hrs : ∀ r ∈ rs, IsGet r) (hopen : KeepsOpen rs) :
    Aligned rs (rs.map fun r => [r.render []]) where
  heads := by
    rw [List.forall₂_map_left_iff]
    refine List.forall₂_same.mpr fun r hr => ⟨r, ?_, rfl, rfl, rfl⟩
    simpa using found_render (hrs r hr)
  keepsOpen := hopen
  arrived := fun _ => arrived_own

/-- `GET / HTTP/1.1` with `Connection: Keep-Alive`. -/
def get : Head := ⟨ascii "GET", ascii "/", ascii "HTTP/1.1",
  [⟨ascii "Connection", ascii " ", ascii "Keep-Alive"⟩]⟩

theorem isGet_get : IsGet get where
  wf :=
    { clean := by unfold Lib.Lines.Clean; decide
      method_ne_nil := by decide
      method := by decide
      target := by decide
      length := by decide
      version := by decide
      headers := by
        intro h hh
        obtain rfl := List.mem_singleton.mp hh
        exact ⟨by unfold Lib.Lines.Clean; decide, by decide,
          fun b hb => by rw [List.mem_singleton.mp hb]; rfl, by decide, by decide⟩ }
  method := rfl
  noNUL := by decide
  connection := ⟨ascii "Keep-Alive", rfl, by decide⟩

/-- Two requests, each in an event of its own. -/
theorem responses_iff_own :
    Responds (EpollPoller.new fun _ => 5) () false true [get, get]
      [[get.render []], [get.render []]] := by
  have hrs : ∀ r ∈ [get, get], IsGet r := by
    intro r hr
    obtain rfl : r = get := by simpa using hr
    exact isGet_get
  have hcut : Cuts [get, get] [[get.render []], [get.render []]] :=
    ⟨rfl, by decide, by decide, by decide⟩
  exact (responses_iff (vacant_new _ _) false true hrs hcut).mpr
    (aligned_own hrs ⟨fun _ => by decide, fun _ => by decide, trivial⟩)

/-- **A request in two events**: it is answered before its empty line has come, and nothing good
comes of the empty line. -/
theorem responses_cut :
    IsGet get ∧ Cuts [get] [[get.lines], [[CR, LF]]] ∧
      ¬Responds (EpollPoller.new fun _ => 5) () false true [get] [[get.lines], [[CR, LF]]] := by
  have hrs : ∀ r ∈ [get], IsGet r := by
    intro r hr
    obtain rfl := List.mem_singleton.mp hr
    exact isGet_get
  have hcut : Cuts [get] [[get.lines], [[CR, LF]]] := ⟨rfl, by decide, by decide, by decide⟩
  refine ⟨isGet_get, hcut, fun h => ?_⟩
  have := (aligned_of_responds (vacant_new _ _) hrs hcut h).heads.length_eq
  exact absurd this (by decide)

end ReactorServer.Http.Segmentation
