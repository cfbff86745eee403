import ReactorServer.Net.Dispatch
import ReactorServer.Net.Output

/-!
# What a connection leaves to the others

The connections of one loop share its poller and its queue of functors.  Whatever a connection does,
it touches no channel but its own and queues its functors behind those that wait; and its channel stays
registered until the connection has been destroyed (`Own`).
-/

namespace ReactorServer.Net.Sharing

open ReactorServer.Cpp ReactorServer.Lib.Runs ReactorServer.Lib.Triples
open ReactorServer.Net.Poller ReactorServer.Net.Poller.EpollPoller
open ReactorServer.Net.Connection ReactorServer.Net.Connection.TcpConnection
open ReactorServer.Net.Registration ReactorServer.Net.Dispatch ReactorServer.Net.Output

variable {κ : Type} [DecidableEq κ] {s t u : TcpConnection κ} {cb : Callbacks κ} {f : Mask → Mask}

/-- A step that keeps to its own channel. -/
structure Own (s t : TcpConnection κ) : Prop where
  channel : t.channel = s.channel
  registered : Registered t.poller
  others : ∀ d, d ≠ s.channel → t.poller.chan d = s.poller.chan d
  pending : s.pending <+: t.pending
  alive : t.destroyed = false → s.destroyed = false
  added : t.destroyed = false → s.chan.status ≠ .CNew → t.chan.status ≠ .CNew

omit [DecidableEq κ] in
theorem Own.trans (h : Own s t) (h' : Own t u) : Own s u where
  channel := h'.channel.trans h.channel
  registered := h'.registered
  others := fun d hd => (h'.others d (h.channel ▸ hd)).trans (h.others d hd)
  pending := h.pending.trans h'.pending
  alive := fun hu => h.alive (h'.alive hu)
  added := fun hu hs => h'.added hu (h.added (h'.alive hu) hs)

omit [DecidableEq κ] in
/-- Only these fields matter. -/
theorem own (h : Registered s.poller) (hp : t.poller = s.poller) (hc : t.channel = s.channel)
    (hpend : s.pending <+: t.pending) (hd : t.destroyed = s.destroyed) : Own s t where
  channel := hc
  registered := hp ▸ h
  others := fun d _ => by rw [hp]
  pending := hpend
  alive := fun ht => hd ▸ ht
  added := by
    unfold TcpConnection.chan
    rw [hp, hc]
    exact fun _ => id

omit [DecidableEq κ] in
theorem own_self (h : Registered s.poller) : Own s s := own h rfl rfl List.prefix_rfl rfl

omit [DecidableEq κ] in
theorem own_queue (h : Registered s.poller) (g : Functor) : Own s (s.queue g) :=
  own h rfl rfl (List.prefix_append _ _) rfl

/-! ### The channel -/

theorem setEvents_added (h : Registered s.poller) :
    Ends Any (fun t => t.chan.status ≠ .CNew) (s.onChannel (setEvents f)) := by
  unfold TcpConnection.onChannel
  rw [setEvents_eq h]
  split_ifs
  · show (Function.update s.poller.chan s.channel _ s.channel).status ≠ .CNew
    rw [Function.update_self]
    exact nextStatus_ne_new _ _
  · trivial

theorem setEvents_own (h : Registered s.poller) : Ends Any (Own s) (s.onChannel (setEvents f)) := by
  have hadded := setEvents_added h (f := f)
  unfold TcpConnection.onChannel at hadded ⊢
  rw [setEvents_eq h] at hadded ⊢
  split_ifs at hadded ⊢ with hfree
  · exact ⟨rfl, h.placed hfree f, fun d hd => Function.update_of_ne hd _ _, List.prefix_rfl, id,
      fun _ _ => hadded⟩
  · trivial

/-- `connectionDestroyed` ends with this. -/
theorem remove_own (h : Registered s.poller) :
    Ends Any (fun t => Own s { t with destroyed := true }) (s.onChannel remove) := by
  unfold TcpConnection.onChannel
  rw [remove_eq h]
  split_ifs with hev hnew
  · trivial
  · exact ⟨rfl, h.dropped hnew, fun d hd => Function.update_of_ne hd _ _, List.prefix_rfl, nofun, nofun⟩
  · trivial

/-! ### Output -/

theorem trySend_own (h : Registered s.poller) (buf : Payload) :
    Ends Any (fun x => Own s x.2.2) (s.trySend buf) := by
  unfold TcpConnection.trySend
  split_ifs
  · exact own_self h
  · refine Ends.bind (Q := fun x => Own s x.2) ?_ ?_
    · unfold TcpConnection.writeDirect
      cases s.writes with
      | nil => trivial
      | cons r ws =>
        cases r with
        | count n =>
          dsimp only
          split_ifs
          · exact own h rfl rfl List.prefix_rfl rfl
          · trivial
        | _ => exact own h rfl rfl List.prefix_rfl rfl
    · rintro ⟨r, t⟩ ht
      cases r with
      | count n =>
        dsimp only
        split_ifs
        · exact ht.trans (own_queue ht.registered _)
        · exact ht
      | again => exact (setEvents_own ht.registered).bind fun u hu => ht.trans hu
      | reset => exact ht
      | error => exact ht

omit [DecidableEq κ] in
theorem save_own (h : Registered s.poller) (buf : Payload) (n : ℤ) :
    Ends Any (Own s) (s.save buf n) := by
  unfold TcpConnection.save
  dsimp only
  split
  · trivial
  · split
    · trivial
    · exact own h rfl rfl List.prefix_rfl rfl

theorem sendInLoop_own (h : Registered s.poller) (buf : Payload) :
    Ends Any (Own s) (s.sendInLoop buf) := by
  have hread : ∀ {t : TcpConnection κ}, Own s t → Own s { t with readBuf := [] } := fun ht =>
    ht.trans (own ht.registered rfl rfl List.prefix_rfl rfl)
  unfold TcpConnection.sendInLoop
  refine (trySend_own h buf).bind ?_
  rintro ⟨n, faultError, t⟩ ht
  dsimp only at ht ⊢
  split_ifs
  · refine (save_own ht.registered buf n).bind fun u hu => ?_
    split_ifs
    · exact hread (ht.trans hu)
    · exact (setEvents_own hu.registered).bind fun v hv => hread ((ht.trans hu).trans hv)
  · exact hread ht

theorem sendCompleted_own (h : Registered s.poller) : Ends Any (Own s) s.sendCompleted := by
  refine (setEvents_own h).bind fun t ht => ?_
  have hkept : ∀ {u : TcpConnection κ}, u.poller = t.poller → u.channel = t.channel →
      t.pending <+: u.pending → u.destroyed = t.destroyed → Own s u :=
    fun hp hc hpend hd => ht.trans (own ht.registered hp hc hpend hd)
  dsimp only
  split_ifs
  · exact hkept rfl rfl (List.prefix_append _ _) rfl
  · exact hkept rfl rfl (List.prefix_append _ _) rfl
  · exact hkept rfl rfl List.prefix_rfl rfl
  · exact hkept rfl rfl List.prefix_rfl rfl

/-! ### The life of the connection -/

omit [DecidableEq κ] in
theorem removeConnectionInLoop_own (h : Registered s.poller) :
    Ends Any (Own s) s.removeConnectionInLoop := by
  refine (assert_spec fun _ => trivial).bind fun _ _ => ?_
  exact own h rfl rfl (List.prefix_append _ _) rfl

omit [DecidableEq κ] in
theorem closeCB_own (h : Registered s.poller) : Ends Any (Own s) s.closeCB := by
  unfold TcpConnection.closeCB
  split_ifs
  · exact removeConnectionInLoop_own h
  · exact own h rfl rfl List.prefix_rfl rfl

omit [DecidableEq κ] in
theorem onConnection_own (h : Registered s.poller) : Ends Any (Own s) s.onConnection := by
  unfold TcpConnection.onConnection
  split_ifs
  · exact own h rfl rfl List.prefix_rfl rfl
  · exact own_self h

/-- The callbacks keep to the connection, too. -/
structure Callbacks.Own (cb : Callbacks κ) : Prop where
  connectionCB : ∀ s : TcpConnection κ, Registered s.poller → Ends Any (Sharing.Own s) (cb.connectionCB s)
  messageCB : ∀ s : TcpConnection κ, Registered s.poller → Ends Any (Sharing.Own s) (cb.messageCB s)

theorem connectionEstablished_own (hcb : Callbacks.Own cb) (h : Registered s.poller) :
    Ends Any (fun t => Own s t ∧ (t.destroyed = false → t.chan.status ≠ .CNew))
      (s.connectionEstablished cb) := by
  refine (assert_spec fun _ => trivial).bind fun _ _ => ?_
  have hst : Own s (s.setState .CConnected) := own h rfl rfl List.prefix_rfl rfl
  have h1 := setEvents_own (f := (· ||| CReadEvent)) hst.registered
  have h2 := setEvents_added (f := (· ||| CReadEvent)) hst.registered
  show Ends Any _ ((s.setState .CConnected).onChannel enableRead >>= cb.connectionCB)
  cases hx : (s.setState .CConnected).onChannel enableRead with
  | error e => trivial
  | ok t =>
    have ht := h1.of_ok hx
    exact (hcb.connectionCB t ht.registered).imp fun u hu =>
      ⟨(hst.trans ht).trans hu, fun hd => hu.added hd (h2.of_ok hx)⟩

theorem handleClose_own (hcb : Callbacks.Own cb) (h : Registered s.poller) :
    Ends Any (Own s) (s.handleClose cb) := by
  refine (assert_spec fun _ => trivial).bind fun _ _ => ?_
  have hst : Own s (s.setState .CDisconnected) := own h rfl rfl List.prefix_rfl rfl
  refine (setEvents_own hst.registered).bind fun t ht => ?_
  refine (hcb.connectionCB t ht.registered).bind fun u hu => ?_
  exact (closeCB_own hu.registered).imp fun v hv => ((hst.trans ht).trans hu).trans hv

theorem connectionDestroyed_own (hcb : Callbacks.Own cb) (h : Registered s.poller) :
    Ends Any (Own s) (s.connectionDestroyed cb) := by
  unfold TcpConnection.connectionDestroyed
  dsimp only
  split_ifs
  · have hst : Own s (s.setState .CDisconnected) := own h rfl rfl List.prefix_rfl rfl
    refine (setEvents_own hst.registered).bind fun t ht => ?_
    refine (hcb.connectionCB t ht.registered).bind fun u hu => ?_
    exact (remove_own hu.registered).bind fun v hv => ((hst.trans ht).trans hu).trans hv
  · exact (remove_own h).bind fun t ht => ht

/-! ### Functors and calls -/

theorem invoke_own (hcb : Callbacks.Own cb) (h : Registered s.poller) (g : Functor) :
    Ends Any (Own s) (invoke cb g s) := by
  cases g with
  | sendInLoop buf => exact sendInLoop_own h buf
  | shutdownInLoop => exact own h rfl rfl List.prefix_rfl rfl
  | startReadInLoop =>
    show Ends Any (Own s) s.startReadInLoop
    unfold TcpConnection.startReadInLoop
    split_ifs
    · exact (setEvents_own h).bind fun t ht =>
        ht.trans (own ht.registered rfl rfl List.prefix_rfl rfl)
    · exact own_self h
  | stopReadInLoop =>
    show Ends Any (Own s) s.stopReadInLoop
    unfold TcpConnection.stopReadInLoop
    split_ifs
    · exact (setEvents_own h).bind fun t ht =>
        ht.trans (own ht.registered rfl rfl List.prefix_rfl rfl)
    · exact own_self h
  | writeComplete => exact own_self h
  | connectionDestroyed => exact connectionDestroyed_own hcb h

theorem runInLoop_own (hcb : Callbacks.Own cb) (h : Registered s.poller) (inLoop : Bool)
    (g : Functor) : Ends Any (Own s) (s.runInLoop inLoop cb g) := by
  unfold TcpConnection.runInLoop
  split_ifs
  · exact invoke_own hcb h g
  · exact own_queue h g

theorem send_own (hcb : Callbacks.Own cb) (h : Registered s.poller) (inLoop : Bool)
    (buf : Payload) : Ends Any (Own s) (s.send inLoop cb buf) := by
  have hpassed : Own s { s with passed := s.passed ++ [buf.bytes] } :=
    own h rfl rfl List.prefix_rfl rfl
  unfold TcpConnection.send
  dsimp only
  split_ifs
  · exact (runInLoop_own hcb hpassed.registered inLoop _).imp fun t ht => hpassed.trans ht
  · exact hpassed

theorem shutdown_own (hcb : Callbacks.Own cb) (h : Registered s.poller) (inLoop : Bool) :
    Ends Any (Own s) (s.shutdown inLoop cb) := by
  have hst : Own s (s.setState .CDisconnecting) := own h rfl rfl List.prefix_rfl rfl
  unfold TcpConnection.shutdown
  split_ifs
  · exact (runInLoop_own hcb hst.registered inLoop _).imp fun t ht => hst.trans ht
  · exact own_self h

/-! ### Handlers -/

omit [DecidableEq κ] in
theorem readLoop_own (reads : List ReadResult) : ∀ s : TcpConnection κ, Registered s.poller →
    Ends Any (fun x => Own s x.2) (s.readLoop reads) := by
  induction reads with
  | nil => exact fun _ _ => trivial
  | cons r rs ih =>
    intro s h
    cases r with
    | again =>
      unfold TcpConnection.readLoop
      split_ifs
      · exact own_self h
      · trivial
    | error => exact own_self h
    | bytes b =>
      unfold TcpConnection.readLoop
      split_ifs
      · exact own_self h
      · have hread : Own s { s with readBuf := s.readBuf ++ b } := own h rfl rfl List.prefix_rfl rfl
        exact (ih _ hread.registered).imp fun x hx => hread.trans hx
      · trivial

omit [DecidableEq κ] in
theorem handleRead_own (hcb : Callbacks.Own cb) (h : Registered s.poller) (reads : List ReadResult) :
    Ends Any (Own s) (s.handleRead cb reads) := by
  refine (readLoop_own reads s h).bind ?_
  rintro ⟨again, t⟩ ht
  dsimp only at ht ⊢
  split_ifs
  · cases t.context with
    | none => trivial
    | some c =>
      have hctx : Own s (t.setContext (c.setBuffer t.readBuf)) :=
        ht.trans (own ht.registered rfl rfl List.prefix_rfl rfl)
      exact (hcb.messageCB _ hctx.registered).imp fun u hu => hctx.trans hu
  · exact ht

theorem writeLoop_own (hcb : Callbacks.Own cb) (drains : List WriteResult) :
    ∀ (toSend haveSent : ℤ) (s : TcpConnection κ), Registered s.poller →
    Ends Any (Own s) (s.writeLoop cb drains toSend haveSent) := by
  induction drains with
  | nil => exact fun _ _ _ _ => trivial
  | cons r rs ih =>
    intro toSend haveSent s h
    cases r with
    | again =>
      unfold TcpConnection.writeLoop
      dsimp only
      split_ifs
      · exact ih _ _ s h
      · refine (setEvents_own h).bind fun t ht => ?_
        exact (ih _ _ t ht.registered).imp fun u hu => ht.trans hu
    | reset => exact own_self h
    | error => exact own_self h
    | count n =>
      have htaken : Own s { s with accepted := s.accepted ++ s.backlog n } :=
        own h rfl rfl List.prefix_rfl rfl
      unfold TcpConnection.writeLoop
      dsimp only
      split_ifs
      · trivial
      · exact (sendCompleted_own htaken.registered).imp fun t ht => htaken.trans ht
      · exact (ih _ _ _ htaken.registered).imp fun t ht => htaken.trans ht
      · refine (handleClose_own hcb h).bind fun t ht => ?_
        exact (ih _ _ t ht.registered).imp fun u hu => ht.trans hu

theorem handleWrite_own (hcb : Callbacks.Own cb) (h : Registered s.poller)
    (drains : List WriteResult) : Ends Any (Own s) (s.handleWrite cb drains) := by
  unfold TcpConnection.handleWrite
  split_ifs
  · exact writeLoop_own hcb drains _ _ s h
  · exact own_self h

end ReactorServer.Net.Sharing
