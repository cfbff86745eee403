import ReactorServer.Net.Connection
import ReactorServer.Net.Polling

/-!
# The rounds of the event loop

The cycle of `EventLoop::loop` with the channels of the loop: `epoll_wait` reports some of them,
`handleEvent` is called for one after another, and the callbacks, like the functors behind them,
operate on any channel.  `activeChannels_` holds bare pointers meanwhile; what keeps them good is the
assertion in `EventLoop::removeChannel`, that a channel is not removed while it is active but by its
own callbacks.  So every channel that is still to be handled is registered, and is handled with the
events reported for it (`round_dispatch`).
-/

namespace ReactorServer.Net.Rounds

open ReactorServer.Cpp ReactorServer.Lib.Runs
open ReactorServer.Net.Poller ReactorServer.Net.Registration ReactorServer.Net.Polling
open ReactorServer.Net.Connection

/-! ### The model -/

/-- A call of `handleEvent`: the channel, its `rcvEvents_`, and whether it is untied or its owner is
still there. -/
structure Handled (κ : Type) where
  channel : κ
  rcvEvents : Mask
  guarded : Bool
  deriving DecidableEq

/-- `handleEvent`: the callbacks it calls. -/
def Handled.calls {κ : Type} (x : Handled κ) : List (κ × Handler) :=
  if x.guarded then (handlers x.rcvEvents).map (x.channel, ·) else []

/-- An `EventLoop` and its poller.  `rest` is what the iterator has still before it in
`activeChannels_`, `todo` the callbacks that `handleEvent` has still to call; `reported`, `handled` and
`called` are records of the round. -/
structure EventLoop (κ : Type) where
  polled : Polled κ
  activeChannels : List κ
  currentActiveChannel : Option κ
  eventHandling : Bool
  rest : List κ
  todo : List (κ × Handler)
  reported : List (κ × Mask)
  handled : List (Handled κ)
  called : List (κ × Handler)

namespace EventLoop

variable {κ : Type} [DecidableEq κ]

def new (fd : κ → ℤ) : EventLoop κ := ⟨.new fd, [], none, false, [], [], [], [], []⟩

/-- `*c`. -/
def chan (s : EventLoop κ) (c : κ) : Channel := s.polled.poller.chan c

def setPoller (p : EpollPoller κ) (s : EventLoop κ) : EventLoop κ :=
  { s with polled := { s.polled with poller := p } }

/-- What `EventLoop::removeChannel` asserts while events are handled. -/
def checkActive (c : κ) (s : EventLoop κ) : Except Fault Unit :=
  if s.eventHandling then
    assert .removeChannel (s.currentActiveChannel = some c ∨ c ∉ s.activeChannels)
  else .ok ()

/-- `Channel::remove`, through `EventLoop::removeChannel`. -/
def remove (c : κ) (s : EventLoop κ) : Except Fault (EventLoop κ) := do
  assert .channelRemove (s.chan c).isNonEvent
  let p := s.polled.poller.modifyChan (fun ch => { ch with addToLoop := false }) c
  s.checkActive c
  let p ← EpollPoller.removeChannel c p
  pure (s.setPoller p)

/-- An operation of a channel. -/
def operate (op : Op) (c : κ) (s : EventLoop κ) : Except Fault (EventLoop κ) :=
  match op with
  | .remove => s.remove c
  | op => do
    let p ← op.run c s.polled.poller
    pure (s.setPoller p)

/-- `activeChannels_.clear()`, `poll` and the beginning of the loop over the active channels. -/
def poll (w : Polled.Wait κ) (reported : List (κ × Mask)) (s : EventLoop κ) :
    Except Fault (EventLoop κ) := do
  let (polled, active) ← Polled.poll w s.polled []
  pure { s with
    polled := polled, activeChannels := active, eventHandling := true, rest := active
    reported := reported, handled := [], called := [] }

end EventLoop

inductive Act (κ : Type)
  /-- `epoll_wait` reports these -/
  | poll (ready : List (κ × Mask))
  /-- `epoll_wait` fails -/
  | failed
  /-- `handleEvent` of the next channel begins; `guarded` is whether it is untied or `tie_.lock()`
  succeeds -/
  | next (guarded : Bool)
  /-- the next callback is called -/
  | callback
  /-- a callback or a functor operates on a channel -/
  | operate (op : Op) (c : κ)
  /-- the loop over the active channels ends -/
  | finish
  deriving DecidableEq

variable {κ : Type} [DecidableEq κ]

def roundMachine (κ : Type) [DecidableEq κ] : Machine (EventLoop κ) (Act κ) Fault where
  enabled s
    | .poll ready => s.eventHandling = false ∧ Reported s.polled ready
    | .failed => s.eventHandling = false
    | .next _ => s.todo = [] ∧ s.rest ≠ []
    | .callback => s.todo ≠ []
    | .operate _ _ => True
    | .finish => s.eventHandling = true ∧ s.todo = [] ∧ s.rest = []
  step s
    | .poll ready => s.poll (.ready ready) ready
    | .failed => s.poll .failed []
    | .next guarded =>
      match s.rest with
      | [] => .error .outOfBounds
      | c :: cs =>
        let x : Handled κ := ⟨c, (s.chan c).rcvEvents, guarded⟩
        .ok { s with
          currentActiveChannel := some c, rest := cs, todo := x.calls, handled := s.handled ++ [x] }
    | .callback =>
      match s.todo with
      | [] => .error .outOfBounds
      | x :: xs => .ok { s with todo := xs, called := s.called ++ [x] }
    | .operate op c => s.operate op c
    | .finish => .ok { s with currentActiveChannel := none, eventHandling := false }

variable {s t : EventLoop κ} {c d : κ} {fd : κ → ℤ} {as : List (Act κ)} {p q : EpollPoller κ}

/-! ### The invariant -/

/-- **The invariant of a round.** -/
structure Round (s : EventLoop κ) : Prop where
  registered : Registered s.polled.poller
  handling : s.rest ≠ [] → s.eventHandling = true
  active : s.activeChannels = s.handled.map (·.channel) ++ s.rest
  nodup : s.activeChannels.Nodup
  current : ∀ c, s.currentActiveChannel = some c → c ∈ s.handled.map (·.channel)
  masks : s.handled.map (fun x => (x.channel, x.rcvEvents)) ++
    s.rest.map (fun c => (c, (s.chan c).rcvEvents)) = s.reported
  calls : s.called ++ s.todo = s.handled.flatMap Handled.calls
  mapped : ∀ c ∈ s.rest, (s.chan c).status ≠ .CNew

omit [DecidableEq κ] in
theorem round_new (fd : κ → ℤ) : Round (EventLoop.new fd) where
  registered := registered_new fd
  handling h := absurd rfl h
  active := rfl
  nodup := List.nodup_nil
  current _ h := by cases h
  masks := rfl
  calls := rfl
  mapped c hc := absurd hc List.not_mem_nil

theorem Round.not_rest (h : Round s) (hcheck : s.checkActive c = .ok ()) : c ∉ s.rest := by
  intro hc
  unfold EventLoop.checkActive at hcheck
  rw [if_pos (h.handling (List.ne_nil_of_mem hc))] at hcheck
  have hor : s.currentActiveChannel = some c ∨ c ∉ s.activeChannels := by
    by_contra hno
    rw [assert, if_neg hno] at hcheck
    cases hcheck
  have hnodup := h.nodup
  rw [h.active, List.nodup_append] at hnodup
  rcases hor with hcur | hout
  · exact hnodup.2.2 c (h.current c hcur) c hc rfl
  · rw [h.active] at hout
    exact hout (List.mem_append_right _ hc)

omit [DecidableEq κ] in
/-- What is asserted by the loop is asserted in front of what the poller asserts. -/
theorem remove_ok [DecidableEq κ] (h : s.remove c = .ok t) : s.checkActive c = .ok () ∧
    ∃ p, EpollPoller.remove c s.polled.poller = .ok p ∧ t = s.setPoller p := by
  unfold EventLoop.remove at h
  obtain ⟨⟨⟩, hnon, h⟩ := bind_eq_ok.mp h
  obtain ⟨⟨⟩, hcheck, h⟩ := bind_eq_ok.mp h
  obtain ⟨p, hp, h⟩ := bind_eq_ok.mp h
  obtain rfl := Except.ok.inj h
  refine ⟨hcheck, p, ?_, rfl⟩
  unfold EpollPoller.remove
  exact bind_eq_ok.mpr ⟨(), hnon, hp⟩

/-- What an operation of `c` does to the channels that are still to be handled. -/
structure Spares (s : EventLoop κ) (p : EpollPoller κ) : Prop where
  registered : Registered p
  rcvEvents : ∀ d, (p.chan d).rcvEvents = (s.chan d).rcvEvents
  mapped : ∀ d ∈ s.rest, (p.chan d).status ≠ .CNew

theorem spares_placed (h : Round s) (hc : Free s.polled.poller c) (f : Mask → Mask) :
    Spares s (placed f c s.polled.poller) where
  registered := h.registered.placed hc f
  rcvEvents d := by
    by_cases hd : d = c
    · subst hd
      simp [placed, interested, EventLoop.chan]
    · simp [placed, hd, EventLoop.chan]
  mapped d hd := by
    by_cases hdc : d = c
    · subst hdc
      simp [placed, interested, nextStatus_ne_new]
    · have hmapped := h.mapped d hd
      unfold EventLoop.chan at hmapped
      simpa [placed, hdc] using hmapped

theorem spares_dropped (h : Round s) (hst : (s.polled.poller.chan c).status ≠ .CNew)
    (hc : c ∉ s.rest) : Spares s (dropped c s.polled.poller) where
  registered := h.registered.dropped hst
  rcvEvents d := by
    by_cases hd : d = c
    · subst hd
      simp [dropped, EventLoop.chan]
    · simp [dropped, hd, EventLoop.chan]
  mapped d hd := by
    have hdc : d ≠ c := fun hdc => hc (hdc ▸ hd)
    have hmapped := h.mapped d hd
    unfold EventLoop.chan at hmapped
    simpa [dropped, hdc] using hmapped

omit [DecidableEq κ] in
theorem Round.setPoller (h : Round s) (hp : Spares s p) : Round (s.setPoller p) where
  registered := hp.registered
  handling := h.handling
  active := h.active
  nodup := h.nodup
  current := h.current
  masks := by
    have hmap : s.rest.map (fun c => (c, ((s.setPoller p).chan c).rcvEvents)) =
        s.rest.map (fun c => (c, (s.chan c).rcvEvents)) :=
      List.map_congr_left fun d _ => congrArg (Prod.mk d) (hp.rcvEvents d)
    show s.handled.map _ ++ s.rest.map (fun c => (c, ((s.setPoller p).chan c).rcvEvents)) = _
    rw [hmap]
    exact h.masks
  calls := h.calls
  mapped := hp.mapped

theorem Round.operate (h : Round s) {op : Op} (hs : s.operate op c = .ok t) : Round t := by
  by_cases hop : op = .remove
  · rw [hop] at hs
    obtain ⟨hcheck, p, hp, rfl⟩ := remove_ok hs
    have hrun : Op.remove.run c s.polled.poller = .ok p := hp
    rcases Op.run_cases h.registered hrun with ⟨f, hc, rfl⟩ | ⟨hst, rfl⟩
    · exact h.setPoller (spares_placed h hc f)
    · exact h.setPoller (spares_dropped h hst (h.not_rest hcheck))
  · obtain ⟨p, hp, hs⟩ : ∃ p, op.run c s.polled.poller = .ok p ∧ Except.ok (s.setPoller p) = .ok t := by
      cases op with
      | remove => exact absurd rfl hop
      | _ => exact bind_eq_ok.mp hs
    obtain rfl := Except.ok.inj hs
    obtain ⟨f, hc, rfl⟩ : ∃ f, Free s.polled.poller c ∧ p = placed f c s.polled.poller := by
      have hset : ∀ f, EpollPoller.setEvents f c s.polled.poller = .ok p →
          ∃ f, Free s.polled.poller c ∧ p = placed f c s.polled.poller := by
        intro f hf
        rw [setEvents_eq h.registered] at hf
        split_ifs at hf with hc
        exact ⟨f, hc, (Except.ok.inj hf).symm⟩
      cases op with
      | remove => exact absurd rfl hop
      | enableRead => exact hset (· ||| CReadEvent) hp
      | disableRead => exact hset (· &&& ~~~CReadEvent) hp
      | enableWrite => exact hset (· ||| CWriteEvent) hp
      | disableWrite => exact hset (· &&& CWriteEvent) hp
      | disableAll => exact hset (fun _ => CNoneEvent) hp
    exact h.setPoller (spares_placed h hc f)

/-- A poll begins a round with all that is reported. -/
theorem Round.poll (h : Round s) {ready : List (κ × Mask)} (hr : Reported s.polled ready)
    (htodo : s.todo = []) (hcur : s.currentActiveChannel = none)
    (hs : s.poll (.ready ready) ready = .ok t) : Round t := by
  obtain ⟨⟨polled, active⟩, hpoll, hs⟩ := bind_eq_ok.mp hs
  obtain rfl := Except.ok.inj hs
  rw [poll_eq h.registered hr] at hpoll
  split_ifs at hpoll
  obtain ⟨rfl, rfl⟩ := Prod.mk.inj (Except.ok.inj hpoll)
  refine
    { registered := registered_mark h.registered ready
      handling := fun _ => rfl
      active := rfl
      nodup := hr.nodup
      current := fun c hc => by rw [hcur] at hc; cases hc
      masks := ?_
      calls := htodo
      mapped := ?_ }
  · show ([] ++ ready.map Prod.fst).map _ = ready
    rw [List.nil_append, List.map_map]
    refine (List.map_congr_left fun r hmem => ?_).trans (List.map_id ready)
    exact Prod.ext rfl (mark_mem hr.nodup hmem _)
  · intro c hc
    rw [List.nil_append] at hc
    obtain ⟨r, hmem, rfl⟩ := List.mem_map.mp hc
    obtain ⟨fd, m, hk⟩ := hr.registered r hmem
    have hfound := found_of_kernel h.registered hk
    show ((mark ready s.polled.poller).chan r.1).status ≠ .CNew
    rw [mark_eq]
    exact (h.registered.owner _ _ hfound).2

/-- Between rounds nothing is left of the last one. -/
structure Between (s : EventLoop κ) : Prop where
  todo : s.eventHandling = false → s.todo = []
  current : s.eventHandling = false → s.currentActiveChannel = none

theorem Round.failed (h : Round s) (hb : Between s) (he : (roundMachine κ).enabled s .failed)
    (hs : (roundMachine κ).step s .failed = .ok t) : Round t := by
  obtain rfl := Except.ok.inj hs
  exact
    { registered := h.registered
      handling := fun h' => absurd rfl h'
      active := rfl
      nodup := List.nodup_nil
      current := fun c hc => by rw [show s.currentActiveChannel = none from hb.current he] at hc; cases hc
      masks := rfl
      calls := hb.todo he
      mapped := fun c hc => absurd hc List.not_mem_nil }

/-- The next channel, when the callbacks of the last one have been called. -/
theorem Round.next (h : Round s) {guarded : Bool}
    (he : (roundMachine κ).enabled s (.next guarded))
    (hs : (roundMachine κ).step s (.next guarded) = .ok t) :
    Round t ∧ t.eventHandling = true := by
  cases hrest : s.rest with
  | nil => exact absurd hrest he.2
  | cons c cs =>
    simp only [roundMachine, hrest] at hs
    obtain rfl := Except.ok.inj hs
    have hhandling := h.handling he.2
    have hactive := h.active
    have hmasks := h.masks
    have hcalls := h.calls
    rw [he.1, List.append_nil] at hcalls
    rw [hrest] at hactive hmasks
    refine ⟨?_, hhandling⟩
    exact
      { registered := h.registered
        handling := fun _ => hhandling
        active := by
          rw [List.map_append, List.append_assoc]
          exact hactive
        nodup := h.nodup
        current := fun c' hc' => by
          obtain rfl := Option.some.inj hc'
          simp
        masks := by
          rw [List.map_append, List.append_assoc]
          exact hmasks
        calls := by
          show s.called ++ _ = _
          rw [hcalls, List.flatMap_append, List.flatMap_singleton]
        mapped := fun d hd => h.mapped d (hrest ▸ List.mem_cons_of_mem _ hd) }

theorem Round.callback (h : Round s) (hb : Between s) (he : (roundMachine κ).enabled s .callback)
    (hs : (roundMachine κ).step s .callback = .ok t) : Round t ∧ Between t := by
  cases htodo : s.todo with
  | nil => exact absurd htodo he
  | cons x xs =>
    simp only [roundMachine, htodo] at hs
    obtain rfl := Except.ok.inj hs
    have hcalls := h.calls
    rw [htodo] at hcalls
    refine ⟨⟨h.registered, h.handling, h.active, h.nodup, h.current, h.masks, ?_, h.mapped⟩,
      fun h' => ?_, hb.current⟩
    · show s.called ++ [x] ++ xs = _
      rw [List.append_assoc]
      exact hcalls
    · have hnone := hb.todo h'
      rw [htodo] at hnone
      cases hnone

theorem operate_poller {op : Op} (hs : s.operate op c = .ok t) :
    ∃ p, t = s.setPoller p := by
  cases op with
  | remove =>
    obtain ⟨-, p, -, ht⟩ := remove_ok hs
    exact ⟨p, ht⟩
  | _ =>
    obtain ⟨p, -, hs⟩ := bind_eq_ok.mp hs
    exact ⟨p, (Except.ok.inj hs).symm⟩

/-- **One step.** -/
theorem round_step {a : Act κ} (h : Round s) (hb : Between s) (he : (roundMachine κ).enabled s a)
    (hs : (roundMachine κ).step s a = .ok t) : Round t ∧ Between t := by
  cases a with
  | poll ready =>
    refine ⟨h.poll he.2 (hb.todo he.1) (hb.current he.1) hs, ?_⟩
    obtain ⟨⟨polled, active⟩, -, hs⟩ := bind_eq_ok.mp hs
    obtain rfl := Except.ok.inj hs
    exact ⟨nofun, nofun⟩
  | failed =>
    refine ⟨h.failed hb he hs, ?_⟩
    obtain rfl := Except.ok.inj hs
    exact ⟨nofun, nofun⟩
  | next guarded =>
    obtain ⟨hround, hhandling⟩ := h.next he hs
    exact ⟨hround, fun h' => absurd (hhandling.symm.trans h') nofun,
      fun h' => absurd (hhandling.symm.trans h') nofun⟩
  | callback => exact h.callback hb he hs
  | operate op c =>
    refine ⟨h.operate hs, ?_⟩
    obtain ⟨p, rfl⟩ := operate_poller hs
    exact ⟨hb.todo, hb.current⟩
  | finish =>
    obtain rfl := Except.ok.inj hs
    refine ⟨⟨h.registered, fun h' => absurd he.2.2 h', h.active, h.nodup, nofun, h.masks, h.calls,
      h.mapped⟩, fun _ => he.2.1, fun _ => rfl⟩

theorem round_run (h : Run (roundMachine κ) (EventLoop.new fd) as s) : Round s ∧ Between s :=
  h.invariant (I := fun s => Round s ∧ Between s) (fun _ _ _ hI he hs => round_step hI.1 hI.2 he hs)
    ⟨round_new fd, fun _ => rfl, fun _ => rfl⟩

/-- **What is reported is handled, once and in order**, whatever the callbacks and the functors do
to the channels: those handled in a round and those still to be handled are the ones `epoll_wait`
reported, each with the events reported for it; the callbacks called, and those still to be called,
are the ones these events ask for; and a channel that is still to be handled is in the map of the
poller and cannot be removed. -/
theorem round_dispatch (h : Run (roundMachine κ) (EventLoop.new fd) as s) :
    s.handled.map (fun x => (x.channel, x.rcvEvents)) ++
      s.rest.map (fun c => (c, (s.chan c).rcvEvents)) = s.reported ∧
    s.called ++ s.todo = s.handled.flatMap Handled.calls ∧
    ∀ c ∈ s.rest, s.polled.poller.channels[(s.chan c).fd]? = some c ∧
      ∀ t, s.remove c ≠ .ok t := by
  have hround := (round_run h).1
  refine ⟨hround.masks, hround.calls, fun c hc => ⟨?_, fun t ht => ?_⟩⟩
  · exact hround.registered.mapped c (hround.mapped c hc)
  · exact hround.not_rest (remove_ok ht).1 hc

/-- Both channels are ready; the first is removed by its own callback, and may not remove the
second. -/
theorem round_dispatch_two : ∃ s : EventLoop Bool,
    Run (roundMachine Bool) (.new fun c => if c then 4 else 3) [.operate .enableRead false,
      .operate .enableRead true, .poll [(false, EPOLLIN ||| EPOLLHUP), (true, EPOLLIN)], .next true,
      .callback, .operate .disableAll false, .operate .remove false,
      .operate .disableAll true] s ∧
    s.rest = [true] ∧ s.todo = [(false, .read)] ∧ s.called = [(false, .close)] ∧
    s.remove true = .error (.assertion .removeChannel) ∧
    s.called ++ s.todo = s.handled.flatMap Handled.calls := by
  have hready : ∀ s : Polled Bool, s.eventVec.length = 16 →
      (∃ m, s.poller.kernel 3 = some (false, m)) → (∃ m, s.poller.kernel 4 = some (true, m)) →
      Reported s [(false, EPOLLIN ||| EPOLLHUP), (true, EPOLLIN)] := by
    intro s hlen ⟨m, hm⟩ ⟨n, hn⟩
    refine ⟨by omega, by rw [hlen]; decide, by decide, fun r hr => ?_⟩
    rcases List.mem_pair.mp hr with rfl | rfl
    · exact ⟨3, m, hm⟩
    · exact ⟨4, n, hn⟩
  obtain ⟨s, h, hrest, htodo, hcalled, hremove⟩ : ∃ s : EventLoop Bool,
      Run (roundMachine Bool) (.new fun c => if c then 4 else 3) [.operate .enableRead false,
        .operate .enableRead true, .poll [(false, EPOLLIN ||| EPOLLHUP), (true, EPOLLIN)],
        .next true, .callback, .operate .disableAll false, .operate .remove false,
        .operate .disableAll true] s ∧
      s.rest = [true] ∧ s.todo = [(false, .read)] ∧ s.called = [(false, .close)] ∧
      s.remove true = .error (.assertion .removeChannel) :=
    ⟨_, .cons trivial rfl (.cons trivial rfl (.cons ⟨rfl, hready _ rfl ⟨_, rfl⟩ ⟨_, rfl⟩⟩ rfl
      (.cons ⟨rfl, nofun⟩ rfl (.cons nofun rfl (.cons trivial rfl (.cons trivial rfl
        (.cons trivial rfl (.nil _)))))))), rfl, rfl, rfl, rfl⟩
  exact ⟨s, h, hrest, htodo, hcalled, hremove, (round_dispatch h).2.1⟩

end ReactorServer.Net.Rounds
