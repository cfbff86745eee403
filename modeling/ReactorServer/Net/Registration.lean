import ReactorServer.Net.Poller

/-!
# The registration invariant of the poller

A channel is registered in three places: its own `status`, the map `channels_` and the kernel's
interest list.  `Registered` ties them together.  On a registered poller the operations have a
closed form, `placed` for the five that change the events and `dropped` for `remove`
(`setEvents_eq`, `remove_eq`); everything else follows from these two equations.
-/

namespace ReactorServer.Net.Registration

open ReactorServer.Cpp ReactorServer.Lib.Runs ReactorServer.Net.Poller
open ReactorServer.Net.Poller.EpollPoller

variable {κ : Type} {p q : EpollPoller κ} {c d : κ} {f : Mask → Mask} {fd : ℤ}

/-- **The registration invariant**: the status of every channel, the map and the kernel agree. -/
structure Registered (p : EpollPoller κ) : Prop where
  owner : ∀ fd c, p.channels[fd]? = some c → (p.chan c).fd = fd ∧ (p.chan c).status ≠ .CNew
  mapped : ∀ c, (p.chan c).status ≠ .CNew → p.channels[(p.chan c).fd]? = some c
  added : ∀ fd c, p.channels[fd]? = some c → (p.chan c).status = .CAdded →
    p.kernel fd = some (c, EPOLLET ||| (p.chan c).events)
  absent : ∀ fd, (∀ c, p.channels[fd]? = some c → (p.chan c).status ≠ .CAdded) →
    p.kernel fd = none
  deleted : ∀ c, (p.chan c).status = .CDeleted → (p.chan c).isNonEvent
  ctl : ∀ k ∈ p.ctl, k.present = true ↔ k.op ≠ .add

theorem registered_new (fd : κ → ℤ) : Registered (EpollPoller.new fd) := by
  refine ⟨?_, ?_, ?_, ?_, ?_, ?_⟩ <;> simp [EpollPoller.new, Channel.new]

/-- Writing an entry that is there changes nothing: the assignment in the assertion. -/
theorem insert_same (h : p.channels[fd]? = some c) : p.channels.insert fd c = p.channels := by
  refine Std.ExtTreeMap.ext_getElem? fun k => ?_
  rw [Std.ExtTreeMap.getElem?_insert]
  split_ifs with hk
  · rw [← compare_eq_iff_eq.mp hk, h]
  · rfl

theorem Registered.kernel_of_added (hp : Registered p) (h : (p.chan c).status = .CAdded) :
    p.kernel (p.chan c).fd = some (c, EPOLLET ||| (p.chan c).events) :=
  hp.added _ _ (hp.mapped c (by simp [h])) h

theorem Registered.kernel_of_deleted (hp : Registered p) (h : (p.chan c).status = .CDeleted) :
    p.kernel (p.chan c).fd = none := by
  refine hp.absent _ fun d hd => ?_
  have hc := hp.mapped c (by simp [h])
  rw [hc] at hd
  cases hd
  simp [h]

theorem Registered.kernel_of_unmapped (hp : Registered p) (h : p.channels[fd]? = none) :
    p.kernel fd = none :=
  hp.absent fd fun d hd => by rw [h] at hd; cases hd

/-! ### The closed form of the operations -/

variable [DecidableEq κ]

/-- `c` may be registered: it is already, or its descriptor is free. -/
def Free (p : EpollPoller κ) (c : κ) : Prop :=
  (p.chan c).status = .CNew → p.channels[(p.chan c).fd]? = none

instance (p : EpollPoller κ) (c : κ) : Decidable (Free p c) := by unfold Free; infer_instance

/-- The status after a change of events to `ev`. -/
def nextStatus (st : Status) (ev : Mask) : Status :=
  if st = .CAdded ∧ ev = CNoneEvent then .CDeleted else .CAdded

/-- The `epoll_ctl` operation of a change of events to `ev`. -/
def nextOp (st : Status) (ev : Mask) : CtlOp :=
  if st ≠ .CAdded then .add else if ev = CNoneEvent then .del else .mod

/-- The channel object after a change of events. -/
def interested (f : Mask → Mask) (ch : Channel) : Channel :=
  { ch with events := f ch.events, addToLoop := true, status := nextStatus ch.status (f ch.events) }

/-- The poller after a change of the events of `c`. -/
def placed (f : Mask → Mask) (c : κ) (p : EpollPoller κ) : EpollPoller κ :=
  let ch := p.chan c
  { chan := Function.update p.chan c (interested f ch)
    channels := p.channels.insert ch.fd c
    kernel := Function.update p.kernel ch.fd
      (if nextStatus ch.status (f ch.events) = .CAdded then some (c, EPOLLET ||| f ch.events)
        else none)
    ctl := p.ctl ++ [⟨nextOp ch.status (f ch.events), ch.fd, (p.kernel ch.fd).isSome⟩] }

/-- The poller after `remove`. -/
def dropped (c : κ) (p : EpollPoller κ) : EpollPoller κ :=
  let ch := p.chan c
  { chan := Function.update p.chan c { ch with addToLoop := false, status := .CNew }
    channels := p.channels.erase ch.fd
    kernel := Function.update p.kernel ch.fd none
    ctl := p.ctl ++ if ch.status = .CAdded then [⟨.del, ch.fd, (p.kernel ch.fd).isSome⟩] else [] }

theorem setEvents_eq (hp : Registered p) (f : Mask → Mask) (c : κ) :
    setEvents f c p =
      if Free p c then .ok (placed f c p) else .error (.assertion .updateChannel) := by
  cases hst : (p.chan c).status with
  | CNew =>
    by_cases hfree : p.channels[(p.chan c).fd]? = none
    · have hk := hp.kernel_of_unmapped hfree
      simp [setEvents, channelUpdate, updateChannel, modifyChan, setStatus, EpollPoller.update, assert,
        Free, hst, hfree, placed, nextStatus, nextOp, interested, epollCtl, hk]
    · simp [setEvents, channelUpdate, updateChannel, modifyChan, assert, Free, hst, hfree]
  | CDeleted =>
    have hm := hp.mapped c (by simp [hst])
    have hk := hp.kernel_of_deleted hst
    simp [setEvents, channelUpdate, updateChannel, modifyChan, setStatus, EpollPoller.update, assert,
      Free, hst, hm, placed, nextStatus, nextOp, interested, epollCtl, hk, insert_same hm]
  | CAdded =>
    have hm := hp.mapped c (by simp [hst])
    have hk := hp.kernel_of_added hst
    by_cases hev : f (p.chan c).events = CNoneEvent
    · simp [setEvents, channelUpdate, updateChannel, modifyChan, setStatus, EpollPoller.update, assert,
        Free, hst, hm, placed, nextStatus, nextOp, interested, epollCtl, hk, hev,
        Channel.isNonEvent]
    · simp [setEvents, channelUpdate, updateChannel, modifyChan, EpollPoller.update, assert,
        Free, hst, hm, placed, nextStatus, nextOp, interested, epollCtl, hk, hev,
        Channel.isNonEvent]

theorem remove_eq (hp : Registered p) (c : κ) :
    EpollPoller.remove c p =
      if ¬ (p.chan c).isNonEvent then .error (.assertion .channelRemove)
      else if (p.chan c).status = .CNew then .error (.assertion .removeChannel)
      else .ok (dropped c p) := by
  by_cases hev : (p.chan c).isNonEvent
  · have hev' : (p.chan c).events = CNoneEvent := hev
    cases hst : (p.chan c).status with
    | CNew =>
      have hm : p.channels[(p.chan c).fd]? ≠ some c := fun h => (hp.owner _ _ h).2 hst
      by_cases h0 : p.channels[(p.chan c).fd]? = none
      · simp [EpollPoller.remove, removeChannel, modifyChan, assert, hst, hev', h0,
          Channel.isNonEvent]
      · simp [EpollPoller.remove, removeChannel, modifyChan, assert, hst, hev', h0, hm,
          Channel.isNonEvent]
    | CDeleted =>
      have hm := hp.mapped c (by simp [hst])
      have hk := hp.kernel_of_deleted hst
      simp [EpollPoller.remove, removeChannel, modifyChan, setStatus, assert, hst, hev', hm, dropped,
        Channel.isNonEvent, ← hk]
    | CAdded =>
      have hm := hp.mapped c (by simp [hst])
      have hk := hp.kernel_of_added hst
      simp [EpollPoller.remove, removeChannel, modifyChan, setStatus, EpollPoller.update, assert, hst,
        hev', hm, dropped, epollCtl, hk, Channel.isNonEvent]
  · simp [EpollPoller.remove, assert, hev]

/-! ### The operations keep the invariant -/

theorem nextStatus_ne_new (st : Status) (ev : Mask) : nextStatus st ev ≠ .CNew := by
  unfold nextStatus; split_ifs <;> simp

theorem nonEvent_of_nextStatus {st : Status} {ev : Mask} (h : nextStatus st ev = .CDeleted) :
    ev = CNoneEvent := by
  unfold nextStatus at h
  split_ifs at h with h'
  exact h'.2

omit [DecidableEq κ] in
/-- A descriptor other than `c`'s is not `c`'s entry. -/
theorem Registered.ne_of_fd (hp : Registered p) (hd : p.channels[fd]? = some d)
    (h : fd ≠ (p.chan c).fd) : d ≠ c := by
  rintro rfl
  exact h (hp.owner _ _ hd).1.symm

omit [DecidableEq κ] in
/-- No other channel is registered under the descriptor of one that may be. -/
theorem Registered.own (hp : Registered p) (hc : Free p c)
    (hd : p.channels[(p.chan c).fd]? = some d) : d = c := by
  by_cases hst : (p.chan c).status = .CNew
  · rw [hc hst] at hd
    cases hd
  · rw [hp.mapped c hst] at hd
    exact (Option.some.inj hd).symm

omit [DecidableEq κ] in
theorem Registered.fd_ne (hp : Registered p) (hc : Free p c) (hdc : d ≠ c)
    (hd : (p.chan d).status ≠ .CNew) : (p.chan d).fd ≠ (p.chan c).fd :=
  fun he => hdc (hp.own hc (he ▸ hp.mapped d hd))

theorem placed_get (h : (placed f c p).channels[fd]? = some d) :
    (fd = (p.chan c).fd ∧ d = c) ∨ (fd ≠ (p.chan c).fd ∧ p.channels[fd]? = some d) := by
  simp only [placed, Std.ExtTreeMap.getElem?_insert, compare_eq_iff_eq] at h
  split_ifs at h with he
  · cases h
    exact Or.inl ⟨he.symm, rfl⟩
  · exact Or.inr ⟨fun h' => he h'.symm, h⟩

omit [DecidableEq κ] in
/-- The new call is `ADD` exactly when the channel had no entry. -/
theorem Registered.present (hp : Registered p) (hc : Free p c) (ev : Mask) :
    (p.kernel (p.chan c).fd).isSome = true ↔ nextOp (p.chan c).status ev ≠ .add := by
  cases hst : (p.chan c).status with
  | CNew => simp [nextOp, hp.kernel_of_unmapped (hc hst)]
  | CDeleted => simp [nextOp, hp.kernel_of_deleted hst]
  | CAdded =>
    simp only [nextOp, hp.kernel_of_added hst]
    split_ifs <;> simp_all

theorem Registered.placed (hp : Registered p) (hc : Free p c) (f : Mask → Mask) :
    Registered (placed f c p) := by
  refine ⟨fun fd d h => ?_, fun d h => ?_, fun fd d h hst => ?_, fun fd h => ?_, fun d h => ?_,
    fun k hk => ?_⟩
  · rcases placed_get h with ⟨rfl, rfl⟩ | ⟨hne, h⟩
    · simp [Registration.placed, interested, nextStatus_ne_new]
    · simpa [Registration.placed, hp.ne_of_fd h hne] using hp.owner fd d h
  · by_cases hdc : d = c
    · subst hdc; simp [Registration.placed, interested]
    · simp only [Registration.placed, Function.update_of_ne hdc] at h ⊢
      rw [Std.ExtTreeMap.getElem?_insert, if_neg, hp.mapped d h]
      rw [compare_eq_iff_eq]
      exact fun he => hp.fd_ne hc hdc h he.symm
  · rcases placed_get h with ⟨rfl, rfl⟩ | ⟨hne, h⟩
    · simp only [Registration.placed, Function.update_self, interested] at hst ⊢
      rw [if_pos hst]
    · have hdc := hp.ne_of_fd h hne
      simp only [Registration.placed, Function.update_of_ne hdc, Function.update_of_ne hne] at hst ⊢
      exact hp.added fd d h hst
  · by_cases hfd : fd = (p.chan c).fd
    · subst hfd
      have hst := h c (by simp [Registration.placed])
      simp only [Registration.placed, Function.update_self, interested] at hst ⊢
      rw [if_neg hst]
    · simp only [Registration.placed, Function.update_of_ne hfd]
      refine hp.absent fd fun d hd => ?_
      have hdc := hp.ne_of_fd hd hfd
      have := h d (by
        simp only [Registration.placed, Std.ExtTreeMap.getElem?_insert, compare_eq_iff_eq]
        rw [if_neg (Ne.symm hfd), hd])
      simpa [Registration.placed, hdc] using this
  · by_cases hdc : d = c
    · subst hdc
      simp only [Registration.placed, Function.update_self, interested] at h ⊢
      exact nonEvent_of_nextStatus h
    · simp only [Registration.placed, Function.update_of_ne hdc] at h ⊢
      exact hp.deleted d h
  · simp only [Registration.placed, List.mem_append, List.mem_singleton] at hk
    rcases hk with hk | rfl
    · exact hp.ctl k hk
    · exact hp.present hc _

theorem dropped_get (hp : Registered p) (h : (dropped c p).channels[fd]? = some d) :
    fd ≠ (p.chan c).fd ∧ p.channels[fd]? = some d ∧ d ≠ c := by
  simp only [dropped, Std.ExtTreeMap.getElem?_erase, compare_eq_iff_eq] at h
  split_ifs at h with he
  have hne : fd ≠ (p.chan c).fd := fun h' => he h'.symm
  exact ⟨hne, h, hp.ne_of_fd h hne⟩

theorem Registered.dropped (hp : Registered p) (hc : (p.chan c).status ≠ .CNew) :
    Registered (dropped c p) := by
  refine ⟨fun fd d h => ?_, fun d h => ?_, fun fd d h hst => ?_, fun fd h => ?_, fun d h => ?_,
    fun k hk => ?_⟩
  · obtain ⟨hne, h, hdc⟩ := dropped_get hp h
    simpa [Registration.dropped, hdc] using hp.owner fd d h
  · by_cases hdc : d = c
    · subst hdc; simp [Registration.dropped] at h
    · simp only [Registration.dropped, Function.update_of_ne hdc] at h ⊢
      rw [Std.ExtTreeMap.getElem?_erase, if_neg, hp.mapped d h]
      rw [compare_eq_iff_eq]
      exact fun he => hp.fd_ne (fun hnew => absurd hnew hc) hdc h he.symm
  · obtain ⟨hne, h, hdc⟩ := dropped_get hp h
    simp only [Registration.dropped, Function.update_of_ne hdc, Function.update_of_ne hne] at hst ⊢
    exact hp.added fd d h hst
  · by_cases hfd : fd = (p.chan c).fd
    · subst hfd; simp [Registration.dropped]
    · simp only [Registration.dropped, Function.update_of_ne hfd]
      refine hp.absent fd fun d hd => ?_
      have hdc := hp.ne_of_fd hd hfd
      have := h d (by
        simp only [Registration.dropped, Std.ExtTreeMap.getElem?_erase, compare_eq_iff_eq]
        rw [if_neg (Ne.symm hfd), hd])
      simpa [Registration.dropped, hdc] using this
  · by_cases hdc : d = c
    · subst hdc; simp [Registration.dropped] at h
    · simp only [Registration.dropped, Function.update_of_ne hdc] at h ⊢
      exact hp.deleted d h
  · simp only [Registration.dropped, List.mem_append] at hk
    rcases hk with hk | hk
    · exact hp.ctl k hk
    · split_ifs at hk with hst
      · simp only [List.mem_singleton] at hk
        subst hk
        simp [hp.kernel_of_added hst]
      · simp at hk

/-! ### Runs -/

/-- The operations of `Channel` that reach the poller. -/
inductive Op
  | enableRead
  | disableRead
  | enableWrite
  | disableWrite
  | disableAll
  | remove
  deriving DecidableEq, Repr

def Op.run : Op → κ → EpollPoller κ → Except Fault (EpollPoller κ)
  | .enableRead => EpollPoller.enableRead
  | .disableRead => EpollPoller.disableRead
  | .enableWrite => EpollPoller.enableWrite
  | .disableWrite => EpollPoller.disableWrite
  | .disableAll => EpollPoller.disableAll
  | .remove => EpollPoller.remove

/-- The channels of one loop, each operated on at any time. -/
def pollerMachine (κ : Type) [DecidableEq κ] : Machine (EpollPoller κ) (Op × κ) Fault where
  enabled _ _ := True
  step p a := a.1.run a.2 p

theorem Op.run_cases (hp : Registered p) {op : Op} (h : op.run c p = .ok q) :
    (∃ f, Free p c ∧ q = placed f c p) ∨ ((p.chan c).status ≠ .CNew ∧ q = dropped c p) := by
  have hset : ∀ f, setEvents f c p = .ok q → ∃ f, Free p c ∧ q = placed f c p := by
    intro f h
    rw [setEvents_eq hp] at h
    split_ifs at h with hc
    exact ⟨f, hc, by cases h; rfl⟩
  cases op with
  | remove =>
    simp only [Op.run] at h
    rw [remove_eq hp] at h
    split_ifs at h with h1 h2
    exact Or.inr ⟨h2, by cases h; rfl⟩
  | enableRead => exact Or.inl (hset (· ||| CReadEvent) h)
  | disableRead => exact Or.inl (hset (· &&& ~~~CReadEvent) h)
  | enableWrite => exact Or.inl (hset (· ||| CWriteEvent) h)
  | disableWrite => exact Or.inl (hset (· &&& CWriteEvent) h)
  | disableAll => exact Or.inl (hset (fun _ => CNoneEvent) h)

theorem Registered.run (hp : Registered p) {op : Op} (h : op.run c p = .ok q) :
    Registered q ∧ ∀ d, (q.chan d).fd = (p.chan d).fd := by
  rcases Op.run_cases hp h with ⟨f, hc, rfl⟩ | ⟨hc, rfl⟩
  · refine ⟨hp.placed hc f, fun d => ?_⟩
    by_cases hd : d = c
    · subst hd; simp [Registration.placed, interested]
    · simp [Registration.placed, hd]
  · refine ⟨hp.dropped hc, fun d => ?_⟩
    by_cases hd : d = c
    · subst hd; simp [Registration.dropped]
    · simp [Registration.dropped, hd]

/-- What the three views of the registration have in common, for channels with the descriptors
`fd`. -/
structure Agreement (fd : κ → ℤ) (p : EpollPoller κ) : Prop where
  known : ∀ c, ((p.chan c).status = .CAdded ∨ (p.chan c).status = .CDeleted) ↔
    p.channels[fd c]? = some c
  unknown : ∀ c, (p.chan c).status = .CNew ↔ ∀ n : ℤ, p.channels[n]? ≠ some c
  kernel : ∀ n, p.kernel n ≠ none ↔ ∃ c, p.channels[n]? = some c ∧ (p.chan c).status = .CAdded
  entry : ∀ n c m, p.kernel n = some (c, m) →
    p.channels[n]? = some c ∧ m = EPOLLET ||| (p.chan c).events
  deleted : ∀ c, (p.chan c).status = .CDeleted → (p.chan c).isNonEvent
  ctl : ∀ k ∈ p.ctl, k.present = true ↔ k.op ≠ .add
  assignment : ∀ c, (p.chan c).status = .CAdded →
    p.channels.insert (p.chan c).fd c = p.channels

/-- **Every run keeps the three views in step.** -/
theorem poller_agreement (fd : κ → ℤ) {ops : List (Op × κ)}
    (h : Run (pollerMachine κ) (EpollPoller.new fd) ops p) : Agreement fd p := by
  obtain ⟨hp, hfd⟩ : Registered p ∧ ∀ c, (p.chan c).fd = fd c := by
    refine Run.invariant (I := fun p => Registered p ∧ ∀ c, (p.chan c).fd = fd c)
      (fun p a q hI _ hs => ?_) h ⟨registered_new fd, fun c => rfl⟩
    have hs : a.1.run a.2 p = .ok q := hs
    obtain ⟨hq, he⟩ := hI.1.run hs
    exact ⟨hq, fun c => (he c).trans (hI.2 c)⟩
  have hcases : ∀ c, (p.chan c).status ≠ .CNew ↔ p.channels[fd c]? = some c := fun c =>
    ⟨fun hc => hfd c ▸ hp.mapped c hc, fun hc => (hp.owner _ _ hc).2⟩
  refine ⟨fun c => ?_, fun c => ?_, fun n => ?_, fun n c m hn => ?_, hp.deleted, hp.ctl,
    fun c hc => insert_same (hp.mapped c (by simp [hc]))⟩
  · rw [← hcases c]
    cases (p.chan c).status <;> simp
  · constructor
    · intro hc n hn
      exact (hp.owner n c hn).2 hc
    · intro hn
      by_contra hc
      exact hn _ ((hcases c).mp hc)
  · constructor
    · intro hn
      by_contra hno
      exact hn (hp.absent n fun c hc hst => hno ⟨c, hc, hst⟩)
    · rintro ⟨c, hc, hst⟩
      rw [hp.added n c hc hst]
      simp
  · obtain ⟨d, hd, hst⟩ : ∃ d, p.channels[n]? = some d ∧ (p.chan d).status = .CAdded := by
      by_contra hno
      rw [hp.absent n fun d hd hst => hno ⟨d, hd, hst⟩] at hn
      cases hn
    rw [hp.added n d hd hst] at hn
    cases hn
    exact ⟨hd, rfl⟩

/-- Two channels that take turns on descriptor `5`. -/
theorem poller_agreement_turns :
    ∃ p, Run (pollerMachine Bool) (EpollPoller.new fun _ => 5)
      [(.enableRead, true), (.enableWrite, true), (.disableAll, true), (.remove, true),
        (.enableRead, false)] p ∧ Agreement (fun _ => 5) p :=
  have h := .cons trivial rfl (.cons trivial rfl (.cons trivial rfl (.cons trivial rfl
    (.cons trivial rfl (.nil _)))))
  ⟨_, h, poller_agreement (fun _ => 5) h⟩

end ReactorServer.Net.Registration
