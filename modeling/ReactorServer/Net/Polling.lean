import ReactorServer.Net.Registration
import ReactorServer.Lib.LastWrite

/-!
# Polling

`poll` offers `epoll_wait` the vector `eventVec_`, hands over the channels that are reported and,
when all of the vector was used, makes it twice as long.  `fillActiveChannel` asserts that part of
the vector is left over, and `reserve` does not change the size of a vector.  So `poll` does its work
if and only if fewer entries are ready than fit (`handedOver_iff`), and at every poll of a run
sixteen fit (`size_run`).
-/

namespace ReactorServer.Net.Polling

open ReactorServer.Cpp ReactorServer.Lib.Runs ReactorServer.Lib.LastWrite
open ReactorServer.Net.Poller ReactorServer.Net.Registration

variable {κ : Type} {active : List κ} {c : κ} {ready : List (κ × Mask)}

/-! ### The poller and its vector -/

/-- `struct epoll_event`, the pointer null in a new one. -/
structure EpollEvent (κ : Type) where
  events : Mask
  ptr : Option κ
  deriving DecidableEq, Repr

def CInitEventVecSize : ℕ := 16

/-- A poller with its vector of events; `capacity` is the room the vector has asked for. -/
structure Polled (κ : Type) where
  poller : EpollPoller κ
  eventVec : List (EpollEvent κ)
  capacity : ℕ

namespace Polled

/-- The constructor. -/
def new (fd : κ → ℤ) : Polled κ :=
  ⟨.new fd, List.replicate CInitEventVecSize ⟨0#32, none⟩, CInitEventVecSize⟩

/-- `eventVec_.reserve(n)`: there is room for `n`, and the size stays. -/
def reserve (n : ℕ) (s : Polled κ) : Polled κ := { s with capacity := max s.capacity n }

/-- The kernel fills the first entries. -/
def fill (ready : List (κ × Mask)) (s : Polled κ) : Polled κ :=
  { s with
    eventVec := ready.map (fun r => ⟨r.2, some r.1⟩) ++ s.eventVec.drop ready.length }

variable [DecidableEq κ]

/-- `Channel::setEvents`, which sets `rcvEvents_`. -/
def setRcvEvents (e : Mask) : κ → EpollPoller κ → EpollPoller κ :=
  EpollPoller.modifyChan fun ch => { ch with rcvEvents := e }

/-- One iteration of the loop of `fillActiveChannel`. -/
def fillOne (i : ℕ) (s : Polled κ) (active : List κ) : Except Fault (Polled κ × List κ) :=
  match s.eventVec[i]? with
  | some ⟨events, some ch⟩ => do
    let fd := (s.poller.chan ch).fd
    assert .fillActiveChannel (s.poller.channels[fd]? ≠ none)
    assert .fillActiveChannel (s.poller.channels[fd]? = some ch)
    pure ({ s with poller := setRcvEvents events ch s.poller }, active ++ [ch])
  | _ => throw .outOfBounds

def fillActiveChannel (num : ℕ) (s : Polled κ) (active : List κ) :
    Except Fault (Polled κ × List κ) := do
  assert .fillActiveChannel (num < s.eventVec.length)
  (List.range num).foldlM (fun x i => fillOne i x.1 x.2) (s, active)

/-- What `epoll_wait` returns: the entries that are ready, or `-1`. -/
inductive Wait (κ : Type)
  | ready (rs : List (κ × Mask))
  | failed
  deriving DecidableEq

def poll : Wait κ → Polled κ → List κ → Except Fault (Polled κ × List κ)
  | .ready rs, s, active => do
    let num := rs.length
    let s := s.fill rs
    if 0 < num then
      let (s, active) ← fillActiveChannel num s active
      if num = s.eventVec.length then pure (s.reserve (s.eventVec.length * 2), active)
      else pure (s, active)
    else pure (s, active)
  | .failed, s, active => pure (s, active)

end Polled

/-- What `epoll_wait` reports: at most as many entries as it was offered room for, one at least,
no descriptor twice, and only such as are in the interest list. -/
structure Reported (s : Polled κ) (ready : List (κ × Mask)) : Prop where
  offered : 0 < s.eventVec.length
  le : ready.length ≤ s.eventVec.length
  nodup : (ready.map Prod.fst).Nodup
  registered : ∀ r ∈ ready, ∃ fd m, s.poller.kernel fd = some (r.1, m)

/-! ### The loop of `fillActiveChannel` -/

variable {s t : Polled κ} {p : EpollPoller κ}

theorem found_of_kernel (hp : Registered p) {fd : ℤ} {m : Mask} (h : p.kernel fd = some (c, m)) :
    p.channels[(p.chan c).fd]? = some c := by
  obtain ⟨d, hd, hst⟩ : ∃ d, p.channels[fd]? = some d ∧ (p.chan d).status = .CAdded := by
    by_contra hno
    rw [hp.absent fd fun d hd hst => hno ⟨d, hd, hst⟩] at h
    cases h
  rw [hp.added fd d hd hst] at h
  cases h
  rw [(hp.owner fd c hd).1, hd]

theorem eventVec_fill (i : ℕ) (h : i < ready.length) :
    (s.fill ready).eventVec[i]? = some ⟨ready[i].2, some ready[i].1⟩ := by
  have hi : i < (ready.map fun r => (⟨r.2, some r.1⟩ : EpollEvent κ)).length := by
    rwa [List.length_map]
  unfold Polled.fill
  dsimp only
  rw [List.getElem?_append_left hi, List.getElem?_map, List.getElem?_eq_getElem h]
  rfl

theorem length_fill (h : ready.length ≤ s.eventVec.length) :
    (s.fill ready).eventVec.length = s.eventVec.length := by
  unfold Polled.fill
  simp only [List.length_append, List.length_map, List.length_drop]
  omega

variable [DecidableEq κ]

open Polled

/-- The poller after the masks of `ready` have been noted. -/
def mark (ready : List (κ × Mask)) (p : EpollPoller κ) : EpollPoller κ :=
  ready.foldl (fun p r => setRcvEvents r.2 r.1 p) p

/-- What an entry says about `c`. -/
def noted (c : κ) (r : κ × Mask) : Option Mask := if r.1 = c then some r.2 else none

theorem mark_concat (ready : List (κ × Mask)) (r : κ × Mask) (p : EpollPoller κ) :
    mark (ready ++ [r]) p = setRcvEvents r.2 r.1 (mark ready p) := by
  simp [mark]

/-- Only the masks received change, each to the last one noted. -/
theorem mark_eq (ready : List (κ × Mask)) (p : EpollPoller κ) : mark ready p = { p with
    chan := fun c => { p.chan c with
      rcvEvents := (lastWrite (noted c) ready).getD (p.chan c).rcvEvents } } := by
  induction ready using List.reverseRecOn with
  | nil => rfl
  | append_singleton ready r ih =>
    rw [mark_concat, ih]
    simp only [setRcvEvents, EpollPoller.modifyChan, EpollPoller.mk.injEq, and_true]
    funext c
    rw [lastWrite_concat]
    by_cases hc : r.1 = c
    · subst hc
      simp [noted]
    · rw [Function.update_of_ne (Ne.symm hc), noted, if_neg hc, Option.none_or]

theorem registered_mark (hp : Registered p) (ready : List (κ × Mask)) :
    Registered (mark ready p) := by
  rw [mark_eq]
  exact ⟨hp.owner, hp.mapped, hp.added, hp.absent, hp.deleted, hp.ctl⟩

theorem fillOne_eq {i : ℕ} {m : Mask} (hi : s.eventVec[i]? = some ⟨m, some c⟩)
    (hc : s.poller.channels[(s.poller.chan c).fd]? = some c) :
    fillOne i s active =
      .ok ({ s with poller := setRcvEvents m c s.poller }, active ++ [c]) := by
  unfold fillOne
  rw [hi]
  simp [hc, assert]

/-- **The loop** notes the masks of the entries in order and hands over their channels. -/
theorem fillLoop_eq (active : List κ) (hvec : ∀ i (h : i < ready.length),
      s.eventVec[i]? = some ⟨ready[i].2, some ready[i].1⟩)
    (hfound : ∀ r ∈ ready, s.poller.channels[(s.poller.chan r.1).fd]? = some r.1) :
    ∀ n ≤ ready.length, (List.range n).foldlM (fun x i => fillOne i x.1 x.2) (s, active) =
      .ok ({ s with poller := mark (ready.take n) s.poller },
        active ++ (ready.take n).map Prod.fst) := by
  intro n hn
  induction n with
  | zero => simp [mark]
  | succ n ih =>
    have htake : ready.take (n + 1) = ready.take n ++ [ready[n]] := by
      rw [List.take_add_one, List.getElem?_eq_getElem (by omega)]
      rfl
    have hone : fillOne n { s with poller := mark (ready.take n) s.poller }
        (active ++ (ready.take n).map Prod.fst) =
        .ok ({ s with poller := setRcvEvents ready[n].2 ready[n].1 (mark (ready.take n) s.poller) },
          active ++ (ready.take n).map Prod.fst ++ [ready[n].1]) := by
      refine fillOne_eq (hvec n (by omega)) ?_
      rw [mark_eq]
      exact hfound _ (List.getElem_mem (by omega))
    rw [List.range_succ, List.foldlM_append, ih (by omega), ok_bind, List.foldlM_cons]
    dsimp only
    rw [hone, ok_bind, List.foldlM_nil, htake, mark_concat, List.map_append, List.append_assoc]
    rfl

/-! ### One poll -/

/-- **What a poll does**: it aborts where the vector is full, and notes what is ready elsewhere. -/
theorem poll_eq (hp : Registered s.poller) (hr : Reported s ready) (active : List κ) :
    poll (.ready ready) s active =
      if ready.length < s.eventVec.length then
        .ok ({ s.fill ready with poller := mark ready s.poller }, active ++ ready.map Prod.fst)
      else .error (.assertion .fillActiveChannel) := by
  have hlen := length_fill hr.le
  have hfound : ∀ r ∈ ready, (s.fill ready).poller.channels[((s.fill ready).poller.chan r.1).fd]? =
      some r.1 := by
    intro r hmem
    obtain ⟨fd, m, hk⟩ := hr.registered r hmem
    exact found_of_kernel hp hk
  have hloop := fillLoop_eq active (s := s.fill ready) eventVec_fill hfound
    ready.length le_rfl
  rw [List.take_length] at hloop
  by_cases hnum : 0 < ready.length
  · by_cases hlt : ready.length < s.eventVec.length
    · have hne : ready.length ≠ s.eventVec.length := by omega
      simp only [poll, fillActiveChannel, hnum, hlen, hlt, if_true, assert, ok_bind, hloop, hne,
        if_false]
      rfl
    · simp only [poll, fillActiveChannel, hnum, hlen, hlt, if_true, assert, if_false, error_bind]
  · have hnil : ready = [] := List.eq_nil_of_length_eq_zero (by omega)
    subst hnil
    have hfill : s.fill [] = s := rfl
    simp [poll, mark, hr.offered, hfill]

/-- The channels are handed over in order, each with the mask reported for it, and a vector that was
full is twice as long for the next call. -/
structure HandedOver (s : Polled κ) (active : List κ) (ready : List (κ × Mask)) (t : Polled κ)
    (active' : List κ) : Prop where
  appended : active' = active ++ ready.map Prod.fst
  masks : ∀ r ∈ ready, (t.poller.chan r.1).rcvEvents = r.2
  grown : ready.length = s.eventVec.length → t.eventVec.length = 2 * s.eventVec.length

theorem mark_mem (hnodup : (ready.map Prod.fst).Nodup) {r : κ × Mask} (hr : r ∈ ready)
    (p : EpollPoller κ) : ((mark ready p).chan r.1).rcvEvents = r.2 := by
  obtain ⟨pre, post, rfl⟩ := List.append_of_mem hr
  have hpost : ∀ x ∈ post, noted r.1 x = none := by
    intro x hx
    rw [List.map_append, List.map_cons, List.nodup_append] at hnodup
    have hnot := (List.nodup_cons.mp hnodup.2.1).1
    refine if_neg fun h => hnot ?_
    rw [← h]
    exact List.mem_map_of_mem hx
  have hr' : noted r.1 r = some r.2 := if_pos rfl
  rw [mark_eq]
  dsimp only
  rw [lastWrite_of_split hr' hpost, Option.getD_some]

/-- **`poll` hands over every ready channel**, in every registered state and for everything that
`epoll_wait` can report, if and only if fewer entries are ready than it was offered. -/
theorem handedOver_iff (hp : Registered s.poller) (hr : Reported s ready) (active : List κ) :
    (∃ t active', poll (.ready ready) s active = .ok (t, active') ∧
      HandedOver s active ready t active') ↔ ready.length < s.eventVec.length := by
  rw [poll_eq hp hr]
  constructor
  · rintro ⟨t, active', hok, -⟩
    split_ifs at hok with hlt
    exact hlt
  · intro hlt
    rw [if_pos hlt]
    refine ⟨_, _, rfl, rfl, fun r hmem => mark_mem hr.nodup hmem _, fun h => ?_⟩
    omega

/-! ### Runs -/

/-- The channels of a loop are operated on, and the loop polls. -/
inductive Event (κ : Type)
  | call (op : Op) (c : κ)
  | poll (ready : List (κ × Mask))
  deriving DecidableEq

/-- A loop that polls; `activeChannels_` is cleared before every poll. -/
def pollMachine (κ : Type) [DecidableEq κ] : Machine (Polled κ) (Event κ) Fault where
  enabled s
    | .call _ _ => True
    | .poll ready => Reported s ready
  step s
    | .call op c => do
      let p ← op.run c s.poller
      pure { s with poller := p }
    | .poll ready => do
      let (s, _) ← poll (.ready ready) s []
      pure s

/-- **The vector never grows**: in every run the poller stays registered, and the size of the vector
is what it was at the start. -/
theorem size_run {fd : κ → ℤ} {as : List (Event κ)}
    (h : Run (pollMachine κ) (Polled.new fd) as s) :
    Registered s.poller ∧ s.eventVec.length = CInitEventVecSize := by
  refine Run.invariant (I := fun s => Registered s.poller ∧ s.eventVec.length = CInitEventVecSize)
    (fun s a t hI he hs => ?_) h ⟨registered_new fd, List.length_replicate⟩
  cases a with
  | call op c =>
    obtain ⟨p, hp, hs⟩ := bind_eq_ok.mp hs
    cases hs
    exact ⟨(hI.1.run hp).1, hI.2⟩
  | poll ready =>
    obtain ⟨x, hx, hs⟩ := bind_eq_ok.mp hs
    cases hs
    rw [poll_eq hI.1 he] at hx
    split_ifs at hx
    cases hx
    exact ⟨registered_mark hI.1 ready, (length_fill he.le).trans hI.2⟩

theorem exists_readAll {fd : κ → ℤ} (hfd : Function.Injective fd) {cs : List κ} (hcs : cs.Nodup) :
    ∃ s, Run (pollMachine κ) (Polled.new fd) (cs.map (.call .enableRead ·)) s ∧
      (∀ c, (s.poller.chan c).fd = fd c) ∧ (∀ c ∉ cs, (s.poller.chan c).status = .CNew) ∧
      ∀ c ∈ cs, ∃ m, s.poller.kernel (fd c) = some (c, m) := by
  induction cs using List.reverseRecOn with
  | nil => exact ⟨_, .nil _, fun c => rfl, fun c _ => rfl, by simp⟩
  | append_singleton cs c ih =>
    rw [List.nodup_append] at hcs
    have hc : c ∉ cs := fun h => hcs.2.2 c h c (List.mem_singleton_self c) rfl
    obtain ⟨s, hrun, hfds, hnew, hkernel⟩ := ih hcs.1
    have hp := (size_run hrun).1
    -- the descriptor of `c` is free
    have hfree : Free s.poller c := by
      intro hst
      cases hentry : s.poller.channels[(s.poller.chan c).fd]? with
      | none => rfl
      | some d =>
        obtain ⟨howner, hold⟩ := hp.owner _ d hentry
        rw [hfds, hfds] at howner
        rw [hfd howner] at hold
        exact absurd hst hold
    have hplaced : EpollPoller.enableRead c s.poller = .ok (placed (· ||| CReadEvent) c s.poller) :=
      (setEvents_eq hp _ c).trans (if_pos hfree)
    have hstep : (pollMachine κ).step s (.call .enableRead c) =
        .ok { s with poller := placed (· ||| CReadEvent) c s.poller } :=
      bind_eq_ok.mpr ⟨_, hplaced, rfl⟩
    refine ⟨_, by rw [List.map_append]; exact hrun.append (.cons trivial hstep (.nil _)), ?_, ?_, ?_⟩
    · intro d
      by_cases hd : d = c
      · subst hd
        simp [placed, interested, hfds]
      · simp [placed, hd, hfds]
    · intro d hd
      rw [List.mem_append, List.mem_singleton, not_or] at hd
      simp [placed, hd.2, hnew d hd.1]
    · intro d hd
      rcases List.mem_append.mp hd with hd | hd
      · have hne : fd d ≠ fd c := fun h => hc (hfd h ▸ hd)
        simp [placed, hfds, hne, hkernel d hd]
      · obtain rfl := List.mem_singleton.mp hd
        simp [placed, hfds, hnew d hc, nextStatus]

/-- A loop with one channel, which is ready. -/
def one : Polled Unit :=
  { Polled.new (fun _ => 3) with poller := placed (· ||| CReadEvent) () (.new fun _ => 3) }

theorem handedOver_iff_one : (∃ t active', poll (.ready [((), EPOLLIN)]) one [] = .ok (t, active') ∧
    HandedOver one [] [((), EPOLLIN)] t active') ↔ 1 < 16 :=
  handedOver_iff ((registered_new _).placed (fun _ => rfl) _)
    ⟨by decide, by decide, by decide, fun r hr => ⟨3, _, by
      obtain rfl := List.mem_singleton.mp hr
      rfl⟩⟩ []

/-- **With sixteen channels ready, the next poll aborts**, in a loop that has polled nothing yet. -/
theorem sixteen_ready : ∃ s, Run (pollMachine (Fin 16)) (Polled.new fun c => (c : ℤ))
      ((List.finRange 16).map (.call .enableRead ·)) s ∧
    Reported s ((List.finRange 16).map (·, EPOLLIN)) ∧
    poll (.ready ((List.finRange 16).map (·, EPOLLIN))) s [] =
      .error (.assertion .fillActiveChannel) := by
  have hinj : Function.Injective fun c : Fin 16 => (c : ℤ) := fun a b h => by
    simpa [Fin.ext_iff] using h
  obtain ⟨s, hrun, -, -, hkernel⟩ := exists_readAll hinj (List.nodup_finRange 16)
  obtain ⟨hp, hsize⟩ := size_run hrun
  have hlen : ((List.finRange 16).map fun c => (c, EPOLLIN)).length = 16 := by simp
  have hr : Reported s ((List.finRange 16).map (·, EPOLLIN)) := by
    refine ⟨by rw [hsize]; decide, by rw [hlen, hsize]; decide, ?_, ?_⟩
    · rw [List.map_map]
      exact (List.nodup_finRange 16).map fun a b h => h
    · intro r hr
      obtain ⟨c, hc, rfl⟩ := List.mem_map.mp hr
      exact ⟨_, hkernel c hc⟩
  refine ⟨s, hrun, hr, ?_⟩
  rw [poll_eq hp hr, if_neg (by rw [hlen, hsize]; decide)]

end ReactorServer.Net.Polling
