import ReactorServer.Net.Registration
import ReactorServer.Lib.LastWrite

/-!
# What a channel is interested in

Five calls change the mask of a channel.  Each should set or clear the bits of one direction, or
clear both, so that the mask is what was last asked for in each direction.  Four do; `disableWrite`
keeps the write bit and clears the others (`mask_eq`), as if reading had been disabled.  The mask is
the one asked for if and only if every `disableWrite` is made up for by the calls around it
(`follows_iff`).
-/

namespace ReactorServer.Net.Interest

open ReactorServer.Cpp ReactorServer.Lib.Runs ReactorServer.Lib.LastWrite
open ReactorServer.Net.Poller ReactorServer.Net.Registration

variable {κ : Type} {p q : EpollPoller κ} {c : κ} {calls pre post : List Call} {a : Call}

/-! ### The calls -/

/-- The calls that change the mask of a channel. -/
inductive Call
  | enableRead
  | disableRead
  | enableWrite
  | disableWrite
  | disableAll
  deriving DecidableEq, Repr

/-- The change each of them makes to `events_`. -/
def Call.change : Call → Mask → Mask
  | .enableRead => (· ||| CReadEvent)
  | .disableRead => (· &&& ~~~CReadEvent)
  | .enableWrite => (· ||| CWriteEvent)
  | .disableWrite => (· &&& CWriteEvent)
  | .disableAll => fun _ => CNoneEvent

/-- What a call asks for about reading. -/
def Call.reading : Call → Option Bool
  | .enableRead => some true
  | .disableRead => some false
  | .disableAll => some false
  | _ => none

/-- What a call asks for about writing. -/
def Call.writing : Call → Option Bool
  | .enableWrite => some true
  | .disableWrite => some false
  | .disableAll => some false
  | _ => none

/-- What a call does to the read bits. -/
def Call.readBits (a : Call) : Option Bool := if a = .disableWrite then some false else a.reading

/-- What a call does to the write bit. -/
def Call.writeBit (a : Call) : Option Bool := if a = .disableWrite then none else a.writing

/-- The mask for what is wanted in the two directions. -/
def maskOf (reading writing : Bool) : Mask :=
  (if reading then CReadEvent else CNoneEvent) ||| (if writing then CWriteEvent else CNoneEvent)

/-- **What a call does to a mask.** -/
theorem change_maskOf (a : Call) (r w : Bool) :
    a.change (maskOf r w) = maskOf (a.readBits.getD r) (a.writeBit.getD w) := by
  cases a <;> cases r <;> cases w <;> decide

theorem isReading_maskOf (r w : Bool) : maskOf r w &&& CReadEvent ≠ 0 ↔ r = true := by
  cases r <;> cases w <;> decide

theorem isWriting_maskOf (r w : Bool) : maskOf r w &&& CWriteEvent ≠ 0 ↔ w = true := by
  cases r <;> cases w <;> decide

theorem isNonEvent_maskOf (r w : Bool) : maskOf r w = CNoneEvent ↔ r ≠ true ∧ w ≠ true := by
  cases r <;> cases w <;> decide

variable [DecidableEq κ]

def Call.run : Call → κ → EpollPoller κ → Except Fault (EpollPoller κ)
  | .enableRead => EpollPoller.enableRead
  | .disableRead => EpollPoller.disableRead
  | .enableWrite => EpollPoller.enableWrite
  | .disableWrite => EpollPoller.disableWrite
  | .disableAll => EpollPoller.disableAll

theorem Call.run_eq (a : Call) (c : κ) (p : EpollPoller κ) :
    a.run c p = EpollPoller.setEvents a.change c p := by
  cases a <;> rfl

/-- The calls on one channel. -/
def channelMachine (c : κ) : Machine (EpollPoller κ) Call Fault where
  enabled _ _ := True
  step p a := a.run c p

/-! ### Sequences of calls -/

/-- The mask that was last asked for. -/
def asked (calls : List Call) : Mask :=
  maskOf ((lastWrite Call.reading calls).getD false) ((lastWrite Call.writing calls).getD false)

/-- The mask that results from the calls. -/
def resulting (calls : List Call) : Mask :=
  maskOf ((lastWrite Call.readBits calls).getD false) ((lastWrite Call.writeBit calls).getD false)

/-- The last call of `update` told the poller of a channel with the mask `m`. -/
def Handed (c : κ) (m : Mask) (q : EpollPoller κ) : Prop :=
  ∃ q', EpollPoller.updateChannel c q' = .ok q ∧ (q'.chan c).events = m

/-- The channel is interested in what was last asked for. -/
structure AsAsked (c : κ) (calls : List Call) (q : EpollPoller κ) : Prop where
  reading : (q.chan c).isReading ↔ lastWrite Call.reading calls = some true
  writing : (q.chan c).isWriting ↔ lastWrite Call.writing calls = some true
  nonEvent : (q.chan c).isNonEvent ↔
    lastWrite Call.reading calls ≠ some true ∧ lastWrite Call.writing calls ≠ some true
  handed : calls ≠ [] → Handed c (asked calls) q

theorem resulting_concat (calls : List Call) (a : Call) :
    resulting (calls ++ [a]) = a.change (resulting calls) := by
  unfold resulting
  rw [change_maskOf, lastWrite_concat, lastWrite_concat]
  cases a.readBits <;> cases a.writeBit <;> rfl

theorem call_spec (hp : Registered p) (hfree : Free p c) (a : Call) :
    ∃ q, a.run c p = .ok q ∧ Registered q ∧ Free q c ∧
      (q.chan c).events = a.change (p.chan c).events ∧ Handed c (a.change (p.chan c).events) q := by
  have hset : EpollPoller.setEvents a.change c p = .ok (placed a.change c p) := by
    rw [setEvents_eq hp, if_pos hfree]
  refine ⟨placed a.change c p, (a.run_eq c p).trans hset, hp.placed hfree _, ?_, ?_, _, hset, ?_⟩
  · intro hst
    have hst' : nextStatus (p.chan c).status (a.change (p.chan c).events) = .CNew := by
      simpa [placed, interested] using hst
    exact absurd hst' (nextStatus_ne_new _ _)
  · simp [placed, interested]
  · simp [EpollPoller.modifyChan]

/-- **Every sequence of calls on a new channel** goes through, and this is the mask after it. -/
theorem calls_spec (hp : Registered p) (hfree : Free p c) (hnew : (p.chan c).isNonEvent)
    (calls : List Call) : ∃ q, Run (channelMachine c) p calls q ∧ Registered q ∧ Free q c ∧
      (q.chan c).events = resulting calls ∧ (calls ≠ [] → Handed c (resulting calls) q) := by
  induction calls using List.reverseRecOn with
  | nil => exact ⟨p, .nil p, hp, hfree, hnew, fun h => absurd rfl h⟩
  | append_singleton calls a ih =>
    obtain ⟨t, hrun, ht, hfree, hev, -⟩ := ih
    obtain ⟨q, hstep, hq, hfree, hev', hhanded⟩ := call_spec ht hfree a
    rw [hev, ← resulting_concat] at hev' hhanded
    exact ⟨q, hrun.append (.cons trivial hstep (.nil q)), hq, hfree, hev', fun _ => hhanded⟩

/-! ### What was asked for -/

/-- Every `disableWrite` is made up for: reading was not wanted before it, or a later call says
whether it is; and the write bit was not set before it, or a later call sets or clears it. -/
def MadeUp (calls : List Call) : Prop :=
  ∀ pre post, calls = pre ++ .disableWrite :: post →
    (lastWrite Call.reading pre ≠ some true ∨ ∃ a ∈ post, a.reading ≠ none) ∧
    (lastWrite Call.writeBit pre ≠ some true ∨ ∃ a ∈ post, a.writeBit ≠ none)

theorem getD_eq_true {o : Option Bool} : o.getD false = true ↔ o = some true := by
  cases o with
  | none => simp
  | some b => simp

theorem getD_eq_false {o : Option Bool} : o.getD false = false ↔ o ≠ some true := by
  rw [← Bool.not_eq_true, getD_eq_true]

theorem madeUp_iff : MadeUp calls ↔
    (lastWrite Call.readBits calls).getD false = (lastWrite Call.reading calls).getD false ∧
    (lastWrite Call.writing calls).getD false = (lastWrite Call.writeBit calls).getD false := by
  have hreading : (lastWrite Call.readBits calls).getD false =
      (lastWrite Call.reading calls).getD false ↔
      ∀ pre post, calls = pre ++ .disableWrite :: post →
        (lastWrite Call.reading pre).getD false = false ∨ ∃ a ∈ post, a.reading ≠ none :=
    lastWrite_merge (fun a => rfl) rfl
  have hwriting : (lastWrite Call.writing calls).getD false =
      (lastWrite Call.writeBit calls).getD false ↔
      ∀ pre post, calls = pre ++ .disableWrite :: post →
        (lastWrite Call.writeBit pre).getD false = false ∨ ∃ a ∈ post, a.writeBit ≠ none :=
    lastWrite_merge (fun a => by cases a <;> rfl) rfl
  rw [hreading, hwriting]
  simp only [getD_eq_false]
  constructor
  · intro h
    exact ⟨fun pre post hsplit => (h pre post hsplit).1, fun pre post hsplit => (h pre post hsplit).2⟩
  · intro h pre post hsplit
    exact ⟨h.1 pre post hsplit, h.2 pre post hsplit⟩

/-- **Event interest follows the last request**, for every sequence of calls on a new channel, if
and only if every `disableWrite` of the sequence is made up for. -/
theorem asAsked_iff (hp : Registered p) (hfree : Free p c) (hnew : (p.chan c).isNonEvent)
    (calls : List Call) :
    ∃ q, Run (channelMachine c) p calls q ∧ (AsAsked c calls q ↔ MadeUp calls) := by
  obtain ⟨q, hrun, -, -, hev, hhanded⟩ := calls_spec hp hfree hnew calls
  have hreading : (q.chan c).isReading ↔ (lastWrite Call.readBits calls).getD false = true := by
    unfold Channel.isReading
    rw [hev]
    exact isReading_maskOf _ _
  have hwriting : (q.chan c).isWriting ↔ (lastWrite Call.writeBit calls).getD false = true := by
    unfold Channel.isWriting
    rw [hev]
    exact isWriting_maskOf _ _
  refine ⟨q, hrun, ?_⟩
  rw [madeUp_iff]
  constructor
  · intro h
    exact ⟨Bool.eq_iff_iff.mpr (hreading.symm.trans (h.reading.trans getD_eq_true.symm)),
      Bool.eq_iff_iff.mpr (getD_eq_true.trans (h.writing.symm.trans hwriting))⟩
  · rintro ⟨hr, hw⟩
    have hmask : resulting calls = asked calls := by
      unfold resulting asked
      rw [hr, hw]
    rw [hr, getD_eq_true] at hreading
    rw [← hw, getD_eq_true] at hwriting
    refine ⟨hreading, hwriting, ?_, fun hne => hmask ▸ hhanded hne⟩
    unfold Channel.isNonEvent
    rw [hev, hmask]
    exact (isNonEvent_maskOf _ _).trans (and_congr (not_congr getD_eq_true) (not_congr getD_eq_true))

theorem asAsked_iff_drain : ∃ q,
    Run (channelMachine ()) (.new fun _ => 3) [.enableRead, .enableWrite, .disableWrite] q ∧
    (AsAsked () [.enableRead, .enableWrite, .disableWrite] q ↔
      MadeUp [.enableRead, .enableWrite, .disableWrite]) :=
  asAsked_iff (registered_new _) (fun _ => rfl) rfl _

/-- **After a `disableWrite` the channel is not read any more**, and is still written to. -/
theorem disableWrite_keeps_writing : ∃ q,
    Run (channelMachine ()) (.new fun _ => 3) [.enableRead, .enableWrite, .disableWrite] q ∧
    (q.chan ()).isWriting ∧ ¬(q.chan ()).isReading ∧
    lastWrite Call.reading [.enableRead, .enableWrite, .disableWrite] = some true ∧
    lastWrite Call.writing [.enableRead, .enableWrite, .disableWrite] = some false :=
  ⟨_, .cons trivial rfl (.cons trivial rfl (.cons trivial rfl (.nil _))), by decide, by decide,
    by decide, by decide⟩

end ReactorServer.Net.Interest
