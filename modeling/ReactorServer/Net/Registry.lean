import ReactorServer.Net.Server
import Mathlib.Data.Int.Basic

/-!
# Every connection is removed once

A connection has at any time at most one functor on its way: `connectionEstablished`, then, when it
has been closed, `removeConnectionInLoop`, then `connectionDestroyed`.  `Stage` is where it stands
in this order; `Accounts` says that the queues, the map, the states and the records are those of
the stages.
-/

namespace ReactorServer.Net.Registry

open ReactorServer.Cpp ReactorServer.Lib.Runs ReactorServer.Lib.Triples
open ReactorServer.Net.Connection (State)
open ReactorServer.Net.Loop (Functors)
open ReactorServer.Net.Server ReactorServer.Net.Server.TcpServer

variable {s t : TcpServer} {f g : Functor} {c x l : ℕ}

/-! ### Names -/

theorem toString_natCast_inj {m n : ℕ} (h : toString (m : ℤ) = toString (n : ℤ)) : m = n := by
  have h' : m.repr = n.repr := h
  have := congrArg (fun s : String => Nat.ofDigitChars 10 s.toList 0) h'
  simpa [Nat.toList_repr, Nat.ofDigitChars_ten_toDigits] using this

theorem wrap_of_lt {n : ℕ} (h : n < 2 ^ 31) : wrap n = n := by
  unfold wrap
  rw [Int.bmod_eq_of_le] <;> omega

theorem connName_inj {name : String} {m n : ℕ}
    (h : connName name m = connName name n) : m = n :=
  toString_natCast_inj ((String.append_right_inj _).mp h)

/-! ### Stages -/

/-- Where a connection stands. -/
inductive Stage
  /-- accepted, `connectionEstablished` on its way -/
  | accepted
  /-- established -/
  | serving
  /-- closed, `removeConnectionInLoop` on its way -/
  | closing
  /-- removed, `connectionDestroyed` on its way -/
  | leaving
  /-- destroyed -/
  | gone
  deriving DecidableEq

/-- The functor that is on its way. -/
def Stage.flight (c : ℕ) : Stage → Option Functor
  | .accepted => some (.connectionEstablished c)
  | .serving => none
  | .closing => some (.removeConnectionInLoop c)
  | .leaving => some (.connectionDestroyed c)
  | .gone => none

/-- The stage goes with the state of the connection. -/
def Stage.Fits : Stage → State → Prop
  | .accepted, st => st = .CConnecting
  | .serving, st => st = .CConnected ∨ st = .CDisconnecting
  | .closing, st => st = .CDisconnected
  | .leaving, st => st = .CDisconnected
  | .gone, st => st = .CDisconnected

/-- The connection is in the server's map. -/
def Stage.isMapped : Stage → Bool
  | .accepted => true
  | .serving => true
  | .closing => true
  | .leaving => false
  | .gone => false

/-- The loop of a connection. -/
def loopOf (s : TcpServer) (c : ℕ) : ℕ := ((s.conns[c]?).map (·.loop)).getD 0

/-- The loop a functor is queued in. -/
def home (s : TcpServer) : Functor → ℕ
  | .connectionEstablished c => loopOf s c
  | .removeConnectionInLoop _ => 0
  | .connectionDestroyed c => loopOf s c

/-- The functor is on its way by the stage of its connection. -/
def Expected (s : TcpServer) (stage : ℕ → Stage) (f : Functor) : Prop :=
  f.conn < s.conns.length ∧ (stage f.conn).flight f.conn = some f

instance (s : TcpServer) (stage : ℕ → Stage) (f : Functor) : Decidable (Expected s stage f) :=
  inferInstanceAs (Decidable (_ ∧ _))

/-- **The invariant of the registry.**  `held` is the functor that has been taken from its queue, or
is about to be queued or called. -/
structure Accounts (s : TcpServer) (stage : ℕ → Stage) (held : Option Functor) : Prop where
  flight : ∀ l f, (s.loops l).toList.count f + (if held = some f ∧ l = home s f then 1 else 0) =
    if Expected s stage f ∧ l = home s f then 1 else 0
  conn : ∀ c k, s.conns[c]? = some k → (stage c).Fits k.state ∧ k.loop ≤ s.numLoops ∧
    k.name = connName s.name (c + 1 : ℕ)
  map : ∀ name c, s.connections[name]? = some c ↔
    c < s.conns.length ∧ (stage c).isMapped = true ∧ name = connName s.name (c + 1 : ℕ)
  established : ∀ c, s.established.count c =
    if c < s.conns.length ∧ stage c ≠ .accepted then 1 else 0
  removed : ∀ c, s.removed.count c =
    if c < s.conns.length ∧ (stage c).isMapped = false then 1 else 0
  destroyed : ∀ c, s.destroyed.count c = if c < s.conns.length ∧ stage c = .gone then 1 else 0
  next : s.numLoops = 0 ∨ s.next < s.numLoops
  nextConnId : s.nextConnId = wrap (s.conns.length + 1 : ℕ)

theorem accounts_new (name : String) (n : ℕ) :
    Accounts (TcpServer.new name n) (fun _ => .accepted) none := by
  refine ⟨fun l f => ?_, fun c k h => ?_, fun name c => ?_, fun c => ?_, fun c => ?_, fun c => ?_, ?_, ?_⟩
  · simp [TcpServer.new, Functors.new, Functors.toList, Expected]
  · simp [TcpServer.new] at h
  · simp [TcpServer.new]
  · simp [TcpServer.new]
  · simp [TcpServer.new]
  · simp [TcpServer.new]
  · exact n.eq_zero_or_pos
  · show (1 : ℤ) = wrap ((0 + 1 : ℕ) : ℤ)
    rw [wrap_of_lt (by omega)]; rfl

variable {stage : ℕ → Stage} {held : Option Functor}

/-- A functor that is held is the one its connection's stage asks for. -/
theorem Accounts.expected (h : Accounts s stage (some f)) : Expected s stage f := by
  have := h.flight (home s f) f
  by_contra hno
  simp only [hno, false_and, if_false, and_self, if_true] at this
  omega

theorem Accounts.lt (h : Accounts s stage (some f)) : f.conn < s.conns.length := h.expected.1

theorem Accounts.queueInLoop (h : Accounts s stage (some f)) :
    Accounts (s.queueInLoop (home s f) f) stage none where
  flight := by
    intro l g
    have := h.flight l g
    show (Function.update s.loops (home s f) ((s.loops (home s f)).push f) l).toList.count g +
      (if none = some g ∧ l = home s g then 1 else 0) =
      if Expected s stage g ∧ l = home s g then 1 else 0
    rw [← this]
    by_cases hl : l = home s f
    · subst hl
      rw [Function.update_self, Functors.toList_push, List.count_append, List.count_singleton]
      by_cases hg : f = g
      · subst hg; simp
      · simp [hg]
    · rw [Function.update_of_ne hl]
      have hno : ¬(some f = some g ∧ l = home s g) := by
        rintro ⟨hg, hl'⟩
        rw [← Option.some.inj hg] at hl'
        exact hl hl'
      rw [if_neg hno]; simp
  conn := h.conn
  map := h.map
  established := h.established
  removed := h.removed
  destroyed := h.destroyed
  next := h.next
  nextConnId := h.nextConnId

theorem Accounts.advance (h : Accounts s stage none) {fs : List Functor}
    (hf : (s.loops l).functors = f :: fs) :
    Accounts { s with loops := Function.update s.loops l (s.loops l).advance } stage (some f) ∧
      l = home s f := by
  have hlist := Functors.toList_advance hf
  have hhome : l = home s f := by
    have := h.flight l f
    rw [hlist, List.count_cons_self] at this
    by_contra hno
    rw [if_neg (fun h' => hno h'.2), if_neg (fun h' => hno h'.2)] at this
    omega
  refine ⟨?_, hhome⟩
  refine ⟨fun l' g => ?_, h.conn, h.map, h.established, h.removed, h.destroyed, h.next,
    h.nextConnId⟩
  have := h.flight l' g
  show (Function.update s.loops l (s.loops l).advance l').toList.count g +
    (if some f = some g ∧ l' = home s g then 1 else 0) =
    if Expected s stage g ∧ l' = home s g then 1 else 0
  rw [← this]
  by_cases hl : l' = l
  · subst hl
    rw [Function.update_self, hlist, List.count_cons]
    by_cases hg : f = g
    · subst hg; simp [← hhome]
    · simp [hg]
  · rw [Function.update_of_ne hl]
    have hno : ¬(some f = some g ∧ l' = home s g) := by
      rintro ⟨hg, hl'⟩
      rw [← Option.some.inj hg, ← hhome] at hl'
      exact hl hl'
    rw [if_neg hno]; simp

/-! ### From one stage to the next -/

theorem flight_conn {st : Stage} (h : st.flight c = some f) : f.conn = c := by
  cases st <;> simp only [Stage.flight, Option.some.injEq, reduceCtorEq] at h <;> rw [← h] <;> rfl

/-- The connection `c` goes on to the stage `st`, and everything else stays. -/
structure Moved (s t : TcpServer) (c : ℕ) (st : Stage) : Prop where
  loops : t.loops = s.loops
  name : t.name = s.name
  numLoops : t.numLoops = s.numLoops
  next : t.next = s.next
  nextConnId : t.nextConnId = s.nextConnId
  length : t.conns.length = s.conns.length
  loop : ∀ x, loopOf t x = loopOf s x
  conn : ∀ x k', t.conns[x]? = some k' → ∃ k, s.conns[x]? = some k ∧ k'.name = k.name ∧
    k'.loop = k.loop ∧ (x = c → st.Fits k'.state) ∧ (x ≠ c → k'.state = k.state)
  map : ∀ name x, t.connections[name]? = some x ↔
    (x ≠ c → s.connections[name]? = some x) ∧
      (x = c → st.isMapped = true ∧ name = connName s.name (c + 1 : ℕ))
  established : ∀ x, t.established.count x =
    if x = c then (if st ≠ .accepted then 1 else 0) else s.established.count x
  removed : ∀ x, t.removed.count x =
    if x = c then (if st.isMapped = false then 1 else 0) else s.removed.count x
  destroyed : ∀ x, t.destroyed.count x =
    if x = c then (if st = .gone then 1 else 0) else s.destroyed.count x

theorem Moved.home {st : Stage} (hm : Moved s t c st) (g : Functor) : home t g = home s g := by
  cases g with
  | connectionEstablished x => exact hm.loop x
  | removeConnectionInLoop x => rfl
  | connectionDestroyed x => exact hm.loop x

/-- **The step from stage to stage**: the functor that was held gives way to the next one. -/
theorem Accounts.move {st : Stage} (h : Accounts s stage held) (hc : c < s.conns.length)
    (hheld : held = (stage c).flight c) (hm : Moved s t c st) :
    Accounts t (Function.update stage c st) (st.flight c) where
  flight := by
    intro l g
    have hold := h.flight l g
    rw [hm.loops, hm.home]
    by_cases hg : g.conn = c
    · have h1 : Expected s stage g ↔ held = some g := by
        unfold Expected; rw [hg, hheld]; exact and_iff_right hc
      have h2 : Expected t (Function.update stage c st) g ↔ st.flight c = some g := by
        unfold Expected; rw [hg, hm.length, Function.update_self]; exact and_iff_right hc
      simp only [h1, h2] at hold ⊢
      omega
    · have h1 : held ≠ some g := fun h' => hg (flight_conn (hheld.symm.trans h'))
      have h2 : st.flight c ≠ some g := fun h' => hg (flight_conn h')
      have h3 : Expected t (Function.update stage c st) g ↔ Expected s stage g := by
        unfold Expected; rw [hm.length, Function.update_of_ne hg]
      simp only [h1, h2, h3, false_and, if_false] at hold ⊢
      exact hold
  conn := by
    intro x k' hk'
    obtain ⟨k, hk, hname, hloop, hfit, hst⟩ := hm.conn x k' hk'
    obtain ⟨h1, h2, h3⟩ := h.conn x k hk
    refine ⟨?_, by rw [hloop, hm.numLoops]; exact h2, by rw [hname, hm.name]; exact h3⟩
    by_cases hx : x = c
    · subst hx; rw [Function.update_self]; exact hfit rfl
    · rw [Function.update_of_ne hx, hst hx]; exact h1
  map := by
    intro name x
    rw [hm.map, hm.length, hm.name]
    by_cases hx : x = c
    · subst hx; simp [hc]
    · rw [Function.update_of_ne hx, ← h.map]; simp [hx]
  established := by
    intro x
    rw [hm.established, hm.length]
    by_cases hx : x = c
    · subst hx; simp [hc]
    · rw [Function.update_of_ne hx, if_neg hx]; exact h.established x
  removed := by
    intro x
    rw [hm.removed, hm.length]
    by_cases hx : x = c
    · subst hx; simp [hc]
    · rw [Function.update_of_ne hx, if_neg hx]; exact h.removed x
  destroyed := by
    intro x
    rw [hm.destroyed, hm.length]
    by_cases hx : x = c
    · subst hx; simp [hc]
    · rw [Function.update_of_ne hx, if_neg hx]; exact h.destroyed x
  next := by rw [hm.numLoops, hm.next]; exact h.next
  nextConnId := by rw [hm.nextConnId, hm.length]; exact h.nextConnId

/-! ### The operations -/

theorem get_spec {E : Fault → Prop} (hc : c < s.conns.length) :
    Ends E (fun k => s.conns[c]? = some k) (s.get c) := by
  unfold TcpServer.get
  rw [List.getElem?_eq_getElem hc]
  exact rfl

theorem getElem?_setState (st : State) (c x : ℕ) : (s.setState st c).conns[x]? =
    if x = c then s.conns[x]?.map (fun k => { k with state := st }) else s.conns[x]? := by
  simp only [TcpServer.setState, List.getElem?_modify]
  by_cases hx : x = c
  · subst hx; simp
  · simp [hx, Ne.symm hx]

theorem loopOf_setState (st : State) (c x : ℕ) : loopOf (s.setState st c) x = loopOf s x := by
  unfold loopOf
  rw [getElem?_setState]
  split_ifs
  · cases s.conns[x]? <;> rfl
  · rfl

theorem moved_setState (st : Stage) (state : State) (est : List ℕ) (h : Accounts s stage held)
    (hc : c < s.conns.length) (hfit : st.Fits state) (hmap : st.isMapped = (stage c).isMapped)
    (hacc : st ≠ .accepted) (hest : ∀ x, est.count x =
      if x = c then 1 else s.established.count x) (hgone : st = .gone ↔ stage c = .gone) :
    Moved s { s.setState state c with established := est } c st where
  loops := rfl
  name := rfl
  numLoops := rfl
  next := rfl
  nextConnId := rfl
  length := List.length_modify _ _ _
  loop := loopOf_setState state c
  conn := by
    intro x k' hk'
    rw [show ({ s.setState state c with established := est } : TcpServer).conns =
      (s.setState state c).conns from rfl, getElem?_setState] at hk'
    by_cases hx : x = c
    · rw [if_pos hx] at hk'
      obtain ⟨k, hk, rfl⟩ := Option.map_eq_some_iff.mp hk'
      exact ⟨k, hk, rfl, rfl, fun _ => hfit, fun hn => absurd hx hn⟩
    · rw [if_neg hx] at hk'
      exact ⟨k', hk', rfl, rfl, fun hn => absurd hn hx, fun _ => rfl⟩
  map := by
    intro name x
    show s.connections[name]? = some x ↔ _
    by_cases hx : x = c
    · subst hx; rw [h.map, hmap]; simp [hc]
    · simp [hx]
  established := by
    intro x
    rw [if_pos hacc]
    exact hest x
  removed := by
    intro x
    show s.removed.count x = _
    split_ifs with hx hm
    · subst hx; rw [h.removed, ← hmap, if_pos ⟨hc, hm⟩]
    · subst hx; rw [h.removed, ← hmap, if_neg fun h' => hm h'.2]
    · rfl
  destroyed := by
    intro x
    show s.destroyed.count x = _
    split_ifs with hx hg
    · subst hx; rw [h.destroyed, hgone.mp hg]; simp [hc]
    · subst hx; rw [h.destroyed, if_neg]; exact fun h' => hg (hgone.mpr h'.2)
    · rfl

/-- A connection past its acceptance has been established once. -/
theorem count_established (h : Accounts s stage held) (hc : c < s.conns.length)
    (hst : stage c ≠ .accepted) (x : ℕ) :
    s.established.count x = if x = c then 1 else s.established.count x := by
  split_ifs with hx
  · rw [hx, h.established, if_pos ⟨hc, hst⟩]
  · rfl

theorem conn_kept {st : Stage} {k : Conn} (hk : s.conns[c]? = some k) (hfit : st.Fits k.state)
    (x : ℕ) (k' : Conn) (hk' : s.conns[x]? = some k') :
    ∃ k, s.conns[x]? = some k ∧ k'.name = k.name ∧ k'.loop = k.loop ∧
      (x = c → st.Fits k'.state) ∧ (x ≠ c → k'.state = k.state) := by
  refine ⟨k', hk', rfl, rfl, fun hx => ?_, fun _ => rfl⟩
  subst hx
  obtain rfl : k = k' := Option.some.inj (hk.symm.trans hk')
  exact hfit

/-- The connection that has left the map is destroyed. -/
theorem moved_destroyed {k : Conn} (h : Accounts s stage held) (hc : c < s.conns.length)
    (hst : stage c = .leaving) (hk : s.conns[c]? = some k) :
    Moved s { s with destroyed := s.destroyed ++ [c] } c .gone where
  loops := rfl
  name := rfl
  numLoops := rfl
  next := rfl
  nextConnId := rfl
  length := rfl
  loop := fun _ => rfl
  conn := conn_kept hk (hst ▸ (h.conn c k hk).1 : Stage.leaving.Fits k.state)
  map := by
    intro name x
    show s.connections[name]? = some x ↔ _
    by_cases hx : x = c
    · subst hx; rw [h.map, hst]; simp [Stage.isMapped]
    · simp [hx]
  established := by
    intro x
    rw [if_pos (show Stage.gone ≠ .accepted from nofun)]
    exact count_established h hc (by rw [hst]; nofun) x
  removed := by
    intro x
    show s.removed.count x = _
    by_cases hx : x = c
    · subst hx; rw [h.removed, hst]; simp [hc, Stage.isMapped]
    · simp [hx]
  destroyed := by
    intro x
    show (s.destroyed ++ [c]).count x = _
    have := h.destroyed c
    rw [hst] at this
    by_cases hx : x = c
    · subst hx; simp_all
    · simp [hx, Ne.symm hx]

theorem moved_removed {k : Conn} (h : Accounts s stage held) (hc : c < s.conns.length)
    (hst : stage c = .closing) (hk : s.conns[c]? = some k)
    (hmapped : s.connections[k.name]? = some c) :
    Moved s { s with connections := s.connections.erase k.name, removed := s.removed ++ [c] } c
      .leaving where
  loops := rfl
  name := rfl
  numLoops := rfl
  next := rfl
  nextConnId := rfl
  length := rfl
  loop := fun _ => rfl
  conn := conn_kept hk (hst ▸ (h.conn c k hk).1 : Stage.closing.Fits k.state)
  map := by
    intro name x
    have hname : k.name = connName s.name (c + 1 : ℕ) := (h.conn c k hk).2.2
    show (s.connections.erase k.name)[name]? = some x ↔ _
    rw [Std.ExtTreeMap.getElem?_erase]
    simp only [Std.compare_eq_iff_eq]
    by_cases hx : x = c
    · subst hx
      refine iff_of_false ?_ (fun h' => by simpa [Stage.isMapped] using (h'.2 rfl).1)
      split_ifs with hn
      · nofun
      · intro h'
        obtain ⟨-, -, h''⟩ := (h.map _ _).mp h'
        exact hn (hname.trans h''.symm)
    · simp only [hx, ne_eq, not_false_eq_true, forall_const, false_imp_iff, and_true]
      split_ifs with hn
      · subst hn; rw [hmapped]; simp [Ne.symm hx]
      · rfl
  established := by
    intro x
    rw [if_pos (show Stage.leaving ≠ .accepted from nofun)]
    exact count_established h hc (by rw [hst]; nofun) x
  removed := by
    intro x
    show (s.removed ++ [c]).count x = _
    have := h.removed c
    rw [hst] at this
    by_cases hx : x = c
    · subst hx; simp_all [Stage.isMapped]
    · simp [hx, Ne.symm hx]
  destroyed := by
    intro x
    show s.destroyed.count x = _
    by_cases hx : x = c
    · subst hx; rw [h.destroyed, hst]; simp
    · simp [hx]

/-- No failure at all. -/
def Never (_ : Fault) : Prop := False

/-- The accounts are in order, and no connection has come or gone. -/
def Balanced (s t : TcpServer) : Prop :=
  (∃ stage, Accounts t stage none) ∧ t.conns.length = s.conns.length

theorem connectionEstablished_spec (h : Accounts s stage (some (.connectionEstablished c))) :
    Ends Never (Balanced s) (s.connectionEstablished c) := by
  have hc : c < s.conns.length := h.lt
  have hflight : (stage c).flight c = _ := h.expected.2
  have hst : stage c = .accepted := by
    cases hs : stage c <;> simp [hs, Stage.flight] at hflight ⊢
  refine (get_spec hc).bind fun k hk => ?_
  have hfit : k.state = .CConnecting := by
    have := (h.conn c k hk).1
    rwa [hst] at this
  refine Ends.bind (Q := fun _ => True) ?_ fun _ _ => ?_
  · unfold assert
    rw [if_pos hfit]
    trivial
  · have hest : ∀ x, (s.established ++ [c]).count x = if x = c then 1 else s.established.count x := by
      intro x
      have := h.established c
      rw [hst] at this
      by_cases hx : x = c
      · subst hx; simp_all
      · simp [hx, Ne.symm hx]
    have hm := moved_setState .serving .CConnected (s.established ++ [c]) h hc (Or.inl rfl)
      (by rw [hst]; rfl) nofun hest (by rw [hst]; simp)
    exact ⟨⟨_, h.move hc (by rw [hst]; rfl) hm⟩, hm.length⟩

/-- A connection that is already closed stays as it is when it is destroyed. -/
theorem connectionDestroyed_spec (h : Accounts s stage (some (.connectionDestroyed c))) :
    Ends Never (Balanced s) (s.connectionDestroyed c) := by
  have hc : c < s.conns.length := h.lt
  have hflight : (stage c).flight c = _ := h.expected.2
  have hst : stage c = .leaving := by
    cases hs : stage c <;> simp [hs, Stage.flight] at hflight ⊢
  refine (get_spec hc).bind fun k hk => ?_
  have hfit : k.state = .CDisconnected := by
    have := (h.conn c k hk).1
    rwa [hst] at this
  rw [if_neg (by rw [hfit]; nofun)]
  have hm := moved_destroyed h hc hst hk
  exact ⟨⟨_, h.move hc (by rw [hst]; rfl) hm⟩, rfl⟩

theorem removeConnectionInLoop_spec (h : Accounts s stage (some (.removeConnectionInLoop c))) :
    Ends Never (Balanced s) (s.removeConnectionInLoop c) := by
  have hc : c < s.conns.length := h.lt
  have hflight : (stage c).flight c = _ := h.expected.2
  have hst : stage c = .closing := by
    cases hs : stage c <;> simp [hs, Stage.flight] at hflight ⊢
  refine (get_spec hc).bind fun k hk => ?_
  obtain ⟨-, -, hname⟩ := h.conn c k hk
  have hmapped : s.connections[k.name]? = some c := (h.map _ _).mpr ⟨hc, by rw [hst]; rfl, hname⟩
  refine Ends.bind (Q := fun _ => True) ?_ fun _ _ => ?_
  · unfold assert
    rw [if_pos (Std.ExtTreeMap.mem_iff_isSome_getElem?.mpr (by rw [hmapped]; rfl))]
    trivial
  · have hm := moved_removed h hc hst hk hmapped
    have h1 := h.move hc (by rw [hst]; rfl) hm
    have hloop : k.loop = loopOf s c := by unfold loopOf; rw [hk]; rfl
    rw [hloop]
    exact ⟨⟨_, h1.queueInLoop⟩, rfl⟩

theorem invoke_spec (h : Accounts s stage (some f)) : Ends Never (Balanced s) (invoke f s) := by
  cases f with
  | connectionEstablished c => exact connectionEstablished_spec h
  | removeConnectionInLoop c => exact removeConnectionInLoop_spec h
  | connectionDestroyed c => exact connectionDestroyed_spec h

/-- Called at once or queued, it makes no difference to the accounts. -/
theorem runInLoop_spec (h : Accounts s stage (some f)) (caller : ℕ) :
    Ends Never (Balanced s) (s.runInLoop caller (home s f) f) := by
  unfold TcpServer.runInLoop
  split_ifs
  · exact invoke_spec h
  · exact ⟨⟨_, h.queueInLoop⟩, rfl⟩

theorem getNextLoop_spec (h : Accounts s stage held) :
    Ends Never (fun p => p.1 ≤ s.numLoops ∧ (s.numLoops = 0 ∨ p.2 < s.numLoops)) s.getNextLoop := by
  unfold TcpServer.getNextLoop
  have := h.next
  split_ifs with h0 hn
  · exact ⟨Nat.zero_le _, Or.inl h0⟩
  · exact ⟨hn, Or.inr (Nat.mod_lt _ (by omega))⟩
  · omega

/-- The server with one connection more, which the loop `ioLoop` is to serve. -/
def admitted (ioLoop next : ℕ) (s : TcpServer) : TcpServer :=
  { s with
    next := next, nextConnId := wrap (s.nextConnId + 1)
    conns := s.conns ++ [Conn.mk (connName s.name s.nextConnId) ioLoop .CConnecting]
    connections := s.connections.insert (connName s.name s.nextConnId) s.conns.length }

theorem length_admitted (ioLoop next : ℕ) :
    (admitted ioLoop next s).conns.length = s.conns.length + 1 := by
  simp [admitted]

theorem getElem?_admitted (ioLoop next x : ℕ) : (admitted ioLoop next s).conns[x]? =
    if x = s.conns.length then some (Conn.mk (connName s.name s.nextConnId) ioLoop .CConnecting)
    else s.conns[x]? := by
  simp only [admitted, List.getElem?_append, List.getElem?_singleton]
  split_ifs with h1 h2 h3 h3
  · omega
  · rfl
  · rfl
  · omega
  · omega
  · rw [List.getElem?_eq_none (by omega)]

theorem loopOf_admitted (ioLoop next x : ℕ) : loopOf (admitted ioLoop next s) x =
    if x = s.conns.length then ioLoop else loopOf s x := by
  unfold loopOf
  rw [getElem?_admitted]
  split_ifs <;> rfl

theorem home_admitted (ioLoop next : ℕ) {g : Functor} (hg : g.conn ≠ s.conns.length) :
    home (admitted ioLoop next s) g = home s g := by
  cases g with
  | connectionEstablished x => exact (loopOf_admitted ioLoop next x).trans (if_neg hg)
  | removeConnectionInLoop x => rfl
  | connectionDestroyed x => exact (loopOf_admitted ioLoop next x).trans (if_neg hg)

theorem expected_admitted (ioLoop next : ℕ) {g : Functor} (hg : g.conn ≠ s.conns.length) :
    Expected (admitted ioLoop next s) (Function.update stage s.conns.length .accepted) g ↔
      Expected s stage g := by
  unfold Expected
  rw [length_admitted, Function.update_of_ne hg, Nat.lt_succ_iff_lt_or_eq]
  simp [hg]

theorem Accounts.map_admitted (h : Accounts s stage held)
    (hid : s.nextConnId = (s.conns.length + 1 : ℕ)) (name : String) (x : ℕ) :
    (s.connections.insert (connName s.name s.nextConnId) s.conns.length)[name]? = some x ↔
      x < s.conns.length + 1 ∧
        (Function.update stage s.conns.length .accepted x).isMapped = true ∧
        name = connName s.name (x + 1 : ℕ) := by
  rw [Std.ExtTreeMap.getElem?_insert, hid]
  simp only [Std.compare_eq_iff_eq]
  by_cases hx : x = s.conns.length
  · subst hx
    rw [Function.update_self]
    split_ifs with hn
    · exact iff_of_true rfl ⟨by omega, rfl, hn.symm⟩
    · refine iff_of_false (fun h' => ?_) fun h' => hn h'.2.2.symm
      have := ((h.map _ _).mp h').1
      omega
  · rw [Function.update_of_ne hx]
    split_ifs with hn
    · refine iff_of_false (fun h' => hx (Option.some.inj h').symm) fun h' => ?_
      have := connName_inj (hn.trans h'.2.2)
      omega
    · rw [h.map]
      have : x < s.conns.length + 1 ↔ x < s.conns.length := by omega
      rw [this]

theorem count_admitted {n : ℕ} (p : Stage → Prop) [DecidablePred p] (hp : ¬p .accepted) :
    (if x < n ∧ p (stage x) then 1 else 0) =
      if x < n + 1 ∧ p (Function.update stage n .accepted x) then 1 else 0 := by
  by_cases hx : x = n
  · subst hx; simp [hp]
  · have h1 : x < n + 1 ↔ x < n := by omega
    simp only [h1, Function.update_of_ne hx]

/-- The new connection has a place and, as long as the numbers last, a name of its own. -/
theorem Accounts.enrolled (h : Accounts s stage none) (hlt : s.conns.length + 1 < 2 ^ 31)
    {ioLoop next : ℕ} (hio : ioLoop ≤ s.numLoops) (hnext : s.numLoops = 0 ∨ next < s.numLoops) :
    Accounts (admitted ioLoop next s) (Function.update stage s.conns.length .accepted)
      (some (.connectionEstablished s.conns.length)) := by
  have hid : s.nextConnId = (s.conns.length + 1 : ℕ) := by rw [h.nextConnId, wrap_of_lt hlt]
  constructor
  case flight =>
    intro l g
    have hold := h.flight l g
    simp only [reduceCtorEq, false_and, if_false, Nat.add_zero] at hold
    show (s.loops l).toList.count g + _ = _
    by_cases hg : g.conn = s.conns.length
    · have h1 : ¬Expected s stage g := fun h' => by have := h'.1; omega
      rw [hold]
      simp [Expected, hg, length_admitted, Stage.flight]
    · have h1 : Expected (admitted ioLoop next s) _ g ↔ Expected s stage g :=
        expected_admitted ioLoop next hg
      have h2 : some (Functor.connectionEstablished s.conns.length) ≠ some g := by
        intro h'
        rw [← Option.some.inj h'] at hg
        exact hg rfl
      simp [h1, h2, home_admitted ioLoop next hg, hold]
  case conn =>
    intro x k hk
    rw [getElem?_admitted] at hk
    split_ifs at hk with hx
    · obtain rfl := Option.some.inj hk
      subst hx
      rw [Function.update_self]
      exact ⟨rfl, hio, by rw [hid]; rfl⟩
    · rw [Function.update_of_ne hx]
      exact h.conn x k hk
  case map =>
    intro name x
    rw [length_admitted]
    exact h.map_admitted hid name x
  case established =>
    intro x
    rw [length_admitted]
    exact (h.established x).trans (count_admitted (· ≠ .accepted) (by simp))
  case removed =>
    intro x
    rw [length_admitted]
    exact (h.removed x).trans (count_admitted (·.isMapped = false) nofun)
  case destroyed =>
    intro x
    rw [length_admitted]
    exact (h.destroyed x).trans (count_admitted (· = .gone) nofun)
  case next => exact hnext
  case nextConnId =>
    show wrap (s.nextConnId + 1) = _
    rw [length_admitted, hid]
    rfl

theorem newConnection_spec (h : Accounts s stage none) (hlt : s.conns.length + 1 < 2 ^ 31) :
    Ends Never (fun t => (∃ stage, Accounts t stage none) ∧ t.conns.length = s.conns.length + 1)
      s.newConnection := by
  refine (getNextLoop_spec h).bind ?_
  rintro ⟨ioLoop, next⟩ ⟨hio, hnext⟩
  have hspec := runInLoop_spec (h.enrolled hlt hio hnext) 0
  have hhome : home (admitted ioLoop next s) (.connectionEstablished s.conns.length) = ioLoop :=
    (loopOf_admitted ioLoop next _).trans (if_pos rfl)
  rw [hhome] at hspec
  exact hspec.imp fun t ht => ⟨ht.1, ht.2.trans (length_admitted ioLoop next)⟩

/-- The only way a close can fail. -/
def ClosedTwice (e : Fault) : Prop := e = .assertion .handleClose

theorem established_iff (h : Accounts s stage held) :
    c ∈ s.established ↔ c < s.conns.length ∧ stage c ≠ .accepted := by
  rw [← List.one_le_count_iff, h.established]
  split_ifs with h' <;> simp [h']

theorem serving {k : Conn} (h : Accounts s stage held) (hc : c ∈ s.established)
    (hk : s.conns[c]? = some k) (hst : k.state ≠ .CDisconnected) : stage c = .serving := by
  have h1 := ((established_iff h).mp hc).2
  have h2 := (h.conn c k hk).1
  cases hs : stage c <;> rw [hs] at h1 h2
  · exact absurd rfl h1
  all_goals exact absurd h2 hst

theorem handleClose_spec (h : Accounts s stage none) (hc : c ∈ s.established) :
    Ends ClosedTwice (Balanced s) (s.handleClose c) := by
  obtain ⟨hlt, -⟩ := (established_iff h).mp hc
  refine (get_spec hlt).bind fun k hk => ?_
  refine Ends.bind (Q := fun _ => k.state = .CConnected ∨ k.state = .CConnecting) ?_ fun _ hopen => ?_
  · unfold assert
    split_ifs with hopen
    · exact hopen
    · rfl
  · have hst : stage c = .serving := by
      refine serving h hc hk ?_
      rcases hopen with h' | h' <;> rw [h'] <;> nofun
    have hm : Moved s (s.setState .CDisconnected c) c .closing :=
      moved_setState .closing .CDisconnected s.established h hlt rfl (by rw [hst]; rfl) nofun
        (count_established h hlt (by rw [hst]; nofun)) (by rw [hst]; simp)
    have hspec := runInLoop_spec (h.move hlt (by rw [hst]; rfl) hm) k.loop
    exact hspec.mono (fun _ => False.elim) fun t ht => ⟨ht.1, ht.2.trans hm.length⟩

theorem shutdown_spec (h : Accounts s stage none) (hc : c ∈ s.established) :
    Ends Never (Balanced s) (s.shutdown c) := by
  obtain ⟨hlt, -⟩ := (established_iff h).mp hc
  refine (get_spec hlt).bind fun k hk => ?_
  show Balanced s _
  split_ifs with hst
  · have hserving : stage c = .serving := serving h hc hk (by rw [hst]; nofun)
    have hm : Moved s (s.setState .CDisconnecting c) c .serving :=
      moved_setState .serving .CDisconnecting s.established h hlt (Or.inr rfl) (by rw [hserving])
        nofun (count_established h hlt (by rw [hserving]; nofun)) (by rw [hserving])
    exact ⟨⟨_, h.move hlt (by rw [hserving]; rfl) hm⟩, hm.length⟩
  · exact ⟨⟨_, h⟩, rfl⟩

/-! ### Runs -/

theorem swap_spec (h : Accounts s stage none) (hl : (s.loops l).functors = []) :
    Accounts { s with loops := Function.update s.loops l (s.loops l).swap } stage none where
  flight := by
    intro l' g
    have := h.flight l' g
    show (Function.update s.loops l (s.loops l).swap l').toList.count g + _ = _
    by_cases hl' : l' = l
    · subst hl'
      rw [Function.update_self, Functors.toList_swap hl]
      exact this
    · rw [Function.update_of_ne hl']
      exact this
  conn := h.conn
  map := h.map
  established := h.established
  removed := h.removed
  destroyed := h.destroyed
  next := h.next
  nextConnId := h.nextConnId

/-- How many connections a step accepts. -/
def accepts (a : Act) : ℕ := if a = .accept then 1 else 0

/-- The accounts are in order, and `n` connections have been accepted so far. -/
def Counted (n : ℕ) (s : TcpServer) : Prop :=
  (∃ stage, Accounts s stage none) ∧ s.conns.length = n

theorem step_spec {a : Act} {n : ℕ} (h : Counted n s) (hlt : n + accepts a < 2 ^ 31)
    (he : enabled s a) : Ends ClosedTwice (Counted (n + accepts a)) (step s a) := by
  obtain ⟨⟨stage, h⟩, rfl⟩ := h
  cases a with
  | accept => exact (newConnection_spec h hlt).mono (fun _ => False.elim) fun _ => id
  | swap l => exact ⟨⟨stage, swap_spec h he.2⟩, rfl⟩
  | exec l =>
    obtain ⟨f, fs, hf⟩ := List.exists_cons_of_ne_nil he.2
    have hstep : step s (.exec l) =
        invoke f { s with loops := Function.update s.loops l (s.loops l).advance } := by
      unfold step
      simp only [hf]
    rw [hstep]
    exact (invoke_spec (h.advance hf).1).mono (fun _ => False.elim) fun _ => id
  | close c => exact handleClose_spec h he
  | shutdown c => exact (shutdown_spec h he).mono (fun _ => False.elim) fun _ => id

theorem count_append_accept (as : List Act) (a : Act) :
    (as ++ [a]).count .accept = as.count .accept + accepts a := by
  rw [List.count_append, List.count_singleton, accepts]
  by_cases h : a = .accept <;> simp [h]

theorem counted_run {name : String} {n : ℕ} {as : List Act}
    (h : Run serverMachine (TcpServer.new name n) as s) (hlt : as.count .accept < 2 ^ 31) :
    Counted (as.count .accept) s := by
  refine h.history (I := fun as s => as.count .accept < 2 ^ 31 → Counted (as.count .accept) s)
    (fun _ => ⟨⟨_, accounts_new name n⟩, rfl⟩) ?_ hlt
  intro as t a u ih he hs hlt
  rw [count_append_accept] at hlt ⊢
  exact (step_spec (ih (by omega)) hlt he).of_ok hs

/-- The registry agrees with what has happened to the connections. -/
structure InOrder (s : TcpServer) : Prop where
  /-- no two connections share a name -/
  names : (s.conns.map Conn.name).Nodup
  /-- a key is the name of the connection it leads to -/
  key : ∀ (name : String) (c : ℕ), s.connections[name]? = some c →
    ∃ k : Conn, s.conns[c]? = some k ∧ k.name = name
  /-- the connections that have not been removed are registered, and no others -/
  registered : ∀ c : ℕ, (∃ name : String, s.connections[name]? = some c) ↔
    c < s.conns.length ∧ c ∉ s.removed
  established : s.established.Nodup
  destroyed : s.destroyed.Nodup
  /-- a destroyed connection was established before -/
  order : ∀ c ∈ s.destroyed, c ∈ s.established

theorem Accounts.names (h : Accounts s stage held) : (s.conns.map Conn.name).Nodup := by
  rw [List.nodup_iff_getElem?_ne_getElem?]
  intro i j hij hj heq
  rw [List.length_map] at hj
  have hi : i < s.conns.length := by omega
  simp only [List.getElem?_map, List.getElem?_eq_getElem hi, List.getElem?_eq_getElem hj,
    Option.map_some, Option.some.injEq] at heq
  have h1 := (h.conn i _ (List.getElem?_eq_getElem hi)).2.2
  have h2 := (h.conn j _ (List.getElem?_eq_getElem hj)).2.2
  have := connName_inj (h1.symm.trans (heq.trans h2))
  omega

theorem Accounts.inOrder (h : Accounts s stage held) : InOrder s where
  names := h.names
  key := by
    intro name c hc
    obtain ⟨hlt, -, hname⟩ := (h.map _ _).mp hc
    have hk := List.getElem?_eq_getElem hlt
    exact ⟨_, hk, (h.conn c _ hk).2.2.trans hname.symm⟩
  registered := by
    intro c
    have hcount := h.removed c
    constructor
    · rintro ⟨name, hc⟩
      obtain ⟨hlt, hmap, -⟩ := (h.map _ _).mp hc
      refine ⟨hlt, List.count_eq_zero.mp ?_⟩
      rw [hcount, hmap]
      simp
    · rintro ⟨hlt, hno⟩
      refine ⟨_, (h.map _ c).mpr ⟨hlt, ?_, rfl⟩⟩
      rw [List.count_eq_zero.mpr hno] at hcount
      by_contra hm
      simp [hlt, hm] at hcount
  established := by
    rw [List.nodup_iff_count_le_one]
    intro c
    rw [h.established]
    split_ifs <;> omega
  destroyed := by
    rw [List.nodup_iff_count_le_one]
    intro c
    rw [h.destroyed]
    split_ifs <;> omega
  order := by
    intro c hc
    rw [← List.one_le_count_iff, h.destroyed] at hc
    split_ifs at hc with hgone
    · exact (established_iff h).mpr ⟨hgone.1, by rw [hgone.2]; nofun⟩
    · omega

/-- **The registry across loops.**  After any interleaving that has accepted fewer than `2 ^ 31`
connections the registry is in order, and nothing that can happen next fails, except that
`handleClose` may find a connection that has been closed. -/
theorem registry_inOrder {name : String} {n : ℕ} {as : List Act}
    (h : Run serverMachine (TcpServer.new name n) as s) (hlt : as.count .accept < 2 ^ 31) :
    InOrder s ∧ s.conns.length = as.count .accept ∧
      ∀ a e, serverMachine.enabled s a → (as ++ [a]).count .accept < 2 ^ 31 →
        serverMachine.step s a = .error e → e = .assertion .handleClose := by
  have hcount := counted_run h hlt
  obtain ⟨stage, hacc⟩ := hcount.1
  refine ⟨hacc.inOrder, hcount.2, fun a e he ha hs => ?_⟩
  rw [count_append_accept] at ha
  exact (step_spec hcount ha he).of_error hs

/-- Two loops: the IO loop serves the connection and closes it, and destroys it when the base loop
has removed it. -/
theorem registry_inOrder_closed :
    ∃ s, Run serverMachine (TcpServer.new "server" 1) [.accept, .swap 1, .exec 1, .close 0, .swap 0,
      .exec 0, .swap 1, .exec 1] s ∧ InOrder s ∧ s.destroyed = [0] := by
  have h : Run serverMachine (TcpServer.new "server" 1) [.accept, .swap 1, .exec 1, .close 0,
    .swap 0, .exec 0, .swap 1, .exec 1] _ := run_iff_exec.mpr rfl
  exact ⟨_, h, (registry_inOrder h (by decide)).1, rfl⟩

end ReactorServer.Net.Registry
