import ReactorServer.Net.Registry
import Mathlib.Data.Int.CardIntervalMod

/-!
# How the connections are spread over the loops

`EventLoopThreadPool::getNextLoop` goes round the IO loops.  Whatever else happens in the meantime, the
`c`-th connection gets the loop `c % n + 1`, so that no loop gets two connections more than another, and
everything that is done for a connection is done in the thread of its loop, except that the base loop
removes it (`connections_spread`).
-/

namespace ReactorServer.Net.Balance

open ReactorServer.Cpp ReactorServer.Lib.Runs
open ReactorServer.Net.Loop (Functors)
open ReactorServer.Net.Server ReactorServer.Net.Server.TcpServer ReactorServer.Net.Registry

variable {s t : TcpServer} {f : Functor} {c l n : ℕ} {name : String}

/-- The loop of the connection `c`, where there are `n` IO loops. -/
def slot (n c : ℕ) : ℕ := if n = 0 then 0 else c % n + 1

/-- The loop a functor is for. -/
def place (n : ℕ) : Functor → ℕ
  | .connectionEstablished c => slot n c
  | .removeConnectionInLoop _ => 0
  | .connectionDestroyed c => slot n c

/-! ### What the steps leave alone -/

/-- The loops are handed out as before. -/
structure Steady (s t : TcpServer) : Prop where
  numLoops : t.numLoops = s.numLoops
  next : t.next = s.next
  loops : t.conns.map Conn.loop = s.conns.map Conn.loop

theorem Steady.trans {u : TcpServer} (h : Steady s t) (h' : Steady t u) : Steady s u :=
  ⟨h'.numLoops.trans h.numLoops, h'.next.trans h.next, h'.loops.trans h.loops⟩

theorem steady_setState (st : Connection.State) (c : ℕ) (s : TcpServer) :
    Steady s (s.setState st c) := by
  refine ⟨rfl, rfl, List.ext_getElem? fun i => ?_⟩
  rw [List.getElem?_map, List.getElem?_map, getElem?_setState]
  split_ifs
  · rw [Option.map_map]
    rfl
  · rfl

theorem steady_invoke (h : invoke f s = .ok t) : Steady s t := by
  cases f with
  | connectionEstablished c =>
    obtain ⟨k, -, h⟩ := bind_eq_ok.mp h
    obtain ⟨-, -, h⟩ := bind_eq_ok.mp h
    obtain rfl := Except.ok.inj h
    have hset := steady_setState .CConnected c s
    exact ⟨hset.numLoops, hset.next, hset.loops⟩
  | removeConnectionInLoop c =>
    obtain ⟨k, -, h⟩ := bind_eq_ok.mp h
    obtain ⟨-, -, h⟩ := bind_eq_ok.mp h
    obtain rfl := Except.ok.inj h
    exact ⟨rfl, rfl, rfl⟩
  | connectionDestroyed c =>
    obtain ⟨k, -, h⟩ := bind_eq_ok.mp h
    obtain rfl := Except.ok.inj h
    split_ifs
    · have hset := steady_setState .CDisconnected c s
      exact ⟨hset.numLoops, hset.next, hset.loops⟩
    · exact ⟨rfl, rfl, rfl⟩

theorem steady_runInLoop {caller : ℕ} (h : s.runInLoop caller l f = .ok t) : Steady s t := by
  unfold TcpServer.runInLoop at h
  split_ifs at h
  · exact steady_invoke h
  · obtain rfl := Except.ok.inj h
    exact ⟨rfl, rfl, rfl⟩

theorem steady_handleClose (h : s.handleClose c = .ok t) : Steady s t := by
  obtain ⟨k, -, h⟩ := bind_eq_ok.mp h
  obtain ⟨-, -, h⟩ := bind_eq_ok.mp h
  exact (steady_setState .CDisconnected c s).trans (steady_runInLoop h)

theorem steady_shutdown (h : s.shutdown c = .ok t) : Steady s t := by
  obtain ⟨k, -, h⟩ := bind_eq_ok.mp h
  obtain rfl := Except.ok.inj h
  split_ifs
  · exact steady_setState .CDisconnecting c s
  · exact ⟨rfl, rfl, rfl⟩

/-! ### Round and round -/

/-- **The invariant**: the connections have got the loops in turn, and `next_` is the loop whose turn it
is. -/
structure InTurn (n : ℕ) (s : TcpServer) : Prop where
  numLoops : s.numLoops = n
  next : n = 0 ∨ s.next = s.conns.length % n
  loops : s.conns.map Conn.loop = (List.range s.conns.length).map (slot n)

theorem InTurn.steady (h : InTurn n s) (hst : Steady s t) : InTurn n t := by
  have hlen : t.conns.length = s.conns.length := by
    have := congrArg List.length hst.loops
    rwa [List.length_map, List.length_map] at this
  refine ⟨hst.numLoops.trans h.numLoops, ?_, ?_⟩
  · rw [hst.next, hlen]
    exact h.next
  · rw [hst.loops, hlen]
    exact h.loops

theorem inTurn_new (name : String) (n : ℕ) : InTurn n (TcpServer.new name n) where
  numLoops := rfl
  next := Or.inr (Nat.zero_mod n).symm
  loops := rfl

/-- The loop whose turn it is. -/
theorem InTurn.getNextLoop (h : InTurn n s) : ∃ next,
    s.getNextLoop = .ok (slot n s.conns.length, next) ∧
      (n = 0 ∨ next = (s.conns.length + 1) % n) := by
  unfold TcpServer.getNextLoop slot
  rw [h.numLoops]
  by_cases hn : n = 0
  · rw [if_pos hn, if_pos hn]
    exact ⟨_, rfl, Or.inl hn⟩
  · have hnext : s.next = s.conns.length % n := h.next.resolve_left hn
    have hlt : s.next < n := by
      rw [hnext]
      exact Nat.mod_lt _ (Nat.pos_of_ne_zero hn)
    rw [if_neg hn, if_neg hn, if_pos hlt, hnext]
    exact ⟨_, rfl, Or.inr (Nat.mod_add_mod _ n 1)⟩

theorem InTurn.newConnection (h : InTurn n s) (hs : s.newConnection = .ok t) : InTurn n t := by
  obtain ⟨next, hnext, hmod⟩ := h.getNextLoop
  unfold TcpServer.newConnection at hs
  rw [hnext, ok_bind] at hs
  refine InTurn.steady ?_ (steady_runInLoop hs)
  refine ⟨h.numLoops, ?_, ?_⟩
  · show n = 0 ∨ next = (s.conns ++ [_]).length % n
    rw [List.length_append]
    exact hmod
  · show (s.conns ++ [_]).map Conn.loop = (List.range (s.conns ++ [_]).length).map (slot n)
    rw [List.length_append, List.length_singleton, List.range_succ, List.map_append, List.map_append,
      h.loops]
    rfl

theorem inTurn_step {a : Act} (h : InTurn n s) (hs : step s a = .ok t) : InTurn n t := by
  cases a with
  | accept => exact h.newConnection hs
  | swap l =>
    obtain rfl := Except.ok.inj hs
    exact ⟨h.numLoops, h.next, h.loops⟩
  | exec l =>
    cases hf : (s.loops l).functors with
    | nil =>
      unfold step at hs
      simp only [hf, reduceCtorEq] at hs
    | cons f fs =>
      unfold step at hs
      simp only [hf] at hs
      have hst := steady_invoke hs
      exact h.steady ⟨hst.numLoops, hst.next, hst.loops⟩
  | close c => exact h.steady (steady_handleClose hs)
  | shutdown c => exact h.steady (steady_shutdown hs)

theorem inTurn_run {as : List Act} (h : Run serverMachine (TcpServer.new name n) as s) : InTurn n s :=
  h.invariant (I := InTurn n) (fun _ _ _ hI _ hs => inTurn_step hI hs) (inTurn_new name n)

/-! ### Shares -/

/-- The number of connections that get the loop `l`. -/
def load (l : ℕ) (s : TcpServer) : ℕ := (s.conns.map Conn.loop).count l

theorem count_slot (hn : 0 < n) (k m : ℕ) (hk : k < n) :
    ((List.range m).map (slot n)).count (k + 1) = m / n + if k < m % n then 1 else 0 := by
  have hcount : ((List.range m).map (slot n)).count (k + 1) = m.count (· ≡ k [MOD n]) := by
    unfold Nat.count
    rw [List.count_eq_countP, List.countP_map]
    refine List.countP_congr fun i _ => ?_
    simp [slot, Nat.ne_of_gt hn, Nat.ModEq, Nat.mod_eq_of_lt hk]
  rw [hcount, Nat.count_modEq_card m hn k, Nat.mod_eq_of_lt hk]

/-- No loop gets two connections more than another. -/
theorem InTurn.load_le (h : InTurn n s) {k l : ℕ} (hk : k < n) (hl : l < n) :
    load (k + 1) s ≤ load (l + 1) s + 1 := by
  unfold load
  rw [h.loops, count_slot (Nat.zero_lt_of_lt hk) k _ hk, count_slot (Nat.zero_lt_of_lt hk) l _ hl]
  split_ifs <;> omega

theorem InTurn.loopOf (h : InTurn n s) (hc : c < s.conns.length) : loopOf s c = slot n c := by
  have hget := congrArg (fun l => l[c]?) h.loops
  simp only [List.getElem?_map, List.getElem?_eq_getElem hc, Option.map_some,
    List.getElem?_eq_getElem (List.length_range.symm ▸ hc : c < (List.range s.conns.length).length),
    List.getElem_range, Option.some.injEq] at hget
  unfold Registry.loopOf
  rw [List.getElem?_eq_getElem hc]
  exact hget

/-- A functor is queued in the loop it is for. -/
theorem queued_place {stage : ℕ → Stage} (h : InTurn n s) (hacc : Accounts s stage none)
    (hf : f ∈ (s.loops l).toList) : l = place n f := by
  have hflight := hacc.flight l f
  rw [if_neg (fun h' => by cases h'.1)] at hflight
  have hpos := List.count_pos_iff.mpr hf
  have hhome : Expected s stage f ∧ l = home s f := by
    by_contra hno
    rw [if_neg hno] at hflight
    omega
  rw [hhome.2]
  cases f with
  | connectionEstablished c => exact h.loopOf hhome.1.1
  | removeConnectionInLoop c => rfl
  | connectionDestroyed c => exact h.loopOf hhome.1.1

/-- **The connections are spread evenly**, in every interleaving of the loops: connection `c` gets the loop
`c % n + 1`, or the base loop where there is no other; no IO loop gets two connections more than another;
and what is queued for a connection is queued in its loop, or in the base loop where it is to be removed. -/
theorem connections_spread {as : List Act} (h : Run serverMachine (TcpServer.new name n) as s)
    (hlt : as.count .accept < 2 ^ 31) :
    (∀ c k, s.conns[c]? = some k → k.loop = slot n c) ∧
    (∀ k l, k < n → l < n → load (k + 1) s ≤ load (l + 1) s + 1) ∧
    ∀ l f, f ∈ (s.loops l).toList → l = place n f := by
  have hturn := inTurn_run h
  obtain ⟨⟨stage, hacc⟩, -⟩ := counted_run h hlt
  refine ⟨fun c k hk => ?_, fun k l hk hl => hturn.load_le hk hl, fun l f => queued_place hturn hacc⟩
  obtain ⟨hc, rfl⟩ := List.getElem?_eq_some_iff.mp hk
  rw [← hturn.loopOf hc]
  unfold Registry.loopOf
  rw [List.getElem?_eq_getElem hc]
  rfl

/-- Three connections and two loops; the first connection has been closed meanwhile. -/
theorem connections_spread_three :
    ∃ s, Run serverMachine (TcpServer.new "server" 2) [.accept, .swap 1, .exec 1, .accept, .close 0,
      .swap 0, .exec 0, .accept] s ∧
    s.conns.map Conn.loop = [1, 2, 1] ∧ load 1 s ≤ load 2 s + 1 ∧
    (s.loops 1).toList = [.connectionDestroyed 0, .connectionEstablished 2] := by
  have h : Run serverMachine (TcpServer.new "server" 2) [.accept, .swap 1, .exec 1, .accept, .close 0,
    .swap 0, .exec 0, .accept] _ := run_iff_exec.mpr rfl
  exact ⟨_, h, rfl, (connections_spread h (by decide)).2.1 0 1 (by decide) (by decide), rfl⟩

end ReactorServer.Net.Balance
