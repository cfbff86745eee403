import ReactorServer.Lib.Lines
import ReactorServer.Lib.Runs
import Mathlib.Data.List.TakeWhile

/-!
# A line scanner that goes on where it stopped

A `Scanner` reads a text in memory from its cursor up to a limit, and overwrites the two symbols that
end a line.  It is called as long as it finds lines (`drain`), and again when the limit has been
raised (`session`).  Whatever the limits are, what it finds in the end is how the whole text splits
into lines (`Splits`, `session_eq`).

An `lf` behind a `cr` is where a scanner could end a line that it has half passed.  It never comes to
one, so that nothing depends on what it does there.
-/

namespace ReactorServer.Lib.Scanning

open ReactorServer.Lib.Lines ReactorServer.Lib.Runs

variable {σ α τ ε : Type}

/-! ### How a text splits -/

/-- The text is these lines, each with its end, and a rest that does not begin with another. -/
structure Splits (cr lf : α) (u : List α) (ls : List (List α)) (rest : List α) : Prop where
  eq : u = block cr lf ls ++ rest
  clean : ∀ l ∈ ls, Clean cr lf l
  rest : ∀ l v, Clean cr lf l → rest ≠ l ++ cr :: lf :: v

/-- The lines with `nul`s for their ends. -/
def nulBlock (nul : α) (ls : List (List α)) : List α := ls.flatMap fun l => l ++ [nul, nul]

/-- Where the lines end that begin at `p`. -/
def ends (p : ℕ) : List (List α) → List ℕ
  | [] => []
  | l :: ls => (p + l.length + 2) :: ends (p + l.length + 2) ls

variable {cr lf nul : α} {u v w z pre rest rest' l : List α} {ls ls' : List (List α)} {p : ℕ}

theorem length_nulBlock : (nulBlock nul ls).length = (block cr lf ls).length := by
  simp [nulBlock, block, List.length_flatMap]

theorem ends_append : ends p (ls ++ ls') =
    ends p ls ++ ends (p + (block cr lf ls).length) ls' := by
  induction ls generalizing p with
  | nil => simp [ends, block]
  | cons l ls ih =>
    have hlen : (block cr lf (l :: ls)).length = l.length + 2 + (block cr lf ls).length := by
      simp only [block, List.flatMap_cons, List.length_append, List.length_cons, List.length_nil]
    rw [List.cons_append, ends, ih, ends, hlen, List.cons_append, Nat.add_assoc p,
      Nat.add_assoc p]

theorem Splits.append (h : Splits cr lf u ls rest) (h' : Splits cr lf (rest ++ z) ls' rest') :
    Splits cr lf (u ++ z) (ls ++ ls') rest' := by
  refine ⟨?_, fun l hl => ?_, h'.rest⟩
  · rw [h.eq, List.append_assoc, h'.eq, block_append, List.append_assoc]
  · exact (List.mem_append.mp hl).elim (h.clean l) (h'.clean l)

theorem exists_splits (cr lf : α) (u : List α) : ∃ ls rest, Splits cr lf u ls rest := by
  generalize hn : u.length = n
  induction n using Nat.strong_induction_on generalizing u with
  | _ n ih =>
    by_cases h : ∃ l v, Clean cr lf l ∧ u = l ++ cr :: lf :: v
    · obtain ⟨l, v, hl, rfl⟩ := h
      simp only [List.length_append, List.length_cons] at hn
      obtain ⟨ls, rest, hsplit⟩ := ih v.length (by omega) v rfl
      refine ⟨l :: ls, rest, ?_, fun l' hl' => ?_, hsplit.rest⟩
      · rw [block_cons, ← hsplit.eq]
      · rcases List.mem_cons.mp hl' with rfl | hl'
        · exact hl
        · exact hsplit.clean l' hl'
    · refine ⟨[], u, rfl, fun l hl => absurd hl List.not_mem_nil, fun l v hl hu => ?_⟩
      exact h ⟨l, v, hl, hu⟩

variable [DecidableEq α]

theorem Splits.scan_ne (h : Splits cr lf u ls rest) (l v : List α) :
    scan cr lf rest ≠ .line l v := by
  intro hs
  obtain ⟨hrest, hl⟩ := scan_eq_line.mp hs
  exact h.rest l v hl hrest

/-- **In one way.** -/
theorem Splits.unique (h : Splits cr lf u ls rest) (h' : Splits cr lf u ls' rest') :
    ls = ls' ∧ rest = rest' := by
  induction ls generalizing u ls' with
  | nil =>
    have hu : u = rest := h.eq
    cases ls' with
    | nil => exact ⟨rfl, hu.symm.trans h'.eq⟩
    | cons l ls' =>
      have heq := h'.eq
      rw [block_cons, hu] at heq
      exact absurd heq (h.rest l _ (h'.clean l List.mem_cons_self))
  | cons l ls ih =>
    have heq := h.eq
    rw [block_cons] at heq
    cases ls' with
    | nil =>
      have hu : u = rest' := h'.eq
      rw [hu] at heq
      exact absurd heq (h'.rest l _ (h.clean l List.mem_cons_self))
    | cons l' ls' =>
      have heq' := h'.eq
      rw [block_cons] at heq'
      have hs := scan_line (h.clean l List.mem_cons_self) (block cr lf ls ++ rest)
      have hs' := scan_line (h'.clean l' List.mem_cons_self) (block cr lf ls' ++ rest')
      rw [← heq] at hs
      rw [← heq', hs] at hs'
      obtain ⟨rfl, hrest⟩ := Scan.line.inj hs'
      obtain ⟨rfl, rfl⟩ := ih (u := block cr lf ls ++ rest)
        ⟨rfl, fun l hl => h.clean l (List.mem_cons_of_mem _ hl), h.rest⟩
        ⟨hrest, fun l hl => h'.clean l (List.mem_cons_of_mem _ hl), h'.rest⟩
      exact ⟨rfl, rfl⟩

/-! ### The scanner -/

/-- The operations of the scanner, and what it reports. -/
structure Scanner (σ α τ ε : Type) where
  read : σ → ℕ → Except ε α
  /-- overwrite one symbol -/
  clear : ℕ → σ → Except ε σ
  cursor : σ → ℕ
  goto : ℕ → σ → σ
  limit : σ → ℕ
  /-- raise the limit -/
  extend : ℕ → σ → σ
  ok : τ
  bad : τ
  opn : τ

/-- The search for the end of the line, in at most `n` steps.  Where an `lf` is found whose place
meets `bound` and that has a `cr` before it, `pair` is done. -/
def scanLoop (M : Scanner σ α τ ε) (cr lf : α) (bound : ℕ → Bool) (pair : σ → Except ε (τ × σ)) :
    ℕ → σ → Except ε (τ × σ)
  | 0, s => pure (M.opn, s)
  | n + 1, s => do
    let a ← M.read s (M.cursor s)
    if a = cr then
      if M.cursor s + 1 = M.limit s then pure (M.opn, s)
      else if (← M.read s (M.cursor s + 1)) = lf then
        let s ← M.clear (M.cursor s) s
        let s ← M.clear (M.cursor s + 1) s
        pure (M.ok, M.goto (M.cursor s + 2) s)
      else pure (M.bad, s)
    else if a = lf then
      let afterCr ← if bound (M.cursor s) = true then (· == cr) <$> M.read s (M.cursor s - 1)
        else pure false
      if afterCr then pair s else pure (M.bad, s)
    else scanLoop M cr lf bound pair n (M.goto (M.cursor s + 1) s)

/-- The search from the cursor up to the limit. -/
def nextLine (M : Scanner σ α τ ε) (cr lf : α) (bound : ℕ → Bool) (pair : σ → Except ε (τ × σ))
    (s : σ) : Except ε (τ × σ) :=
  scanLoop M cr lf bound pair (M.limit s - M.cursor s) s

/-- Call as long as there are lines, at most `n` times: where they end, and what the last call
reports. -/
def drain [DecidableEq τ] (M : Scanner σ α τ ε) (hang : ε) (next : σ → Except ε (τ × σ)) :
    ℕ → σ → Except ε (List ℕ × τ × σ)
  | 0, _ => throw hang
  | n + 1, s => do
    let (status, s) ← next s
    if status = M.ok then
      let (ks, last, t) ← drain M hang next n s
      pure (M.cursor s :: ks, last, t)
    else pure ([], status, s)

/-- Do so at each of the limits. -/
def session [DecidableEq τ] (M : Scanner σ α τ ε) (hang : ε) (next : σ → Except ε (τ × σ)) :
    List ℕ → σ → Except ε (List ℕ × τ × σ)
  | [], s => pure ([], M.opn, s)
  | [k], s => drain M hang next (k + 1) (M.extend k s)
  | k :: k' :: ks, s => do
    let (is, _, s) ← drain M hang next (k + 1) (M.extend k s)
    let (js, last, t) ← session M hang next (k' :: ks) s
    pure (is ++ js, last, t)

/-- Where the search stops without a line. -/
def stop (cr lf : α) (rest : List α) : ℕ := (rest.takeWhile fun a => a ≠ cr ∧ a ≠ lf).length

/-- What it reports then. -/
def status (M : Scanner σ α τ ε) (cr lf : α) (rest : List α) : τ :=
  if scan cr lf rest = .bad then M.bad else M.opn

/-- The states that `mk` gives for a text of `n` symbols, a limit and a cursor are left and read as the
operations say. -/
structure Faithful (M : Scanner σ α τ ε) (nul : α) (mk : List α → ℕ → ℕ → σ) (n : ℕ) : Prop where
  read : ∀ u r k i a, u.length = n → u[i]? = some a → M.read (mk u r k) i = .ok a
  clear : ∀ u r k i, u.length = n → i < n → M.clear i (mk u r k) = .ok (mk (u.set i nul) r k)
  cursor : ∀ u r k, M.cursor (mk u r k) = k
  goto : ∀ u r k j, M.goto j (mk u r k) = mk u r j
  limit : ∀ u r k, M.limit (mk u r k) = r
  extend : ∀ u r k j, M.extend j (mk u r k) = mk u j k
  bad_ne : M.bad ≠ M.ok
  opn_ne : M.opn ≠ M.ok

section
variable {M : Scanner σ α τ ε} {mk : List α → ℕ → ℕ → σ} {n k r : ℕ} {bound : ℕ → Bool}
  {pair : σ → Except ε (τ × σ)} {next : σ → Except ε (τ × σ)} {hang : ε} {ks : List ℕ}

theorem stop_cons {a : α} (h1 : a ≠ cr) (h2 : a ≠ lf) : stop cr lf (a :: u) = stop cr lf u + 1 := by
  simp [stop, h1, h2]

theorem stop_append (hl : Clean cr lf l) (u : List α) :
    stop cr lf (l ++ u) = l.length + stop cr lf u := by
  induction l with
  | nil => simp
  | cons a l ih =>
    obtain ⟨h1, h2, hl⟩ := clean_cons.mp hl
    rw [List.cons_append, stop_cons h1 h2, ih hl, List.length_cons]
    omega

theorem stop_le (u v : List α) : stop cr lf u ≤ stop cr lf (u ++ v) := by
  induction u with
  | nil => exact Nat.zero_le _
  | cons a u ih =>
    by_cases h : a ≠ cr ∧ a ≠ lf
    · rw [List.cons_append, stop_cons h.1 h.2, stop_cons h.1 h.2]
      omega
    · have : stop cr lf (a :: u) = 0 := by
        unfold stop
        rw [List.takeWhile_cons_of_neg (by simpa using h)]
        rfl
      omega

/-- **No `cr` is behind the cursor**, so that at an `lf` nothing depends on `bound` and `pair`. -/
theorem pair_dead {a : α} (hM : Faithful M nul mk n) (hbound : bound 0 = false)
    (hn : (pre ++ a :: w).length = n) (hpre : pre.getLast? ≠ some cr) :
    (do
      let afterCr ← if bound pre.length = true then
          (· == cr) <$> M.read (mk (pre ++ a :: w) r pre.length) (pre.length - 1)
        else pure false
      if afterCr then pair (mk (pre ++ a :: w) r pre.length)
      else pure (M.bad, mk (pre ++ a :: w) r pre.length)) =
      .ok (M.bad, mk (pre ++ a :: w) r pre.length) := by
  by_cases hb : bound pre.length = true
  · have hne : pre ≠ [] := by
      rintro rfl
      rw [List.length_nil, hbound] at hb
      cases hb
    have hpos := List.length_pos_iff.mpr hne
    have hlast : pre.getLast hne ≠ cr := by
      rwa [List.getLast?_eq_some_getLast hne, ne_eq, Option.some_inj] at hpre
    have hread : M.read (mk (pre ++ a :: w) r pre.length) (pre.length - 1) =
        .ok (pre.getLast hne) := by
      refine hM.read _ _ _ _ _ hn ?_
      rw [List.getElem?_append_left (by omega), List.getLast_eq_getElem,
        List.getElem?_eq_getElem (by omega)]
    rw [if_pos hb, hread]
    simp [hlast]
  · rw [if_neg hb]
    rfl

omit [DecidableEq α] in
theorem clear_pair {b : List α} (hM : Faithful M nul mk n)
    (hn : (pre ++ cr :: lf :: b).length = n) :
    (do
      let s ← M.clear pre.length (mk (pre ++ cr :: lf :: b) r pre.length)
      let s ← M.clear (M.cursor s + 1) s
      pure (M.ok, M.goto (M.cursor s + 2) s)) =
      .ok (M.ok, mk (pre ++ nul :: nul :: b) r (pre.length + 2)) := by
  have hlen : pre.length + 1 < n := by
    rw [← hn]
    simp only [List.length_append, List.length_cons]
    omega
  have h1 : (pre ++ cr :: lf :: b).set pre.length nul = pre ++ nul :: lf :: b := by simp
  have h2 : (pre ++ nul :: lf :: b).set (pre.length + 1) nul = pre ++ nul :: nul :: b := by simp
  have hn' : (pre ++ nul :: lf :: b).length = n := by
    rw [← h1, List.length_set]
    exact hn
  rw [hM.clear _ _ _ _ hn (by omega), h1, ok_bind, hM.cursor,
    hM.clear _ _ _ _ hn' hlen, h2, ok_bind, hM.cursor, hM.goto]
  rfl

/-- **One search**, from behind `pre`. -/
theorem scanLoop_eq (pair : σ → Except ε (τ × σ)) (hM : Faithful M nul mk n)
    (hbound : bound 0 = false)
    (hn : (pre ++ (u ++ z)).length = n) (hr : r = (pre ++ u).length)
    (hpre : pre.getLast? ≠ some cr) :
    scanLoop M cr lf bound pair u.length (mk (pre ++ (u ++ z)) r pre.length) =
      match scan cr lf u with
      | .line l v => .ok (M.ok,
          mk (pre ++ (l ++ nul :: nul :: (v ++ z))) r (pre.length + l.length + 2))
      | .bad => .ok (M.bad, mk (pre ++ (u ++ z)) r (pre.length + stop cr lf u))
      | .opn => .ok (M.opn, mk (pre ++ (u ++ z)) r (pre.length + stop cr lf u)) := by
  induction u generalizing pre with
  | nil => exact congrArg (fun k => Except.ok (M.opn, mk (pre ++ z) r k)) rfl
  | cons a u ih =>
    have hread : M.read (mk (pre ++ (a :: u ++ z)) r pre.length) pre.length = .ok a :=
      hM.read _ _ _ _ _ hn (by simp)
    rw [List.length_cons, scanLoop, hM.cursor, hread, ok_bind, scan]
    by_cases hcr : a = cr
    · rw [if_pos hcr, if_pos hcr]
      have hstop : stop cr lf (a :: u) = 0 := by simp [stop, hcr]
      subst hcr
      cases u with
      | nil =>
        rw [hM.limit, if_pos (by simp [hr])]
        simp [afterCr, hstop]
      | cons b v =>
        have hread' : M.read (mk (pre ++ (a :: b :: v ++ z)) r pre.length) (pre.length + 1) =
            .ok b := hM.read _ _ _ _ _ hn (by simp)
        rw [hM.limit, if_neg (by simp [hr]), hread', ok_bind, afterCr]
        by_cases hlf : b = lf
        · rw [if_pos hlf, if_pos hlf]
          subst hlf
          exact clear_pair hM hn
        · rw [if_neg hlf, if_neg hlf]
          simp [hstop]
    · rw [if_neg hcr, if_neg hcr]
      by_cases hlf : a = lf
      · rw [if_pos hlf, if_pos hlf]
        have hstop : stop cr lf (a :: u) = 0 := by simp [stop, hlf]
        rw [hstop]
        exact pair_dead hM hbound hn hpre
      · -- an ordinary symbol is passed
        rw [if_neg hlf, if_neg hlf, hM.goto]
        have hn' : ((pre ++ [a]) ++ (u ++ z)).length = n := by simpa using hn
        have hr' : r = ((pre ++ [a]) ++ u).length := by simpa using hr
        have := ih hn' hr' (by simp [hcr])
        simp only [List.append_assoc, List.singleton_append, List.length_append,
          List.length_singleton] at this
        rw [List.cons_append, this]
        cases scan cr lf u with
        | line l v =>
          have hk : pre.length + 1 + l.length + 2 = pre.length + (a :: l).length + 2 := by
            rw [List.length_cons]
            omega
          exact congrArg (fun k => Except.ok (M.ok,
            mk (pre ++ (a :: l ++ nul :: nul :: (v ++ z))) r k)) hk
        | bad | opn =>
          simp only [Scan.cons]
          rw [stop_cons hcr hlf, Nat.add_assoc pre.length, Nat.add_comm 1]

theorem scan_append (hl : Clean cr lf l) (u : List α) : scan cr lf (l ++ u) =
    match scan cr lf u with
    | .line l' v => .line (l ++ l') v
    | .bad => .bad
    | .opn => .opn := by
  induction l with
  | nil =>
    rw [List.nil_append]
    cases scan cr lf u <;> rfl
  | cons a l ih =>
    obtain ⟨h1, h2, hl⟩ := clean_cons.mp hl
    rw [List.cons_append, scan, if_neg h1, if_neg h2, ih hl]
    cases scan cr lf u <;> rfl

/-- **One call**, with the part `a` of the line passed. -/
theorem nextLine_eq {a : List α} (pair : σ → Except ε (τ × σ)) (hM : Faithful M nul mk n)
    (hbound : bound 0 = false)
    (ha : Clean cr lf a) (hn : (pre ++ (a ++ u ++ z)).length = n)
    (hr : r = (pre ++ (a ++ u)).length) (hpre : pre.getLast? ≠ some cr) :
    nextLine M cr lf bound pair (mk (pre ++ (a ++ u ++ z)) r (pre.length + a.length)) =
      match scan cr lf (a ++ u) with
      | .line l v => .ok (M.ok,
          mk (pre ++ (l ++ nul :: nul :: (v ++ z))) r (pre.length + l.length + 2))
      | .bad => .ok (M.bad, mk (pre ++ (a ++ u ++ z)) r (pre.length + stop cr lf (a ++ u)))
      | .opn => .ok (M.opn, mk (pre ++ (a ++ u ++ z)) r (pre.length + stop cr lf (a ++ u))) := by
  have hlast : (pre ++ a).getLast? ≠ some cr := by
    rw [List.getLast?_append]
    cases h : a.getLast? with
    | none => exact hpre
    | some b =>
      rintro hb
      rw [Option.some_or, Option.some_inj] at hb
      exact ha.1 (hb ▸ List.mem_of_getLast? h)
  have hrest : r - (pre.length + a.length) = u.length := by
    rw [hr]
    simp only [List.length_append]
    omega
  have hn' : ((pre ++ a) ++ (u ++ z)).length = n := by simpa using hn
  have hr' : r = ((pre ++ a) ++ u).length := by simpa using hr
  have key : scanLoop M cr lf bound pair u.length (mk ((pre ++ a) ++ (u ++ z)) r (pre ++ a).length) =
      _ := scanLoop_eq pair hM hbound hn' hr' hlast
  rw [List.length_append] at key
  rw [nextLine, hM.limit, hM.cursor, hrest, stop_append ha, scan_append ha]
  have htext : pre ++ (a ++ u ++ z) = pre ++ a ++ (u ++ z) := by simp
  rw [htext, key]
  cases scan cr lf u with
  | line l v => simp [Nat.add_assoc]
  | bad | opn => rw [Nat.add_assoc]

theorem clean_take {j : ℕ} (h : j ≤ stop cr lf w) : Clean cr lf (w.take j) := by
  have hmem : ∀ a ∈ w.take j, a ≠ cr ∧ a ≠ lf := by
    intro a ha
    have htake : w.take j <+: w.takeWhile fun a => a ≠ cr ∧ a ≠ lf :=
      List.prefix_of_prefix_length_le (List.take_prefix _ _) (List.takeWhile_prefix _) (by
        rw [List.length_take]
        exact Nat.le_trans (Nat.min_le_left _ _) h)
    simpa using List.mem_takeWhile_imp (htake.subset ha)
  exact ⟨fun h => (hmem cr h).1 rfl, fun h => (hmem lf h).2 rfl⟩

theorem stop_le_length (w : List α) : stop cr lf w ≤ w.length :=
  (List.takeWhile_prefix _).length_le

theorem nextLine_from {j : ℕ} (pair : σ → Except ε (τ × σ)) (hM : Faithful M nul mk n)
    (hbound : bound 0 = false)
    (hn : (pre ++ (w ++ z)).length = n) (hr : r = (pre ++ w).length)
    (hpre : pre.getLast? ≠ some cr) (hj : j ≤ stop cr lf w) :
    nextLine M cr lf bound pair (mk (pre ++ (w ++ z)) r (pre.length + j)) =
      match scan cr lf w with
      | .line l v => .ok (M.ok,
          mk (pre ++ (l ++ nul :: nul :: (v ++ z))) r (pre.length + l.length + 2))
      | .bad => .ok (M.bad, mk (pre ++ (w ++ z)) r (pre.length + stop cr lf w))
      | .opn => .ok (M.opn, mk (pre ++ (w ++ z)) r (pre.length + stop cr lf w)) := by
  have hlen : (w.take j).length = j := by
    have : stop cr lf w ≤ w.length := stop_le_length w
    rw [List.length_take]
    omega
  have hn' : (pre ++ (w.take j ++ w.drop j ++ z)).length = n := by rwa [List.take_append_drop]
  have hr' : r = (pre ++ (w.take j ++ w.drop j)).length := by rwa [List.take_append_drop]
  have key := nextLine_eq pair hM hbound (clean_take hj) hn' hr' hpre
  rwa [List.take_append_drop, hlen] at key

omit [DecidableEq α] in
theorem drain_last [DecidableEq τ] {s t : σ} {last : τ} {fuel : ℕ} (h : next s = .ok (last, t))
    (hne : last ≠ M.ok) : drain M hang next (fuel + 1) s = .ok ([], last, t) := by
  rw [drain, h, ok_bind]
  exact if_neg hne

omit [DecidableEq α] in
theorem drain_line [DecidableEq τ] {s t : σ} {fuel : ℕ} {x : List ℕ × τ × σ}
    (h : next s = .ok (M.ok, t)) (h' : drain M hang next fuel t = .ok x) :
    drain M hang next (fuel + 1) s = .ok (M.cursor t :: x.1, x.2) := by
  rw [drain, h, ok_bind]
  simp only [if_true, h']
  rfl

/-- **All calls at one limit**: induction on the lines. -/
theorem drain_eq [DecidableEq τ] {j fuel : ℕ} (hM : Faithful M nul mk n) (hbound : bound 0 = false)
    (hnul : nul ≠ cr) (hsplit : Splits cr lf w ls rest) (hn : (pre ++ (w ++ z)).length = n)
    (hr : r = (pre ++ w).length) (hpre : pre.getLast? ≠ some cr) (hj : j ≤ stop cr lf w)
    (hfuel : ls.length < fuel) :
    drain M hang (nextLine M cr lf bound pair) fuel (mk (pre ++ (w ++ z)) r (pre.length + j)) =
      .ok (ends pre.length ls, status M cr lf rest,
        mk (pre ++ (nulBlock nul ls ++ (rest ++ z))) r
          (pre.length + (block cr lf ls).length + stop cr lf rest)) := by
  induction ls generalizing pre w j fuel with
  | nil =>
    obtain ⟨fuel, rfl⟩ : ∃ k, fuel = k + 1 := ⟨fuel - 1, by omega⟩
    have hw : w = rest := hsplit.eq
    have hnext := nextLine_from pair hM hbound hn hr hpre hj
    have hne := hsplit.scan_ne
    rw [← hw] at hne ⊢
    unfold status
    cases hs : scan cr lf w with
    | line l v => exact absurd hs (hne l v)
    | bad =>
      rw [hs] at hnext
      exact drain_last hnext hM.bad_ne
    | opn =>
      rw [hs] at hnext
      exact drain_last hnext hM.opn_ne
  | cons l ls ih =>
    obtain ⟨fuel, rfl⟩ : ∃ k, fuel = k + 1 := ⟨fuel - 1, by omega⟩
    have hw : w = l ++ cr :: lf :: (block cr lf ls ++ rest) := by
      rw [hsplit.eq, block_cons]
    have hs : scan cr lf w = .line l (block cr lf ls ++ rest) := by
      rw [hw]
      exact scan_line (hsplit.clean l List.mem_cons_self) _
    have hnext := nextLine_from pair hM hbound hn hr hpre hj
    rw [hs] at hnext
    -- the next line begins behind the two `nul`s
    have hpre' : (pre ++ (l ++ [nul, nul])).getLast? ≠ some cr := by simp [hnul]
    have hlen : (pre ++ (l ++ [nul, nul])).length = pre.length + l.length + 2 := by simp; omega
    have hrest : Splits cr lf (block cr lf ls ++ rest) ls rest :=
      ⟨rfl, fun l' hl' => hsplit.clean l' (List.mem_cons_of_mem _ hl'), hsplit.rest⟩
    have hn' : ((pre ++ (l ++ [nul, nul])) ++ (block cr lf ls ++ rest ++ z)).length = n := by
      rw [← hn, hw]
      simp
    have hr' : r = ((pre ++ (l ++ [nul, nul])) ++ (block cr lf ls ++ rest)).length := by
      rw [hr, hw]
      simp
    have hfuel' : ls.length < fuel := by simpa using hfuel
    have key := ih hrest hn' hr' hpre' (Nat.zero_le _) hfuel'
    rw [hlen, Nat.add_zero] at key
    have hblock : pre.length + (block cr lf (l :: ls)).length =
        pre.length + l.length + 2 + (block cr lf ls).length := by
      simp [block]
      omega
    have htext : pre ++ (l ++ [nul, nul]) ++ (block cr lf ls ++ rest ++ z) =
        pre ++ (l ++ nul :: nul :: (block cr lf ls ++ rest ++ z)) := by simp
    have htext' : pre ++ (l ++ [nul, nul]) ++ (nulBlock nul ls ++ (rest ++ z)) =
        pre ++ (nulBlock nul (l :: ls) ++ (rest ++ z)) := by simp [nulBlock]
    rw [htext, htext', ← hblock] at key
    have hdrain := drain_line (M := M) hnext key
    rwa [hM.cursor] at hdrain

omit [DecidableEq α] in
theorem length_le_block (ls : List (List α)) : ls.length ≤ (block cr lf ls).length := by
  induction ls with
  | nil => exact Nat.zero_le _
  | cons l ls ih =>
    simp only [block, List.flatMap_cons, List.length_append, List.length_cons] at ih ⊢
    omega

/-- The calls at one limit `k`, with the text behind it. -/
theorem drain_at [DecidableEq τ] {j : ℕ} (hang : ε) (pair : σ → Except ε (τ × σ)) (r : ℕ)
    (hM : Faithful M nul mk n) (hbound : bound 0 = false)
    (hnul : nul ≠ cr) (hn : (pre ++ v).length = n) (hpre : pre.getLast? ≠ some cr)
    (hk : pre.length ≤ k) (hkn : k ≤ n) (hj : j ≤ stop cr lf (v.take (k - pre.length))) :
    ∃ ls rest, Splits cr lf (v.take (k - pre.length)) ls rest ∧
      drain M hang (nextLine M cr lf bound pair) (k + 1) (M.extend k (mk (pre ++ v) r
          (pre.length + j))) =
        .ok (ends pre.length ls, status M cr lf rest,
          mk (pre ++ (nulBlock nul ls ++ (rest ++ v.drop (k - pre.length)))) k
            (pre.length + (block cr lf ls).length + stop cr lf rest)) := by
  obtain ⟨ls, rest, hsplit⟩ := exists_splits cr lf (v.take (k - pre.length))
  refine ⟨ls, rest, hsplit, ?_⟩
  have htext : v = v.take (k - pre.length) ++ v.drop (k - pre.length) :=
    (List.take_append_drop _ _).symm
  have hlen : (v.take (k - pre.length)).length = k - pre.length := by
    rw [List.length_append] at hn
    rw [List.length_take]
    omega
  have hfuel : ls.length < k + 1 := by
    have h1 : ls.length ≤ (block cr lf ls).length := length_le_block ls
    have h2 := congrArg List.length hsplit.eq
    rw [hlen, List.length_append] at h2
    omega
  rw [hM.extend]
  conv_lhs => rw [htext]
  refine drain_eq hM hbound hnul hsplit ?_ ?_ hpre hj hfuel
  · rwa [List.take_append_drop]
  · rw [List.length_append, hlen]
    omega

omit [DecidableEq α] in
theorem getLast?_nulBlock (hnul : nul ≠ cr) (hpre : pre.getLast? ≠ some cr) (ls : List (List α)) :
    (pre ++ nulBlock nul ls).getLast? ≠ some cr := by
  rcases List.eq_nil_or_concat ls with rfl | ⟨ls, l, rfl⟩
  · simpa [nulBlock] using hpre
  · simp [nulBlock, hnul]

/-- **All calls**: induction on the limits. -/
theorem session_from [DecidableEq τ] {j : ℕ} (hang : ε) (pair : σ → Except ε (τ × σ)) (r : ℕ)
    (hM : Faithful M nul mk n) (hbound : bound 0 = false)
    (hnul : nul ≠ cr) (hn : (pre ++ v).length = n) (hpre : pre.getLast? ≠ some cr)
    (hsorted : ks.Pairwise (· ≤ ·)) (hlast : ks.getLast? = some n)
    (hks : ∀ k ∈ ks, pre.length ≤ k ∧ k ≤ n ∧ j ≤ stop cr lf (v.take (k - pre.length))) :
    ∃ ls rest, Splits cr lf v ls rest ∧
      session M hang (nextLine M cr lf bound pair) ks (mk (pre ++ v) r (pre.length + j)) =
        .ok (ends pre.length ls, status M cr lf rest, mk (pre ++ (nulBlock nul ls ++ rest)) n
          (pre.length + (block cr lf ls).length + stop cr lf rest)) := by
  induction ks generalizing pre v j r with
  | nil => cases hlast
  | cons k ks ih =>
    obtain ⟨hk, hkn, hj⟩ := hks k List.mem_cons_self
    obtain ⟨ls, rest, hsplit, hdrain⟩ := drain_at hang pair r
      hM hbound hnul hn hpre hk hkn hj
    cases ks with
    | nil =>
      -- the whole text is there
      obtain rfl : k = n := Option.some.inj hlast
      have hlen : v.length ≤ k - pre.length := by
        rw [List.length_append] at hn
        omega
      rw [List.take_of_length_le hlen] at hsplit
      rw [List.drop_of_length_le hlen, List.append_nil] at hdrain
      exact ⟨ls, rest, hsplit, hdrain⟩
    | cons k' ks =>
      obtain ⟨hle, hsorted⟩ := List.pairwise_cons.mp hsorted
      have hblock : (nulBlock nul ls).length = (block cr lf ls).length := length_nulBlock
      have hlen := congrArg List.length hsplit.eq
      rw [List.length_append] at hn
      rw [List.length_append, List.length_take, Nat.min_eq_left (by omega)] at hlen
      have hpre' : (pre ++ nulBlock nul ls).length = pre.length + (block cr lf ls).length := by
        rw [List.length_append, hblock]
      have hn' : ((pre ++ nulBlock nul ls) ++ (rest ++ v.drop (k - pre.length))).length = n := by
        rw [List.length_append, hpre', List.length_append, List.length_drop]
        omega
      have hks' : ∀ i ∈ k' :: ks, (pre ++ nulBlock nul ls).length ≤ i ∧ i ≤ n ∧ stop cr lf rest ≤
          stop cr lf ((rest ++ v.drop (k - pre.length)).take (i - (pre ++ nulBlock nul ls).length)) := by
        intro i hi
        have := hks i (List.mem_cons_of_mem _ hi)
        have := hle i hi
        refine ⟨by omega, by omega, ?_⟩
        rw [List.take_append, List.take_of_length_le (by omega)]
        exact stop_le _ _
      obtain ⟨ls', rest', hsplit', hsession⟩ :=
        ih k hn' (getLast?_nulBlock hnul hpre ls) hsorted hlast hks'
      refine ⟨ls ++ ls', rest', ?_, ?_⟩
      · have := hsplit.append hsplit'
        rwa [List.take_append_drop] at this
      · rw [session, hdrain, ok_bind]
        have hnul' : nulBlock nul (ls ++ ls') = nulBlock nul ls ++ nulBlock nul ls' :=
          List.flatMap_append
        have hends : ends pre.length (ls ++ ls') = ends pre.length ls ++
            ends (pre.length + (block cr lf ls).length) ls' := ends_append
        simp only [hpre', List.append_assoc] at hsession
        simp only [hsession, ok_bind, hnul', block_append, List.length_append, List.append_assoc,
          ← Nat.add_assoc, hends]
        rfl

/-- Limits that rise to the length of the text. -/
structure Limits (ks : List ℕ) (n : ℕ) : Prop where
  sorted : ks.Pairwise (· ≤ ·)
  last : ks.getLast? = some n

theorem Limits.le (h : Limits ks n) (hk : k ∈ ks) : k ≤ n := by
  obtain ⟨init, rfl⟩ := List.getLast?_eq_some_iff.mp h.last
  rcases List.mem_append.mp hk with hk | hk
  · exact (List.pairwise_append.mp h.sorted).2.2 k hk n List.mem_cons_self
  · exact Nat.le_of_eq (List.mem_singleton.mp hk)

/-- **Whatever the limits are**, the lines found are those that the text splits into, and the last call
stops where the rest does. -/
theorem session_eq [DecidableEq τ] (hM : Faithful M nul mk u.length) (hbound : bound 0 = false)
    (hnul : nul ≠ cr) (hsplit : Splits cr lf u ls rest) (hks : Limits ks u.length) :
    session M hang (nextLine M cr lf bound pair) ks (mk u r 0) =
      .ok (ends 0 ls, status M cr lf rest,
        mk (nulBlock nul ls ++ rest) u.length ((block cr lf ls).length + stop cr lf rest)) := by
  have hn : (([] : List α) ++ u).length = u.length := rfl
  have hlimits : ∀ k ∈ ks, ([] : List α).length ≤ k ∧ k ≤ u.length ∧
      0 ≤ stop cr lf (u.take (k - ([] : List α).length)) :=
    fun k hk => ⟨Nat.zero_le _, hks.le hk, Nat.zero_le _⟩
  obtain ⟨ls', rest', hsplit', h⟩ :=
    session_from hang pair r hM hbound hnul hn nofun hks.sorted hks.last hlimits
  obtain ⟨rfl, rfl⟩ := hsplit.unique hsplit'
  simpa using h

end

end ReactorServer.Lib.Scanning
