import ReactorServer.Conn.Writer
import ReactorServer.Lib.Runs
import Mathlib.Data.List.Nodup

/-!
# Sending the response

`write` hands the whole of `iv` to `writev` again and again, and counts the bytes accepted against
the length of the head.  It never moves `iv` on, so every `writev` starts with the first byte, and it
reports completion when half of the head has gone out.  Bytes are told apart by their places: what
the kernel has taken is head and file, each byte once, if and only if one `writev` took them all and
no other took any (`sentOnce_iff`).
-/

namespace ReactorServer.Conn.Sending

open ReactorServer.Cpp ReactorServer.Lib.Runs ReactorServer.Conn.Strings
open ReactorServer.Conn.Writer

/-- The events `modFd` is called with. -/
inductive Event
  | EPOLLIN
  | EPOLLOUT
  deriving DecidableEq, Repr

/-- What `errno` may be. -/
inductive Errno
  | EAGAIN
  | other
  deriving DecidableEq, Repr

/-- A byte that `iv` designates: where its `iovec` begins, and its distance from there. -/
abbrev Place := Base × ℕ

/-- The connection, and what surrounds it: whether the file is mapped, `errno`, the events `modFd`
has been called with, and the bytes the kernel has taken. -/
structure Sender extends HttpConn where
  mapped : Bool
  errno : Errno
  armed : List Event
  taken : List Place

/-- What a `writev` returns: a number of bytes, or `-1` with an `errno`. -/
inductive Result
  | count (n : ℕ)
  | failed (e : Errno)
  deriving DecidableEq, Repr

variable {s t : Sender} {rs rest : List Result} {n : ℕ}

namespace Sender

/-- The bytes `iv` designates. -/
def places (s : Sender) : List Place :=
  s.iv.flatMap fun v => (List.range v.iov_len).map fun i => (v.iov_base, i)

/-- `init`, as far as it concerns the response. -/
def init (s : Sender) : Sender :=
  { s with writeBuf := fun _ => NUL, writeIdx := 0, linger := false }

def unmap (s : Sender) : Sender := { s with mapped := false }

/-- `modFd(epollFd, sockFd, ev)`. -/
def modFd (ev : Event) (s : Sender) : Sender := { s with armed := s.armed ++ [ev] }

/-- `writev(sockFd, iv, ivCount)`, which returns a `ssize_t`: what is assigned to the `int`. -/
def writev : Result → Sender → ℤ × Sender
  | .count n, s => (truncate n, { s with taken := s.taken ++ s.places.take n })
  | .failed e, s => (-1, { s with errno := e })

/-- The loop of `write`, given what its `writev`s return; the results it has not used are left. -/
def writeLoop : List Result → ℤ → ℤ → Sender → Except Fault (Bool × List Result × Sender)
  | [], _, _, _ => .error .starved
  | r :: rs, bytes_to_send, bytes_have_send, s => do
    let (tmp, s) := s.writev r
    if tmp ≤ -1 then
      if s.errno = .EAGAIN then pure (true, rs, s.modFd .EPOLLOUT)
      else pure (false, rs, s.unmap)
    else
      let bytes_to_send ← addInt bytes_to_send (-tmp)
      let bytes_have_send ← addInt bytes_have_send tmp
      if bytes_to_send ≤ bytes_have_send then
        let s := s.unmap
        if s.linger then pure (true, rs, (s.init).modFd .EPOLLIN)
        else pure (false, rs, s.modFd .EPOLLIN)
      else writeLoop rs bytes_to_send bytes_have_send s

def write (rs : List Result) (s : Sender) : Except Fault (Bool × List Result × Sender) :=
  if s.writeIdx = 0 then pure (true, rs, (s.modFd .EPOLLIN).init)
  else s.writeLoop rs s.writeIdx 0

end Sender

open Sender

/-- At least one byte was taken and at most all of them, or there was no room. -/
def Legal (s : Sender) : Result → Prop
  | .count n => 0 < n ∧ n ≤ s.places.length
  | .failed e => e = .EAGAIN

/-- Calls of `write`, each with what its `writev`s return, until completion has been reported. -/
def sendMachine : Machine Sender (List Result) Fault where
  enabled s rs := .EPOLLIN ∉ s.armed ∧ ∀ r ∈ rs, Legal s r
  step s rs := do
    let (_, rest, s) ← s.write rs
    if rest = [] then pure s else throw .starved

/-! ### What is taken -/

/-- The numbers of bytes taken. -/
def counts (rs : List Result) : List ℕ :=
  rs.filterMap fun
    | .count n => some n
    | .failed _ => none

/-- What has been taken since `s`: with every count, as many bytes from the first one on. -/
structure Took (rs : List Result) (s t : Sender) : Prop where
  places : t.places = s.places
  taken : t.taken = s.taken ++ (counts rs).flatMap s.places.take

theorem took_nil (s : Sender) : Took [] s s := ⟨rfl, (List.append_nil _).symm⟩

theorem Took.trans {u : Sender} {rs' : List Result} (h : Took rs s t) (h' : Took rs' t u) :
    Took (rs ++ rs') s u := by
  refine ⟨h'.places.trans h.places, ?_⟩
  rw [h'.taken, h.taken, h.places, counts, counts, counts, List.filterMap_append,
    List.flatMap_append, List.append_assoc]

theorem took_writev (r : Result) (s : Sender) : Took [r] s (s.writev r).2 := by
  cases r with
  | count n => exact ⟨rfl, by simp [counts, writev]⟩
  | failed e => exact ⟨rfl, by simp [counts, writev]⟩

theorem Took.of_eq {u : Sender} (h : Took rs s t) (hplaces : u.places = t.places)
    (htaken : u.taken = t.taken) : Took rs s u :=
  ⟨hplaces.trans h.places, htaken.trans h.taken⟩

theorem writeLoop_took {ret : Bool} (rs : List Result) : ∀ (a b : ℤ) (s : Sender),
    s.writeLoop rs a b = .ok (ret, rest, t) → ∃ used, rs = used ++ rest ∧ Took used s t := by
  induction rs with
  | nil => intro a b s h; cases h
  | cons r rs ih =>
    intro a b s h
    have hr := took_writev r s
    rw [writeLoop] at h
    dsimp only at h
    by_cases hneg : (s.writev r).1 ≤ -1
    · rw [if_pos hneg] at h
      split_ifs at h
      · cases h
        exact ⟨[r], rfl, hr.of_eq rfl rfl⟩
      · cases h
        exact ⟨[r], rfl, hr.of_eq rfl rfl⟩
    · rw [if_neg hneg] at h
      obtain ⟨a', -, h⟩ := bind_eq_ok.mp h
      obtain ⟨b', -, h⟩ := bind_eq_ok.mp h
      by_cases hdone : a' ≤ b'
      · rw [if_pos hdone] at h
        split_ifs at h
        · cases h
          exact ⟨[r], rfl, hr.of_eq rfl rfl⟩
        · cases h
          exact ⟨[r], rfl, hr.of_eq rfl rfl⟩
      · rw [if_neg hdone] at h
        obtain ⟨used, rfl, hused⟩ := ih a' b' _ h
        exact ⟨r :: used, rfl, hr.trans hused⟩

theorem write_took {ret : Bool} (h : s.write rs = .ok (ret, rest, t)) :
    ∃ used, rs = used ++ rest ∧ Took used s t := by
  unfold Sender.write at h
  split_ifs at h
  · cases h
    exact ⟨[], rfl, (took_nil s).of_eq rfl rfl⟩
  · exact writeLoop_took rs _ _ s h

/-- **What the calls take**: with every count the bytes from the first one on. -/
theorem run_took {rss : List (List Result)} (h : Run sendMachine s rss t) :
    Took rss.flatten s t ∧ ∀ r ∈ rss.flatten, Legal s r := by
  induction h with
  | nil s => exact ⟨took_nil s, by simp⟩
  | @cons s t u rs rss he hs _ ih =>
    obtain ⟨⟨ret, rest, t'⟩, hwrite, hs⟩ := bind_eq_ok.mp hs
    dsimp only at hs
    split_ifs at hs with hrest
    cases hs
    subst hrest
    obtain ⟨used, hused, htook⟩ := write_took hwrite
    rw [List.append_nil] at hused
    subst hused
    refine ⟨htook.trans ih.1, ?_⟩
    rw [List.flatten_cons]
    intro r hr
    rcases List.mem_append.mp hr with hr | hr
    · exact he.2 r hr
    · have hlegal := ih.2 r hr
      cases r with
      | count n =>
        unfold Legal at hlegal ⊢
        rwa [htook.places] at hlegal
      | failed e => exact hlegal

/-! ### Once and in order -/

/-- Pieces from the beginning of a list without repetitions make up the list if and only if there is
one, and it is the whole. -/
theorem flatMap_take_eq {α : Type} {l : List α} {ns : List ℕ} (hl : l.Nodup) (hne : l ≠ [])
    (hns : ∀ n ∈ ns, 0 < n ∧ n ≤ l.length) : ns.flatMap l.take = l ↔ ns = [l.length] := by
  constructor
  · intro h
    rcases ns with _ | ⟨n, ns⟩
    · exact absurd h.symm hne
    · obtain ⟨hpos, hle⟩ := hns n List.mem_cons_self
      rw [List.flatMap_cons] at h
      rcases ns with _ | ⟨k, ns⟩
      · have hlen := congrArg List.length h
        rw [List.flatMap_nil, List.append_nil, List.length_take] at hlen
        rw [show n = l.length from by omega]
      · -- the first byte is taken twice
        obtain ⟨a, l, rfl⟩ := List.exists_cons_of_ne_nil hne
        have hk := (hns k (by simp)).1
        have hfirst : ∀ m, 0 < m → a ∈ (a :: l).take m := by
          intro m hm
          obtain ⟨m, rfl⟩ := Nat.exists_eq_succ_of_ne_zero (Nat.ne_of_gt hm)
          rw [List.take_succ_cons]
          exact List.mem_cons_self
        rw [← h, List.nodup_append] at hl
        refine absurd rfl (hl.2.2 a (hfirst n hpos) a ?_)
        rw [List.flatMap_cons]
        exact List.mem_append_left _ (hfirst k hk)
  · rintro rfl
    simp

/-- A response with a file: the head in `writeBuf`, and the file behind it. -/
structure Ready (s : Sender) : Prop where
  writeIdx : 0 < s.writeIdx
  iv : s.iv = [⟨.writeBuf, s.writeIdx⟩, ⟨.fileAddress, s.file.length⟩]
  mapped : s.mapped = true
  taken : s.taken = []

/-- Completion has been reported. -/
def Completed (s : Sender) : Prop := s.mapped = false ∧ .EPOLLIN ∈ s.armed

/-- What `processWrite` leaves where a file is to be sent. -/
theorem ready_processWrite {c : HttpConn} (h0 : c.writeIdx = 0) (hne : c.file ≠ []) (e : Errno) :
    Ready ⟨(HttpConn.processWrite .FILE_REQUEST c).2, true, e, [], []⟩ := by
  have hsize : c.file.length ≠ 0 := fun h => hne (List.eq_nil_of_length_eq_zero h)
  obtain ⟨hmin, hmax⟩ := truncate_mem c.file.length
  have hline : (statusLine 200 Http.Response.ok_200_title).length ≤ 100 := by decide
  obtain ⟨hhead, -⟩ := head_prints h0 hline hmin hmax
  have hidx := hhead.writeIdx
  unfold HttpConn.processWrite
  dsimp only
  rw [if_pos hsize]
  refine ⟨?_, ?_, rfl, rfl⟩
  · have hpos : 0 < (headText (statusLine 200 Http.Response.ok_200_title)
        (truncate c.file.length) c.linger).length := by
      unfold headText
      rw [List.length_append]
      exact Nat.add_pos_right _ (by decide)
    show 0 < HttpConn.writeIdx _
    rw [hidx]
    exact Nat.add_pos_right _ hpos
  · show [_, _] = [_, _]
    rw [hhead.file]

theorem Ready.places (h : Ready s) : s.places =
    (List.range s.writeIdx).map (fun i => (Base.writeBuf, i)) ++
      (List.range s.file.length).map fun i => (Base.fileAddress, i) := by
  unfold Sender.places
  rw [h.iv]
  simp

theorem Ready.nodup (h : Ready s) : s.places.Nodup := by
  rw [h.places, List.nodup_append]
  refine ⟨List.Nodup.map (fun a b hab => (Prod.mk.inj hab).2) List.nodup_range,
    List.Nodup.map (fun a b hab => (Prod.mk.inj hab).2) List.nodup_range, ?_⟩
  intro a ha b hb
  obtain ⟨i, -, rfl⟩ := List.mem_map.mp ha
  obtain ⟨j, -, rfl⟩ := List.mem_map.mp hb
  simp

/-- **Head and file are sent exactly once**, after every sequence of calls and so at the call that
reports completion, if and only if one `writev` took all of it and no other took anything. -/
theorem sentOnce_iff {rss : List (List Result)} (h : Ready s) (hrun : Run sendMachine s rss t) :
    t.taken = (List.range s.writeIdx).map (fun i => (Base.writeBuf, i)) ++
        (List.range s.file.length).map (fun i => (Base.fileAddress, i)) ↔
      counts rss.flatten = [s.writeIdx + s.file.length] := by
  obtain ⟨htook, hlegal⟩ := run_took hrun
  have hlen : s.places.length = s.writeIdx + s.file.length := by
    rw [h.places]
    simp
  have hne : s.places ≠ [] := by
    intro hnil
    rw [hnil, List.length_nil] at hlen
    have := h.writeIdx
    omega
  have hcounts : ∀ n ∈ counts rss.flatten, 0 < n ∧ n ≤ s.places.length := by
    intro n hn
    obtain ⟨r, hr, hrn⟩ := List.mem_filterMap.mp hn
    have hr := hlegal r hr
    cases r with
    | count m =>
      obtain rfl := Option.some.inj hrn
      exact hr
    | failed e => cases hrn
  rw [← h.places, ← hlen, htook.taken, h.taken, List.nil_append]
  exact flatMap_take_eq h.nodup hne hcounts

/-- A head of three bytes in the buffer, and a file of two. -/
def waiting : Sender where
  writeBuf := fun _ => SP
  writeIdx := 3
  linger := false
  file := [SP, SP]
  iv := [⟨.writeBuf, 3⟩, ⟨.fileAddress, 2⟩]
  mapped := true
  errno := .other
  armed := []
  taken := []

theorem ready_waiting : Ready waiting := ⟨by decide, rfl, rfl, rfl⟩

instance (s : Sender) : ∀ r, Decidable (Legal s r)
  | .count _ => inferInstanceAs (Decidable (_ ∧ _))
  | .failed _ => inferInstanceAs (Decidable (_ = _))

instance (s : Sender) (rs : List Result) : Decidable (sendMachine.enabled s rs) :=
  inferInstanceAs (Decidable (_ ∧ _))

theorem sentOnce_whole : ∃ t, Run sendMachine waiting [[.failed .EAGAIN], [.count 5]] t ∧
    Completed t ∧
    (t.taken = (List.range 3).map (fun i => (Base.writeBuf, i)) ++
        (List.range 2).map (fun i => (Base.fileAddress, i)) ↔
      counts [[.failed .EAGAIN], [.count 5]].flatten = [3 + 2]) :=
  have hrun := run_iff_exec.mpr rfl
  ⟨_, hrun, ⟨rfl, by decide⟩, sentOnce_iff ready_waiting hrun⟩

/-- **The file is not sent**: two bytes of the head are taken, and completion is reported. -/
theorem not_sentOnce : ∃ t, Ready waiting ∧ Run sendMachine waiting [[.count 2]] t ∧ Completed t ∧
    t.taken = [(.writeBuf, 0), (.writeBuf, 1)] :=
  ⟨_, ready_waiting, run_iff_exec.mpr rfl, ⟨rfl, by decide⟩, by decide⟩

end ReactorServer.Conn.Sending
