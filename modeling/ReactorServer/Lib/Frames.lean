import ReactorServer.Lib.Lines
import Mathlib.Data.List.Forall2

/-!
# Reading a stream of frames

`next` reads one frame off the front of a text, or waits for more; `readAll` reads on until it has
to wait.  Where every frame is read whatever follows it, and not before its last symbol has come
(`Reads`), a stream of frames is read as these frames (`readAll_flatten`), and every beginning of it
as the first of them (`readAll_prefix`).

The head of a frame is often a block of lines with an empty line behind them; `head` reads it.
-/

namespace ReactorServer.Lib.Frames

open ReactorServer.Lib.Lines

variable {α β : Type*} {next : List α → Option (β × List α)}

/-! ### Frames -/

/-- At most `n` frames, and the text behind them. -/
def readMany (next : List α → Option (β × List α)) : ℕ → List α → List β × List α
  | 0, u => ([], u)
  | n + 1, u =>
    match next u with
    | none => ([], u)
    | some (b, v) => (b :: (readMany next n v).1, (readMany next n v).2)

/-- All frames the text has, and what is left: no frame is empty. -/
def readAll (next : List α → Option (β × List α)) (u : List α) : List β × List α :=
  readMany next u.length u

/-- The text `w` is read as `b`, and none of it is read before it is there. -/
structure Reads (next : List α → Option (β × List α)) (w : List α) (b : β) : Prop where
  nonempty : w ≠ []
  whole : ∀ v, next (w ++ v) = some (b, v)
  short : ∀ u v, u ++ v = w → v ≠ [] → next u = none

variable {ws : List (List α)} {bs : List β} {tail u : List α}

theorem readMany_some {b : β} {v : List α} (h : next u = some (b, v)) (n : ℕ) :
    readMany next (n + 1) u = (b :: (readMany next n v).1, (readMany next n v).2) := by
  rw [readMany, h]

theorem readMany_flatten (h : List.Forall₂ (Reads next) ws bs) (ht : next tail = none) :
    ∀ n, ws.length ≤ n → readMany next n (ws.flatten ++ tail) = (bs, tail) := by
  induction h with
  | nil =>
    intro n _
    cases n with
    | zero => rfl
    | succ n =>
      rw [readMany, List.flatten_nil, List.nil_append, ht]
  | @cons w b ws bs hw _ ih =>
    intro n hn
    obtain ⟨n, rfl⟩ := Nat.exists_eq_add_one.mpr (Nat.lt_of_lt_of_le (Nat.succ_pos _) hn)
    have hrest := ih n (Nat.le_of_succ_le_succ hn)
    rw [List.flatten_cons, List.append_assoc, readMany_some (hw.whole _), hrest]

theorem length_le_flatten (h : List.Forall₂ (Reads next) ws bs) :
    ws.length ≤ ws.flatten.length := by
  induction h with
  | nil => exact Nat.le_refl _
  | cons hw _ ih =>
    have := List.length_pos_iff.mpr hw.nonempty
    rw [List.flatten_cons, List.length_append, List.length_cons]
    omega

/-- **A stream of frames is read as these frames.** -/
theorem readAll_flatten (h : List.Forall₂ (Reads next) ws bs) (ht : next tail = none) :
    readAll next (ws.flatten ++ tail) = (bs, tail) := by
  have := length_le_flatten h
  exact readMany_flatten h ht _ (by rw [List.length_append]; omega)

/-- A beginning of the stream ends in the text behind it or in the middle of a frame. -/
theorem exists_cut (h : List.Forall₂ (Reads next) ws bs) (ht : ∀ v, v <+: tail → next v = none)
    (hu : u <+: ws.flatten ++ tail) : ∃ k rest, k ≤ ws.length ∧
      u = (ws.take k).flatten ++ rest ∧ next rest = none := by
  induction h generalizing u with
  | nil => exact ⟨0, u, Nat.le_refl _, rfl, ht u hu⟩
  | @cons w b ws bs hw _ ih =>
    rw [List.flatten_cons, List.append_assoc] at hu
    rcases List.prefix_or_prefix_of_prefix hu (List.prefix_append w _) with hshort | hlong
    · obtain ⟨v, hv⟩ := hshort
      by_cases hnil : v = []
      · -- the frame is there to its last symbol
        obtain ⟨k, rest, hk, hrest, hnext⟩ := ih (u := []) (List.nil_prefix)
        refine ⟨k + 1, rest, Nat.succ_le_succ hk, ?_, hnext⟩
        rw [List.take_succ_cons, List.flatten_cons, List.append_assoc, ← hrest, List.append_nil, ← hv,
          hnil, List.append_nil]
      · exact ⟨0, u, Nat.zero_le _, rfl, hw.short u v hv hnil⟩
    · obtain ⟨v, rfl⟩ := hlong
      obtain ⟨k, rest, hk, rfl, hnext⟩ := ih ((List.prefix_append_right_inj w).mp hu)
      refine ⟨k + 1, rest, Nat.succ_le_succ hk, ?_, hnext⟩
      rw [List.take_succ_cons, List.flatten_cons, List.append_assoc]

/-- **A beginning of the stream is read as its first frames.** -/
theorem readAll_prefix (h : List.Forall₂ (Reads next) ws bs) (ht : ∀ v, v <+: tail → next v = none)
    (hu : u <+: ws.flatten ++ tail) : ∃ k rest, k ≤ ws.length ∧
      u = (ws.take k).flatten ++ rest ∧ readAll next u = (bs.take k, rest) := by
  obtain ⟨k, rest, hk, rfl, hnext⟩ := exists_cut h ht hu
  exact ⟨k, rest, hk, rfl, readAll_flatten (List.forall₂_take k h) hnext⟩

/-! ### Heads -/

section Heads
variable [DecidableEq α] {cr lf : α} {l : List α} {ls : List (List α)}

/-- At most `n` lines, the last of them empty. -/
def readLines (cr lf : α) : ℕ → List α → Option (List (List α) × List α)
  | 0, _ => none
  | n + 1, u =>
    match scan cr lf u with
    | .line [] rest => some ([], rest)
    | .line (a :: l) rest => (readLines cr lf n rest).map fun x => ((a :: l) :: x.1, x.2)
    | .bad => none
    | .opn => none

/-- The lines in front of the first empty line, and the text behind it. -/
def head (cr lf : α) (u : List α) : Option (List (List α) × List α) := readLines cr lf u.length u

theorem readLines_nil {rest : List α} (h : scan cr lf u = .line [] rest) (n : ℕ) :
    readLines cr lf (n + 1) u = some ([], rest) := by
  rw [readLines, h]

theorem readLines_cons {rest : List α} (hne : l ≠ []) (h : scan cr lf u = .line l rest) (n : ℕ) :
    readLines cr lf (n + 1) u = (readLines cr lf n rest).map fun x => (l :: x.1, x.2) := by
  obtain ⟨a, l, rfl⟩ := List.exists_cons_of_ne_nil hne
  rw [readLines, h]

theorem readLines_none (h : ∀ l rest, scan cr lf u ≠ .line l rest) (n : ℕ) :
    readLines cr lf n u = none := by
  cases n with
  | zero => rfl
  | succ n =>
    rw [readLines]
    cases hscan : scan cr lf u with
    | line l rest => exact absurd hscan (h l rest)
    | bad => rfl
    | opn => rfl

theorem readLines_block (h : Solid cr lf ls) (v : List α) :
    ∀ n, ls.length < n → readLines cr lf n (block cr lf ls ++ cr :: lf :: v) = some (ls, v) := by
  induction ls with
  | nil =>
    intro n hn
    obtain ⟨n, rfl⟩ := Nat.exists_eq_add_one.mpr hn
    have hclean : Clean cr lf ([] : List α) := ⟨List.not_mem_nil, List.not_mem_nil⟩
    exact readLines_nil (scan_line hclean v) n
  | cons l ls ih =>
    intro n hn
    obtain ⟨n, rfl⟩ := Nat.exists_eq_add_one.mpr (Nat.zero_lt_of_lt hn)
    obtain ⟨hne, hl⟩ := h l List.mem_cons_self
    have hrest := ih h.tail n (Nat.lt_of_succ_lt_succ hn)
    rw [block_cons, readLines_cons hne (scan_line hl _), hrest]
    rfl

/-- **A head is read off the text that begins with it.** -/
theorem head_block (h : Solid cr lf ls) (v : List α) :
    head cr lf (block cr lf ls ++ cr :: lf :: v) = some (ls, v) := by
  have hlen : ls.length ≤ (block cr lf ls).length := by
    clear h
    induction ls with
    | nil => exact Nat.zero_le _
    | cons l ls ih =>
      have hblock := congrArg List.length (block_cons cr lf l ls [])
      simp only [List.append_nil, List.length_append, List.length_cons] at hblock ⊢
      omega
  refine readLines_block h v _ ?_
  rw [List.length_append, List.length_cons, List.length_cons]
  omega

theorem scan_short (hl : Clean cr lf l) {v l' rest : List α} (hv : v ≠ [])
    (h : u ++ v = l ++ [cr, lf]) : scan cr lf u ≠ .line l' rest := by
  intro hscan
  obtain ⟨rfl, hl'⟩ := scan_eq_line.mp hscan
  have h1 := scan_line hl' (rest ++ v)
  have h2 := scan_line hl ([] : List α)
  rw [← h, List.append_assoc] at h2
  rw [show l' ++ cr :: lf :: (rest ++ v) = l' ++ (cr :: lf :: rest ++ v) from rfl, h2] at h1
  obtain ⟨-, hnil⟩ := Scan.line.inj h1
  exact hv (List.append_eq_nil_iff.mp hnil.symm).2

/-- **A head whose end has not come is not read.** -/
theorem head_short (h : Solid cr lf ls) {v : List α} (hv : v ≠ [])
    (hu : u ++ v = block cr lf ls ++ [cr, lf]) : head cr lf u = none := by
  suffices hmany : ∀ n, readLines cr lf n u = none from hmany _
  have hclean : Clean cr lf ([] : List α) := ⟨List.not_mem_nil, List.not_mem_nil⟩
  induction ls generalizing u with
  | nil => exact readLines_none fun l rest => scan_short hclean hv hu
  | cons l ls ih =>
    obtain ⟨hne, hl⟩ := h l List.mem_cons_self
    have hsplit : u ++ v = (l ++ [cr, lf]) ++ (block cr lf ls ++ [cr, lf]) := by
      rw [hu, block_cons, List.append_assoc]
      rfl
    intro n
    rcases List.append_eq_append_iff.mp hsplit with ⟨w, hw, hrest⟩ | ⟨w, rfl, hrest⟩
    · by_cases hnil : w = []
      · -- the first line is there and nothing behind it
        have hnone := ih h.tail (u := []) (by rw [hrest, hnil]; rfl)
        cases n with
        | zero => rfl
        | succ n =>
          have hscan : scan cr lf u = .line l [] := by
            rw [← scan_line hl [], hw, hnil, List.append_nil]
          rw [readLines_cons hne hscan, hnone]
          rfl
      · exact readLines_none (fun l' rest => scan_short hl hnil hw.symm) n
    · cases n with
      | zero => rfl
      | succ n =>
        have hscan : scan cr lf (l ++ [cr, lf] ++ w) = .line l w := by
          rw [← scan_line hl w, List.append_assoc]
          rfl
        rw [readLines_cons hne hscan, ih h.tail hrest.symm]
        rfl

end Heads

end ReactorServer.Lib.Frames
