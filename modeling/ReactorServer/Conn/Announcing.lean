import ReactorServer.Conn.Bodies

/-!
# The lengths that are announced

What the bytes say about the length `parseContent` works with: where a head ends and what its last
`Content-Length` is (`Announces`), and whether this fits, with what there is of the body (`FitsBehind`).
The head is found line by line, and where it has not come to its end it is a matter of the chunks that
follow.
-/

namespace ReactorServer.Conn.Announcing

open ReactorServer.Cpp
open ReactorServer.Conn.Strings ReactorServer.Conn.Parser ReactorServer.Conn.RequestLine
open ReactorServer.Conn.Heads ReactorServer.Conn.Bodies

variable {stat : Stat} {k p q : ℕ} {c n : ℤ} {l u x y b R W rest body chunk : Bytes}
  {ls : List Bytes} {cs pre post : List Bytes} {missing more : Prop}

/-! ### Bytes the scanner passes -/

/-- Every line end among these bytes is a `CR` and a `LF`. -/
inductive Passed : Bytes → Prop
  | nil : Passed []
  | byte {b : UInt8} {x : Bytes} (hcr : b ≠ CR) (hlf : b ≠ LF) (h : Passed x) : Passed (b :: x)
  | line {x : Bytes} (h : Passed x) : Passed (CR :: LF :: x)

theorem Passed.append (h : Passed x) (hy : Passed y) : Passed (x ++ y) := by
  induction h with
  | nil => exact hy
  | byte hcr hlf _ ih => exact .byte hcr hlf ih
  | line _ ih => exact .line ih

theorem Passed.of_cons {a : UInt8} (h : Passed (a :: x)) (ha : a ≠ CR) : Passed x := by
  cases h with
  | byte _ _ h => exact h
  | line _ => exact absurd rfl ha

theorem Passed.of_line (h : Passed (CR :: LF :: x)) : Passed x := by
  cases h with
  | byte hcr _ _ => exact absurd rfl hcr
  | line h => exact h

theorem Passed.of_append (h : Passed x) (hxy : Passed (x ++ y)) : Passed y := by
  induction h with
  | nil => exact hxy
  | byte hcr _ _ ih => exact ih (hxy.of_cons hcr)
  | line _ ih => exact ih hxy.of_line

theorem passed_of_isLine (h : IsLine l) : Passed l := by
  induction l with
  | nil => exact .nil
  | cons b l ih =>
    refine .byte (fun hb => h.1 (hb ▸ List.mem_cons_self)) (fun hb => h.2 (hb ▸ List.mem_cons_self))
      (ih ⟨fun hm => h.1 (List.mem_cons_of_mem _ hm), fun hm => h.2 (List.mem_cons_of_mem _ hm)⟩)

theorem passed_line (h : IsLine l) : Passed (l ++ [CR, LF]) :=
  (passed_of_isLine h).append (.line .nil)

theorem not_passed_cr : ¬Passed [CR] := by
  intro h
  cases h with
  | byte hcr _ _ => exact hcr rfl

theorem Stays.nil_of_passed (hx : Passed x) (h : Stays (x ++ y)) : x = [] := by
  cases hx with
  | nil => rfl
  | byte hcr hlf _ =>
    rcases h with h | h | ⟨h, -⟩
    · cases h
    · exact absurd (Option.some.inj h) hlf
    · exact absurd (Option.some.inj h) hcr
  | line _ =>
    rcases h with h | h | ⟨-, h⟩
    · cases h
    · exact absurd (Option.some.inj h) (by decide)
    · exact absurd rfl h

/-- **Nothing passed goes further** than to where the scanner stops. -/
theorem Passed.furthest {x' y' : Bytes} (hx : Passed x) (hy : Stays y) (h : x ++ y = x' ++ y')
    (hx' : Passed x') : x'.length ≤ x.length := by
  rcases List.append_eq_append_iff.mp h with ⟨z, rfl, rfl⟩ | ⟨z, rfl, -⟩
  · rw [Stays.nil_of_passed (hx.of_append hx') hy, List.append_nil]
  · rw [List.length_append]
    omega

/-- A line end behind something passed is not in the middle of it. -/
theorem Passed.line_end {x' y' : Bytes} (hx : Passed x) (h : x ++ y = x' ++ CR :: LF :: y')
    (hx' : Passed x') : x'.length + 2 ≤ x.length ∨ ∃ z, x' = x ++ z ∧ y = z ++ CR :: LF :: y' ∧
      Passed z := by
  rcases List.append_eq_append_iff.mp h with ⟨z, rfl, rfl⟩ | ⟨z, rfl, hz⟩
  · exact Or.inr ⟨z, rfl, rfl, hx.of_append hx'⟩
  · rcases z with _ | ⟨a, _ | ⟨a', z⟩⟩
    · refine Or.inr ⟨[], by simp, hz.symm, .nil⟩
    · obtain ⟨rfl, -⟩ := List.cons.inj hz
      exact absurd (hx'.of_append hx) not_passed_cr
    · left
      simp only [List.length_append, List.length_cons]
      omega

/-! ### What is announced, and what fits -/

/-- **The length `n` fits** behind a head of `k` bytes, with so much of its body: it is not negative
beyond the head, and the sum does not overflow at the end of the head, at the end of a line of the
body, and where the scanner is when there are `more` bytes. -/
structure FitsBehind (k : ℕ) (n : ℤ) (body : Bytes) (more : Prop) : Prop where
  low : 0 ≤ k + n
  high : k + n ≤ INT_MAX
  lines : ∀ x rest, body = x ++ CR :: LF :: rest → Passed x → k + x.length + 2 + n ≤ INT_MAX
  scanned : more → ∀ x rest, body = x ++ rest → Passed x → k + x.length + n ≤ INT_MAX

/-- With `R` received, of which `W` has been parsed and announces the length `c`, and a call for each
of the `chunks` that follow: a head of `k` bytes ends and announces `n`, with `body` behind it.  A
request without a body for a file that is `missing` is not answered; the next call takes what is
behind it for more headers. -/
inductive Announced (missing : Prop) : Bytes → Bytes → ℤ → List Bytes → ℕ → ℤ → Bytes → Prop
  | here {R W : Bytes} {c n : ℤ} {chunks ls : List Bytes} {body : Bytes} (hls : Headers c ls n)
      (hn : n ≠ 0) (hbytes : R ++ chunks.flatten = W ++ ended ls ++ body) :
      Announced missing R W c chunks (W ++ ended ls).length n body
  | next {R W : Bytes} {c : ℤ} {pre ls post : List Bytes} {rest chunk : Bytes} {k : ℕ} {n : ℤ}
      {body : Bytes} (hmissing : missing) (hls : Headers c ls 0)
      (hbytes : R ++ pre.flatten = W ++ ended ls ++ rest)
      (h : Announced missing (R ++ pre.flatten ++ chunk) (W ++ ended ls) 0 post k n body) :
      Announced missing R W c (pre ++ chunk :: post) k n body

/-- **The head of a request**: behind `k` bytes of what the chunks bring the headers end, the last
`Content-Length` says `n`, and `body` follows. -/
def Announces (stat : Stat) (chunks : List Bytes) (k : ℕ) (n : ℤ) (body : Bytes) : Prop :=
  ∃ l q u, IsLine l ∧ ParsesAt (lineText l) q u ∧
    Announced (stat (readFile u) = none) [] (ended [l]) 0 chunks k n body

theorem fits_of_scans (hp : p = k + x.length) (hx : Passed x) (h0 : 0 ≤ k + n)
    (hover : p + n ≤ INT_MAX) {x' : Bytes} (hy : y = x' ++ rest) (hx' : Passed x')
    (hrest : Stays rest) (hlines : ∀ z rest', y = z ++ CR :: LF :: rest' → Passed z →
      p + z.length + 2 + n ≤ INT_MAX) (hmore : more → (p + x'.length : ℕ) + n ≤ INT_MAX) :
    FitsBehind k n (x ++ y) more where
  low := h0
  high := by omega
  lines := by
    intro z rest' heq hz
    rcases hx.line_end heq hz with hle | ⟨z', rfl, hz', hpassed⟩
    · omega
    · have hline := hlines z' rest' hz' hpassed
      rw [List.length_append]
      omega
  scanned := by
    intro hm z rest' heq hz
    have hall := hmore hm
    rw [hy, ← List.append_assoc] at heq
    have hle := (hx.append hx').furthest hrest heq hz
    rw [List.length_append] at hle
    omega

theorem not_fits_of_over (hp : p = k + x.length) (hx : Passed x) {x' : Bytes}
    (hy : y = x' ++ CR :: LF :: rest) (hx' : Passed x') (hover : INT_MAX < p + x'.length + 2 + n) :
    ¬FitsBehind k n (x ++ y) more := by
  intro h
  have hline := h.lines (x ++ x') rest (by rw [hy, List.append_assoc]) (hx.append hx')
  rw [List.length_append] at hline
  omega

/-! ### Line by line -/

theorem Headers.line (h : Headers c ls n) (hl : IsLine l)
    (heq : l ++ CR :: LF :: rest = ended ls ++ x) :
    (lineText l = [] ∧ ls = [l] ∧ n = c ∧ rest = x) ∨
    (lineText l ≠ [] ∧ ∃ ls', ls = l :: ls' ∧ Headers (lengthAfter c (lineText l)) ls' n ∧
      rest = ended ls' ++ x) := by
  cases h with
  | last hl' hempty =>
    rw [ended_append] at heq
    obtain ⟨rfl, -, hrest⟩ := line_unique hl hl' (Or.inl rfl) (Or.inl rfl) heq
    exact Or.inl ⟨hempty, rfl, rfl, (List.cons.inj hrest).2⟩
  | header hl' hne hls =>
    rw [ended_append] at heq
    obtain ⟨rfl, -, hrest⟩ := line_unique hl hl' (Or.inl rfl) (Or.inl rfl) heq
    exact Or.inr ⟨hne, _, rfl, hls, (List.cons.inj hrest).2⟩

/-- A chunk that is there already. -/
theorem Announced.cons (h : Announced missing (R ++ chunk) W c cs k n body) :
    Announced missing R W c (chunk :: cs) k n body := by
  cases h with
  | here hls hn hbytes =>
    refine .here hls hn ?_
    rw [← hbytes, List.flatten_cons, List.append_assoc]
  | @next _ _ _ pre _ _ rest next _ _ _ hmissing hls hbytes h =>
    have hflat : R ++ (chunk :: pre).flatten = R ++ chunk ++ pre.flatten := by
      rw [List.flatten_cons, List.append_assoc]
    rw [← List.cons_append]
    refine .next hmissing hls (hflat.trans hbytes) ?_
    rwa [hflat]

theorem Announced.append (h : Announced missing (R ++ pre.flatten) W c cs k n body) :
    Announced missing R W c (pre ++ cs) k n body := by
  induction pre generalizing R with
  | nil => simpa using h
  | cons chunk pre ih =>
    rw [List.flatten_cons, ← List.append_assoc] at h
    exact (ih h).cons

/-- The headers have not come to their end in what has been received. -/
def Unended (R W : Bytes) (c : ℤ) : Prop := ∀ ls n x, Headers c ls n → R ≠ W ++ ended ls ++ x

theorem not_announced_nil (h : Unended R W c) : ¬Announced missing R W c [] k n body := by
  intro ha
  generalize hcs : ([] : List Bytes) = cs at ha
  cases ha with
  | here hls _ hbytes =>
    subst hcs
    rw [List.flatten_nil, List.append_nil] at hbytes
    exact h _ _ _ hls hbytes
  | next _ _ _ _ => simp at hcs

theorem announced_cons (h : Unended R W c) :
    Announced missing R W c (chunk :: cs) k n body ↔
      Announced missing (R ++ chunk) W c cs k n body := by
  refine ⟨fun ha => ?_, Announced.cons⟩
  generalize hcs : chunk :: cs = cs₀ at ha
  cases ha with
  | here hls hn hbytes =>
    subst hcs
    refine .here hls hn ?_
    rw [← hbytes, List.flatten_cons, List.append_assoc]
  | @next _ _ _ pre _ post _ _ _ _ _ hmissing hls hbytes ha =>
    rcases pre with _ | ⟨first, pre⟩
    · rw [List.flatten_nil, List.append_nil] at hbytes
      exact absurd hbytes (h _ _ _ hls)
    · obtain ⟨rfl, rfl⟩ := List.cons.inj hcs
      rw [List.flatten_cons, ← List.append_assoc] at hbytes ha
      exact .next hmissing hls hbytes ha

/-- Behind a header the others are what matters. -/
theorem announced_header (hl : IsLine l) (hne : lineText l ≠ [])
    (hR : R = W ++ (l ++ CR :: LF :: rest)) :
    Announced missing R W c cs k n body ↔
      Announced missing R (W ++ ended [l]) (lengthAfter c (lineText l)) cs k n body := by
  have hW : ∀ ls, W ++ ended (l :: ls) = W ++ ended [l] ++ ended ls := fun ls => by
    simp [ended]
  constructor
  · intro ha
    cases ha with
    | here hls hn hbytes =>
      obtain ⟨hempty, -⟩ | ⟨-, ls, rfl, hls, -⟩ := Headers.line hls hl
        (show l ++ CR :: LF :: (rest ++ cs.flatten) = _ from by simpa [hR] using hbytes)
      · exact absurd hempty hne
      · rw [hW ls] at hbytes ⊢
        exact .here hls hn hbytes
    | @next _ _ _ pre _ _ _ _ _ _ _ hmissing hls hbytes ha =>
      obtain ⟨hempty, -⟩ | ⟨-, ls, rfl, hls, -⟩ := Headers.line hls hl
        (show l ++ CR :: LF :: (rest ++ pre.flatten) = _ from by simpa [hR] using hbytes)
      · exact absurd hempty hne
      · rw [hW ls] at hbytes ha
        exact .next hmissing hls hbytes ha
  · intro ha
    cases ha with
    | @here _ _ _ _ _ ls _ hls hn hbytes =>
      rw [← hW ls] at hbytes ⊢
      exact .here (.header hl hne hls) hn hbytes
    | @next _ _ _ _ ls _ _ _ _ _ _ hmissing hls hbytes ha =>
      rw [← hW ls] at hbytes ha
      exact .next hmissing (.header hl hne hls) hbytes ha

theorem announced_last (hl : IsLine l) (hempty : lineText l = [])
    (hR : R = W ++ (l ++ CR :: LF :: rest)) (hc : c ≠ 0) :
    Announced missing R W c cs k n body ↔
      k = (W ++ ended [l]).length ∧ n = c ∧ body = rest ++ cs.flatten := by
  constructor
  · intro ha
    cases ha with
    | here hls hn hbytes =>
      obtain ⟨-, rfl, rfl, hrest⟩ | ⟨hne, -⟩ := Headers.line hls hl
        (show l ++ CR :: LF :: (rest ++ cs.flatten) = _ from by simpa [hR] using hbytes)
      · exact ⟨rfl, rfl, hrest.symm⟩
      · exact absurd hempty hne
    | @next _ _ _ pre _ _ _ _ _ _ _ hmissing hls hbytes ha =>
      obtain ⟨-, -, h0, -⟩ | ⟨hne, -⟩ := Headers.line hls hl
        (show l ++ CR :: LF :: (rest ++ pre.flatten) = _ from by simpa [hR] using hbytes)
      · exact absurd h0.symm hc
      · exact absurd hempty hne
  · rintro ⟨rfl, rfl, rfl⟩
    refine .here (.last hl hempty) hc ?_
    simp [hR, ended]

/-- Behind an empty line without a body, more headers come with the next call, where the file is
missing. -/
theorem announced_empty (hl : IsLine l) (hempty : lineText l = [])
    (hR : R = W ++ (l ++ CR :: LF :: rest)) :
    Announced missing R W 0 cs k n body ↔
      missing ∧ ∃ chunk cs', cs = chunk :: cs' ∧
        Announced missing (R ++ chunk) (W ++ ended [l]) 0 cs' k n body := by
  constructor
  · intro ha
    cases ha with
    | here hls hn hbytes =>
      obtain ⟨-, -, rfl, -⟩ | ⟨hne, -⟩ := Headers.line hls hl
        (show l ++ CR :: LF :: (rest ++ cs.flatten) = _ from by simpa [hR] using hbytes)
      · exact absurd rfl hn
      · exact absurd hempty hne
    | @next _ _ _ pre _ post _ chunk _ _ _ hmissing hls hbytes ha =>
      obtain ⟨-, rfl, -, -⟩ | ⟨hne, -⟩ := Headers.line hls hl
        (show l ++ CR :: LF :: (rest ++ pre.flatten) = _ from by simpa [hR] using hbytes)
      · refine ⟨hmissing, ?_⟩
        rcases pre with _ | ⟨first, pre⟩
        · rw [List.flatten_nil, List.append_nil] at ha
          exact ⟨chunk, post, rfl, ha⟩
        · refine ⟨first, pre ++ chunk :: post, rfl, ?_⟩
          rw [List.flatten_cons, ← List.append_assoc] at ha
          exact Announced.append (Announced.cons ha)
      · exact absurd hempty hne
  · rintro ⟨hmissing, chunk, cs, rfl, ha⟩
    have hbytes : R ++ ([] : List Bytes).flatten = W ++ ended [l] ++ rest := by simp [hR, ended]
    rw [← List.nil_append (chunk :: cs)]
    refine .next hmissing (.last hl hempty) hbytes ?_
    rwa [List.flatten_nil, List.append_nil]

/-! ### Every length -/

theorem forall_split_cons {P : List Bytes → List Bytes → Prop} :
    (∀ pre post, chunk :: cs = pre ++ post → P pre post) ↔
      P [] (chunk :: cs) ∧ ∀ pre post, cs = pre ++ post → P (chunk :: pre) post := by
  constructor
  · intro h
    exact ⟨h [] _ rfl, fun pre post hcs => h (chunk :: pre) post (by rw [hcs]; rfl)⟩
  · rintro ⟨h0, h⟩ pre post hcs
    rcases pre with _ | ⟨first, pre⟩
    · obtain rfl : chunk :: cs = post := hcs
      exact h0
    · obtain ⟨rfl, htail⟩ := List.cons.inj hcs
      exact h pre post htail

/-- Every length that is announced fits. -/
def Fitting (missing : Prop) (R W : Bytes) (c : ℤ) (cs : List Bytes) : Prop :=
  ∀ pre post, cs = pre ++ post → ∀ k n body, Announced missing R W c pre k n body →
    FitsBehind k n body (post ≠ [])

/-- While the headers have not come to their end, it is a matter of what follows. -/
theorem fitting_unended (h : Unended R W c) :
    Fitting missing R W c cs ↔
      ∀ chunk cs', cs = chunk :: cs' → Fitting missing (R ++ chunk) W c cs' := by
  rcases cs with _ | ⟨chunk, cs⟩
  · refine iff_of_true (fun pre post hcs k n body ha => ?_) nofun
    obtain ⟨rfl, -⟩ := List.append_eq_nil_iff.mp hcs.symm
    exact absurd ha (not_announced_nil h)
  · unfold Fitting
    rw [forall_split_cons]
    simp only [announced_cons h, not_announced_nil h, false_implies, implies_true, true_and]
    constructor
    · intro hall chunk' cs' hcs
      obtain ⟨rfl, rfl⟩ := List.cons.inj hcs
      exact hall
    · exact fun hall => hall chunk cs rfl

theorem fitting_header (hl : IsLine l) (hne : lineText l ≠ [])
    (hR : R = W ++ (l ++ CR :: LF :: rest)) :
    Fitting missing R W c cs ↔
      Fitting missing R (W ++ ended [l]) (lengthAfter c (lineText l)) cs := by
  simp only [Fitting, announced_header hl hne hR]

theorem fitting_last (hl : IsLine l) (hempty : lineText l = [])
    (hR : R = W ++ (l ++ CR :: LF :: rest)) (hc : c ≠ 0) :
    Fitting missing R W c cs ↔
      ∀ pre post, cs = pre ++ post →
        FitsBehind (W ++ ended [l]).length c (rest ++ pre.flatten) (post ≠ []) := by
  simp only [Fitting, announced_last hl hempty hR hc]
  constructor
  · exact fun h pre post hcs => h pre post hcs _ _ _ ⟨rfl, rfl, rfl⟩
  · rintro h pre post hcs _ _ _ ⟨rfl, rfl, rfl⟩
    exact h pre post hcs

theorem fitting_empty (hl : IsLine l) (hempty : lineText l = [])
    (hR : R = W ++ (l ++ CR :: LF :: rest)) :
    Fitting missing R W 0 cs ↔
      (missing → ∀ chunk cs', cs = chunk :: cs' →
        Fitting missing (R ++ chunk) (W ++ ended [l]) 0 cs') := by
  simp only [Fitting, announced_empty hl hempty hR]
  constructor
  · rintro h hmissing chunk cs rfl pre post rfl k n body ha
    exact h (chunk :: pre) post rfl k n body ⟨hmissing, chunk, pre, rfl, ha⟩
  · rintro h pre post rfl k n body ⟨hmissing, chunk, pre, rfl, ha⟩
    exact h hmissing chunk (pre ++ post) rfl pre post rfl k n body ha

/-- Only the first line can be the request line of a head. -/
theorem fitting_other {l' : Bytes} (hl : IsLine l) (hl' : IsLine l') (hne : l' ≠ l)
    (hR : R = l ++ CR :: LF :: rest) : Fitting missing R (ended [l']) 0 cs := by
  have hno : ∀ (F : Bytes) ls x, R ++ F ≠ ended [l'] ++ ended ls ++ x := by
    intro F ls x heq
    rw [hR, List.append_assoc, List.append_assoc, ended_append] at heq
    exact hne (line_unique hl hl' (Or.inl rfl) (Or.inl rfl) heq).1.symm
  intro pre post _ k n body ha
  cases ha with
  | here _ _ hbytes => exact absurd hbytes (hno _ _ _)
  | next _ _ hbytes _ => exact absurd hbytes (hno _ _ _)

/-- Every length that is announced behind a request line fits. -/
def Requested (stat : Stat) (R : Bytes) (cs : List Bytes) : Prop :=
  ∀ l q u, IsLine l → ParsesAt (lineText l) q u →
    Fitting (stat (readFile u) = none) R (ended [l]) 0 cs

theorem requested_unended (h : ∀ l, IsLine l → ∀ x, R ≠ l ++ CR :: LF :: x) :
    Requested stat R cs ↔ ∀ chunk cs', cs = chunk :: cs' → Requested stat (R ++ chunk) cs' := by
  have hun : ∀ l, IsLine l → Unended R (ended [l]) 0 := by
    intro l hl ls n x _ heq
    rw [List.append_assoc, ended_append] at heq
    exact h l hl _ heq
  constructor
  · intro hall chunk cs' hcs l q u hl hp
    exact (fitting_unended (hun l hl)).mp (hall l q u hl hp) chunk cs' hcs
  · intro hall l q u hl hp
    exact (fitting_unended (hun l hl)).mpr fun chunk cs' hcs => hall chunk cs' hcs l q u hl hp

end ReactorServer.Conn.Announcing
