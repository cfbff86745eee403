import ReactorServer.Cpp
import ReactorServer.Lib.Runs
import Mathlib.Data.List.TakeWhile
import Std.Data.ExtTreeMap

/-!
# The configuration file

`ConfigFile` (`ConfigUtil.h`, `ConfigUtil.cc`): `init` from the opened file on, and `getValue`.  A
pointer into the line is what is left of the string from there, so that the end of the list is the
`NUL` of the string, and two pointers into one line are equal if and only if these are.
-/

namespace ReactorServer.Config

open ReactorServer.Cpp ReactorServer.Lib.Runs

def TAB : UInt8 := 9
def EQUALS : UInt8 := 61
def HASH : UInt8 := 35

/-! ### The C library -/

/-- `isblank` in the C locale. -/
def isblank (b : UInt8) : Bool := b = SP || b = TAB

/-- `strchr`, for a byte that is not `NUL`. -/
def strchr (s : Bytes) (c : UInt8) : Option Bytes :=
  match s.dropWhile (· ≠ c) with
  | [] => none
  | p => some p

/-- Up to `n` bytes of the file, and none after a line end; and the rest of the file. -/
def readSome : ℕ → Bytes → Bytes × Bytes
  | 0, fd => ([], fd)
  | _, [] => ([], [])
  | n + 1, b :: fd => if b = LF then ([b], fd) else ((b :: (readSome n fd).1), (readSome n fd).2)

/-- `fgets(line, size, fd)`: what it reads, and the rest of the file. -/
def fgets (size : ℕ) (fd : Bytes) : Option (Bytes × Bytes) :=
  if fd = [] then none else some (readSome (size - 1) fd)

/-- `string(s, e-s)`. -/
def string (s e : Bytes) : Bytes := s.take (s.length - e.length)

/-! ### The class -/

structure ConfigFile where
  confMap_ : Std.ExtTreeMap Bytes Bytes

/-- `while (!isblank(*ite) && (ite != equal)) ++ite;` -/
def keyEnd (equal : Bytes) : Bytes → Except Fault Bytes
  | [] => .error .outOfBounds
  | b :: ite => if !isblank b && b :: ite ≠ equal then keyEnd equal ite else .ok (b :: ite)

namespace ConfigFile

/-- The body of the loop of `init`. -/
def readLine (line : Bytes) (c : ConfigFile) : Except Fault ConfigFile :=
  match strchr line EQUALS with
  | none => .ok c
  | some equal =>
    let fs := line.dropWhile isblank
    if fs.head? = some HASH then .ok c
    else do
      let fe ← keyEnd equal fs
      let bs := (equal.drop 1).dropWhile isblank
      -- a line end is not a blank
      let be := bs.dropWhile fun b => !isblank b
      let key := string fs fe
      let value := string bs be
      if key ≠ [] ∧ value ≠ [] then .ok { confMap_ := c.confMap_.insertIfNew key value } else .ok c

/-- The loop of `init`; `line` has 255 bytes. -/
def initLoop : ℕ → Bytes → ConfigFile → Except Fault ConfigFile
  | 0, _, _ => .error .hang
  | fuel + 1, fd, c =>
    match fgets 255 fd with
    | none => .ok c
    | some (line, fd) => do initLoop fuel fd (← readLine (cstr line) c)

/-- `init` of the file `fd`, once it is open. -/
def init (fd : Bytes) : Except Fault ConfigFile := initLoop (fd.length + 1) fd ⟨∅⟩

/-- `getValue`, which puts an empty value where there is none. -/
def getValue (key : Bytes) (c : ConfigFile) : Bytes × ConfigFile :=
  (c.confMap_.getD key [], { confMap_ := c.confMap_.insertIfNew key [] })

end ConfigFile

open ConfigFile

variable {c : ConfigFile} {fd line rest : Bytes} {n : ℕ}

/-! ### Reading a line -/

theorem readSome_line (hline : LF ∉ line) (hn : line.length < n) :
    readSome n (line ++ LF :: rest) = (line ++ [LF], rest) := by
  induction line generalizing n with
  | nil =>
    obtain ⟨n, rfl⟩ := Nat.exists_eq_add_one.mpr hn
    rfl
  | cons b line ih =>
    obtain ⟨hb, hline⟩ := not_or.mp (List.mem_cons.not.mp hline)
    obtain ⟨n, rfl⟩ := Nat.exists_eq_add_one.mpr (Nat.zero_lt_of_lt hn)
    rw [List.cons_append, readSome, if_neg (Ne.symm hb),
      ih hline (by rw [List.length_cons] at hn; omega)]
    rfl

theorem readSome_full (hline : LF ∉ line) (hn : line.length = n) :
    readSome n (line ++ rest) = (line, rest) := by
  induction line generalizing n with
  | nil =>
    rw [← hn]
    rfl
  | cons b line ih =>
    obtain ⟨hb, hline⟩ := not_or.mp (List.mem_cons.not.mp hline)
    rw [← hn, List.length_cons, List.cons_append, readSome, if_neg (Ne.symm hb), ih hline rfl]

/-! ### The scanner -/

theorem strchr_eq_none {b : UInt8} (h : b ∉ line) : strchr line b = none := by
  unfold strchr
  have hnil : line.dropWhile (· ≠ b) = [] :=
    List.dropWhile_eq_nil_iff.mpr fun b' hb' => by simpa using fun heq : b' = b => h (heq ▸ hb')
  rw [hnil]

theorem strchr_append {b : UInt8} (h : b ∉ line) : strchr (line ++ b :: rest) b = some (b :: rest) := by
  unfold strchr
  rw [List.dropWhile_append_of_pos fun b' hb' => by simpa using fun heq : b' = b => h (heq ▸ hb'),
    List.dropWhile_cons_of_neg (by simp)]

theorem keyEnd_spec {key before : Bytes} (hkey : ∀ b ∈ key, isblank b = false ∧ b ≠ EQUALS)
    (hbefore : ∀ b ∈ before, isblank b = true) :
    keyEnd (EQUALS :: rest) (key ++ (before ++ EQUALS :: rest)) =
      .ok (before ++ EQUALS :: rest) := by
  induction key with
  | nil =>
    cases before with
    | nil => rw [List.nil_append, List.nil_append, keyEnd, if_neg (by simp)]
    | cons b before =>
      rw [List.nil_append, List.cons_append, keyEnd,
        if_neg (by simp [hbefore b List.mem_cons_self])]
  | cons b key ih =>
    obtain ⟨hb, hne⟩ := hkey b List.mem_cons_self
    rw [List.cons_append, keyEnd, if_pos (by simp [hb, hne])]
    exact ih fun b' hb' => hkey b' (List.mem_cons_of_mem _ hb')

theorem string_append (s e : Bytes) : string (s ++ e) e = s := by
  unfold string
  rw [List.length_append, Nat.add_sub_cancel, List.take_left]

/-- The key and the value are stored, if there is a value. -/
def store (key value : Bytes) (c : ConfigFile) : ConfigFile :=
  if value = [] then c else { confMap_ := c.confMap_.insertIfNew key value }

/-- **A line with a key and a value**, up to the end of the string. -/
theorem readLine_entry {indent key before after value : Bytes}
    (hindent : ∀ b ∈ indent, isblank b = true) (hkey : ∀ b ∈ key, isblank b = false ∧ b ≠ EQUALS)
    (hne : key ≠ []) (hhash : key.head? ≠ some HASH) (hbefore : ∀ b ∈ before, isblank b = true)
    (hafter : ∀ b ∈ after, isblank b = true) (hvalue : ∀ b ∈ value, isblank b = false) :
    readLine (indent ++ (key ++ (before ++ EQUALS :: (after ++ value)))) c =
      .ok (store key value c) := by
  have hblank : ∀ {s : Bytes}, (∀ b ∈ s, isblank b = true) → EQUALS ∉ s :=
    fun hs hmem => Bool.false_ne_true (hs EQUALS hmem)
  have hequal : strchr (indent ++ (key ++ (before ++ EQUALS :: (after ++ value)))) EQUALS =
      some (EQUALS :: (after ++ value)) := by
    have hpre : EQUALS ∉ indent ++ (key ++ before) := by
      simp only [List.mem_append, not_or]
      exact ⟨hblank hindent, fun hmem => (hkey EQUALS hmem).2 rfl, hblank hbefore⟩
    rw [← strchr_append hpre]
    simp only [List.append_assoc]
  obtain ⟨b, key', rfl⟩ := List.exists_cons_of_ne_nil hne
  have hb := (hkey b List.mem_cons_self).1
  have hfs : (indent ++ (b :: key' ++ (before ++ EQUALS :: (after ++ value)))).dropWhile isblank =
      b :: key' ++ (before ++ EQUALS :: (after ++ value)) := by
    rw [List.dropWhile_append_of_pos hindent, List.cons_append, List.dropWhile_cons_of_neg (by simp [hb])]
  have hbs : (after ++ value).dropWhile isblank = value := by
    rw [List.dropWhile_append_of_pos hafter]
    exact List.dropWhile_eq_self_iff.mpr fun hpos => by
      simpa using hvalue _ (List.getElem_mem hpos)
  have hbe : value.dropWhile (fun b => !isblank b) = [] :=
    List.dropWhile_eq_nil_iff.mpr fun b hb => by simp [hvalue b hb]
  have hvalue' : string value [] = value := by
    have := string_append value []
    rwa [List.append_nil] at this
  unfold readLine
  simp only [hequal, hfs, List.drop_one, List.tail_cons, hbs, hbe]
  rw [if_neg (by simpa using hhash), keyEnd_spec hkey hbefore, ok_bind, string_append, hvalue']
  unfold store
  by_cases hnil : value = []
  · rw [if_neg (fun h => h.2 hnil), if_pos hnil]
  · rw [if_pos ⟨hne, hnil⟩, if_neg hnil]

/-- A comment, whatever it contains. -/
theorem readLine_comment {indent text : Bytes} (hindent : ∀ b ∈ indent, isblank b = true) :
    readLine (indent ++ HASH :: text) c = .ok c := by
  unfold readLine
  have hfs : (indent ++ HASH :: text).dropWhile isblank = HASH :: text := by
    rw [List.dropWhile_append_of_pos hindent]
    rfl
  split
  · rfl
  · rw [hfs]
    rfl

theorem readLine_other (h : EQUALS ∉ line) : readLine line c = .ok c := by
  unfold readLine
  rw [strchr_eq_none h]

end ReactorServer.Config
