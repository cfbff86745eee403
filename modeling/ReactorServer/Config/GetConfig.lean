import ReactorServer.Config.ReadBack

/-!
# The two readers of configuration files

`get_config` looks one key up in a file, and `ConfigFile::init` reads a whole file into the map.
`init` tests and opens its own empty `path` instead of `path_`: whatever it is given it opens
`/root/`, where there is nothing to read.  And the loop of `get_config` that looks for the end of the
key goes on behind the end of a line without a blank.  `agrees_iff` says which files are left;
`scanners_agree` compares the two scanners on one file.
-/

namespace ReactorServer.Config

open ReactorServer.Cpp ReactorServer.Lib.Runs
open ConfigFile

/-! ### Files -/

def SLASH : UInt8 := 47

/-- What `fopen(path, "r")` opens, as what `fgets` can read from it.  A path that ends with a slash is
a directory, or nothing, and a directory cannot be read. -/
structure Files where
  fopen : Bytes → Option Bytes
  directory : ∀ path fd, path.getLast? = some SLASH → fopen path = some fd → fd = []

/-- How a call ends: `exit(1)` ends the process with it. -/
inductive Outcome (α : Type)
  | returned (a : α)
  | exited
  deriving DecidableEq, Repr

/-! ### `get_config` -/

/-- `while (!isblank(*ite)) ++ite;`, which must not read behind the end of the string. -/
def wordEnd : Bytes → Except Fault Bytes
  | [] => .error .outOfBounds
  | b :: ite => if isblank b then .ok (b :: ite) else wordEnd ite

/-- The body of the loop of `get_config`: the value, if the line has the key. -/
def findKey (key line : Bytes) : Except Fault (Option Bytes) :=
  let equal := strchr line EQUALS
  let fs := line.dropWhile isblank
  if fs.head? = some HASH then .ok none
  else do
    let fe ← wordEnd fs
    let left := string fs fe
    if left ≠ cstr key then .ok none
    else
      match equal with
      -- `NULL + 1`
      | none => .error .outOfBounds
      | some equal =>
        let bs := (equal.drop 1).dropWhile isblank
        let be := bs.dropWhile fun b => !isblank b
        .ok (some (string bs be))

/-- The loop of `get_config`; `line` has 255 bytes. -/
def getLoop (key : Bytes) : ℕ → Bytes → Except Fault (Option Bytes)
  | 0, _ => .error .hang
  | fuel + 1, fd =>
    match fgets 255 fd with
    | none => .ok none
    | some (line, fd) => do
      match ← findKey key (cstr line) with
      | none => getLoop key fuel fd
      | some value => .ok (some value)

/-- `get_config`: `find`, and what `value` points to; a `NULL` is `none`. -/
def get_config (F : Files) (file key value : Option Bytes) :
    Except Fault (Outcome (ℕ × Option Bytes)) :=
  match file, key, value with
  | some file, some key, some value =>
    match F.fopen file with
    | none => .ok .exited
    | some fd => do
      match ← getLoop key (fd.length + 1) fd with
      | none => .ok (.returned (0, some value))
      | some value => .ok (.returned (1, some value))
  | _, _, value => .ok (.returned (0, value))

/-- `ConfigFile::init`, which does not use its parameter. -/
def initPath (F : Files) (_path_ : Bytes) : Except Fault (Outcome ConfigFile) :=
  let path : Bytes := []
  let path := if SLASH ∉ path then ascii "/root/" ++ path else path
  match F.fopen path with
  | none => .ok .exited
  | some fd => do
    let c ← init fd
    pure (.returned c)

/-! ### Agreement -/

/-- What `getValue` gives, if `init` has returned. -/
def valueIn (key : Bytes) : Outcome ConfigFile → Bytes
  | .returned c => (c.getValue key).1
  | .exited => []

/-- **The two readers agree** on a path: both stay in their lines, and `get_config` finds the key if and
only if `init` stores a value for it, and the same. -/
def Agrees (F : Files) (path key value : Bytes) : Prop :=
  ∃ find v out, get_config F (some path) (some key) (some value) = .ok (.returned (find, some v)) ∧
    initPath F path = .ok out ∧ (find = 1 ↔ valueIn key out ≠ []) ∧ (find = 1 → v = valueIn key out)

/-- The first word of a line. -/
def word (line : Bytes) : Bytes := (line.dropWhile isblank).takeWhile fun b => !isblank b

/-- `get_config` passes the line: it is a comment, or its first word has a blank behind it and is not
the key. -/
def Passed (key line : Bytes) : Prop :=
  (line.dropWhile isblank).head? = some HASH ∨
    (∃ b ∈ line.dropWhile isblank, isblank b = true) ∧ word line ≠ cstr key

/-- A file of these lines. -/
def contents (lines : List Bytes) : Bytes := lines.flatMap fun l => l ++ [LF]

variable {F : Files} {c : ConfigFile} {key value line l s path : Bytes} {lines : List Bytes}
  {fuel : ℕ}

/-! ### One line -/

theorem wordEnd_ok {fe : Bytes} : wordEnd s = .ok fe ↔
    (∃ b ∈ s, isblank b = true) ∧ fe = s.dropWhile fun b => !isblank b := by
  induction s with
  | nil => simp [wordEnd]
  | cons b s ih =>
    unfold wordEnd
    by_cases hb : isblank b = true
    · rw [if_pos hb, List.dropWhile_cons_of_neg (by simp [hb]), Except.ok.injEq, eq_comm]
      simp [hb]
    · rw [if_neg hb, ih, List.dropWhile_cons_of_pos (by simp [hb])]
      simp [hb]

theorem string_dropWhile (p : UInt8 → Bool) (s : Bytes) : string s (s.dropWhile p) = s.takeWhile p := by
  have h := string_append (s.takeWhile p) (s.dropWhile p)
  rwa [List.takeWhile_append_dropWhile] at h

/-- **A line is passed** by `get_config`, or not. -/
theorem findKey_none_iff : findKey key line = .ok none ↔ Passed key line := by
  unfold findKey Passed
  by_cases hhash : (line.dropWhile isblank).head? = some HASH
  · rw [if_pos hhash]
    exact iff_of_true rfl (Or.inl hhash)
  · rw [if_neg hhash]
    simp only [hhash, false_or]
    cases hend : wordEnd (line.dropWhile isblank) with
    | error f =>
      refine iff_of_false nofun fun h => ?_
      rw [wordEnd_ok.mpr ⟨h.1, rfl⟩] at hend
      cases hend
    | ok fe =>
      obtain ⟨hblank, rfl⟩ := wordEnd_ok.mp hend
      have hword : string (line.dropWhile isblank)
          ((line.dropWhile isblank).dropWhile fun b => !isblank b) = word line := string_dropWhile _ _
      simp only [ok_bind, hword]
      by_cases hkey : word line = cstr key
      · rw [if_neg (not_not.mpr hkey)]
        refine iff_of_false (fun h => ?_) fun h => h.2 hkey
        split at h <;> cases h
      · rw [if_pos hkey]
        exact iff_of_true rfl ⟨hblank, hkey⟩

theorem dropWhile_blanks (h : line.dropWhile isblank ≠ []) :
    (line ++ [LF]).dropWhile isblank = line.dropWhile isblank ++ [LF] := by
  rw [List.dropWhile_append, if_neg (by simpa using h)]

theorem exists_blank_append : (∃ b ∈ (line ++ [LF]).dropWhile isblank, isblank b = true) ↔
    ∃ b ∈ line.dropWhile isblank, isblank b = true := by
  have hlf : isblank LF = false := rfl
  by_cases hnil : line.dropWhile isblank = []
  · have hend : (line ++ [LF]).dropWhile isblank = [LF] :=
      List.dropWhile_append_of_pos (List.dropWhile_eq_nil_iff.mp hnil)
    simp [hnil, hend, hlf]
  · rw [dropWhile_blanks hnil]
    simp [or_and_right, exists_or, hlf]

theorem word_append (h : ∃ b ∈ line.dropWhile isblank, isblank b = true) :
    word (line ++ [LF]) = word line := by
  obtain ⟨b, hb, hblank⟩ := h
  unfold word
  rw [dropWhile_blanks (List.ne_nil_of_mem hb), List.takeWhile_append, if_neg fun hlen => ?_]
  have hsame := (List.takeWhile_prefix (fun b => !isblank b)).eq_of_length hlen
  have := List.takeWhile_eq_self_iff.mp hsame b hb
  rw [hblank] at this
  cases this

theorem comment_append : ((line ++ [LF]).dropWhile isblank).head? = some HASH ↔
    (line.dropWhile isblank).head? = some HASH := by
  by_cases hnil : line.dropWhile isblank = []
  · have hend : (line ++ [LF]).dropWhile isblank = [LF] :=
      List.dropWhile_append_of_pos (List.dropWhile_eq_nil_iff.mp hnil)
    simp [hnil, hend, show LF ≠ HASH by decide]
  · obtain ⟨b, fs, hfs⟩ := List.exists_cons_of_ne_nil hnil
    rw [dropWhile_blanks hnil, hfs]
    rfl

theorem passed_append : Passed key (line ++ [LF]) ↔ Passed key line := by
  unfold Passed
  rw [comment_append, exists_blank_append]
  exact or_congr_right (and_congr_right fun h => by rw [word_append h])

/-! ### The file -/

theorem getLoop_succ {fd fd' : Bytes} (h : fgets 255 fd = some (line, fd')) :
    getLoop key (fuel + 1) fd = .ok none ↔
      findKey key (cstr line) = .ok none ∧ getLoop key fuel fd' = .ok none := by
  rw [getLoop, h]
  dsimp only
  cases findKey key (cstr line) with
  | error f => exact iff_of_false nofun fun h => nomatch h.1
  | ok r =>
    rw [ok_bind]
    cases r with
    | none => simp
    | some v => exact iff_of_false nofun fun h => nomatch h.1

theorem cstr_eq (h : NUL ∉ line) : cstr line = line := by
  have := cstr_append (t := []) h
  simpa [cstr] using this

theorem contents_cons (l : Bytes) (lines : List Bytes) :
    contents (l :: lines) = l ++ LF :: contents lines := by
  unfold contents
  rw [List.flatMap_cons, List.append_assoc]
  rfl

/-- A line without its end. -/
structure IsLine (l : Bytes) : Prop where
  noLF : LF ∉ l
  noNUL : NUL ∉ l
  short : l.length < 255

theorem IsLine.noNUL_append (h : IsLine l) : NUL ∉ l ++ [LF] := by
  rw [List.mem_append, List.mem_singleton]
  exact fun hmem => hmem.elim h.noNUL (by decide)

/-- The end of a line that fills `line` is read by itself, and there `get_config` leaves it. -/
theorem not_passed_end : ¬Passed key [LF] := by
  rintro (hhash | ⟨⟨b, hb, hblank⟩, -⟩)
  · cases hhash
  · obtain rfl := List.mem_singleton.mp hb
    cases hblank

theorem getLoop_line (key : Bytes) (hl : IsLine l) (hfuel : (contents (l :: lines)).length < fuel) :
    ∃ fuel', (contents lines).length < fuel' ∧
      (getLoop key fuel (contents (l :: lines)) = .ok none ↔
        (l.length < 254 ∧ Passed key l) ∧ getLoop key fuel' (contents lines) = .ok none) := by
  rw [contents_cons] at hfuel ⊢
  rw [List.length_append, List.length_cons] at hfuel
  obtain ⟨fuel, rfl⟩ := Nat.exists_eq_add_one.mpr (Nat.zero_lt_of_lt hfuel)
  refine ⟨fuel, by omega, ?_⟩
  by_cases hlen : l.length < 254
  · have hread : fgets 255 (l ++ LF :: contents lines) = some (l ++ [LF], contents lines) := by
      rw [fgets, if_neg (by simp), readSome_line hl.noLF hlen]
    rw [getLoop_succ hread, cstr_eq hl.noNUL_append, findKey_none_iff, passed_append]
    simp [hlen]
  · have hfull : fgets 255 (l ++ LF :: contents lines) = some (l, LF :: contents lines) := by
      have := hl.short
      rw [fgets, if_neg (by simp), readSome_full hl.noLF (by omega)]
    have hend : fgets 255 (LF :: contents lines) = some ([LF], contents lines) := rfl
    refine iff_of_false (fun h => ?_) fun h => hlen h.1.1
    obtain ⟨fuel, rfl⟩ := Nat.exists_eq_add_one.mpr (show 0 < fuel by omega)
    have hrest := ((getLoop_succ hfull).mp h).2
    exact not_passed_end (findKey_none_iff.mp ((getLoop_succ hend).mp hrest).1)

/-- **`get_config` finds nothing and stays in its lines**, if and only if it passes all of them. -/
theorem getLoop_lines (hlines : ∀ l ∈ lines, IsLine l) (hfuel : (contents lines).length < fuel) :
    getLoop key fuel (contents lines) = .ok none ↔ ∀ l ∈ lines, l.length < 254 ∧ Passed key l := by
  induction lines generalizing fuel with
  | nil =>
    obtain ⟨fuel, rfl⟩ := Nat.exists_eq_add_one.mpr (Nat.zero_lt_of_lt hfuel)
    exact iff_of_true rfl (List.forall_mem_nil _)
  | cons l lines ih =>
    obtain ⟨hl, hlines⟩ := List.forall_mem_cons.mp hlines
    obtain ⟨fuel', hfuel', hline⟩ := getLoop_line key hl hfuel
    rw [hline, ih hlines hfuel', List.forall_mem_cons]

/-! ### The scanners on one file -/

/-- The key that `init` finds in a line. -/
def keyIn (line : Bytes) : Bytes := (word line).takeWhile (· ≠ EQUALS)

/-- The value behind the first `=`. -/
def valueAt (line : Bytes) : Bytes :=
  (((line.dropWhile (· ≠ EQUALS)).drop 1).dropWhile isblank).takeWhile fun b => !isblank b

/-- What `init` does with a line. -/
def enter (line : Bytes) (c : ConfigFile) : ConfigFile :=
  if EQUALS ∉ line ∨ (line.dropWhile isblank).head? = some HASH ∨ keyIn line = [] then c
  else store (keyIn line) (valueAt line) c

theorem dropWhile_equals {pre rest : Bytes} (hpre : EQUALS ∉ pre) :
    (pre ++ EQUALS :: rest).dropWhile (· ≠ EQUALS) = EQUALS :: rest := by
  rw [List.dropWhile_append_of_pos fun b hb => by
    simpa using fun heq : b = EQUALS => hpre (heq ▸ hb), List.dropWhile_cons_of_neg (by simp)]

theorem keyEnd_eq {pre rest : Bytes} (hpre : EQUALS ∉ pre) :
    keyEnd (EQUALS :: rest) (pre ++ EQUALS :: rest) =
      .ok ((pre ++ EQUALS :: rest).dropWhile fun b => b ≠ EQUALS && !isblank b) := by
  induction pre with
  | nil => rw [List.nil_append, keyEnd, if_neg (by simp), List.dropWhile_cons_of_neg (by simp)]
  | cons b pre ih =>
    obtain ⟨hb, hpre⟩ := not_or.mp (List.mem_cons.not.mp hpre)
    have hne : b :: (pre ++ EQUALS :: rest) ≠ EQUALS :: rest := by
      intro heq
      have hlen := congrArg List.length heq
      simp only [List.length_cons, List.length_append] at hlen
      omega
    rw [List.cons_append, keyEnd]
    by_cases hblank : isblank b = true
    · rw [if_neg (by simp [hblank]), List.dropWhile_cons_of_neg (by simp [hblank])]
    · rw [if_pos (by simp [hblank, hne]), ih hpre,
        List.dropWhile_cons_of_pos (by simp [hblank, Ne.symm hb])]

/-- **`init` on one line.** -/
theorem readLine_eq (line : Bytes) (c : ConfigFile) : readLine line c = .ok (enter line c) := by
  unfold enter
  by_cases hmem : EQUALS ∈ line
  · have hblanks : EQUALS ∉ line.takeWhile isblank :=
      not_mem_of_blank (fun b hb => List.mem_takeWhile_imp hb) rfl
    have hline := List.takeWhile_append_dropWhile (p := isblank) (l := line)
    have hfs : EQUALS ∈ line.dropWhile isblank := by
      rw [← hline] at hmem
      exact (List.mem_append.mp hmem).resolve_left hblanks
    obtain ⟨pre, rest, hsplit, hpre⟩ := List.eq_append_cons_of_mem hfs
    rw [hsplit, ← List.append_assoc] at hline
    have hindent : EQUALS ∉ line.takeWhile isblank ++ pre :=
      fun h => (List.mem_append.mp h).elim hblanks hpre
    have hequal : strchr line EQUALS = some (EQUALS :: rest) := by
      rw [← hline]
      exact strchr_append hindent
    have hvalue : line.dropWhile (· ≠ EQUALS) = EQUALS :: rest := by
      rw [← hline]
      exact dropWhile_equals hindent
    have hkey : (pre ++ EQUALS :: rest).takeWhile (fun b => b ≠ EQUALS && !isblank b) = keyIn line := by
      rw [keyIn, word, hsplit, List.takeWhile_takeWhile]
      simp only [Bool.decide_and, Bool.decide_eq_true]
    unfold readLine
    simp only [hequal, hsplit]
    by_cases hhash : (pre ++ EQUALS :: rest).head? = some HASH
    · rw [if_pos hhash, if_pos (Or.inr (Or.inl hhash))]
    · rw [if_neg hhash, keyEnd_eq hpre, ok_bind]
      simp only [string_dropWhile]
      rw [hkey, valueAt, hvalue, store]
      by_cases hempty : keyIn line = []
      · rw [if_neg fun h => h.1 hempty, if_pos (Or.inr (Or.inr hempty))]
      · have hentry : ¬(EQUALS ∉ line ∨ (pre ++ EQUALS :: rest).head? = some HASH ∨
            keyIn line = []) := fun h => h.elim (not_not.mpr hmem) fun h => h.elim hhash hempty
        rw [if_neg hentry]
        split_ifs with h1 h2 h2
        · exact absurd h2 h1.2
        · rfl
        · rfl
        · exact absurd ⟨hempty, h2⟩ h1
  · rw [readLine_other hmem, if_pos (Or.inl hmem)]

theorem findKey_some (h : findKey key line = .ok (some value)) :
    (line.dropWhile isblank).head? ≠ some HASH ∧ EQUALS ∈ line ∧ word line = cstr key ∧
      value = valueAt line := by
  unfold findKey at h
  dsimp only at h
  by_cases hhash : (line.dropWhile isblank).head? = some HASH
  · rw [if_pos hhash] at h
    cases h
  · rw [if_neg hhash] at h
    obtain ⟨fe, hend, h⟩ := bind_eq_ok.mp h
    obtain ⟨-, rfl⟩ := wordEnd_ok.mp hend
    rw [string_dropWhile] at h
    split_ifs at h with hkey
    · cases h
    · by_cases hmem : EQUALS ∈ line
      · obtain ⟨pre, rest, rfl, hpre⟩ := List.eq_append_cons_of_mem hmem
        rw [strchr_append hpre] at h
        dsimp only at h
        rw [string_dropWhile] at h
        refine ⟨hhash, hmem, not_not.mp hkey, ?_⟩
        rw [valueAt, dropWhile_equals hpre]
        exact (Option.some.inj (Except.ok.inj h)).symm
      · rw [strchr_eq_none hmem] at h
        cases h

theorem valueAt_ne (h : EQUALS ∈ line) : valueAt (line ++ [LF]) ≠ [] := by
  obtain ⟨pre, rest, rfl, hpre⟩ := List.eq_append_cons_of_mem h
  have hassoc : (pre ++ EQUALS :: rest) ++ [LF] = pre ++ EQUALS :: (rest ++ [LF]) := by simp
  rw [hassoc, valueAt, dropWhile_equals hpre, List.drop_one, List.tail_cons]
  cases hbs : (rest ++ [LF]).dropWhile isblank with
  | nil => exact absurd (List.dropWhile_eq_nil_iff.mp hbs LF (by simp)) (by decide)
  | cons b bs =>
    have hb : isblank b = false := by
      have hne : (rest ++ [LF]).dropWhile isblank ≠ [] := by
        rw [hbs]
        nofun
      have := List.head_dropWhile_not isblank hne
      simpa only [hbs, List.head_cons] using this
    rw [List.takeWhile_cons_of_pos (by simp [hb])]
    nofun

theorem enter_other {k : Bytes} (hk : keyIn line ≠ k) :
    (enter line c).confMap_[k]? = c.confMap_[k]? := by
  unfold enter
  split_ifs
  · rfl
  · exact store_other hk

theorem enter_keeps {k : Bytes} (line : Bytes) (hk : k ∈ c.confMap_) :
    k ∈ (enter line c).confMap_ ∧ (enter line c).confMap_[k]? = c.confMap_[k]? := by
  have hsame : (enter line c).confMap_[k]? = c.confMap_[k]? := by
    unfold enter store
    split_ifs
    · rfl
    · rfl
    · show (c.confMap_.insertIfNew _ _)[k]? = _
      rw [Std.ExtTreeMap.getElem?_insertIfNew, if_neg fun h => ?_]
      rw [Std.LawfulEqCmp.eq_of_compare h.1] at h
      exact h.2 hk
  rw [Std.ExtTreeMap.mem_iff_isSome_getElem?] at hk ⊢
  exact ⟨hsame ▸ hk, hsame⟩

theorem foldl_keeps {k : Bytes} (lines : List Bytes) (hk : k ∈ c.confMap_) :
    (lines.foldl (fun c l => enter (l ++ [LF]) c) c).confMap_[k]? = c.confMap_[k]? := by
  induction lines generalizing c with
  | nil => rfl
  | cons l lines ih =>
    obtain ⟨hmem, hsame⟩ := enter_keeps (l ++ [LF]) hk
    rw [List.foldl_cons, ih hmem, hsame]

theorem fgets_line (hl : IsLine l) (hlen : l.length < 254) (lines : List Bytes) :
    fgets 255 (contents (l :: lines)) = some (l ++ [LF], contents lines) := by
  rw [contents_cons, fgets, if_neg (by simp), readSome_line hl.noLF hlen]

/-- **`init` on a file of lines** that fit with their ends. -/
theorem initLoop_contents (hlines : ∀ l ∈ lines, IsLine l ∧ l.length < 254)
    (hfuel : (contents lines).length < fuel) : initLoop fuel (contents lines) c =
      .ok (lines.foldl (fun c l => enter (l ++ [LF]) c) c) := by
  induction lines generalizing fuel c with
  | nil =>
    obtain ⟨fuel, rfl⟩ := Nat.exists_eq_add_one.mpr (Nat.zero_lt_of_lt hfuel)
    rfl
  | cons l lines ih =>
    obtain ⟨⟨hl, hlen⟩, hlines⟩ := List.forall_mem_cons.mp hlines
    obtain ⟨fuel, rfl⟩ := Nat.exists_eq_add_one.mpr (Nat.zero_lt_of_lt hfuel)
    rw [contents_cons, List.length_append, List.length_cons] at hfuel
    rw [initLoop, fgets_line hl hlen]
    simp only [cstr_eq hl.noNUL_append, readLine_eq, ok_bind]
    rw [ih hlines (by omega), List.foldl_cons]

/-- The keys that `get_config` is asked for. -/
structure IsKey (key : Bytes) : Prop where
  ne : key ≠ []
  noEquals : EQUALS ∉ key
  noNUL : NUL ∉ key

theorem enter_passed (hkey : IsKey key) (hglued : keyIn line = key → word line = key)
    (h : findKey key (line ++ [LF]) = .ok none) :
    (enter (line ++ [LF]) c).confMap_[key]? = c.confMap_[key]? := by
  rcases findKey_none_iff.mp h with hhash | ⟨hblank, hword⟩
  · rw [enter, if_pos (Or.inr (Or.inl hhash))]
  · have hsame := word_append (exists_blank_append.mp hblank)
    rw [hsame, cstr_eq hkey.noNUL] at hword
    refine enter_other fun heq => hword (hglued ?_)
    rwa [keyIn, hsame] at heq

theorem enter_found (hkey : IsKey key) (hnew : key ∉ c.confMap_)
    (h : findKey key (line ++ [LF]) = .ok (some value)) :
    (enter (line ++ [LF]) c).confMap_[key]? = some value ∧ value ≠ [] := by
  obtain ⟨hhash, hmem, hword, rfl⟩ := findKey_some h
  have hvalue : valueAt (line ++ [LF]) ≠ [] :=
    valueAt_ne ((List.mem_append.mp hmem).resolve_right (by decide))
  have hkeyIn : keyIn (line ++ [LF]) = key := by
    rw [keyIn, hword, cstr_eq hkey.noNUL]
    exact List.takeWhile_eq_self_iff.mpr fun b hb => by
      simpa using fun heq : b = EQUALS => hkey.noEquals (heq ▸ hb)
  have hentry : ¬(EQUALS ∉ line ++ [LF] ∨ ((line ++ [LF]).dropWhile isblank).head? = some HASH ∨
      keyIn (line ++ [LF]) = []) := by
    rw [hkeyIn]
    exact fun h => h.elim (not_not.mpr hmem) fun h => h.elim hhash hkey.ne
  refine ⟨?_, hvalue⟩
  rw [enter, if_neg hentry, hkeyIn, store, if_neg hvalue]
  show (c.confMap_.insertIfNew key _)[key]? = _
  rw [Std.ExtTreeMap.getElem?_insertIfNew, if_pos ⟨Std.ReflCmp.compare_self, hnew⟩]

theorem foldl_agrees {r : Option Bytes} (hlines : ∀ l ∈ lines, IsLine l ∧ l.length < 254)
    (hkey : IsKey key) (hglued : ∀ l ∈ lines, keyIn l = key → word l = key)
    (hfuel : (contents lines).length < fuel) (hnew : key ∉ c.confMap_)
    (h : getLoop key fuel (contents lines) = .ok r) :
    (lines.foldl (fun c l => enter (l ++ [LF]) c) c).confMap_[key]? = r ∧ r ≠ some [] := by
  induction lines generalizing fuel c with
  | nil =>
    obtain ⟨fuel, rfl⟩ := Nat.exists_eq_add_one.mpr (Nat.zero_lt_of_lt hfuel)
    cases h
    exact ⟨Std.ExtTreeMap.getElem?_eq_none hnew, nofun⟩
  | cons l lines ih =>
    obtain ⟨⟨hl, hlen⟩, hlines⟩ := List.forall_mem_cons.mp hlines
    obtain ⟨hl', hglued⟩ := List.forall_mem_cons.mp hglued
    obtain ⟨fuel, rfl⟩ := Nat.exists_eq_add_one.mpr (Nat.zero_lt_of_lt hfuel)
    rw [contents_cons, List.length_append, List.length_cons] at hfuel
    rw [getLoop, fgets_line hl hlen] at h
    simp only [cstr_eq hl.noNUL_append] at h
    obtain ⟨found, hfound, h⟩ := bind_eq_ok.mp h
    rw [List.foldl_cons]
    cases found with
    | none =>
      refine ih hlines hglued (by omega) ?_ h
      rwa [Std.ExtTreeMap.mem_iff_isSome_getElem?, enter_passed hkey hl' hfound,
        ← Std.ExtTreeMap.mem_iff_isSome_getElem?]
    | some v =>
      cases h
      obtain ⟨hstored, hvalue⟩ := enter_found hkey hnew hfound
      have hmem : key ∈ (enter (l ++ [LF]) c).confMap_ := by
        rw [Std.ExtTreeMap.mem_iff_isSome_getElem?, hstored]
        rfl
      exact ⟨(foldl_keeps lines hmem).trans hstored, by simpa using hvalue⟩

/-- **The scanners agree on one file** of lines that fit with their ends: where `get_config` returns,
and no line has the key glued to its `=`, it finds what `init` stores. -/
theorem scanners_agree {r : Option Bytes} (hlines : ∀ l ∈ lines, IsLine l ∧ l.length < 254)
    (hkey : IsKey key) (hglued : ∀ l ∈ lines, keyIn l = key → word l = key)
    (h : getLoop key ((contents lines).length + 1) (contents lines) = .ok r) :
    ∃ c, init (contents lines) = .ok c ∧ (c.getValue key).1 = r.getD [] ∧ r ≠ some [] := by
  obtain ⟨hfound, hne⟩ := foldl_agrees (c := ⟨∅⟩) hlines hkey hglued (Nat.lt_succ_self _)
    Std.ExtTreeMap.not_mem_empty h
  refine ⟨_, initLoop_contents hlines (Nat.lt_succ_self _), ?_, hne⟩
  show (ConfigFile.confMap_ _).getD key [] = _
  rw [Std.ExtTreeMap.getD_eq_getD_getElem?, hfound]

/-! ### Both readers -/

theorem initPath_nothing (F : Files) (path : Bytes) :
    ∃ out, initPath F path = .ok out ∧ ∀ key, valueIn key out = [] := by
  have hroot : initPath F path = match F.fopen (ascii "/root/") with
    | none => .ok .exited
    | some fd => init fd >>= fun c => pure (.returned c) := rfl
  rw [hroot]
  cases hopen : F.fopen (ascii "/root/") with
  | none => exact ⟨.exited, rfl, fun _ => rfl⟩
  | some fd =>
    obtain rfl := F.directory _ fd (by decide) hopen
    refine ⟨.returned ⟨∅⟩, rfl, fun key => ?_⟩
    show (∅ : Std.ExtTreeMap Bytes Bytes).getD key [] = []
    exact Std.ExtTreeMap.getD_eq_fallback Std.ExtTreeMap.not_mem_empty

/-- **The two readers agree** on a file if and only if all its lines have at most 253 bytes and are
passed: they are comments, or have a blank behind their first word, and this is not the key. -/
theorem agrees_iff (hopen : F.fopen path = some (contents lines)) (hlines : ∀ l ∈ lines, IsLine l)
    (key value : Bytes) :
    Agrees F path key value ↔ ∀ l ∈ lines, l.length < 254 ∧ Passed key l := by
  obtain ⟨out, hout, hnothing⟩ := initPath_nothing F path
  rw [← getLoop_lines hlines (Nat.lt_succ_self _)]
  have hget : get_config F (some path) (some key) (some value) = (do
      match ← getLoop key ((contents lines).length + 1) (contents lines) with
      | none => .ok (.returned (0, some value))
      | some value => .ok (.returned (1, some value))) := by
    unfold get_config
    simp only [hopen]
  constructor
  · rintro ⟨find, v, out', hfind, hout', hiff, -⟩
    rw [hout] at hout'
    cases hout'
    rw [hnothing] at hiff
    rw [hget] at hfind
    obtain ⟨r, hr, hfind⟩ := bind_eq_ok.mp hfind
    cases r with
    | none => exact hr
    | some w =>
      cases hfind
      exact absurd rfl (hiff.mp rfl)
  · intro hnone
    refine ⟨0, value, out, ?_, hout, ?_, nofun⟩
    · rw [hget, hnone]
      rfl
    · rw [hnothing]
      exact iff_of_false nofun fun h => h rfl

/-- A file system with one file, `/etc/c`. -/
def oneFile (fd : Bytes) : Files where
  fopen path := if path = ascii "/etc/c" then some fd else none
  directory path fd' hslash hopen := by
    split_ifs at hopen with hpath
    · rw [hpath] at hslash
      exact absurd hslash (by decide)

theorem oneFile_opens (fd : Bytes) : (oneFile fd).fopen (ascii "/etc/c") = some fd := by
  simp [oneFile]

theorem agrees_iff_other :
    Agrees (oneFile (contents [ascii "# a", ascii "b = 1"])) (ascii "/etc/c") (ascii "a") [] ↔
      ∀ l ∈ [ascii "# a", ascii "b = 1"], l.length < 254 ∧ Passed (ascii "a") l := by
  refine agrees_iff (oneFile_opens _) ?_ _ _
  rw [List.forall_mem_cons, List.forall_mem_singleton]
  constructor <;> exact ⟨by decide, by decide, by decide⟩

/-- `get_config` finds a key in a file that `init` does not open, runs past the end of an empty line and
of an entry without blanks, and follows the `NULL` of a line that has the key and no `=`. -/
theorem not_agrees :
    get_config (oneFile (ascii "a = 1\n")) (some (ascii "/etc/c")) (some (ascii "a")) (some []) =
      .ok (.returned (1, some (ascii "1\n"))) ∧
    ¬Agrees (oneFile (ascii "a = 1\n")) (ascii "/etc/c") (ascii "a") [] ∧
    get_config (oneFile (ascii "\n")) (some (ascii "/etc/c")) (some (ascii "a")) (some []) =
      .error .outOfBounds ∧
    get_config (oneFile (ascii "a=1\n")) (some (ascii "/etc/c")) (some (ascii "a")) (some []) =
      .error .outOfBounds ∧
    get_config (oneFile (ascii "a \n")) (some (ascii "/etc/c")) (some (ascii "a")) (some []) =
      .error .outOfBounds := by
  have hfound : get_config (oneFile (ascii "a = 1\n")) (some (ascii "/etc/c")) (some (ascii "a"))
      (some []) = .ok (.returned (1, some (ascii "1\n"))) := by
    decide +kernel
  refine ⟨hfound, ?_, by decide +kernel, by decide +kernel, by decide +kernel⟩
  rintro ⟨find, v, out, hfind, hout, hiff, -⟩
  rw [hfound] at hfind
  cases hfind
  obtain ⟨out', hout', hnothing⟩ := initPath_nothing (oneFile (ascii "a = 1\n")) (ascii "/etc/c")
  rw [hout'] at hout
  cases hout
  exact hiff.mp rfl (hnothing _)

end ReactorServer.Config
