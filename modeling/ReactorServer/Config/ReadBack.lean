import ReactorServer.Config.ConfigFile

/-!
# Reading a configuration file back

A `Layout` is a file that lists a finite map, one entry a line, among comments and empty lines.  The
value of a line ends at a blank or at the end of the string, and `fgets` leaves the line end in the
string: so `init` stores the value with its line end, but for lines of 254 bytes, whose end `fgets`
has no room for (`reads_back_iff`).
-/

namespace ReactorServer.Config

open ReactorServer.Cpp ReactorServer.Lib.Runs
open ConfigFile

/-! ### Layouts -/

/-- A line of the file with a key and a value, and its blanks. -/
structure Entry where
  indent : Bytes
  key : Bytes
  before : Bytes
  after : Bytes
  value : Bytes

def Entry.text (e : Entry) : Bytes :=
  e.indent ++ (e.key ++ (e.before ++ EQUALS :: (e.after ++ e.value)))

/-- The keys and values that are promised to be read back, with any blanks. -/
structure Entry.Proper (e : Entry) : Prop where
  indent : ∀ b ∈ e.indent, isblank b = true
  key : ∀ b ∈ e.key, isblank b = false ∧ b ≠ EQUALS ∧ b ≠ LF
  key_ne : e.key ≠ []
  key_head : e.key.head? ≠ some HASH
  before : ∀ b ∈ e.before, isblank b = true
  after : ∀ b ∈ e.after, isblank b = true
  value : ∀ b ∈ e.value, isblank b = false ∧ b ≠ LF
  value_ne : e.value ≠ []

inductive Line
  | entry (e : Entry)
  | comment (indent text : Bytes)
  | empty (blanks : Bytes)

namespace Line

def text : Line → Bytes
  | .entry e => e.text
  | .comment indent text => indent ++ HASH :: text
  | .empty blanks => blanks

def Proper : Line → Prop
  | .entry e => e.Proper
  | .comment indent text => (∀ b ∈ indent, isblank b = true) ∧ LF ∉ text
  | .empty blanks => ∀ b ∈ blanks, isblank b = true

def entry? : Line → Option Entry
  | .entry e => some e
  | _ => none

end Line

/-- The entries of a file. -/
def entries (lines : List Line) : List Entry := lines.filterMap Line.entry?

/-- The bytes of a file. -/
def file (lines : List Line) : Bytes := lines.flatMap fun l => l.text ++ [LF]

/-- A file that lists a map, in lines shorter than 255 bytes. -/
structure Layout where
  lines : List Line
  proper : ∀ l ∈ lines, l.Proper
  short : ∀ l ∈ lines, l.text.length < 255
  distinct : ((entries lines).map Entry.key).Nodup

/-! ### Strings -/

variable {c : ConfigFile} {s t rest : Bytes} {fuel : ℕ} {e : Entry} {l : Line} {lines : List Line}

theorem cstr_append (h : NUL ∉ s) : cstr (s ++ t) = s ++ cstr t := by
  unfold cstr
  exact List.takeWhile_append_of_pos fun b hb => by simpa using fun heq : b = NUL => h (heq ▸ hb)

theorem cstr_append_of_mem (h : NUL ∈ s) : cstr (s ++ t) = cstr s := by
  unfold cstr
  rw [List.takeWhile_append, if_neg fun hlen => ?_]
  have hall := (List.takeWhile_prefix (fun b => decide (b ≠ NUL)) (l := s)).eq_of_length hlen
  have := List.takeWhile_eq_self_iff.mp hall NUL h
  simp at this

theorem mem_of_mem_cstr {b : UInt8} (h : b ∈ cstr s) : b ∈ s := (List.takeWhile_prefix _).subset h

theorem not_mem_of_blank {b : UInt8} (hs : ∀ b ∈ s, isblank b = true) (hb : isblank b = false) :
    b ∉ s := by
  intro hmem
  rw [hs b hmem] at hb
  cases hb

/-! ### One line -/

/-- What of its end is read with a line. -/
def lineEnd (text : Bytes) : Bytes := if text.length < 254 then [LF] else []

/-- What `init` takes for the value. -/
def stored (e : Entry) : Bytes :=
  if NUL ∈ e.key then [] else cstr (e.value ++ lineEnd e.text)

/-- What a line does to the map. -/
def Line.effect : Line → ConfigFile → ConfigFile
  | .entry e => store e.key (stored e)
  | _ => id

theorem lineEnd_subset {text : Bytes} : ∀ b ∈ lineEnd text, b = LF := by
  intro b hb
  unfold lineEnd at hb
  split_ifs at hb
  · exact List.mem_singleton.mp hb
  · exact absurd hb List.not_mem_nil

theorem text_append (e : Entry) (t : Bytes) :
    e.text ++ t = e.indent ++ e.key ++ (e.before ++ EQUALS :: (e.after ++ (e.value ++ t))) := by
  simp [Entry.text]

theorem readLine_of_entry (h : e.Proper) :
    readLine (cstr (e.text ++ lineEnd e.text)) c = .ok (store e.key (stored e) c) := by
  unfold stored
  by_cases hnul : NUL ∈ e.key
  · have hpre : NUL ∈ e.indent ++ e.key := List.mem_append_right _ hnul
    rw [text_append, cstr_append_of_mem hpre, if_pos hnul]
    refine readLine_other fun hmem => ?_
    rcases List.mem_append.mp (mem_of_mem_cstr hmem) with hmem | hmem
    · exact not_mem_of_blank h.indent rfl hmem
    · exact (h.key EQUALS hmem).2.1 rfl
  · have hpre : NUL ∉ e.indent ++ (e.key ++ (e.before ++ EQUALS :: e.after)) := by
      simp only [List.mem_append, List.mem_cons, not_or]
      exact ⟨not_mem_of_blank h.indent rfl, hnul, not_mem_of_blank h.before rfl, by decide,
        not_mem_of_blank h.after rfl⟩
    have hcut : cstr (e.text ++ lineEnd e.text) = e.indent ++ (e.key ++ (e.before ++
        EQUALS :: (e.after ++ cstr (e.value ++ lineEnd e.text)))) := by
      have := cstr_append (t := e.value ++ lineEnd e.text) hpre
      rw [text_append]
      simpa only [List.append_assoc, List.cons_append] using this
    rw [hcut, if_neg hnul]
    refine readLine_entry h.indent (fun b hb => ⟨(h.key b hb).1, (h.key b hb).2.1⟩) h.key_ne
      h.key_head h.before h.after fun b hb => ?_
    rcases List.mem_append.mp (mem_of_mem_cstr hb) with hb | hb
    · exact (h.value b hb).1
    · rw [lineEnd_subset b hb]
      rfl

theorem readLine_line (h : l.Proper) :
    readLine (cstr (l.text ++ lineEnd l.text)) c = .ok (l.effect c) := by
  cases l with
  | entry e => exact readLine_of_entry h
  | comment indent text =>
    have hpre : NUL ∉ indent ++ [HASH] := by
      rw [List.mem_append, not_or]
      exact ⟨not_mem_of_blank h.1 rfl, by decide⟩
    have hcut := cstr_append (t := text ++ lineEnd (Line.comment indent text).text) hpre
    have hsplit : (Line.comment indent text).text ++ lineEnd (Line.comment indent text).text =
        indent ++ [HASH] ++ (text ++ lineEnd (Line.comment indent text).text) := by
      simp [Line.text]
    rw [hsplit, hcut, List.append_assoc]
    exact readLine_comment h.1
  | empty blanks =>
    refine readLine_other fun hmem => ?_
    rcases List.mem_append.mp (mem_of_mem_cstr hmem) with hmem | hmem
    · exact not_mem_of_blank h rfl hmem
    · exact absurd (lineEnd_subset _ hmem) (by decide)

theorem not_mem_text (h : l.Proper) : LF ∉ l.text := by
  cases l with
  | entry e =>
    show LF ∉ e.indent ++ (e.key ++ (e.before ++ EQUALS :: (e.after ++ e.value)))
    simp only [List.mem_append, List.mem_cons, not_or]
    exact ⟨not_mem_of_blank h.indent rfl, fun hmem => (h.key LF hmem).2.2 rfl,
      not_mem_of_blank h.before rfl, by decide, not_mem_of_blank h.after rfl,
      fun hmem => (h.value LF hmem).2 rfl⟩
  | comment indent text =>
    show LF ∉ indent ++ HASH :: text
    simp only [List.mem_append, List.mem_cons, not_or]
    exact ⟨not_mem_of_blank h.1 rfl, by decide, h.2⟩
  | empty blanks => exact not_mem_of_blank h rfl

/-! ### The whole file -/

/-- The loop reads a line, and where there is no room for its end, this by itself. -/
theorem initLoop_line (hproper : l.Proper) (hshort : l.text.length < 255)
    (hfuel : (l.text ++ LF :: rest).length < fuel) :
    ∃ fuel', rest.length < fuel' ∧
      initLoop fuel (l.text ++ LF :: rest) c = initLoop fuel' rest (l.effect c) := by
  have hline := not_mem_text hproper
  have hread := readLine_line (c := c) hproper
  rw [List.length_append, List.length_cons] at hfuel
  obtain ⟨fuel, rfl⟩ := Nat.exists_eq_add_one.mpr (Nat.zero_lt_of_lt hfuel)
  rw [initLoop, fgets, if_neg (by simp)]
  by_cases hlen : l.text.length < 254
  · have hend : lineEnd l.text = [LF] := if_pos hlen
    rw [hend] at hread
    simp only [readSome_line hline hlen, hread, ok_bind]
    exact ⟨fuel, by omega, rfl⟩
  · have hend : lineEnd l.text = [] := if_neg hlen
    have hfull : readSome 254 (l.text ++ LF :: rest) = (l.text, LF :: rest) :=
      readSome_full hline (by omega)
    rw [hend, List.append_nil] at hread
    obtain ⟨fuel, rfl⟩ := Nat.exists_eq_add_one.mpr (show 0 < fuel by omega)
    have hnext : readSome 254 (LF :: rest) = ([LF], rest) := rfl
    have hempty : readLine (cstr [LF]) (l.effect c) = .ok (l.effect c) := readLine_other (by decide)
    simp only [hfull, hread, ok_bind]
    rw [initLoop, fgets, if_neg (by simp)]
    simp only [hnext, hempty, ok_bind]
    exact ⟨fuel, by omega, rfl⟩

/-- **The loop of `init`** takes the lines one after another, and ends. -/
theorem initLoop_lines (hproper : ∀ l ∈ lines, l.Proper)
    (hshort : ∀ l ∈ lines, l.text.length < 255) (hfuel : (file lines).length < fuel) :
    initLoop fuel (file lines) c = .ok (lines.foldl (fun c l => l.effect c) c) := by
  induction lines generalizing fuel c with
  | nil =>
    obtain ⟨fuel, rfl⟩ := Nat.exists_eq_add_one.mpr (Nat.zero_lt_of_lt hfuel)
    rfl
  | cons l lines ih =>
    have hfile : file (l :: lines) = l.text ++ LF :: file lines := by
      unfold file
      rw [List.flatMap_cons, List.append_assoc]
      rfl
    rw [hfile] at hfuel ⊢
    obtain ⟨fuel', hfuel', hstep⟩ := initLoop_line (c := c) (hproper l List.mem_cons_self)
      (hshort l List.mem_cons_self) hfuel
    rw [hstep, ih (fun l' hl' => hproper l' (List.mem_cons_of_mem _ hl'))
      (fun l' hl' => hshort l' (List.mem_cons_of_mem _ hl')) hfuel']
    rfl

theorem store_other {key value k : Bytes} (hk : key ≠ k) :
    (store key value c).confMap_[k]? = c.confMap_[k]? := by
  unfold store
  split_ifs
  · rfl
  · show (c.confMap_.insertIfNew key value)[k]? = _
    rw [Std.ExtTreeMap.getElem?_insertIfNew, if_neg fun h => hk (Std.LawfulEqCmp.eq_of_compare h.1)]

theorem store_self {key value : Bytes} (hnew : key ∉ c.confMap_) :
    (store key value c).confMap_.getD key [] = value := by
  unfold store
  split_ifs with hnil
  · rw [Std.ExtTreeMap.getD_eq_fallback hnew, hnil]
  · show (c.confMap_.insertIfNew key value).getD key [] = _
    rw [Std.ExtTreeMap.getD_insertIfNew, if_pos ⟨Std.ReflCmp.compare_self, hnew⟩]

/-- Lines that do not list `k` leave it as it is. -/
theorem foldl_other {k : Bytes} (hk : ∀ e ∈ entries lines, e.key ≠ k) :
    (lines.foldl (fun c l => l.effect c) c).confMap_[k]? = c.confMap_[k]? := by
  induction lines generalizing c with
  | nil => rfl
  | cons l lines ih =>
    rw [List.foldl_cons]
    cases l with
    | entry e =>
      rw [ih fun e' he' => hk e' (List.mem_cons_of_mem _ he')]
      exact store_other (hk e List.mem_cons_self)
    | comment indent text => exact ih hk
    | empty blanks => exact ih hk

/-- The line that lists a key stores its value. -/
theorem foldl_entry (hdistinct : ((entries lines).map Entry.key).Nodup) (he : e ∈ entries lines)
    (hnew : e.key ∉ c.confMap_) :
    (lines.foldl (fun c l => l.effect c) c).confMap_.getD e.key [] = stored e := by
  induction lines generalizing c with
  | nil => exact absurd he List.not_mem_nil
  | cons l lines ih =>
    rw [List.foldl_cons]
    cases l with
    | entry e' =>
      obtain ⟨hfresh, hdistinct⟩ := List.nodup_cons.mp hdistinct
      have hother : ∀ e'' ∈ entries lines, e''.key ≠ e'.key :=
        fun e'' he'' hkey => hfresh (List.mem_map.mpr ⟨e'', he'', hkey⟩)
      rcases List.mem_cons.mp he with rfl | he
      · rw [Std.ExtTreeMap.getD_eq_getD_getElem?, foldl_other hother,
          ← Std.ExtTreeMap.getD_eq_getD_getElem?]
        exact store_self hnew
      · refine ih hdistinct he ?_
        rw [Std.ExtTreeMap.mem_iff_isSome_getElem?] at hnew ⊢
        rwa [show (Line.entry e').effect c = store e'.key (stored e') c from rfl,
          store_other (hother e he).symm]
    | comment indent text => exact ih hdistinct he hnew
    | empty blanks => exact ih hdistinct he hnew

theorem nul_mem_text (h : e.Proper) : NUL ∈ e.text ↔ NUL ∈ e.key ∨ NUL ∈ e.value := by
  have hblank : isblank NUL = false := rfl
  have hequals : NUL ≠ EQUALS := by decide
  simp [Entry.text, not_mem_of_blank h.indent hblank, not_mem_of_blank h.before hblank,
    not_mem_of_blank h.after hblank, hequals]

/-- When the value itself is stored. -/
theorem stored_eq_iff (h : e.Proper) (hshort : e.text.length < 255) :
    stored e = e.value ↔ e.text.length = 254 ∧ NUL ∉ e.text := by
  rw [nul_mem_text h, not_or]
  unfold stored
  by_cases hkey : NUL ∈ e.key
  · rw [if_pos hkey]
    exact iff_of_false h.value_ne.symm fun hr => hr.2.1 hkey
  · rw [if_neg hkey]
    by_cases hvalue : NUL ∈ e.value
    · rw [cstr_append_of_mem hvalue]
      refine iff_of_false (fun heq => ?_) fun hr => hr.2.2 hvalue
      have := List.takeWhile_eq_self_iff.mp heq NUL hvalue
      simp at this
    · rw [cstr_append hvalue, List.append_right_eq_self]
      unfold lineEnd
      split_ifs with hlen
      · exact iff_of_false (by decide) (by omega)
      · exact iff_of_true rfl ⟨by omega, hkey, hvalue⟩

/-- **What `init` makes of a layout.** -/
theorem init_layout (L : Layout) :
    ∃ c, init (file L.lines) = .ok c ∧ (∀ e ∈ entries L.lines, (c.getValue e.key).1 = stored e) ∧
      ∀ k ∈ c.confMap_, ∃ e ∈ entries L.lines, e.key = k := by
  refine ⟨_, initLoop_lines L.proper L.short (Nat.lt_succ_self _), fun e he => ?_, fun k hk => ?_⟩
  · exact foldl_entry L.distinct he Std.ExtTreeMap.not_mem_empty
  · by_contra hnone
    have hother : ∀ e ∈ entries L.lines, e.key ≠ k := fun e he hkey => hnone ⟨e, he, hkey⟩
    rw [Std.ExtTreeMap.mem_iff_isSome_getElem?, foldl_other hother] at hk
    simp at hk

theorem proper_of_mem (L : Layout) (he : e ∈ entries L.lines) :
    e.Proper ∧ e.text.length < 255 := by
  obtain ⟨l, hl, hle⟩ := List.mem_filterMap.mp he
  have hentry : l = .entry e := by
    cases l with
    | entry e' => exact congrArg Line.entry (Option.some.inj hle)
    | comment indent text => cases hle
    | empty blanks => cases hle
  rw [hentry] at hl
  exact ⟨L.proper _ hl, L.short _ hl⟩

/-- `init` reads the file, finds every value as it was, and nothing else. -/
def ReadsBack (L : Layout) : Prop :=
  ∃ c, init (file L.lines) = .ok c ∧ (∀ e ∈ entries L.lines, (c.getValue e.key).1 = e.value) ∧
    ∀ k ∈ c.confMap_, ∃ e ∈ entries L.lines, e.key = k

/-- **A configuration file is read back** if and only if every line with an entry has 254 bytes, and
no `NUL` among them. -/
theorem reads_back_iff (L : Layout) :
    ReadsBack L ↔ ∀ e ∈ entries L.lines, e.text.length = 254 ∧ NUL ∉ e.text := by
  obtain ⟨c, hc, hvalues, hkeys⟩ := init_layout L
  have hfound : ∀ e ∈ entries L.lines,
      ((c.getValue e.key).1 = e.value ↔ e.text.length = 254 ∧ NUL ∉ e.text) := by
    intro e he
    obtain ⟨hproper, hshort⟩ := proper_of_mem L he
    rw [hvalues e he, stored_eq_iff hproper hshort]
  constructor
  · rintro ⟨c', hc', hread, -⟩ e he
    obtain rfl := Except.ok.inj (hc.symm.trans hc')
    exact (hfound e he).mp (hread e he)
  · intro hall
    exact ⟨c, hc, fun e he => (hfound e he).mpr (hall e he), hkeys⟩

/-- An entry that fills the buffer of `fgets`. -/
def filling : Entry := ⟨[], ascii "a", [], [], List.replicate 252 98⟩

theorem filling_text : filling.text = 97 :: EQUALS :: List.replicate 252 98 := rfl

theorem filling_length : filling.text.length = 254 := by
  rw [filling_text, List.length_cons, List.length_cons, List.length_replicate]

def full : Layout where
  lines := [.entry filling]
  proper := by
    intro l hl
    obtain rfl := List.mem_singleton.mp hl
    have ha : filling.key = [97] := rfl
    constructor
    · exact List.forall_mem_nil _
    · rw [ha, List.forall_mem_singleton]
      decide
    · decide
    · decide
    · exact List.forall_mem_nil _
    · exact List.forall_mem_nil _
    · intro b hb
      rw [List.eq_of_mem_replicate hb]
      decide
    · exact List.cons_ne_nil _ _
  short := by
    rw [List.forall_mem_singleton]
    show filling.text.length < 255
    rw [filling_length]
    decide
  distinct := List.pairwise_singleton _ _

theorem reads_back_full : entries full.lines ≠ [] ∧ ReadsBack full := by
  refine ⟨List.cons_ne_nil _ _, (reads_back_iff full).mpr fun e he => ?_⟩
  obtain rfl := List.mem_singleton.mp he
  refine ⟨filling_length, fun hmem => ?_⟩
  rw [filling_text, List.mem_cons, List.mem_cons, List.mem_replicate] at hmem
  rcases hmem with h | h | ⟨-, h⟩ <;> exact absurd h (by decide)

/-- The file `a=b`. -/
def short : Layout where
  lines := [.entry ⟨[], ascii "a", [], [], ascii "b"⟩]
  proper := by
    intro l hl
    obtain rfl := List.mem_singleton.mp hl
    have ha : ascii "a" = [97] := rfl
    have hb : ascii "b" = [98] := rfl
    constructor
    · exact List.forall_mem_nil _
    · rw [ha, List.forall_mem_singleton]
      decide
    · decide
    · decide
    · exact List.forall_mem_nil _
    · exact List.forall_mem_nil _
    · rw [hb, List.forall_mem_singleton]
      decide
    · decide
  short := by decide
  distinct := by decide

/-- The value is stored with its line end. -/
theorem not_reads_back : file short.lines = ascii "a=b\n" ∧
    (∃ c, init (ascii "a=b\n") = .ok c ∧ (c.getValue (ascii "a")).1 = ascii "b\n") ∧
    ¬ReadsBack short := by
  obtain ⟨c, hc, hvalues, -⟩ := init_layout short
  have hvalue := hvalues ⟨[], ascii "a", [], [], ascii "b"⟩ List.mem_cons_self
  refine ⟨by decide, ⟨c, hc, hvalue⟩, ?_⟩
  rintro ⟨c', hc', hread, -⟩
  obtain rfl := Except.ok.inj (hc.symm.trans hc')
  have hback := hread ⟨[], ascii "a", [], [], ascii "b"⟩ List.mem_cons_self
  exact absurd (hvalue.symm.trans hback) (by decide)

end ReactorServer.Config
