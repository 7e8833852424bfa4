import Mathlib.Data.List.Forall2
import Foregone.Proofs.Numerals
import Foregone.Report

/-! # Reading records

A reader of JSON as far as records need it: a list of objects whose values are strings,
natural numbers and truth values, with blanks anywhere between them. What is printed as
records is read back as the fields of all findings, in order. -/

namespace Foregone

theorem Text.toList_intercalate_empty (parts : List String) :
    ("".intercalate parts).toList = parts.flatMap String.toList := by
  induction parts with
  | nil => rfl
  | cons first rest ih =>
    by_cases hrest : rest = []
    · simp [hrest]
    · rw [String.intercalate_cons_of_ne_nil hrest, String.append_empty, String.toList_append, ih,
        List.flatMap_cons]

namespace Json

/-! ## The reader -/

inductive Scalar where
  | string (s : String)
  | number (n : Nat)
  | bool (b : Bool)
  deriving DecidableEq, Repr

/-- The fields of an object in order. -/
abbrev Record := List (String × Scalar)

inductive Token where
  /-- a bracket, a brace, a colon or a comma -/
  | mark (c : Char)
  | scalar (v : Scalar)
  deriving DecidableEq, Repr

/-- Where in a text the reader is, with what it has read of the current token. -/
inductive Mode where
  | between
  | number (n : Nat)
  | word (letters : List Char)
  /-- in a string, as the code units so far -/
  | string (units : List Nat)
  /-- behind a backslash -/
  | escape (units : List Nat)
  /-- behind `count` of the four digits of a code unit -/
  | code (units : List Nat) (count value : Nat)
  deriving DecidableEq, Repr

/-- The characters of a string. Two units of sixteen bits can make up one character. -/
def ofUnits : List Nat → Option (List Char)
  | [] => some []
  | high :: rest =>
    if 0xd800 ≤ high ∧ high < 0xdc00 then
      match rest with
      | low :: rest =>
        if 0xdc00 ≤ low ∧ low < 0xe000 then
          let c := Char.ofNat (0x10000 + (high - 0xd800) * 0x400 + (low - 0xdc00))
          (ofUnits rest).map (c :: ·)
        else none
      | [] => none
    else if high.isValidChar then (ofUnits rest).map (Char.ofNat high :: ·)
    else none

/-- The character that a letter stands for behind a backslash. -/
def escaped? (c : Char) : Option Char :=
  [('"', '"'), ('\\', '\\'), ('/', '/'), ('b', '\x08'), ('f', '\x0c'), ('n', '\n'), ('r', '\r'),
    ('t', '\t')].lookup c

def hexDigit? (c : Char) : Option Nat :=
  if c.isDigit then some (c.toNat - '0'.toNat)
  else if 'a' ≤ c ∧ c ≤ 'f' then some (c.toNat - 'a'.toNat + 10)
  else if 'A' ≤ c ∧ c ≤ 'F' then some (c.toNat - 'A'.toNat + 10)
  else none

def wordValue? (letters : List Char) : Option Bool :=
  if letters = "true".toList then some true
  else if letters = "false".toList then some false
  else none

/-- A character that is part of no token before it: the tokens it ends and the one it begins. -/
def begin (c : Char) : Option (List Token × Mode) :=
  if c.isDigit then some ([], .number (c.toNat - '0'.toNat))
  else if c.isLower then some ([], .word [c])
  else if c = '"' then some ([], .string [])
  else if c ∈ ['[', ']', '\x7b', '\x7d', ':', ','] then some ([.mark c], .between)
  else if c ∈ [' ', '\n', '\r', '\t'] then some ([], .between)
  else none

/-- A character behind a token that has no end of its own. -/
def beginAfter (v : Scalar) (c : Char) : Option (List Token × Mode) :=
  (begin c).map fun next => (.scalar v :: next.1, next.2)

/-- One character. -/
def step : Mode → Char → Option (List Token × Mode)
  | .between, c => begin c
  | .number n, c =>
    if c.isDigit then some ([], .number (10 * n + (c.toNat - '0'.toNat)))
    else beginAfter (.number n) c
  | .word letters, c =>
    if c.isLower then some ([], .word (letters ++ [c]))
    else (wordValue? letters).bind fun b => beginAfter (.bool b) c
  | .string units, c =>
    if c = '"' then
      (ofUnits units).map fun cs => ([.scalar (.string (String.ofList cs))], .between)
    else if c = '\\' then some ([], .escape units)
    else if c.toNat < 32 then none
    else some ([], .string (units ++ [c.toNat]))
  | .escape units, c =>
    if c = 'u' then some ([], .code units 0 0)
    else (escaped? c).map fun d => ([], .string (units ++ [d.toNat]))
  | .code units count value, c =>
    (hexDigit? c).map fun d =>
      ([], if count = 3 then .string (units ++ [value * 16 + d])
        else .code units (count + 1) (value * 16 + d))

/-- All characters of a text. -/
def run : Mode → List Char → Option (List Token × Mode)
  | m, [] => some ([], m)
  | m, c :: cs =>
    (step m c).bind fun first => (run first.2 cs).map fun rest => (first.1 ++ rest.1, rest.2)

mutual

/-- The records of a list that is not empty, up to its end. -/
def recordsFrom : List Token → Option (List Record)
  | .mark '\x7b' :: rest => fieldsFrom [] rest
  | _ => none

/-- The rest of a record that has some fields already, and the records behind it. -/
def fieldsFrom (fields : Record) : List Token → Option (List Record)
  | .scalar (.string name) :: .mark ':' :: .scalar v :: .mark ',' :: rest =>
    fieldsFrom (fields ++ [(name, v)]) rest
  | .scalar (.string name) :: .mark ':' :: .scalar v :: .mark '\x7d' :: .mark ',' :: rest =>
    (recordsFrom rest).map ((fields ++ [(name, v)]) :: ·)
  | [.scalar (.string name), .mark ':', .scalar v, .mark '\x7d', .mark ']'] =>
    some [fields ++ [(name, v)]]
  | _ => none

end

/-- The records of a list. -/
def recordsOf : List Token → Option (List Record)
  | [.mark '[', .mark ']'] => some []
  | .mark '[' :: rest => recordsFrom rest
  | _ => none

/-- The records that a text stands for. -/
def read (text : String) : Option (List Record) :=
  match run .between text.toList with
  | some (ts, .between) => recordsOf ts
  | _ => none

/-! ## Runs of characters -/

/-- The text leads from one mode to another with the given tokens. -/
def Runs (m : Mode) (text : List Char) (ts : List Token) (m' : Mode) : Prop :=
  run m text = some (ts, m')

variable {m m' m'' : Mode} {a b : List Char} {ts us : List Token}

theorem Runs.append (ha : Runs m a ts m') (hb : Runs m' b us m'') :
    Runs m (a ++ b) (ts ++ us) m'' := by
  induction a generalizing m ts with
  | nil =>
    cases ha
    exact hb
  | cons c a ih =>
    obtain ⟨⟨first, next⟩, hfirst, hrest⟩ := Option.bind_eq_some_iff.mp ha
    obtain ⟨⟨rest, last⟩, hrun, heq⟩ := Option.map_eq_some_iff.mp hrest
    cases heq
    have hall : run next (a ++ b) = some (rest ++ us, m'') := ih hrun
    rw [Runs, List.cons_append, run, hfirst]
    simp [hall]

theorem runs_step {c : Char} (h : step m c = some (ts, m')) : Runs m [c] ts m' := by
  simp [Runs, run, h]

/-! ## Strings -/

/-- The code units of a character. -/
def units (c : Char) : List Nat :=
  if c.toNat < 0x10000 then [c.toNat]
  else [0xd800 + (c.toNat - 0x10000) / 0x400, 0xdc00 + (c.toNat - 0x10000) % 0x400]

theorem toNat_valid (c : Char) : c.toNat.isValidChar := c.valid

theorem ofUnits_units_append (c : Char) (rest : List Nat) :
    ofUnits (units c ++ rest) = (ofUnits rest).map (c :: ·) := by
  have hvalid := toNat_valid c
  have hrange : c.toNat < 0xd800 ∨ 0xdfff < c.toNat ∧ c.toNat < 0x110000 := hvalid
  unfold units
  split
  · have hself : ¬ (0xd800 ≤ c.toNat ∧ c.toNat < 0xdc00) := by omega
    rw [List.singleton_append, ofUnits.eq_def]
    simp only [if_neg hself, if_pos hvalid, Char.ofNat_toNat]
  · generalize hhigh : 0xd800 + (c.toNat - 0x10000) / 0x400 = high
    generalize hlow : 0xdc00 + (c.toNat - 0x10000) % 0x400 = low
    have hhighRange : 0xd800 ≤ high ∧ high < 0xdc00 := by omega
    have hlowRange : 0xdc00 ≤ low ∧ low < 0xe000 := by omega
    have hjoined : 0x10000 + (high - 0xd800) * 0x400 + (low - 0xdc00) = c.toNat := by omega
    rw [List.cons_append, List.singleton_append, ofUnits.eq_def]
    simp only [if_pos hhighRange, if_pos hlowRange, hjoined, Char.ofNat_toNat]

theorem ofUnits_flatMap (cs : List Char) : ofUnits (cs.flatMap units) = some cs := by
  induction cs with
  | nil => rfl
  | cons c cs ih => rw [List.flatMap_cons, ofUnits_units_append, ih, Option.map_some]

theorem hexDigit?_digitChar {d : Nat} (h : d < 16) : hexDigit? (Nat.digitChar d) = some d := by
  have hall : ∀ d < 16, hexDigit? (Nat.digitChar d) = some d := by decide
  exact hall d h

/-- The last digit of a number that is filled up with zeros. -/
theorem toList_hex_succ (width n : Nat) : (Text.hex (width + 2) n).toList =
    (Text.hex (width + 1) (n / 16)).toList ++ [Nat.digitChar (n % 16)] := by
  simp only [Text.hex, String.toList_ofList]
  by_cases hn : n < 16
  · rw [Nat.toDigits_of_lt_base hn, Nat.div_eq_of_lt hn, Nat.mod_eq_of_lt hn, Nat.toDigits_zero]
    simp [List.replicate_succ']
  · rw [Nat.toDigits_of_base_le (by decide) (Nat.le_of_not_lt hn)]
    simp

theorem toList_hex {n : Nat} (h : n < 0x10000) : (Text.hex 4 n).toList =
    [Nat.digitChar (n / 4096)] ++ [Nat.digitChar (n / 256 % 16)] ++ [Nat.digitChar (n / 16 % 16)] ++
      [Nat.digitChar (n % 16)] := by
  have hfirst : (Text.hex 1 (n / 4096)).toList = [Nat.digitChar (n / 4096)] := by
    simp [Text.hex, Nat.toDigits_of_lt_base (by omega : n / 4096 < 16)]
  simp only [toList_hex_succ, Nat.div_div_eq_div_mul, hfirst]

/-- The first three digits of a code unit. -/
theorem runs_hexDigit (done : List Nat) {count value d : Nat} (hcount : count ≠ 3) (h : d < 16) :
    Runs (.code done count value) [Nat.digitChar d] []
      (.code done (count + 1) (value * 16 + d)) :=
  runs_step (by simp [step, hexDigit?_digitChar h, hcount])

/-- The last one. -/
theorem runs_lastDigit (done : List Nat) {value d : Nat} (h : d < 16) :
    Runs (.code done 3 value) [Nat.digitChar d] [] (.string (done ++ [value * 16 + d])) :=
  runs_step (by simp [step, hexDigit?_digitChar h])

theorem runs_jsonUnit (done : List Nat) {n : Nat} (h : n < 0x10000) :
    Runs (.string done) (Text.jsonUnit n).toList [] (.string (done ++ [n])) := by
  have hmark : Runs (.string done) ['\\', 'u'] [] (.code done 0 0) := rfl
  have hfirst := hmark.append (runs_hexDigit done (by decide) (by omega : n / 4096 < 16))
  have hsecond := hfirst.append (runs_hexDigit done (by decide) (by omega : n / 256 % 16 < 16))
  have hthird := hsecond.append (runs_hexDigit done (by decide) (by omega : n / 16 % 16 < 16))
  have hlast := hthird.append (runs_lastDigit done (by omega : n % 16 < 16))
  have hvalue : (((0 * 16 + n / 4096) * 16 + n / 256 % 16) * 16 + n / 16 % 16) * 16 + n % 16 =
      n := by omega
  rw [hvalue] at hlast
  rw [Text.jsonUnit, String.toList_append, toList_hex h]
  exact hlast

/-- The characters that a letter stands for behind a backslash. -/
def shortEscapes : List Char := ['"', '\\', '\n', '\r', '\t', '\x08', '\x0c']

theorem runs_shortEscape (done : List Nat) :
    ∀ c ∈ shortEscapes,
      Runs (.string done) (Text.jsonChar c).toList [] (.string (done ++ units c)) := by
  simp only [shortEscapes, List.forall_mem_cons]
  exact ⟨rfl, rfl, rfl, rfl, rfl, rfl, rfl, nofun⟩

theorem jsonChar_of_notMem {c : Char} (h : c ∉ shortEscapes) : Text.jsonChar c =
    if 32 ≤ c.toNat ∧ c.toNat < 127 then c.toString
    else if c.toNat < 0x10000 then Text.jsonUnit c.toNat
    else Text.jsonUnit (0xd800 + (c.toNat - 0x10000) / 0x400) ++
      Text.jsonUnit (0xdc00 + (c.toNat - 0x10000) % 0x400) := by
  simp only [shortEscapes, List.mem_cons, List.not_mem_nil, or_false, not_or] at h
  simp only [Text.jsonChar, beq_iff_eq, h, if_false, Bool.and_eq_true, decide_eq_true_eq]

theorem runs_printable (done : List Nat) {c : Char} (hshort : c ∉ shortEscapes)
    (h : 32 ≤ c.toNat) : Runs (.string done) [c] [] (.string (done ++ [c.toNat])) := by
  have hquote : c ≠ '"' := fun he => hshort (he ▸ by decide)
  have hslash : c ≠ '\\' := fun he => hshort (he ▸ by decide)
  refine runs_step ?_
  rw [step, if_neg hquote, if_neg hslash, if_neg (Nat.not_lt.mpr h)]

theorem runs_jsonChar (done : List Nat) (c : Char) :
    Runs (.string done) (Text.jsonChar c).toList [] (.string (done ++ units c)) := by
  have hvalid : c.toNat < 0xd800 ∨ 0xdfff < c.toNat ∧ c.toNat < 0x110000 := toNat_valid c
  by_cases hshort : c ∈ shortEscapes
  · exact runs_shortEscape done c hshort
  · rw [jsonChar_of_notMem hshort]
    by_cases hprintable : 32 ≤ c.toNat ∧ c.toNat < 127
    · have hunits : units c = [c.toNat] := if_pos (by omega)
      have htext : c.toString.toList = [c] := by simp [Char.toString]
      rw [if_pos hprintable, hunits, htext]
      exact runs_printable done hshort hprintable.1
    · rw [if_neg hprintable]
      by_cases hnarrow : c.toNat < 0x10000
      · rw [if_pos hnarrow, units, if_pos hnarrow]
        exact runs_jsonUnit done hnarrow
      · have hhigh := runs_jsonUnit done (n := 0xd800 + (c.toNat - 0x10000) / 0x400) (by omega)
        have hpair := hhigh.append
          (runs_jsonUnit _ (n := 0xdc00 + (c.toNat - 0x10000) % 0x400) (by omega))
        rw [List.append_assoc] at hpair
        rw [if_neg hnarrow, units, if_neg hnarrow, String.toList_append]
        exact hpair

theorem runs_jsonString (x : String) :
    Runs .between (Text.jsonString x).toList [.scalar (.string x)] .between := by
  have hchars (cs : List Char) (done : List Nat) :
      Runs (.string done) (cs.flatMap fun c => (Text.jsonChar c).toList) []
        (.string (done ++ cs.flatMap units)) := by
    induction cs generalizing done with
    | nil => simp [Runs, run]
    | cons c cs ih =>
      have hrest := (runs_jsonChar done c).append (ih _)
      rw [List.append_assoc] at hrest
      exact hrest
  have hopen : Runs .between ['"'] [] (.string []) := rfl
  have hclose : Runs (.string ([] ++ x.toList.flatMap units)) ['"'] [.scalar (.string x)]
      .between := runs_step (by simp [step, ofUnits_flatMap])
  have hall := hopen.append ((hchars x.toList []).append hclose)
  have htext : (Text.jsonString x).toList =
      ['"'] ++ ((x.toList.flatMap fun c => (Text.jsonChar c).toList) ++ ['"']) := by
    rw [Text.jsonString, String.toList_append, String.toList_append, Text.toList_intercalate_empty,
      List.flatMap_map, List.append_assoc]
    rfl
  rw [htext]
  exact hall

/-! ## Values and fields -/

/-- The character ends a number or a word and begins no token of its own but a mark. -/
structure Delimits (c : Char) (ts : List Token) : Prop where
  begins : begin c = some (ts, .between)
  notDigit : c.isDigit = false
  notLower : c.isLower = false

theorem delimits_comma : Delimits ',' [.mark ','] := ⟨rfl, rfl, rfl⟩

theorem delimits_lineEnd : Delimits '\n' [] := ⟨rfl, rfl, rfl⟩

/-- The text is read as the value in front of a delimiter. -/
def Writes (text : String) (v : Scalar) : Prop :=
  ∀ c ts, Delimits c ts → Runs .between (text.toList ++ [c]) (.scalar v :: ts) .between

theorem writes_string (x : String) : Writes (Text.jsonString x) (.string x) := fun _ _ hc =>
  (runs_jsonString x).append (runs_step hc.begins)

theorem writes_bool (b : Bool) : Writes (if b then "true" else "false") (.bool b) := by
  have hword {letters : List Char} (hword : Runs .between letters [] (.word letters))
      (hvalue : wordValue? letters = some b) (c : Char) (ts : List Token) (hc : Delimits c ts) :
      Runs .between (letters ++ [c]) (.scalar (.bool b) :: ts) .between :=
    hword.append (runs_step (by simp [step, hc.notLower, hvalue, beginAfter, hc.begins]))
  cases b with
  | true => exact hword rfl rfl
  | false => exact hword rfl rfl

theorem runs_digits {cs : List Char} (h : ∀ c ∈ cs, c.isDigit = true) (n : Nat) :
    Runs (.number n) cs [] (.number (Nat.ofDigitChars 10 cs n)) := by
  induction cs generalizing n with
  | nil => rfl
  | cons c cs ih =>
    obtain ⟨hc, hcs⟩ := List.forall_mem_cons.mp h
    have hfirst : Runs (.number n) [c] [] (.number (10 * n + (c.toNat - '0'.toNat))) :=
      runs_step (by simp [step, hc])
    exact hfirst.append (ih hcs _)

theorem writes_number (n : Nat) : Writes (toString n) (.number n) := by
  intro c ts hc
  have hdigits : ∀ d ∈ Nat.toDigits 10 n, d.isDigit = true := Literal.isDigit_of_mem_toDigits
  obtain ⟨first, rest, hlist⟩ :=
    List.exists_cons_of_ne_nil (Nat.toDigits_ne_nil (n := n) (b := 10))
  have hvalue : Nat.ofDigitChars 10 (first :: rest) 0 = n := by
    rw [← hlist, Nat.ofDigitChars_ten_toDigits]
  rw [hlist] at hdigits
  obtain ⟨hfirst, hrest⟩ := List.forall_mem_cons.mp hdigits
  have hbegin : Runs .between [first] [] (.number (10 * 0 + (first.toNat - '0'.toNat))) :=
    runs_step (by simp [step, begin, hfirst])
  have hnumber : Runs .between (first :: rest) [] (.number n) := by
    have hall := hbegin.append (runs_digits hrest _)
    rwa [← Nat.ofDigitChars_cons, hvalue] at hall
  have hend : Runs (.number n) [c] (.scalar (.number n) :: ts) .between :=
    runs_step (by simp [step, hc.notDigit, beginAfter, hc.begins])
  rw [Nat.toString_eq_ofList_toDigits, String.toList_ofList, hlist]
  exact hnumber.append hend

/-! ## Records -/

def fieldTokens : Record → List Token
  | [] => []
  | [(name, v)] => [.scalar (.string name), .mark ':', .scalar v]
  | (name, v) :: rest =>
    .scalar (.string name) :: .mark ':' :: .scalar v :: .mark ',' :: fieldTokens rest

def recordTokens : List Record → List Token
  | [] => []
  | [r] => .mark '\x7b' :: fieldTokens r ++ [.mark '\x7d']
  | r :: rest => .mark '\x7b' :: fieldTokens r ++ [.mark '\x7d', .mark ','] ++ recordTokens rest

/-- The texts of fields, name by name and value by value. -/
abbrev WritesFields (texts : List (String × String)) (r : Record) : Prop :=
  List.Forall₂ (fun t field => t.1 = field.1 ∧ Writes t.2 field.2) texts r

/-- A field on a line of its own. -/
def fieldText (field : String × String) : String :=
  "    " ++ Text.jsonString field.1 ++ ": " ++ field.2

theorem runs_field {name text : String} {v : Scalar} (h : Writes text v) {c : Char}
    {ts : List Token} (hc : Delimits c ts) :
    Runs .between ((fieldText (name, text)).toList ++ [c])
      (.scalar (.string name) :: .mark ':' :: .scalar v :: ts) .between := by
  have hindent : Runs .between "    ".toList [] .between := rfl
  have hcolon : Runs .between ": ".toList [.mark ':'] .between := rfl
  have hall := (hindent.append (runs_jsonString name)).append (hcolon.append (h c ts hc))
  simpa [fieldText] using hall

theorem runs_fields {texts : List (String × String)} {r : Record} (h : WritesFields texts r)
    (hne : texts ≠ []) :
    Runs .between ((",\n".intercalate (texts.map fieldText)).toList ++ ['\n']) (fieldTokens r)
      .between := by
  induction h with
  | nil => exact (hne rfl).elim
  | @cons t field texts r hfield hrest ih =>
    obtain ⟨name, text⟩ := t
    obtain ⟨name, v⟩ := field
    obtain ⟨rfl, htext⟩ := hfield
    cases hrest with
    | nil =>
      rw [List.map_cons, List.map_nil, String.intercalate_singleton]
      exact runs_field htext delimits_lineEnd
    | cons hsecond hrest =>
      have hbreak : Runs .between ['\n'] [] .between := rfl
      have hfirst : Runs .between ((fieldText (name, text)).toList ++ [',']) _ .between :=
        runs_field htext delimits_comma
      have hall := (hfirst.append hbreak).append (ih (by simp))
      rw [List.map_cons, String.intercalate_cons_of_ne_nil (by simp)]
      simpa [fieldTokens] using hall

end Json

namespace Finding

open Json

/-- What a record tells about a finding. -/
def values (f : Finding) : Record :=
  let d := f.diagnostic
  [("path", .string f.path), ("line", .number d.location.line),
    ("column", .number d.location.column), ("end_line", .number d.location.endLine),
    ("end_column", .number d.location.endColumn), ("verdict", .bool d.verdict),
    ("message", .string d.message)]

theorem writes_fields (f : Finding) : WritesFields f.fields f.values :=
  .cons ⟨rfl, writes_string _⟩ <| .cons ⟨rfl, writes_number _⟩ <| .cons ⟨rfl, writes_number _⟩ <|
    .cons ⟨rfl, writes_number _⟩ <| .cons ⟨rfl, writes_number _⟩ <| .cons ⟨rfl, writes_bool _⟩ <|
      .cons ⟨rfl, writes_string _⟩ .nil

theorem runs_record (f : Finding) : Runs .between f.record.toList
    (.mark '\x7b' :: fieldTokens f.values ++ [.mark '\x7d']) .between := by
  have hopen : Runs .between "  \x7b\n".toList [.mark '\x7b'] .between := rfl
  have hclose : Runs .between "  \x7d".toList [.mark '\x7d'] .between := rfl
  have hall := (hopen.append (runs_fields f.writes_fields (by simp [fields]))).append hclose
  have htext : f.record = "  \x7b\n" ++ ",\n".intercalate (f.fields.map fieldText) ++ "\n  \x7d" :=
    rfl
  rw [htext]
  simpa using hall

theorem runs_records {fs : List Finding} (hne : fs ≠ []) :
    Runs .between (",\n".intercalate (fs.map record)).toList (recordTokens (fs.map values))
      .between := by
  induction fs with
  | nil => exact (hne rfl).elim
  | cons f fs ih =>
    by_cases hrest : fs = []
    · subst hrest
      rw [List.map_cons, List.map_nil, String.intercalate_singleton]
      exact f.runs_record
    · have hcomma : Runs .between ",\n".toList [.mark ','] .between := rfl
      have hall := (f.runs_record.append hcomma).append (ih hrest)
      obtain ⟨g, fs, rfl⟩ := List.exists_cons_of_ne_nil hrest
      rw [List.map_cons, String.intercalate_cons_of_ne_nil (by simp)]
      simpa [recordTokens] using hall

end Finding

namespace Json

/-! ## From tokens to records -/

theorem fieldsFrom_comma {r : Record} (hne : r ≠ []) (done : Record) (rest : List Token) :
    fieldsFrom done (fieldTokens r ++ .mark '\x7d' :: .mark ',' :: rest) =
      (recordsFrom rest).map ((done ++ r) :: ·) := by
  induction r generalizing done with
  | nil => exact (hne rfl).elim
  | cons field r ih =>
    cases r with
    | nil => simp [fieldTokens, fieldsFrom]
    | cons field' r =>
      have hrest := ih (by simp) (done ++ [field])
      simpa [fieldTokens, fieldsFrom] using hrest

theorem fieldsFrom_end {r : Record} (hne : r ≠ []) (done : Record) :
    fieldsFrom done (fieldTokens r ++ [.mark '\x7d', .mark ']']) = some [done ++ r] := by
  induction r generalizing done with
  | nil => exact (hne rfl).elim
  | cons field r ih =>
    cases r with
    | nil => simp [fieldTokens, fieldsFrom]
    | cons field' r =>
      have hrest := ih (by simp) (done ++ [field])
      simpa [fieldTokens, fieldsFrom] using hrest

theorem recordsFrom_recordTokens {rs : List Record} (hne : rs ≠ []) (h : ∀ r ∈ rs, r ≠ []) :
    recordsFrom (recordTokens rs ++ [.mark ']']) = some rs := by
  induction rs with
  | nil => exact (hne rfl).elim
  | cons r rs ih =>
    obtain ⟨hr, hrs⟩ := List.forall_mem_cons.mp h
    cases rs with
    | nil => simpa [recordTokens, recordsFrom] using fieldsFrom_end hr []
    | cons r' rs =>
      have hfirst := fieldsFrom_comma hr [] (recordTokens (r' :: rs) ++ [.mark ']'])
      rw [ih (by simp) hrs] at hfirst
      simpa [recordTokens, recordsFrom] using hfirst

theorem recordsOf_recordTokens (rs : List Record) (h : ∀ r ∈ rs, r ≠ []) :
    recordsOf (.mark '[' :: (recordTokens rs ++ [.mark ']'])) = some rs := by
  cases rs with
  | nil => rfl
  | cons r rs =>
    have hrecords := recordsFrom_recordTokens (by simp : r :: rs ≠ []) h
    cases rs <;> simpa [recordTokens, recordsOf] using hrecords

/-- Exactly one record is read for each finding, in order. -/
theorem read_render (fs : List Finding) :
    read (ReportFormat.json.render fs) = some (fs.map Finding.values) := by
  cases fs with
  | nil => rfl
  | cons f fs =>
    have hopen : Runs .between "[\n".toList [.mark '['] .between := rfl
    have hclose : Runs .between "\n]\n".toList [.mark ']'] .between := rfl
    have hrecords : Runs .between (",\n".intercalate ((f :: fs).map Finding.record)).toList
        (recordTokens ((f :: fs).map Finding.values)) .between := Finding.runs_records (by simp)
    have hall := (hopen.append hrecords).append hclose
    have htext : (ReportFormat.json.render (f :: fs)).toList =
        "[\n".toList ++ (",\n".intercalate ((f :: fs).map Finding.record)).toList ++
          "\n]\n".toList := by
      rw [ReportFormat.render, String.toList_append, String.toList_append]
      simp
    rw [← htext] at hall
    rw [read, hall]
    exact recordsOf_recordTokens ((f :: fs).map Finding.values) (by simp [Finding.values])

end Json
end Foregone
