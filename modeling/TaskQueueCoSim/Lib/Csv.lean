import Mathlib.Data.List.Basic

/-!
# CSV files

What Python's `csv` module writes and reads in its default dialect, for files that are opened
with `newline=""`.

* `fileLines`: the lines of a file, with their ends as they are;
* `Reader.process`: the states of the reader, one character or line end at a time;
* `read_write`: what has been written is read back, whatever is in the fields.
-/

namespace TaskQueueCoSim.Csv

abbrev Text := List Char

/-! ## The writer -/

def special : Text := [',', '"', '\r', '\n']

/-- A field in quotes, its own quotes doubled. -/
def quoted (field : Text) : Text :=
  '"' :: (field.flatMap fun c => if c = '"' then ['"', '"'] else [c]) ++ ['"']

/-- A field as it is written; an empty one is quoted if it is the only one of its row. -/
def fieldText (alone : Bool) (field : Text) : Text :=
  if field.any (special.contains ·) || (alone && field.isEmpty) then quoted field else field

def joined (alone : Bool) : List Text → Text
  | [] => []
  | [field] => fieldText alone field
  | field :: fields => fieldText alone field ++ ',' :: joined alone fields

def writeRow (fields : List Text) : Text := joined (fields.length == 1) fields ++ ['\r', '\n']

/-! ## The reader -/

inductive Mode where
  | startRecord | startField | inField | inQuotedField | quoteInQuotedField | eatCrnl
  deriving DecidableEq

structure Reader where
  mode : Mode
  field : Text
  row : List Text
  deriving DecidableEq

namespace Reader

def start : Reader := ⟨.startRecord, [], []⟩

/-- The field is complete. -/
def save (r : Reader) (mode : Mode) : Reader := ⟨mode, [], r.row ++ [r.field]⟩

def add (r : Reader) (c : Char) (mode : Mode) : Reader := ⟨mode, r.field ++ [c], r.row⟩

/-- A character, or `none` at the end of a line; the reader may raise. -/
def process (r : Reader) : Option Char → Option Reader
  | none =>
    match r.mode with
    | .startRecord => some r
    | .inQuotedField => some r
    | .eatCrnl => some { r with mode := .startRecord }
    | _ => some (r.save .startRecord)
  | some c =>
    let newline := c = '\n' ∨ c = '\r'
    match r.mode with
    | .startRecord =>
      if newline then some { r with mode := .eatCrnl }
      else if c = '"' then some { r with mode := .inQuotedField }
      else if c = ',' then some (r.save .startField)
      else some (r.add c .inField)
    | .startField =>
      if newline then some (r.save .eatCrnl)
      else if c = '"' then some { r with mode := .inQuotedField }
      else if c = ',' then some (r.save .startField)
      else some (r.add c .inField)
    | .inField =>
      if newline then some (r.save .eatCrnl)
      else if c = ',' then some (r.save .startField)
      else some (r.add c .inField)
    | .inQuotedField =>
      if c = '"' then some { r with mode := .quoteInQuotedField }
      else some (r.add c .inQuotedField)
    | .quoteInQuotedField =>
      if c = '"' then some (r.add c .inQuotedField)
      else if c = ',' then some (r.save .startField)
      else if newline then some (r.save .eatCrnl)
      else some (r.add c .inField)
    | .eatCrnl => if newline then some r else none

def line : Reader → Text → Option Reader
  | r, [] => r.process none
  | r, c :: cs => (r.process (some c)).bind fun r => r.line cs

/-- The rows from here on; what is left open at the end of the file is a row of its own. -/
def rows : Reader → List Text → Option (List (List Text))
  | r, [] => some (if r.field ≠ [] ∨ r.mode = .inQuotedField then [(r.save .startRecord).row] else [])
  | r, l :: ls =>
    (r.line l).bind fun r =>
      if r.mode = .startRecord then (rows start ls).map fun rest => r.row :: rest else rows r ls

end Reader

/-- A line ends behind `c`, if `cs` is what follows. -/
def endsLine (c : Char) (cs : Text) : Bool := c = '\n' || c = '\r' && cs.head? != some '\n'

def fileLines : Text → List Text
  | [] => []
  | c :: cs =>
    if endsLine c cs then [c] :: fileLines cs
    else
      match fileLines cs with
      | [] => [[c]]
      | l :: ls => (c :: l) :: ls

def read (text : Text) : Option (List (List Text)) := Reader.start.rows (fileLines text)

/-! ## One character at a time -/

/-- The rows from inside a text. -/
def Reader.rest (r : Reader) (text : Text) : Option (List (List Text)) := r.rows (fileLines text)

section Steps

variable {r r' : Reader} {c : Char} {cs : Text}

theorem fileLines_ne_nil (h : cs ≠ []) : ∃ l ls, fileLines cs = l :: ls := by
  obtain ⟨c, cs, rfl⟩ := List.exists_cons_of_ne_nil h
  unfold fileLines
  split_ifs
  · exact ⟨_, _, rfl⟩
  · split
    · exact ⟨_, _, rfl⟩
    · exact ⟨_, _, rfl⟩

/-- A character within a line. -/
theorem Reader.rest_cons (hend : endsLine c cs = false) (hne : cs ≠ [])
    (h : r.process (some c) = some r') : r.rest (c :: cs) = r'.rest cs := by
  obtain ⟨l, ls, hlines⟩ := fileLines_ne_nil hne
  have hcons : fileLines (c :: cs) = (c :: l) :: ls := by
    rw [fileLines, hend, hlines]
    rfl
  have hline : r.line (c :: l) = r'.line l := by
    rw [line, h]
    rfl
  rw [rest, rest, hcons, hlines, rows, rows, hline]

/-- A character that ends its line. -/
theorem Reader.rest_cons_end {r'' : Reader} (hend : endsLine c cs = true)
    (h : r.process (some c) = some r') (h' : r'.process none = some r'') :
    r.rest (c :: cs) =
      if r''.mode = .startRecord then (start.rest cs).map fun rows => r''.row :: rows
      else r''.rest cs := by
  have hline : r.line [c] = some r'' := by
    rw [line, h]
    exact h'
  rw [rest, fileLines, if_pos hend, rows, hline]
  rfl

theorem endsLine_of_ne (hn : c ≠ '\n') (hr : c ≠ '\r') (cs : Text) : endsLine c cs = false := by
  simp [endsLine, hn, hr]

end Steps

/-! ## What is read back -/

section Fields

variable (row : List Text) {rest : Text}

/-- Quotes that are doubled are read as one; line ends within quotes belong to the field. -/
theorem rest_quotes (hne : rest ≠ []) (field acc : Text) :
    (Reader.mk .inQuotedField acc row).rest
        ((field.flatMap fun c => if c = '"' then ['"', '"'] else [c]) ++ '"' :: rest) =
      (Reader.mk .quoteInQuotedField (acc ++ field) row).rest rest := by
  induction field generalizing acc with
  | nil =>
    rw [List.append_nil]
    exact Reader.rest_cons (endsLine_of_ne (by decide) (by decide) _) hne rfl
  | cons c field ih =>
    have hnext := ih (acc ++ [c])
    rw [List.append_assoc, List.singleton_append] at hnext
    rw [List.flatMap_cons, List.append_assoc, ← hnext]
    split_ifs with hc
    · subst hc
      rw [List.cons_append, List.cons_append, List.nil_append,
        Reader.rest_cons (endsLine_of_ne (by decide) (by decide) _) (List.cons_ne_nil _ _) rfl]
      exact Reader.rest_cons (endsLine_of_ne (by decide) (by decide) _) (by simp) rfl
    · have hadd : (Reader.mk .inQuotedField acc row).process (some c) =
          some ⟨.inQuotedField, acc ++ [c], row⟩ := by
        simp [Reader.process, Reader.add, hc]
      rw [List.singleton_append]
      cases hend : endsLine c _ with
      | false => exact Reader.rest_cons hend (by simp) hadd
      | true => exact Reader.rest_cons_end hend hadd rfl

/-- A field without special characters is read as it is. -/
theorem rest_plain (hne : rest ≠ []) {field : Text} (h : ∀ c ∈ field, c ∉ special) (acc : Text) :
    (Reader.mk .inField acc row).rest (field ++ rest) =
      (Reader.mk .inField (acc ++ field) row).rest rest := by
  induction field generalizing acc with
  | nil => rw [List.append_nil]; rfl
  | cons c field ih =>
    obtain ⟨hc, hfield⟩ := List.forall_mem_cons.1 h
    simp only [special, List.mem_cons, List.not_mem_nil, or_false, not_or] at hc
    obtain ⟨hcomma, -, hr, hn⟩ := hc
    have hnext := ih hfield (acc ++ [c])
    rw [List.append_assoc, List.singleton_append] at hnext
    rw [List.cons_append, ← hnext]
    refine Reader.rest_cons (endsLine_of_ne hn hr _) (by simp [hne]) ?_
    simp [Reader.process, Reader.add, hcomma, hr, hn]

/-- The reader at the beginning of a field, which may be that of its record. -/
def Begins (r : Reader) : Prop := r.field = [] ∧ (r.mode = .startField ∨ r.mode = .startRecord)

/-- The reader at the end of a field. -/
structure Ends (r : Reader) (row : List Text) (field : Text) : Prop where
  comma : r.process (some ',') = some ⟨.startField, [], row ++ [field]⟩
  newline : r.process (some '\r') = some ⟨.eatCrnl, [], row ++ [field]⟩

/-- A field that is written is read to its end. -/
theorem rest_fieldText {r : Reader} (hr : Begins r) (hne : rest ≠ []) {alone : Bool} {field : Text}
    (htext : fieldText alone field ≠ []) :
    ∃ r', r.rest (fieldText alone field ++ rest) = r'.rest rest ∧ Ends r' r.row field := by
  obtain ⟨mode, acc, row⟩ := r
  obtain ⟨rfl, hmode⟩ := hr
  unfold fieldText at htext ⊢
  split_ifs with hquote
  · refine ⟨⟨.quoteInQuotedField, field, row⟩, ?_, rfl, rfl⟩
    have hquotes := rest_quotes row hne field []
    rw [List.nil_append] at hquotes
    rw [quoted, List.append_assoc, List.cons_append, List.singleton_append, ← hquotes]
    refine Reader.rest_cons (endsLine_of_ne (by decide) (by decide) _) (by simp) ?_
    obtain rfl | rfl := hmode <;> rfl
  · rw [if_neg hquote] at htext
    obtain ⟨c, field, rfl⟩ := List.exists_cons_of_ne_nil htext
    have hplain : ∀ c' ∈ c :: field, c' ∉ special := by
      simp only [Bool.or_eq_true, not_or, List.any_eq_true, not_exists, not_and] at hquote
      simpa using hquote.1
    obtain ⟨hc, hfield⟩ := List.forall_mem_cons.1 hplain
    simp only [special, List.mem_cons, List.not_mem_nil, or_false, not_or] at hc
    obtain ⟨hcomma, hq, hr, hn⟩ := hc
    refine ⟨⟨.inField, c :: field, row⟩, ?_, rfl, rfl⟩
    have hnext := rest_plain row hne hfield [c]
    rw [List.singleton_append] at hnext
    rw [List.cons_append, ← hnext]
    refine Reader.rest_cons (endsLine_of_ne hn hr _) (by simp [hne]) ?_
    obtain hmode | hmode := hmode <;> obtain rfl : mode = _ := hmode <;>
      simp [Reader.process, Reader.add, hcomma, hq, hr, hn]

end Fields

theorem fieldText_eq_nil {alone : Bool} {field : Text} (h : fieldText alone field = []) :
    field = [] ∧ alone = false := by
  unfold fieldText at h
  split_ifs at h with hquote
  · cases h
  · subst h
    simpa using hquote

section Rows

variable {r : Reader} {alone : Bool} {field rest : Text}

/-- The end of a row. -/
theorem rest_newline {row : List Text} (h : r.process (some '\r') = some ⟨.eatCrnl, [], row⟩) :
    r.rest ('\r' :: '\n' :: rest) = (Reader.start.rest rest).map fun rows => row :: rows := by
  have hreturn : endsLine '\r' ('\n' :: rest) = false := by simp [endsLine]
  have hnewline : endsLine '\n' rest = true := by simp [endsLine]
  rw [Reader.rest_cons hreturn (List.cons_ne_nil _ _) h]
  have hread : (Reader.mk .eatCrnl [] row).process (some '\n') = some ⟨.eatCrnl, [], row⟩ := rfl
  have hdone : (Reader.mk .eatCrnl [] row).process none = some ⟨.startRecord, [], row⟩ := rfl
  exact Reader.rest_cons_end hnewline hread hdone

/-- A field with another one behind it. -/
theorem rest_comma (hr : Begins r) (hne : rest ≠ []) :
    r.rest (fieldText alone field ++ ',' :: rest) =
      (Reader.mk .startField [] (r.row ++ [field])).rest rest := by
  have hcomma : endsLine ',' rest = false := endsLine_of_ne (by decide) (by decide) rest
  by_cases htext : fieldText alone field = []
  · obtain ⟨rfl, -⟩ := fieldText_eq_nil htext
    rw [htext, List.nil_append]
    refine Reader.rest_cons hcomma hne ?_
    obtain ⟨mode, acc, row⟩ := r
    obtain ⟨rfl, rfl | rfl⟩ := hr <;> rfl
  · obtain ⟨r', hrest, hends⟩ := rest_fieldText hr (List.cons_ne_nil ',' rest) htext
    rw [hrest]
    exact Reader.rest_cons hcomma hne hends.comma

/-- The last field; one that is empty is not alone in its row. -/
theorem rest_last (hr : Begins r) (halone : r.mode = .startRecord → alone = true) :
    r.rest (fieldText alone field ++ '\r' :: '\n' :: rest) =
      (Reader.start.rest rest).map fun rows => (r.row ++ [field]) :: rows := by
  by_cases htext : fieldText alone field = []
  · obtain ⟨rfl, hnot⟩ := fieldText_eq_nil htext
    have hends : Ends r r.row [] := by
      obtain ⟨mode, acc, row⟩ := r
      obtain ⟨rfl, rfl | rfl⟩ := hr
      · exact ⟨rfl, rfl⟩
      · rw [halone rfl] at hnot
        cases hnot
    rw [htext]
    exact rest_newline hends.newline
  · obtain ⟨r', hrest, hends⟩ := rest_fieldText hr (List.cons_ne_nil '\r' ('\n' :: rest)) htext
    rw [hrest]
    exact rest_newline hends.newline

/-- The fields of a row are read one after the other. -/
theorem rest_joined {fields : List Text} (hr : Begins r) (hne : fields ≠ [])
    (halone : r.mode = .startRecord → fields.length = 1 → alone = true) :
    r.rest (joined alone fields ++ '\r' :: '\n' :: rest) =
      (Reader.start.rest rest).map fun rows => (r.row ++ fields) :: rows := by
  induction fields generalizing r with
  | nil => exact absurd rfl hne
  | cons field fields ih =>
    cases fields with
    | nil => exact rest_last hr fun hmode => halone hmode rfl
    | cons field' fields =>
      have hnext := ih (r := ⟨.startField, [], r.row ++ [field]⟩) ⟨rfl, .inl rfl⟩
        (List.cons_ne_nil _ _) (fun hmode => by cases hmode)
      have hjoined : joined alone (field :: field' :: fields) =
          fieldText alone field ++ ',' :: joined alone (field' :: fields) := rfl
      rw [hjoined, List.append_assoc, List.cons_append, rest_comma hr (by simp), hnext,
        List.append_assoc, List.singleton_append]

/-- A row that is written is read, and the rest of the file after it. -/
theorem rest_writeRow (fields : List Text) :
    Reader.start.rest (writeRow fields ++ rest) =
      (Reader.start.rest rest).map fun rows => fields :: rows := by
  rw [writeRow, List.append_assoc]
  cases fields with
  | nil => exact rest_newline rfl
  | cons field fields =>
    exact rest_joined ⟨rfl, .inr rfl⟩ (List.cons_ne_nil _ _) fun _ h => by simpa using h

end Rows

/-- **Round trip.**  The rows that are written are read back, whatever is in the fields. -/
theorem read_write (rows : List (List Text)) : read (rows.flatMap writeRow) = some rows := by
  induction rows with
  | nil => rfl
  | cons fields rows ih =>
    have hrows : Reader.start.rest (rows.flatMap writeRow) = some rows := ih
    rw [List.flatMap_cons]
    exact (rest_writeRow fields).trans (by rw [hrows]; rfl)

/-- A quoted field may have line ends. -/
example : read "a,\"b\r\n\"\"c\"\"\"\r\n\"\"\r\n".toList =
    some [[['a'], ['b', '\r', '\n', '"', 'c', '"']], [[]]] := by decide

end TaskQueueCoSim.Csv
