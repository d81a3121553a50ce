import Ashbi.Imports.Csv

/-! Texts of records, and what is read of them. -/

namespace Ashbi.Imports

/-- A field of a written text. -/
structure Field where
  quoted : Bool
  value : String

def escape (chars : List Char) : List Char :=
  chars.flatMap fun c => if c = '"' then ['"', '"'] else [c]

def Field.text (f : Field) : List Char :=
  if f.quoted then '"' :: escape f.value.toList ++ ['"'] else f.value.toList

def isPlain (c : Char) : Prop := c ≠ '"' ∧ c ≠ ',' ∧ ¬isBreak c

/-- Any field may be quoted, and one with a comma, a quote or a line break must be. -/
def Field.Proper (f : Field) : Prop := f.quoted = false → ∀ c ∈ f.value.toList, isPlain c

/-- What stands after a row; nothing only at the end of the text. -/
inductive Ending
  | lf | crlf | cr | none
  deriving DecidableEq

def Ending.text : Ending → List Char
  | lf => ['\n']
  | crlf => ['\r', '\n']
  | cr => ['\r']
  | none => []

/-- A row has at least one field. -/
structure Row where
  first : Field
  more : List Field
  ending : Ending

namespace Row

def fields (row : Row) : List Field := row.first :: row.more

def values (row : Row) : List String := row.fields.map Field.value

/-- A line with nothing on it. -/
def Blank (row : Row) : Prop := row.values = [""]

instance (row : Row) : Decidable row.Blank := inferInstanceAs (Decidable (_ = _))

def fieldsText (first : Field) (more : List Field) : List Char :=
  first.text ++ more.flatMap fun f => ',' :: f.text

def text (row : Row) : List Char := fieldsText row.first row.more ++ row.ending.text

end Row

def write (rows : List Row) : List Char := rows.flatMap Row.text

/-- Only the last row may lack an ending, and CR before LF would be one ending. -/
inductive ProperRows : List Row → Prop
  | nil : ProperRows []
  | last {row : Row} (fields : ∀ f ∈ row.fields, f.Proper) : ProperRows [row]
  | cons {row : Row} {rows : List Row} (fields : ∀ f ∈ row.fields, f.Proper)
      (ending : row.ending ≠ .none) (cr : row.ending = .cr → (write rows).head? ≠ some '\n')
      (tail : ProperRows rows) : ProperRows (row :: rows)

/-! ### Reading -/

/-- The lines that a field is counted as: LF only. -/
def Field.counted (f : Field) : ℕ := f.value.toList.count '\n'

def Row.counted (row : Row) : ℕ :=
  (row.fields.map Field.counted).sum + if row.ending = .none then 0 else 1

/-- The records of rows, from a line on. -/
def numbered (line : ℕ) : List Row → List Record
  | [] => []
  | row :: rows =>
    (if row.Blank then [] else [⟨line, row.values⟩]) ++ numbered (line + row.counted) rows

namespace Parser

variable {p : Parser} (before : Option Char) {rest : List Char}

/-- Outside quotes, in a field that was not quoted. -/
structure Open (p : Parser) : Prop where
  quoted : p.quoted = false
  started : p.fieldStarted = false

theorem loop_doubled (hq : p.quoted = true) :
    p.loop before ('"' :: '"' :: rest) =
      loop { p with field := p.field ++ ['"'] } (some '"') rest := by
  rw [loop.eq_def]
  dsimp only
  rw [if_pos hq, if_pos rfl]
  rfl

theorem loop_close (hq : p.quoted = true) (hrest : rest.head? ≠ some '"') :
    p.loop before ('"' :: rest) = loop { p with quoted := false } (some '"') rest := by
  rw [loop.eq_def]
  dsimp only
  rw [if_pos hq, if_pos rfl]
  split
  next tail => exact absurd rfl hrest
  next => rfl

theorem loop_inside (hq : p.quoted = true) {c : Char} (hc : c ≠ '"') :
    p.loop before (c :: rest) = loop { p with
      line := p.line + [c].count '\n'
      field := p.field ++ [c] } (some c) rest := by
  have hline : (if c = '\n' then p.line + 1 else p.line) = p.line + [c].count '\n' := by
    by_cases hlf : c = '\n' <;> simp [hlf]
  rw [loop.eq_def]
  dsimp only
  rw [if_pos hq, if_neg hc, hline]

theorem loop_open (hopen : p.Open) (hfield : p.field = []) :
    p.loop before ('"' :: rest) =
      loop { p with quoted := true, fieldStarted := true } (some '"') rest := by
  rw [loop.eq_def]
  dsimp only
  rw [if_neg (by simp [hopen.quoted]), if_pos rfl, if_neg (by simp [hopen.started, hfield])]

theorem loop_char (hopen : p.Open) {c : Char} (hc : isPlain c) :
    p.loop before (c :: rest) = loop { p with field := p.field ++ [c] } (some c) rest := by
  have hbreak : ¬(c = '\n' ∨ c = '\r') := hc.2.2
  rw [loop.eq_def]
  dsimp only
  rw [if_neg (by simp [hopen.quoted]), if_neg hc.1, if_neg hc.2.1,
    if_neg (fun h => hc.2.2 (.inr h.1)), if_neg hbreak, if_neg (by simp [hopen.started])]

theorem loop_comma (hq : p.quoted = false) :
    p.loop before (',' :: rest) = loop p.endField (some ',') rest := by
  rw [loop.eq_def]
  dsimp only
  rw [if_neg (by simp [hq]), if_neg (by decide), if_pos rfl]

theorem loop_crlf (hq : p.quoted = false) :
    p.loop before ('\r' :: '\n' :: rest) = p.loop (some '\r') ('\n' :: rest) := by
  rw [loop.eq_def]
  dsimp only
  rw [if_neg (by simp [hq]), if_neg (by decide), if_neg (by decide), if_pos ⟨rfl, rfl⟩]

theorem loop_break (hq : p.quoted = false) {c : Char} (hc : isBreak c)
    (hcr : c = '\r' → rest.head? ≠ some '\n') :
    p.loop before (c :: rest) = loop { p.endRecord with
      line := p.line + 1
      recordLine := p.line + 1 } (some c) rest := by
  have hbreak : c = '\n' ∨ c = '\r' := hc
  have hquote : c ≠ '"' ∧ c ≠ ',' := by
    constructor <;>
    · rintro rfl
      revert hc
      decide
  rw [loop.eq_def]
  dsimp only
  rw [if_neg (by simp [hq]), if_neg hquote.1, if_neg hquote.2, if_neg (fun h => hcr h.1 h.2),
    if_pos hbreak]
  rfl

theorem loop_quoted (hq : p.quoted = true) (hrest : rest.head? ≠ some '"') (chars : List Char) :
    p.loop before (escape chars ++ '"' :: rest) =
      loop { p with
        quoted := false
        field := p.field ++ chars
        line := p.line + chars.count '\n' } (some '"') rest := by
  induction chars generalizing p before with
  | nil => simpa [escape] using loop_close before hq hrest
  | cons c chars ih =>
    by_cases hc : c = '"'
    · subst hc
      have htext : escape ('"' :: chars) = '"' :: '"' :: escape chars := rfl
      have hcount : ('"' :: chars).count '\n' = chars.count '\n' := by simp
      rw [htext, List.cons_append, List.cons_append, loop_doubled _ hq,
        ih _ (p := { p with field := p.field ++ ['"'] }) hq, hcount, List.append_assoc]
      rfl
    · have htext : escape (c :: chars) = c :: escape chars := by simp [escape, hc]
      have hcount : p.line + (c :: chars).count '\n'
          = p.line + [c].count '\n' + chars.count '\n' := by
        rw [Nat.add_assoc, ← List.count_append]
        rfl
      rw [htext, List.cons_append, loop_inside _ hq hc, hcount,
        ih _ (p := { p with line := p.line + [c].count '\n', field := p.field ++ [c] }) hq,
        List.append_assoc]
      rfl

theorem loop_plain (hopen : p.Open) {chars : List Char} (hplain : ∀ c ∈ chars, isPlain c) :
    ∃ before', p.loop before (chars ++ rest) =
      loop { p with field := p.field ++ chars } before' rest := by
  induction chars generalizing p before with
  | nil => exact ⟨before, by simp⟩
  | cons c chars ih =>
    rw [List.forall_mem_cons] at hplain
    obtain ⟨before', hloop⟩ := ih (some c) (p := { p with field := p.field ++ [c] })
      ⟨hopen.quoted, hopen.started⟩ hplain.2
    refine ⟨before', ?_⟩
    rw [List.cons_append, loop_char _ hopen hplain.1, hloop, List.append_assoc]
    rfl

/-- The text after a field. -/
def Separated (rest : List Char) : Prop := ∀ c ∈ rest.head?, c = ',' ∨ isBreak c

theorem Separated.not_quote (h : Separated rest) : rest.head? ≠ some '"' := by
  intro hhead
  have := h '"' hhead
  revert this
  decide

theorem loop_field (hopen : p.Open) (hfield : p.field = []) {f : Field} (hf : f.Proper)
    (hrest : Separated rest) :
    ∃ before', p.loop before (f.text ++ rest) =
      loop { p with
        field := f.value.toList
        fieldStarted := f.quoted
        line := p.line + f.counted } before' rest := by
  cases hquoted : f.quoted with
  | true =>
    have hread := loop_quoted (some '"') (p := { p with quoted := true, fieldStarted := true })
      rfl hrest.not_quote f.value.toList
    have htext : f.text ++ rest = '"' :: (escape f.value.toList ++ '"' :: rest) := by
      simp [Field.text, hquoted]
    refine ⟨some '"', ?_⟩
    rw [htext, loop_open _ hopen hfield, hread, hfield]
    simp [hopen.quoted, Field.counted]
  | false =>
    obtain ⟨before', hread⟩ := loop_plain before hopen (hf hquoted)
    have hcount : f.counted = 0 :=
      List.count_eq_zero.mpr fun h => (hf hquoted _ h).2.2 (.inl rfl)
    refine ⟨before', ?_⟩
    rw [Field.text, if_neg (by simp [hquoted]), hread, hfield, hcount]
    simp [hopen.started]

/-- At the start of a field. -/
def fresh (records : List Record) (values : List String) (line recordLine : ℕ) : Parser :=
  { records, values, line, recordLine }

theorem fresh_open (records : List Record) (values : List String) (line recordLine : ℕ) :
    (fresh records values line recordLine).Open := ⟨rfl, rfl⟩

/-- The last field is not ended yet. -/
theorem loop_fields (first : Field) (more : List Field) (records : List Record)
    (values : List String) (line recordLine : ℕ) (hfields : ∀ f ∈ first :: more, f.Proper)
    (hrest : Separated rest) :
    ∃ q before', loop (fresh records values line recordLine) before
        (Row.fieldsText first more ++ rest) = loop q before' rest ∧ q.quoted = false ∧
      q.endField = fresh records (values ++ (first :: more).map Field.value)
        (line + ((first :: more).map Field.counted).sum) recordLine := by
  have hopen := fresh_open records values line recordLine
  have hfirst := hfields first (by simp)
  induction more generalizing first values line before with
  | nil =>
    obtain ⟨before', hloop⟩ := loop_field before hopen rfl hfirst hrest
    have htext : Row.fieldsText first [] ++ rest = first.text ++ rest := by simp [Row.fieldsText]
    rw [htext, hloop]
    exact ⟨_, before', rfl, rfl, by simp [endField, fresh]⟩
  | cons second more ih =>
    have hcomma : Separated (',' :: (Row.fieldsText second more ++ rest)) := by
      intro c hc
      rw [List.head?_cons, Option.mem_some_iff] at hc
      exact .inl hc.symm
    obtain ⟨before₁, hloop⟩ := loop_field before hopen rfl hfirst hcomma
    obtain ⟨q, before', hq, hquoted, hend⟩ := ih (some ',') second (values ++ [first.value])
      (line + first.counted) (fun f hf => hfields f (List.mem_cons_of_mem _ hf))
      (fresh_open _ _ _ _) (hfields second (by simp))
    refine ⟨q, before', ?_, hquoted, ?_⟩
    · have htext : Row.fieldsText first (second :: more) ++ rest =
          first.text ++ ',' :: (Row.fieldsText second more ++ rest) := by
        simp [Row.fieldsText]
      rw [htext, hloop, loop_comma _ rfl, ← hq]
      simp [endField, fresh]
    · rw [hend]
      simp [Nat.add_assoc]

/-- What a row adds to the records. -/
def rowRecords (line : ℕ) (row : Row) : List Record :=
  if row.Blank then [] else [⟨line, row.values⟩]

theorem endRecord_of_endField {q : Parser} {records : List Record} {row : Row}
    {line recordLine : ℕ} (h : q.endField = fresh records row.values line recordLine) :
    q.endRecord = fresh (records ++ rowRecords recordLine row) [] line recordLine := by
  by_cases hblank : row.values = [""] <;> simp [endRecord, h, fresh, rowRecords, Row.Blank, hblank]

/-- A row and its line break. -/
theorem loop_row {row : Row} (records : List Record) (line : ℕ)
    (hfields : ∀ f ∈ row.fields, f.Proper) (hending : row.ending ≠ .none)
    (hcr : row.ending = .cr → rest.head? ≠ some '\n') :
    ∃ before', loop (fresh records [] line line) before (row.text ++ rest) =
      loop (fresh (records ++ rowRecords line row) [] (line + row.counted) (line + row.counted))
        before' rest := by
  have hseparated : Separated (row.ending.text ++ rest) := by
    intro c hc
    cases hrow : row.ending <;> simp [hrow, Ending.text] at hc hending <;> subst hc
    · exact .inr (.inl rfl)
    · exact .inr (.inr rfl)
    · exact .inr (.inr rfl)
  obtain ⟨q, before₁, hq, hquoted, hend⟩ := loop_fields before row.first row.more records [] line
    line hfields hseparated
  have hline : q.line = line + (row.fields.map Field.counted).sum := congrArg Parser.line hend
  have hrecord := endRecord_of_endField hend
  have hdone : { q.endRecord with line := q.line + 1, recordLine := q.line + 1 } =
      fresh (records ++ rowRecords line row) [] (line + row.counted) (line + row.counted) := by
    rw [hrecord, hline]
    simp [fresh, Row.counted, hending, Nat.add_assoc]
  rw [Row.text, List.append_assoc, hq]
  cases hrow : row.ending with
  | lf =>
    refine ⟨some '\n', ?_⟩
    rw [← hdone]
    exact loop_break _ hquoted (.inl rfl) (fun h => absurd h (by decide))
  | crlf =>
    refine ⟨some '\n', ?_⟩
    rw [← hdone]
    exact (loop_crlf _ hquoted).trans
      (loop_break _ hquoted (.inl rfl) (fun h => absurd h (by decide)))
  | cr =>
    refine ⟨some '\r', ?_⟩
    rw [← hdone]
    exact loop_break _ hquoted (.inr rfl) (fun _ => hcr hrow)
  | none => exact absurd hrow hending

theorem numbered_cons (line : ℕ) (row : Row) (rows : List Row) :
    numbered line (row :: rows) = rowRecords line row ++ numbered (line + row.counted) rows := rfl

/-- The records after the loop, with the last row ended. -/
def finish (p : Parser) : List Record :=
  if p.field ≠ [] || p.fieldStarted || p.values ≠ [] then p.endRecord.records else p.records

theorem finish_of_endField {q : Parser} {records : List Record} {row : Row} {line recordLine : ℕ}
    (h : q.endField = fresh records row.values line recordLine) :
    q.finish = records ++ rowRecords recordLine row := by
  unfold finish
  split
  next => rw [endRecord_of_endField h]; rfl
  next hnone =>
    simp only [Bool.or_eq_true, decide_eq_true_eq, not_or, not_not] at hnone
    have hvalues : row.values = [""] := by
      have := congrArg Parser.values h
      simpa [endField, fresh, hnone.1.1, hnone.2] using this.symm
    have hrecords : q.records = records := congrArg Parser.records h
    simp [rowRecords, Row.Blank, hvalues, hrecords]

theorem loop_rows {rows : List Row} (hrows : ProperRows rows) (records : List Record) (line : ℕ) :
    ∃ q, loop (fresh records [] line line) before (write rows) = .ok q ∧ q.quoted = false ∧
      q.finish = records ++ numbered line rows := by
  induction hrows generalizing before records line with
  | nil => exact ⟨_, rfl, rfl, by simp [finish, fresh, numbered]⟩
  | @last row hfields =>
    have hwrite : write [row] = row.text := by simp [write]
    have hnil : Separated [] := fun c hc => by cases hc
    have hhead : ([] : List Char).head? ≠ some '\n' := by simp
    rw [hwrite, numbered_cons]
    by_cases hending : row.ending = .none
    · obtain ⟨q, before', hq, hquoted, hend⟩ := loop_fields before row.first row.more records []
        line line hfields hnil
      have htext : row.text = Row.fieldsText row.first row.more ++ [] := by
        rw [Row.text, hending]
        rfl
      refine ⟨q, ?_, hquoted, ?_⟩
      · rw [htext, hq]
        rfl
      · rw [finish_of_endField hend, numbered, List.append_nil]
    · obtain ⟨before', hloop⟩ := loop_row before records line hfields hending (fun _ => hhead)
      rw [List.append_nil] at hloop
      refine ⟨_, hloop, rfl, ?_⟩
      simp [finish, fresh, numbered]
  | @cons row rows hfields hending hcr _ ih =>
    have hwrite : write (row :: rows) = row.text ++ write rows := rfl
    obtain ⟨before', hloop⟩ := loop_row before records line hfields hending hcr
    obtain ⟨q, hq, hquoted, hfinish⟩ := ih before' (records ++ rowRecords line row)
      (line + row.counted)
    refine ⟨q, ?_, hquoted, ?_⟩
    · rw [hwrite, hloop, hq]
    · rw [hfinish, numbered_cons, List.append_assoc]

end Parser

/-- What is read of written rows. -/
theorem parseCsv_write {text : String} {rows : List Row} (hrows : ProperRows rows)
    (htext : source text = write rows) : parseCsv text = .ok (numbered 1 rows) := by
  obtain ⟨q, hloop, hquoted, hfinish⟩ := Parser.loop_rows none hrows [] 1
  have hread : parseCsv text =
      if q.quoted then Parser.invalid q.recordLine "unterminated quoted field"
      else if q.field ≠ [] || q.fieldStarted || q.values ≠ [] then .ok q.endRecord.records
      else .ok q.records := by
    simp only [parseCsv, htext]
    change Parser.loop (Parser.fresh [] [] 1 1) none (write rows) >>= _ = _
    rw [hloop]
    rfl
  rw [hread, if_neg (by simp [hquoted])]
  rw [Parser.finish, List.nil_append] at hfinish
  rw [← hfinish]
  split <;> rfl

end Ashbi.Imports
