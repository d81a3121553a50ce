import Ashbi.Imports.CsvRows

/-! Every text without a fault is a writing of rows, and the lines of its records. -/

namespace Ashbi.Imports

/-! ### Texts without a fault -/

/-- A field of which a part is read. -/
inductive Partial
  | start
  | unquoted (chars : List Char)
  | quoted (chars : List Char)
  | closed (chars : List Char)

namespace Partial

def place : Partial → Place
  | start => .start
  | unquoted _ => .unquoted
  | quoted _ => .quoted
  | closed _ => .closed

def text : Partial → List Char
  | start => []
  | unquoted chars => chars
  | quoted chars => '"' :: escape chars
  | closed chars => '"' :: escape chars ++ ['"']

/-- The field, if it ends here. -/
def field : Partial → Field
  | start => ⟨false, ""⟩
  | unquoted chars => ⟨false, String.ofList chars⟩
  | quoted chars => ⟨true, String.ofList chars⟩
  | closed chars => ⟨true, String.ofList chars⟩

def Proper : Partial → Prop
  | unquoted chars => ∀ c ∈ chars, isPlain c
  | _ => True

theorem field_proper {d : Partial} (h : d.Proper) : d.field.Proper := by
  intro hquoted
  cases d with
  | start => simp [field]
  | unquoted chars => simpa [field, Proper] using h
  | quoted chars => cases hquoted
  | closed chars => cases hquoted

theorem field_text {d : Partial} (h : d.place ≠ .quoted) : d.field.text = d.text := by
  cases d with
  | quoted chars => exact absurd rfl h
  | _ => simp [field, Field.text, text]

end Partial

/-- The fields of a row that are read, each with its comma. -/
def readText (fields : List Field) : List Char := fields.flatMap fun f => f.text ++ [',']

def rowOf (fields : List Field) (last : Field) (ending : Ending) : Row :=
  match fields with
  | [] => ⟨last, [], ending⟩
  | first :: more => ⟨first, more ++ [last], ending⟩

theorem rowOf_fields (fields : List Field) (last : Field) (ending : Ending) :
    (rowOf fields last ending).fields = fields ++ [last] := by
  cases fields <;> rfl

theorem rowOf_ending (fields : List Field) (last : Field) (ending : Ending) :
    (rowOf fields last ending).ending = ending := by
  cases fields <;> rfl

theorem fieldsText_snoc (first : Field) (more : List Field) (last : Field) :
    Row.fieldsText first (more ++ [last]) = readText (first :: more) ++ last.text := by
  induction more generalizing first with
  | nil => simp [Row.fieldsText, readText]
  | cons second more ih =>
    have h := ih second
    simp only [Row.fieldsText, readText, List.flatMap_cons, List.cons_append, List.append_assoc,
      List.nil_append] at h ⊢
    rw [h]

theorem rowOf_text (fields : List Field) (last : Field) (ending : Ending) :
    (rowOf fields last ending).text = readText fields ++ (last.text ++ ending.text) := by
  cases fields with
  | nil => simp [rowOf, Row.text, Row.fieldsText, readText]
  | cons first more => rw [rowOf, Row.text, fieldsText_snoc, List.append_assoc]

theorem faultless_cons {place : Place} {c : Char} {text : List Char}
    (h : ¬Faulty place (c :: text)) : ¬Misplaced place c ∧ ¬Faulty (place.next c) text := by
  rwa [faulty_cons, not_or] at h

theorem readText_snoc (fields : List Field) (f : Field) (text : List Char) :
    readText (fields ++ [f]) ++ text = readText fields ++ (f.text ++ ',' :: text) := by
  simp [readText]

theorem proper_snoc {fields : List Field} {f : Field} (hfields : ∀ f ∈ fields, f.Proper)
    (hf : f.Proper) : ∀ g ∈ fields ++ [f], g.Proper := by
  intro g hg
  rcases List.mem_append.mp hg with hg | hg
  · exact hfields g hg
  · rw [List.mem_singleton.mp hg]
    exact hf

/-- Rows whose text is a part of a row and what follows it. -/
def Completed (fields : List Field) (d : Partial) (text : List Char) : Prop :=
  ∃ rows, ProperRows rows ∧ write rows = readText fields ++ (d.text ++ text)

theorem completed_row {fields : List Field} {d : Partial} {rows : List Row} (ending : Ending)
    (hfields : ∀ f ∈ fields, f.Proper) (hd : d.Proper) (hquoted : d.place ≠ .quoted)
    (hending : ending ≠ .none) (hcr : ending = .cr → (write rows).head? ≠ some '\n')
    (hrows : ProperRows rows) : Completed fields d (ending.text ++ write rows) := by
  have hproper := proper_snoc hfields (Partial.field_proper hd)
  refine ⟨rowOf fields d.field ending :: rows, .cons ?_ ?_ ?_ hrows, ?_⟩
  · rwa [rowOf_fields]
  · rwa [rowOf_ending]
  · rwa [rowOf_ending]
  · have hwrite : write (rowOf fields d.field ending :: rows) =
        (rowOf fields d.field ending).text ++ write rows := rfl
    rw [hwrite, rowOf_text, Partial.field_text hquoted]
    simp

theorem completed_end {fields : List Field} {d : Partial} (hfields : ∀ f ∈ fields, f.Proper)
    (hd : d.Proper) (hquoted : d.place ≠ .quoted) : Completed fields d [] := by
  refine ⟨[rowOf fields d.field .none], .last ?_, ?_⟩
  · rw [rowOf_fields]
    exact proper_snoc hfields (Partial.field_proper hd)
  · simp [write, rowOf_text, Partial.field_text hquoted, Ending.text]

/-- After a line break there are rows again. -/
theorem completed_break {fields : List Field} {d : Partial} {c : Char} {text : List Char}
    (hfields : ∀ f ∈ fields, f.Proper) (hd : d.Proper) (hquoted : d.place ≠ .quoted)
    (hbreak : isBreak c) (htext : ¬Faulty .start text)
    (hrest : ∀ rest, rest.length ≤ text.length → ¬Faulty .start rest → Completed [] .start rest) :
    Completed fields d (c :: text) := by
  have hrows : ∀ rest, rest.length ≤ text.length → ¬Faulty .start rest →
      ∃ rows, ProperRows rows ∧ write rows = rest := hrest
  rcases hbreak with rfl | rfl
  · obtain ⟨rows, hproper, rfl⟩ := hrows text (Nat.le_refl _) htext
    exact completed_row .lf hfields hd hquoted (by decide) (fun h => by cases h) hproper
  · by_cases hlf : text.head? = some '\n'
    · obtain ⟨rest, rfl⟩ := List.head?_eq_some_iff.mp hlf
      rw [faulty_separator (by decide) (.inr (.inl rfl))] at htext
      obtain ⟨rows, hproper, rfl⟩ := hrows rest (by simp) htext
      exact completed_row .crlf hfields hd hquoted (by decide) (fun h => by cases h) hproper
    · obtain ⟨rows, hproper, rfl⟩ := hrows text (Nat.le_refl _) htext
      exact completed_row .cr hfields hd hquoted (by decide) (fun _ => hlf) hproper

/-- The next character of a field outside quotes. -/
theorem unquoted_grows {d : Partial} {c : Char} (hd : d.Proper) (hquoted : d.place ≠ .quoted)
    (hplaced : ¬Misplaced d.place c) (hc : isPlain c) :
    ∃ e : Partial, e.Proper ∧ e.place = d.place.next c ∧ e.text = d.text ++ [c] := by
  have hnext : d.place.next c = .unquoted := by
    rw [Place.next, if_neg hquoted, if_neg hc.1, if_neg (by simp [hc.2.1, hc.2.2])]
  rw [hnext]
  cases d with
  | start => exact ⟨.unquoted [c], by simpa [Partial.Proper] using hc, rfl, rfl⟩
  | unquoted chars =>
    refine ⟨.unquoted (chars ++ [c]), fun b hb => ?_, rfl, rfl⟩
    rcases List.mem_append.mp hb with hb | hb
    · exact hd b hb
    · rw [List.mem_singleton.mp hb]
      exact hc
  | quoted chars => exact absurd rfl hquoted
  | closed chars =>
    exact absurd (.inr ⟨rfl, by simp [hc.1, hc.2.1, hc.2.2]⟩) hplaced

/-- A quote opens or doubles; any other character inside quotes is kept. -/
theorem quoted_grows {d : Partial} {c : Char} (hplaced : ¬Misplaced d.place c)
    (hc : d.place = .quoted ∨ c = '"') :
    ∃ e : Partial, e.Proper ∧ e.place = d.place.next c ∧ e.text = d.text ++ [c] := by
  by_cases hquote : c = '"'
  · subst hquote
    cases d with
    | start => exact ⟨.quoted [], trivial, rfl, rfl⟩
    | unquoted chars => exact absurd (.inl ⟨rfl, rfl⟩) hplaced
    | quoted chars => exact ⟨.closed chars, trivial, rfl, rfl⟩
    | closed chars =>
      refine ⟨.quoted (chars ++ ['"']), trivial, rfl, ?_⟩
      simp [Partial.text, escape]
  · have hquoted := hc.resolve_right hquote
    cases d with
    | quoted chars =>
      refine ⟨.quoted (chars ++ [c]), trivial, ?_, ?_⟩
      · rw [Place.next, if_pos hquoted, if_neg hquote]
        rfl
      · simp [Partial.text, escape, hquote]
    | _ => cases hquoted

/-- Whatever follows a part of a row without a fault completes it to rows. -/
theorem completed (n : ℕ) (fields : List Field) (d : Partial) (text : List Char)
    (hn : text.length ≤ n) (hfields : ∀ f ∈ fields, f.Proper) (hd : d.Proper)
    (h : ¬Faulty d.place text) : Completed fields d text := by
  induction n generalizing fields d text with
  | zero =>
    obtain rfl := List.length_eq_zero_iff.mp (Nat.le_zero.mp hn)
    exact completed_end hfields hd (by rwa [faulty_nil] at h)
  | succ n ih =>
    cases text with
    | nil => exact completed_end hfields hd (by rwa [faulty_nil] at h)
    | cons c text =>
      obtain ⟨hplaced, hnext⟩ := faultless_cons h
      have hlength : text.length ≤ n := by simpa using hn
      have hgo : (∃ e : Partial, e.Proper ∧ e.place = d.place.next c ∧ e.text = d.text ++ [c]) →
          Completed fields d (c :: text) := by
        intro ⟨e, he, hplace, htext⟩
        obtain ⟨rows, hrows, hwrite⟩ := ih fields e text hlength hfields he (hplace ▸ hnext)
        exact ⟨rows, hrows, by rw [hwrite, htext]; simp⟩
      by_cases hquote : d.place = .quoted ∨ c = '"'
      · exact hgo (quoted_grows hplaced hquote)
      · rw [not_or] at hquote
        by_cases hseparator : c = ',' ∨ isBreak c
        · have hstart : d.place.next c = .start := by
            rw [Place.next, if_neg hquote.1, if_neg hquote.2, if_pos hseparator]
          rw [hstart] at hnext
          rcases hseparator with rfl | hbreak
          · obtain ⟨rows, hrows, hwrite⟩ := ih (fields ++ [d.field]) .start text hlength
              (proper_snoc hfields (Partial.field_proper hd)) trivial hnext
            refine ⟨rows, hrows, ?_⟩
            rw [hwrite, readText_snoc, Partial.field_text hquote.1]
            rfl
          · exact completed_break hfields hd hquote.1 hbreak hnext fun rest hrest hfaultless =>
              ih [] .start rest (Nat.le_trans hrest hlength) (by simp) trivial hfaultless
        · rw [not_or] at hseparator
          exact hgo (unquoted_grows hd hquote.1 hplaced ⟨hquote.2, hseparator.1, hseparator.2⟩)

theorem rows_of_faultless {text : List Char} (h : ¬Faulty .start text) :
    ∃ rows, ProperRows rows ∧ write rows = text :=
  completed text.length [] .start text (Nat.le_refl _) (by simp) trivial h

/-! ### Lines -/

/-- The line breaks of a text: LF, CRLF and lone CR. -/
def breaks : List Char → ℕ
  | [] => 0
  | c :: rest =>
    (if c = '\n' ∨ (c = '\r' ∧ rest.head? ≠ some '\n') then 1 else 0) + breaks rest

/-- CR that no LF follows. -/
def loneCr : List Char → ℕ
  | [] => 0
  | c :: rest => (if c = '\r' ∧ rest.head? ≠ some '\n' then 1 else 0) + loneCr rest

theorem loneCr_nil : loneCr [] = 0 := rfl

theorem loneCr_cons (c : Char) (rest : List Char) : loneCr (c :: rest) =
    (if c = '\r' ∧ rest.head? ≠ some '\n' then 1 else 0) + loneCr rest := rfl

/-- The records of rows, each with the line its row starts on. -/
def located (before : List Char) : List Row → List Record
  | [] => []
  | row :: rows =>
    (if row.Blank then [] else [⟨1 + breaks before, row.values⟩]) ++ located
    (before ++ row.text) rows

theorem breaks_eq (text : List Char) : breaks text = text.count '\n' + loneCr text := by
  induction text with
  | nil => rfl
  | cons c rest ih =>
    rw [breaks, loneCr_cons, ih, List.count_cons]
    by_cases hlf : c = '\n'
    · simp [hlf]
      omega
    · by_cases hcr : c = '\r' ∧ rest.head? ≠ some '\n' <;> simp [hlf, hcr]
      omega

/-- The text does not end between CR and LF. -/
def Whole (text rest : List Char) : Prop := text.getLast? = some '\r' → rest.head? ≠ some '\n'

theorem loneCr_append {text rest : List Char} (h : Whole text rest) :
    loneCr (text ++ rest) = loneCr text + loneCr rest := by
  induction text with
  | nil => simp [loneCr_nil]
  | cons c text ih =>
    cases text with
    | nil =>
      by_cases hcr : c = '\r'
      · subst hcr
        have hrest := h rfl
        simp [loneCr_cons, loneCr_nil, hrest]
      · simp [loneCr_cons, loneCr_nil, hcr]
    | cons d text =>
      have htail := ih fun hlast => h (by rw [List.getLast?_cons_cons, hlast])
      rw [List.cons_append, loneCr_cons, htail, ← Nat.add_assoc]
      rfl

theorem loneCr_quoted (chars rest : List Char) :
    loneCr (escape chars ++ '"' :: rest) = loneCr chars + loneCr rest := by
  induction chars with
  | nil => simp [escape, loneCr_nil, loneCr_cons]
  | cons c chars ih =>
    by_cases hc : c = '"'
    · subst hc
      have htext : escape ('"' :: chars) = '"' :: '"' :: escape chars := rfl
      rw [htext, List.cons_append, List.cons_append, loneCr_cons, loneCr_cons, ih, loneCr_cons]
      simp
    · have htext : escape (c :: chars) = c :: escape chars := by simp [escape, hc]
      have hhead : (escape chars ++ '"' :: rest).head? = some '\n' ↔ chars.head? = some '\n' := by
        cases chars with
        | nil => simp [escape]
        | cons d chars =>
          by_cases hd : d = '"'
          · simp [escape, hd]
          · simp [escape, hd]
      rw [htext, List.cons_append, loneCr_cons, ih, loneCr_cons]
      simp only [ne_eq, hhead, Nat.add_assoc]

theorem count_escape (chars : List Char) : (escape chars).count '\n' = chars.count '\n' := by
  induction chars with
  | nil => rfl
  | cons c chars ih =>
    have htext : escape (c :: chars) = (if c = '"' then ['"', '"'] else [c]) ++ escape chars := rfl
    rw [htext, List.count_append, ih]
    by_cases hc : c = '"'
    · simp [hc]
    · simp [hc, List.count_cons, Nat.add_comm]

def Field.lone (f : Field) : ℕ := loneCr f.value.toList

def Row.lone (row : Row) : ℕ := (row.fields.map Field.lone).sum

/-- What a text of fields counts, and that no CR ends it. -/
structure Counts (text : List Char) (lines lone : ℕ) : Prop where
  lines : text.count '\n' = lines
  lone : loneCr text = lone
  last : text.getLast? ≠ some '\r'

theorem Counts.append {text text' : List Char} {lines lines' lone lone' : ℕ}
    (h : Counts text lines lone) (h' : Counts text' lines' lone') :
    Counts (text ++ text') (lines + lines') (lone + lone') where
  lines := by rw [List.count_append, h.lines, h'.lines]
  lone := by rw [loneCr_append fun hlast => absurd hlast h.last, h.lone, h'.lone]
  last := by
    rw [List.getLast?_append]
    cases htext : text'.getLast? with
    | none => simpa using h.last
    | some c =>
      have hlast := h'.last
      rw [htext] at hlast
      simpa using hlast

theorem field_counts {f : Field} (hf : f.Proper) : Counts f.text f.counted f.lone := by
  cases hquoted : f.quoted with
  | true =>
    have htext : f.text = '"' :: (escape f.value.toList ++ ['"']) := by simp [Field.text, hquoted]
    rw [htext]
    refine ⟨?_, ?_, ?_⟩
    · simp [count_escape, Field.counted]
    · rw [loneCr_cons, loneCr_quoted]
      simp [loneCr_nil, Field.lone]
    · rw [← List.cons_append, List.getLast?_concat]
      decide
  | false =>
    have htext : f.text = f.value.toList := by simp [Field.text, hquoted]
    rw [htext]
    refine ⟨rfl, rfl, fun hlast => ?_⟩
    exact (hf hquoted '\r' (List.mem_of_getLast? hlast)).2.2 (.inr rfl)

theorem fields_counts (first : Field) (more : List Field) (h : ∀ f ∈ first :: more, f.Proper) :
    Counts (Row.fieldsText first more) ((first :: more).map Field.counted).sum
      ((first :: more).map Field.lone).sum := by
  have hfirst := field_counts (h first (by simp))
  induction more generalizing first with
  | nil => simpa [Row.fieldsText] using hfirst
  | cons second more ih =>
    have htext : Row.fieldsText first (second :: more) =
        first.text ++ ([','] ++ Row.fieldsText second more) := by
      simp [Row.fieldsText]
    have hcomma : Counts [','] 0 0 := ⟨by decide, by decide, by decide⟩
    have hrest := ih second (fun f hf => h f (List.mem_cons_of_mem _ hf))
      (field_counts (h second (by simp)))
    have hall := hfirst.append (hcomma.append hrest)
    rw [Nat.zero_add, Nat.zero_add] at hall
    rw [htext]
    exact hall

theorem row_breaks {row : Row} (hfields : ∀ f ∈ row.fields, f.Proper) :
    breaks row.text = row.counted + row.lone := by
  have hcounts := fields_counts row.first row.more hfields
  rw [breaks_eq, Row.text, List.count_append, loneCr_append fun hlast => absurd hlast hcounts.last,
    hcounts.lines, hcounts.lone, Row.counted, Row.lone, Row.fields]
  cases row.ending <;> simp [Ending.text, loneCr_nil, loneCr_cons]
  all_goals omega

/-- No lone CR before a record, with those before all rows. -/
def Right (lone : ℕ) (rows : List Row) : Prop :=
  ∀ earlier row later, rows = earlier ++ row :: later → ¬row.Blank →
    lone + (earlier.map Row.lone).sum = 0

theorem right_cons {lone : ℕ} {row : Row} {rows : List Row} :
    Right lone (row :: rows) ↔ (¬row.Blank → lone = 0) ∧ Right (lone + row.lone) rows := by
  constructor
  · intro h
    refine ⟨fun hrow => by simpa using h [] row rows rfl hrow, fun earlier r later hrows hr => ?_⟩
    have := h (row :: earlier) r later (by rw [hrows]; rfl) hr
    rwa [List.map_cons, List.sum_cons, ← Nat.add_assoc] at this
  · intro ⟨hfirst, hrest⟩ earlier r later hrows hr
    cases earlier with
    | nil =>
      obtain ⟨rfl, -⟩ := List.cons.inj hrows
      simpa using hfirst hr
    | cons r' earlier =>
      obtain ⟨rfl, htail⟩ := List.cons.inj hrows
      rw [List.map_cons, List.sum_cons, ← Nat.add_assoc]
      exact hrest earlier r later htail hr

theorem numbered_step {row : Row} {rows : List Row} {before : List Char} {line lone : ℕ}
    (hbefore : 1 + breaks before = line + lone)
    (hrest : numbered (line + row.counted) rows = located (before ++ row.text) rows ↔
      Right (lone + row.lone) rows) :
    numbered line (row :: rows) = located before (row :: rows) ↔ Right lone (row :: rows) := by
  rw [right_cons, ← hrest, numbered, located]
  by_cases hblank : row.Blank
  · simp [hblank]
  · have hline : line = 1 + breaks before ↔ lone = 0 := by omega
    simp [hblank, hline]

theorem whole_row {row : Row} {rows : List Row} (hending : row.ending ≠ .none)
    (hcr : row.ending = .cr → (write rows).head? ≠ some '\n') (before : List Char) :
    Whole (before ++ row.text) (write rows) := by
  intro hlast
  refine hcr ?_
  rw [Row.text, ← List.append_assoc] at hlast
  cases hrow : row.ending with
  | none => exact absurd hrow hending
  | cr => rfl
  | _ => simp [hrow, Ending.text] at hlast

/-- A lone CR in a field makes the lines of all later records wrong. -/
theorem numbered_eq_located {rows : List Row} (hrows : ProperRows rows) (before : List Char)
    (line lone : ℕ) (hbefore : 1 + breaks before = line + lone)
    (hwhole : Whole before (write rows)) :
    numbered line rows = located before rows ↔ Right lone rows := by
  induction hrows generalizing before line lone with
  | nil => simp [numbered, located, Right]
  | last hfields => exact numbered_step hbefore (by simp [numbered, located, Right])
  | @cons row rows hfields hending hcr _ ih =>
    have hwhole' : Whole before row.text := by
      intro hlast hhead
      obtain ⟨text, htext⟩ := List.head?_eq_some_iff.mp hhead
      refine hwhole hlast ?_
      rw [write, List.flatMap_cons, htext]
      rfl
    refine numbered_step hbefore (ih _ _ _ ?_ (whole_row hending hcr before))
    have hrow := row_breaks hfields
    rw [breaks_eq] at hbefore hrow
    rw [breaks_eq, List.count_append, loneCr_append hwhole']
    omega

/-- A written text is read as it is, unless it starts with a byte order mark. -/
theorem source_of_no_mark {chars : List Char} (h : chars.head? ≠ some '\ufeff') :
    source (String.ofList chars) = chars := by
  rw [source, String.toList_ofList]
  split
  · exact absurd rfl h
  · rfl

theorem numbered_values (line : ℕ) (rows : List Row) :
    (numbered line rows).map Record.values = (rows.map Row.values).filter (· ≠ [""]) := by
  induction rows generalizing line with
  | nil => rfl
  | cons row rows ih =>
    by_cases hblank : row.values = [""]
    · simp [numbered, Row.Blank, hblank, ih]
    · simp [numbered, Row.Blank, hblank, ih]

theorem lone_eq_zero {row : Row} : row.lone = 0 ↔ ∀ f ∈ row.fields, loneCr f.value.toList = 0 := by
  simp [Row.lone, Field.lone, List.sum_eq_zero_iff_forall_eq_nat]

theorem right_zero {rows : List Row} :
    Right 0 rows ↔ ∀ earlier row later, rows = earlier ++ row :: later → ¬row.Blank →
      ∀ r ∈ earlier, ∀ f ∈ r.fields, loneCr f.value.toList = 0 := by
  simp only [Right, Nat.zero_add, List.sum_eq_zero_iff_forall_eq_nat, List.forall_mem_map,
    lone_eq_zero]

/-- Texts without a fault, and no others, are read as the rows they are a writing of; the lines
are right where no field before the last record holds a lone CR. -/
theorem parseCsv_correct (text : String) (rows : List Row) :
    ((∃ records, parseCsv text = .ok records) ↔ ¬Faulty .start (source text)) ∧
    (∀ e, parseCsv text = .error e → e.code = "INVALID_CSV") ∧
    (¬Faulty .start (source text) → ∃ rows, ProperRows rows ∧ write rows = source text) ∧
    ((write rows).head? ≠ some '\ufeff' → source (String.ofList (write rows)) = write rows) ∧
    (ProperRows rows → source text = write rows →
      ∃ records, parseCsv text = .ok records ∧
        records.map Record.values = (rows.map Row.values).filter (· ≠ [""]) ∧
        (records = located [] rows ↔
          ∀ earlier row later, rows = earlier ++ row :: later → ¬row.Blank →
            ∀ r ∈ earlier, ∀ f ∈ r.fields, loneCr f.value.toList = 0)) := by
  refine ⟨⟨?_, fun h => ?_⟩, fun e h => ((parseCsv_tells text).2 e h).2, rows_of_faultless,
    source_of_no_mark, fun hrows htext => ?_⟩
  · intro ⟨records, hrecords⟩
    exact (parseCsv_tells text).1 records hrecords
  · obtain ⟨rows, hrows, hwrite⟩ := rows_of_faultless h
    exact ⟨_, parseCsv_write hrows hwrite.symm⟩
  · refine ⟨_, parseCsv_write hrows htext, numbered_values 1 rows, ?_⟩
    rw [← right_zero]
    exact numbered_eq_located hrows [] 1 0 rfl (fun h => by cases h)

theorem parseCsv_correct_quoted :
    ∃ records, parseCsv "a,\"b,c\"\r\nd" = .ok records ∧
      records.map Record.values = [["a", "b,c"], ["d"]] := by
  have hrows : ProperRows
      [⟨⟨false, "a"⟩, [⟨true, "b,c"⟩], .crlf⟩, ⟨⟨false, "d"⟩, [], .none⟩] := by
    refine .cons ?_ (by decide) (fun h => by cases h) (.last ?_)
    · simp [Row.fields, Field.Proper, isPlain, isBreak]
    · simp [Row.fields, Field.Proper, isPlain, isBreak]
  obtain ⟨records, hread, hvalues, -⟩ :=
    (parseCsv_correct "a,\"b,c\"\r\nd" _).2.2.2.2 hrows (by decide)
  exact ⟨records, hread, hvalues⟩

/-- A lone CR inside quotes is not counted as a line break, as it is outside of them. -/
theorem parseCsv_quoted_cr :
    parseCsv "\"a\rb\"\nc" = .ok [⟨1, ["a\rb"]⟩, ⟨2, ["c"]⟩] ∧
      1 + breaks "\"a\rb\"\n".toList = 3 := by
  have hrows : ProperRows [⟨⟨true, "a\rb"⟩, [], .lf⟩, ⟨⟨false, "c"⟩, [], .none⟩] := by
    refine .cons ?_ (by decide) (fun h => by cases h) (.last ?_)
    · simp [Row.fields, Field.Proper]
    · simp [Row.fields, Field.Proper, isPlain, isBreak]
  exact ⟨parseCsv_write hrows (by decide), by decide⟩

end Ashbi.Imports
