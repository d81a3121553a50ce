import Mathlib

/-! Strict CSV: quoted fields, CRLF or LF, and the line each record starts on. -/

namespace Ashbi.Imports

structure OperatorImportError where
  code : String
  message : String

structure Record where
  line : ℕ
  values : List String
  deriving DecidableEq

/-- The variables of the loop of `parseCsv`. -/
structure Parser where
  records : List Record := []
  values : List String := []
  field : List Char := []
  quoted : Bool := false
  fieldStarted : Bool := false
  line : ℕ := 1
  recordLine : ℕ := 1

namespace Parser

def endField (p : Parser) : Parser :=
  { p with values := p.values ++ [String.ofList p.field], field := [], fieldStarted := false }

/-- A line with nothing on it is not a record. -/
def endRecord (p : Parser) : Parser :=
  let p := p.endField
  { p with
    records := if p.values = [""] then p.records else p.records ++ [⟨p.recordLine, p.values⟩]
    values := [] }

def invalid {α : Type} (line : ℕ) (problem : String) : Except OperatorImportError α :=
  .error ⟨"INVALID_CSV", s!"CSV line {line}: {problem}"⟩

/-- The loop over the source, with the character before the current one. -/
def loop (p : Parser) (before : Option Char) : List Char → Except OperatorImportError Parser
  | [] => .ok p
  | char :: rest =>
    if p.quoted then
      if char = '"' then
        match rest with
        | '"' :: rest => loop { p with field := p.field ++ ['"'] } (some '"') rest
        | rest => loop { p with quoted := false } (some '"') rest
      else
        loop { p with
          line := if char = '\n' then p.line + 1 else p.line
          field := p.field ++ [char] } (some char) rest
    else if char = '"' then
      if p.fieldStarted || p.field ≠ [] then invalid p.line "a quote may only start a field"
      else loop { p with quoted := true, fieldStarted := true } (some char) rest
    else if char = ',' then loop p.endField (some char) rest
    else if char = '\r' ∧ rest.head? = some '\n' then loop p (some char) rest
    else if char = '\n' ∨ char = '\r' then
      let p := p.endRecord
      loop { p with line := p.line + 1, recordLine := p.line + 1 } (some char) rest
    else if p.fieldStarted && !p.quoted && before = some '"' then
      invalid p.line "unexpected text after a closing quote"
    else loop { p with field := p.field ++ [char] } (some char) rest

end Parser

/-- The text without a byte order mark. -/
def source (text : String) : List Char :=
  match text.toList with
  | '\ufeff' :: rest => rest
  | chars => chars

def parseCsv (text : String) : Except OperatorImportError (List Record) := do
  let p ← Parser.loop {} none (source text)
  if p.quoted then Parser.invalid p.recordLine "unterminated quoted field"
  else if p.field ≠ [] || p.fieldStarted || p.values ≠ [] then .ok p.endRecord.records
  else .ok p.records

/-! ### Faults -/

/-- Where in a field a text stands; a quote inside a quoted field is `closed` until the next
character tells whether it was doubled. -/
inductive Place
  | start | unquoted | quoted | closed
  deriving DecidableEq

def isBreak (c : Char) : Prop := c = '\n' ∨ c = '\r'

instance (c : Char) : Decidable (isBreak c) := inferInstanceAs (Decidable (_ ∨ _))

def Place.next (place : Place) (c : Char) : Place :=
  if place = .quoted then if c = '"' then .closed else .quoted
  else if c = '"' then .quoted
  else if c = ',' ∨ isBreak c then .start
  else .unquoted

def Place.after (place : Place) (text : List Char) : Place := text.foldl Place.next place

/-- A quote inside an unquoted field, or text after a closing quote. -/
def Misplaced (place : Place) (c : Char) : Prop :=
  (place = .unquoted ∧ c = '"') ∨ (place = .closed ∧ ¬(c = '"' ∨ c = ',' ∨ isBreak c))

/-- Some character is misplaced, or a quote is never closed. -/
def Faulty (place : Place) (text : List Char) : Prop :=
  (∃ before c after, text = before ++ c :: after ∧ Misplaced (place.after before) c) ∨
    place.after text = .quoted

theorem faulty_nil (place : Place) : Faulty place [] ↔ place = .quoted := by
  simp [Faulty, Place.after]

theorem faulty_cons (place : Place) (c : Char) (text : List Char) :
    Faulty place (c :: text) ↔ Misplaced place c ∨ Faulty (place.next c) text := by
  constructor
  · rintro (⟨before, d, after, htext, hmis⟩ | hquoted)
    · cases before with
      | nil =>
        obtain ⟨rfl, rfl⟩ := List.cons.inj htext
        exact .inl hmis
      | cons b before =>
        obtain ⟨rfl, rfl⟩ := List.cons.inj htext
        exact .inr (.inl ⟨before, d, after, rfl, hmis⟩)
    · exact .inr (.inr hquoted)
  · rintro (hmis | ⟨before, d, after, rfl, hmis⟩ | hquoted)
    · exact .inl ⟨[], c, text, rfl, hmis⟩
    · exact .inl ⟨c :: before, d, after, rfl, hmis⟩
    · exact .inr hquoted

/-- A separator ends the field wherever it stands, but inside quotes. -/
theorem faulty_separator {place : Place} {c : Char} {text : List Char} (hplace : place ≠ .quoted)
    (hc : c = ',' ∨ isBreak c) : Faulty place (c :: text) ↔ Faulty .start text := by
  have hquote : c ≠ '"' := by
    rintro rfl
    revert hc
    decide
  have hplaced : ¬Misplaced place c := by
    rintro (⟨-, hmis⟩ | ⟨-, hmis⟩)
    · exact hquote hmis
    · exact hmis (.inr hc)
  rw [faulty_cons, or_iff_right hplaced, Place.next, if_neg hplace, if_neg hquote, if_pos hc]

/-! ### Errors -/

namespace Parser

def place (p : Parser) : Place :=
  if p.quoted then .quoted
  else if p.fieldStarted then .closed
  else if p.field ≠ [] then .unquoted
  else .start

/-- Inside quotes the field has started. After a closing quote the character before is that quote,
except between CR and LF, and no other quote follows. -/
structure Follows (p : Parser) (before : Option Char) (rest : List Char) : Prop where
  started : p.quoted = true → p.fieldStarted = true
  closing : p.quoted = false → p.fieldStarted = true →
    (before = some '"' ∨ rest.head? = some '\n') ∧ rest.head? ≠ some '"'

/-- The loop ends inside a quote, or with an error, where the text is faulty. -/
def Tells (place : Place) (rest : List Char) : Except OperatorImportError Parser → Prop
  | .ok q => Faulty place rest ↔ q.quoted = true
  | .error e => Faulty place rest ∧ e.code = "INVALID_CSV"

theorem Tells.step {place : Place} {c : Char} {rest : List Char}
    {result : Except OperatorImportError Parser} (hplaced : ¬Misplaced place c)
    (h : Tells (place.next c) rest result) : Tells place (c :: rest) result := by
  have hfaulty : Faulty place (c :: rest) ↔ Faulty (place.next c) rest := by
    rw [faulty_cons, or_iff_right hplaced]
  cases result <;> simpa only [Tells, hfaulty] using h

theorem Tells.fault {place : Place} {c : Char} {rest : List Char} {line : ℕ} {problem : String}
    (hplaced : Misplaced place c) : Tells place (c :: rest) (invalid line problem) :=
  ⟨(faulty_cons place c rest).mpr (.inl hplaced), rfl⟩

theorem place_quoted {p : Parser} (h : p.quoted = true) : p.place = .quoted := if_pos h

theorem place_closed {p : Parser} (hq : ¬p.quoted = true) (hs : p.fieldStarted = true) :
    p.place = .closed := by
  rw [place, if_neg hq, if_pos hs]

theorem place_unquoted {p : Parser} (hq : ¬p.quoted = true) (hs : ¬p.fieldStarted = true)
    (hf : p.field ≠ []) : p.place = .unquoted := by
  rw [place, if_neg hq, if_neg hs, if_pos hf]

theorem place_start {p : Parser} (hq : ¬p.quoted = true) (hs : ¬p.fieldStarted = true)
    (hf : p.field = []) : p.place = .start := by
  rw [place, if_neg hq, if_neg hs, if_neg (not_not.mpr hf)]

theorem place_ne_quoted {p : Parser} (h : ¬p.quoted = true) : p.place ≠ .quoted := by
  rw [place, if_neg h]
  split
  · decide
  · split <;> decide

theorem separator_tells {place : Place} {c : Char} {rest : List Char}
    {result : Except OperatorImportError Parser} (hplace : place ≠ .quoted)
    (hc : c = ',' ∨ isBreak c) : Tells place (c :: rest) result ↔ Tells .start rest result := by
  cases result <;> simp only [Tells, faulty_separator hplace hc]

theorem loop_tells {place : Place} (p : Parser) (before : Option Char) (rest : List Char)
    (hplace : p.place = place) (hfollows : p.Follows before rest) :
    Tells place rest (p.loop before rest) := by
  fun_induction loop p before rest generalizing place with
  | case1 p before =>
    rw [Tells, faulty_nil, ← hplace]
    cases hq : p.quoted with
    | true => simp [place_quoted hq]
    | false => simpa using place_ne_quoted (by simp [hq])
  | case2 p before hq rest ih =>
    have ih := ih (place_quoted hq)
      ⟨fun _ => hfollows.started hq, fun h => by rw [hq] at h; cases h⟩
    rw [← hplace, place_quoted hq]
    exact .step (by simp [Misplaced]) (.step (by simp [Misplaced, Place.next]) ih)
  | case3 p before hq rest hnext ih =>
    have hhead : rest.head? ≠ some '"' := by
      intro h
      obtain ⟨tail, rfl⟩ := List.head?_eq_some_iff.mp h
      exact hnext tail rfl
    have ih := ih (place_closed (by simp) (hfollows.started hq))
      ⟨by simp, fun _ _ => ⟨.inl rfl, hhead⟩⟩
    rw [← hplace, place_quoted hq]
    exact .step (by simp [Misplaced]) ih
  | case4 p before char rest hq hchar ih =>
    have ih := ih (place_quoted hq)
      ⟨fun _ => hfollows.started hq, fun h => by rw [hq] at h; cases h⟩
    rw [← hplace, place_quoted hq]
    refine .step (by simp [Misplaced]) ?_
    rwa [Place.next, if_pos rfl, if_neg hchar]
  | case5 p before rest hq hstarted =>
    have hnot : ¬p.fieldStarted = true := fun h =>
      (hfollows.closing (by simpa using hq) h).2 rfl
    have hfield : p.field ≠ [] := by simpa [hnot] using hstarted
    rw [← hplace, place_unquoted hq hnot hfield]
    exact .fault (.inl ⟨rfl, rfl⟩)
  | case6 p before rest hq hstarted ih =>
    simp only [Bool.or_eq_true, decide_eq_true_eq, not_or, not_not] at hstarted
    have ih := ih (place_quoted rfl) ⟨fun _ => rfl, by simp⟩
    rw [← hplace, place_start hq hstarted.1 hstarted.2]
    exact .step (by simp [Misplaced]) ih
  | case7 p before rest hq hquote ih =>
    have ih := ih (place_start hq (by simp [endField]) rfl)
      ⟨fun h => absurd h hq, fun _ h => by simp [endField] at h⟩
    exact (separator_tells (hplace ▸ place_ne_quoted hq) (.inl rfl)).mpr ih
  | case8 p before char rest hq hquote hcomma hcrlf ih =>
    obtain ⟨rfl, hlf⟩ := hcrlf
    obtain ⟨tail, rfl⟩ := List.head?_eq_some_iff.mp hlf
    have ih := ih hplace ⟨fun h => absurd h hq, fun _ _ => ⟨.inr rfl, by simp⟩⟩
    have hplace' : place ≠ .quoted := hplace ▸ place_ne_quoted hq
    rw [separator_tells hplace' (.inr (.inl rfl))] at ih
    rw [separator_tells hplace' (.inr (.inr rfl)), separator_tells (by decide) (.inr (.inl rfl))]
    exact ih
  | case9 p before char rest hq hquote hcomma hcrlf hbreak =>
    rename_i p' ih
    have ih := ih (place_start hq (by simp [p', endRecord, endField]) rfl)
      ⟨fun h => absurd h hq, fun _ h => by simp [p', endRecord, endField] at h⟩
    exact (separator_tells (hplace ▸ place_ne_quoted hq) (.inr hbreak)).mpr ih
  | case10 p before char rest hq hquote hcomma hcrlf hbreak hclosed =>
    simp only [Bool.and_eq_true, decide_eq_true_eq] at hclosed
    rw [← hplace, place_closed hq hclosed.1.1]
    exact .fault (.inr ⟨rfl, by simp [hquote, hcomma, isBreak, hbreak]⟩)
  | case11 p before char rest hq hquote hcomma hcrlf hbreak hopen ih =>
    have hnot : ¬p.fieldStarted = true := by
      intro h
      rcases (hfollows.closing (by simpa using hq) h).1 with hbefore | hlf
      · simp [h, hq, hbefore] at hopen
      · exact hbreak (.inl (by simpa using hlf))
    have ih := ih (place_unquoted hq hnot (by simp))
      ⟨fun h => absurd h hq, fun _ h => absurd h hnot⟩
    have hnext : place.next char = .unquoted := by
      have hother : ¬(char = ',' ∨ isBreak char) := by simp [hcomma, isBreak, hbreak]
      rw [Place.next, if_neg (hplace ▸ place_ne_quoted hq), if_neg hquote, if_neg hother]
    refine .step ?_ (hnext ▸ ih)
    rintro (⟨-, hmis⟩ | ⟨hclosed, -⟩)
    · exact hquote hmis
    · rw [← hplace, Parser.place, if_neg hq, if_neg hnot] at hclosed
      split at hclosed <;> cases hclosed

end Parser

theorem parseCsv_tells (text : String) :
    (∀ records, parseCsv text = .ok records → ¬Faulty .start (source text)) ∧
    ∀ e, parseCsv text = .error e → Faulty .start (source text) ∧ e.code = "INVALID_CSV" := by
  have htells := @Parser.loop_tells .start {} none (source text) rfl
    ⟨fun h => (by cases h), fun _ h => (by cases h)⟩
  simp only [parseCsv]
  cases hloop : Parser.loop {} none (source text) with
  | error e =>
    rw [hloop] at htells
    refine ⟨fun records h => (by cases h), fun e' h => ?_⟩
    cases h
    exact htells
  | ok p =>
    rw [hloop, Parser.Tells] at htells
    change (∀ records, (if p.quoted then _ else _) = _ → _) ∧
      ∀ e, (if p.quoted then _ else _) = _ → _
    split
    next hq =>
      refine ⟨fun records h => (by cases h), fun e h => ?_⟩
      cases h
      exact ⟨htells.mpr hq, rfl⟩
    next hq =>
      refine ⟨fun records _ hfaulty => hq (htells.mp hfaulty), fun e h => ?_⟩
      split at h <;> cases h

end Ashbi.Imports
