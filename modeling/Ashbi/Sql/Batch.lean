import Mathlib

/-! Batches of statements that take effect together, the tables that they change, and the order in
which rows are read. -/

namespace Sql

variable {σ ε α β : Type}

/-- Statements that change the tables `σ`, up to the first constraint that is violated. -/
abbrev Batch (σ ε α : Type) := StateT σ (Except ε) α

/-- A batch with a violation changes nothing. -/
def commit (batch : Batch σ ε α) (db : σ) : Except ε α × σ :=
  match batch db with
  | .ok (a, db') => (.ok a, db')
  | .error e => (.error e, db)

/-- A constraint of the tables. -/
def check (ok : Bool) (e : ε) : Batch σ ε Unit := if ok then pure () else throw e

theorem commit_cases (batch : Batch σ ε α) (db : σ) :
    (∃ e, batch db = .error e ∧ commit batch db = (.error e, db)) ∨
    ∃ a db', batch db = .ok (a, db') ∧ commit batch db = (.ok a, db') := by
  unfold commit
  cases h : batch db with
  | error e => exact .inl ⟨e, rfl, rfl⟩
  | ok r => exact .inr ⟨r.1, r.2, rfl, rfl⟩

theorem bind_eq_ok {batch : Batch σ ε α} {next : α → Batch σ ε β} {b : β} {s u : σ} :
    (batch >>= next) s = .ok (b, u) ↔ ∃ a t, batch s = .ok (a, t) ∧ next a t = .ok (b, u) := by
  change (batch s >>= fun r => next r.1 r.2) = _ ↔ _
  cases h : batch s with
  | error e => simp [bind, Except.bind]
  | ok r =>
    obtain ⟨a, t⟩ := r
    simp [bind, Except.bind]

theorem check_eq_ok {ok : Bool} {e : ε} {u : Unit} {s t : σ} :
    (check ok e : Batch σ ε Unit) s = .ok (u, t) ↔ ok = true ∧ s = t := by
  cases ok with
  | true =>
    change Except.ok ((), s) = _ ↔ _
    simp
  | false =>
    change Except.error e = _ ↔ _
    simp

@[simp] theorem pure_eq_ok {a b : α} {s t : σ} :
    (pure a : Batch σ ε α) s = .ok (b, t) ↔ a = b ∧ s = t := by
  change Except.ok (a, s) = _ ↔ _
  simp

@[simp] theorem get_eq_ok {s t u : σ} : (get : Batch σ ε σ) s = .ok (t, u) ↔ s = t ∧ s = u := by
  change Except.ok (s, s) = _ ↔ _
  simp

@[simp] theorem set_eq_ok {s t u : σ} {r : PUnit} :
    (MonadStateOf.set t : Batch σ ε PUnit) s = .ok (r, u) ↔ u = t := by
  change Except.ok (PUnit.unit, t) = _ ↔ _
  simp [eq_comm]

/-! ### Tables -/

variable {ρ κ : Type} {selects : ρ → Bool} {set : ρ → ρ} {rows : List ρ}

/-- An update of the rows that are selected. -/
def update (selects : ρ → Bool) (set : ρ → ρ) (rows : List ρ) : List ρ :=
  rows.map fun row => if selects row then set row else row

theorem mem_update {row : ρ} : row ∈ update selects set rows ↔
    (∃ old ∈ rows, selects old = true ∧ set old = row) ∨ row ∈ rows ∧ selects row = false := by
  unfold update
  rw [List.mem_map]
  constructor
  · rintro ⟨old, hold, hrow⟩
    cases hselects : selects old with
    | true =>
      rw [hselects, if_pos rfl] at hrow
      exact .inl ⟨old, hold, hselects, hrow⟩
    | false =>
      rw [hselects, if_neg nofun] at hrow
      exact .inr ⟨hrow ▸ hold, hrow ▸ hselects⟩
  · rintro (⟨old, hold, hselects, hrow⟩ | ⟨hold, hselects⟩)
    · exact ⟨old, hold, by rw [hselects, if_pos rfl, hrow]⟩
    · exact ⟨row, hold, by rw [hselects, if_neg nofun]⟩

/-- A column that is not set stays as it was. -/
theorem map_update {column : ρ → κ} (h : ∀ row ∈ rows, selects row = true →
    column (set row) = column row) : (update selects set rows).map column = rows.map column := by
  unfold update
  rw [List.map_map]
  refine List.map_congr_left fun row hrow => ?_
  rw [Function.comp_apply]
  split
  · rename_i hselects
    exact h row hrow hselects
  · rfl

theorem update_of_none (h : ∀ row ∈ rows, selects row = false) :
    update selects set rows = rows := by
  unfold update
  refine (List.map_congr_left fun row hrow => ?_).trans (List.map_id rows)
  rw [h row hrow, if_neg nofun]
  rfl

/-- An update that keeps a column and gives no row a property leaves the column as it was on the
rows with it. -/
theorem filter_update_sublist {column : ρ → κ} {p : ρ → Bool}
    (hcolumn : ∀ row ∈ rows, selects row = true → column (set row) = column row)
    (hp : ∀ row ∈ rows, selects row = true → p (set row) = true → p row = true) :
    (((update selects set rows).filter p).map column).Sublist ((rows.filter p).map column) := by
  induction rows with
  | nil => exact List.Sublist.refl _
  | cons row rest ih =>
    have hrest := ih (fun other h => hcolumn other (List.mem_cons_of_mem _ h))
      fun other h => hp other (List.mem_cons_of_mem _ h)
    have hnew : column (if selects row then set row else row) = column row ∧
        (p (if selects row then set row else row) = true → p row = true) := by
      split
      · rename_i hselects
        exact ⟨hcolumn row List.mem_cons_self hselects, hp row List.mem_cons_self hselects⟩
      · exact ⟨rfl, id⟩
    have hupdate : update selects set (row :: rest) =
      (if selects row then set row else row) :: update selects set rest := rfl
    rw [hupdate]
    cases hset : p (if selects row then set row else row) with
    | true =>
      rw [List.filter_cons_of_pos hset, List.filter_cons_of_pos (hnew.2 hset), List.map_cons,
        List.map_cons, hnew.1]
      exact hrest.cons_cons _
    | false =>
      rw [List.filter_cons_of_neg (by rw [hset]; nofun)]
      refine hrest.trans (List.Sublist.map _ (List.Sublist.filter _ (List.sublist_cons_self ..)))

theorem key_of_find? [DecidableEq κ] {key : ρ → κ} {k : κ} {row : ρ}
    (h : rows.find? (key · = k) = some row) : key row = k := by
  have hkey := List.find?_some h
  exact of_decide_eq_true hkey

/-- Two rows with one key are one row. -/
theorem row_eq {key : ρ → κ} {a b : ρ} (h : (rows.map key).Nodup) (ha : a ∈ rows) (hb : b ∈ rows)
    (hkey : key a = key b) : a = b := List.inj_on_of_nodup_map h ha hb hkey

theorem nodup_map_concat {key : ρ → κ} {row : ρ} (h : (rows.map key).Nodup)
    (hnew : ∀ old ∈ rows, key old ≠ key row) : ((rows ++ [row]).map key).Nodup := by
  rw [List.map_append, List.map_singleton, ← List.concat_eq_append]
  refine h.concat fun hmem => ?_
  obtain ⟨old, hold, hkey⟩ := List.mem_map.mp hmem
  exact hnew old hold hkey

/-- The row with a key. -/
theorem find?_eq_some [DecidableEq κ] {key : ρ → κ} {k : κ} {row : ρ} (h : (rows.map key).Nodup) :
    rows.find? (key · = k) = some row ↔ row ∈ rows ∧ key row = k := by
  constructor
  · intro hfind
    exact ⟨List.mem_of_find?_eq_some hfind, key_of_find? hfind⟩
  · rintro ⟨hrow, rfl⟩
    cases hfind : rows.find? (key · = key row) with
    | none =>
      have hne := List.find?_eq_none.mp hfind row hrow
      exact absurd (decide_eq_true rfl) hne
    | some found =>
      rw [row_eq h (List.mem_of_find?_eq_some hfind) hrow (key_of_find? hfind)]

/-! ### Updates of one row -/

section

variable {key : ρ → κ} {row : ρ} (h : (rows.map key).Nodup) (hrow : row ∈ rows)
  (hselects : selects row = true) (honly : ∀ other ∈ rows, selects other = true → other = row)

include h hrow hselects honly

theorem mem_update_single {next : ρ} :
    next ∈ update selects set rows ↔ next = set row ∨ (next ∈ rows ∧ key next ≠ key row) := by
  rw [mem_update]
  constructor
  · rintro (⟨old, hold, hs, rfl⟩ | ⟨hnext, hnot⟩)
    · rw [honly old hold hs]
      exact .inl rfl
    · refine .inr ⟨hnext, fun hkey => ?_⟩
      rw [row_eq h hnext hrow hkey, hselects] at hnot
      cases hnot
  · rintro (rfl | ⟨hnext, hkey⟩)
    · exact .inl ⟨row, hrow, hselects, rfl⟩
    · refine .inr ⟨hnext, ?_⟩
      cases hother : selects next with
      | false => rfl
      | true => exact absurd (congrArg key (honly next hnext hother)) hkey

end

/-! ### `ORDER BY` several clauses, where only the clauses together may tell the rows apart -/

section Orders

variable {ρ : Type}

/-- One clause of an order; rows may tie. -/
structure Clause (ρ : Type) where
  le : ρ → ρ → Bool
  total : ∀ a b, le a b = true ∨ le b a = true
  trans : ∀ {a b c}, le a b = true → le b c = true → le a c = true

/-- The first clause that does not tie decides. -/
def le : List (Clause ρ) → ρ → ρ → Bool
  | [], _, _ => true
  | c :: cs, a, b => c.le a b && (!c.le b a || le cs a b)

theorem le_cons {c : Clause ρ} {cs : List (Clause ρ)} {a b : ρ} :
    le (c :: cs) a b = true ↔ c.le a b = true ∧ (c.le b a = true → le cs a b = true) := by
  cases hab : c.le a b <;> cases hba : c.le b a <;> simp [le, hab, hba]

theorem le_total (cs : List (Clause ρ)) (a b : ρ) : le cs a b = true ∨ le cs b a = true := by
  induction cs with
  | nil => exact .inl rfl
  | cons c cs ih =>
    rw [le_cons, le_cons]
    by_cases hab : c.le a b = true
    · by_cases hba : c.le b a = true
      · exact ih.imp (fun h => ⟨hab, fun _ => h⟩) fun h => ⟨hba, fun _ => h⟩
      · exact .inl ⟨hab, fun h => absurd h hba⟩
    · exact .inr ⟨(c.total a b).resolve_left hab, fun h => absurd h hab⟩

theorem le_trans {cs : List (Clause ρ)} {a b d : ρ} (hab : le cs a b = true)
    (hbd : le cs b d = true) : le cs a d = true := by
  induction cs with
  | nil => rfl
  | cons c cs ih =>
    rw [le_cons] at hab hbd ⊢
    refine ⟨c.trans hab.1 hbd.1, fun hda => ?_⟩
    exact ih (hab.2 (c.trans hbd.1 hda)) (hbd.2 (c.trans hda hab.1))

/-- Rows that tie in one of the clauses alone. -/
theorem le_tie {cs : List (Clause ρ)} {c : Clause ρ} (hc : c ∈ cs) {a b : ρ}
    (hab : le cs a b = true) (hba : le cs b a = true) : c.le a b = true ∧ c.le b a = true := by
  induction cs with
  | nil => cases hc
  | cons c' cs ih =>
    rw [le_cons] at hab hba
    rcases List.mem_cons.mp hc with rfl | hc
    · exact ⟨hab.1, hba.1⟩
    · exact ih hc (hab.2 hba.1) (hba.2 hab.1)

theorem le_append {cs ds : List (Clause ρ)} {a b : ρ} :
    le (cs ++ ds) a b = true ↔ le cs a b = true ∧ (le cs b a = true → le ds a b = true) := by
  induction cs with
  | nil => simp [le]
  | cons c cs ih =>
    rw [List.cons_append, le_cons, le_cons, le_cons, ih]
    constructor
    · intro ⟨hab, htie⟩
      exact ⟨⟨hab, fun hba => (htie hba).1⟩, fun h => (htie h.1).2 (h.2 hab)⟩
    · intro ⟨⟨hab, htie⟩, hds⟩
      exact ⟨hab, fun hba => ⟨htie hba, fun h => hds ⟨hba, fun _ => h⟩⟩⟩

/-- The rows, in an order that the clauses allow. -/
structure Arranged (cs : List (Clause ρ)) (rows arranged : List ρ) : Prop where
  perm : arranged.Perm rows
  sorted : arranged.Pairwise fun a b => le cs a b = true

theorem arranged_mergeSort (cs : List (Clause ρ)) (rows : List ρ) :
    Arranged cs rows (rows.mergeSort (le cs)) where
  perm := List.mergeSort_perm _ _
  sorted := List.pairwise_mergeSort (fun _ _ _ => le_trans)
    (fun a b => by simpa using le_total cs a b) rows

namespace Arranged

variable {cs : List (Clause ρ)} {rows arranged arranged' : List ρ}

/-- Where no two rows tie there is one arrangement. -/
theorem unique (h : Arranged cs rows arranged) (h' : Arranged cs rows arranged')
    (htie : ∀ a ∈ rows, ∀ b ∈ rows, le cs a b = true → le cs b a = true → a = b) :
    arranged = arranged' :=
  (h.perm.trans h'.perm.symm).eq_of_pairwise
    (fun a b ha hb => htie a (h.perm.mem_iff.mp ha) b (h'.perm.mem_iff.mp hb)) h.sorted h'.sorted

/-- Rows that a first clause puts before all others, then the others. -/
theorem append {c : Clause ρ} {rows' : List ρ} (h : Arranged cs rows arranged)
    (h' : Arranged (c :: cs) rows' arranged')
    (hsame : ∀ a ∈ rows, ∀ b ∈ rows, c.le a b = true)
    (hbefore : ∀ a ∈ rows, ∀ b ∈ rows', c.le a b = true ∧ c.le b a = false) :
    Arranged (c :: cs) (rows ++ rows') (arranged ++ arranged') where
  perm := h.perm.append h'.perm
  sorted := by
    refine List.pairwise_append.mpr ⟨?_, h'.sorted, ?_⟩
    · refine h.sorted.imp_of_mem fun {a b} ha hb hab => le_cons.mpr ⟨?_, fun _ => hab⟩
      exact hsame a (h.perm.mem_iff.mp ha) b (h.perm.mem_iff.mp hb)
    · intro a ha b hb
      obtain ⟨hab, hba⟩ := hbefore a (h.perm.mem_iff.mp ha) b (h'.perm.mem_iff.mp hb)
      exact le_cons.mpr ⟨hab, fun h => by rw [hba] at h; cases h⟩

end Arranged

end Orders

end Sql
