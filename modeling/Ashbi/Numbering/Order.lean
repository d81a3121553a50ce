import Mathlib.Data.List.Perm.Basic
import Ashbi.Calendar.Civil
import Ashbi.Interleaving.Transaction
import Ashbi.Interleaving.Versions
import Ashbi.Js

/-! Invoice numbers, the counters they come from, and the transactions that take them: the numbers
are unique, and those of a counter grow in the order of the commits. -/

namespace Ashbi.Numbering

open Interleaving

/-! ### Numbers -/

/-- `String(sequence).padStart(4, '0')`. -/
def padStart (text : String) : String :=
  String.ofList (List.replicate (4 - text.length) '0') ++ text

def formatInvoiceNumber (year : ℤ) (sequence : ℕ) : String :=
  "INV-" ++ toString year ++ "-" ++ padStart (toString sequence)

/-- `getUTCFullYear`. -/
def utcFullYear (now : Time) : ℤ := Calendar.yearOf (now / 86400000)

/-- The greatest `INTEGER`. -/
def maxInteger : ℕ := 2147483647

def maxAllocationAttempts : ℕ := 50

/-- A row of `invoices`. `given` is the year and the counter value that an allocated number was
made of. -/
structure Invoice where
  organizationId : String
  clientId : String
  invoiceNumber : String
  given : Option (ℤ × ℕ)
  deriving DecidableEq

/-- The columns of the unique index. -/
def Invoice.key (invoice : Invoice) : String × String :=
  (invoice.organizationId, invoice.invoiceNumber)

/-- The sequence number that the counter of an organization and year gave the invoice. -/
def Invoice.sequence (organizationId : String) (year : ℤ) (invoice : Invoice) : Option ℕ :=
  if invoice.organizationId = organizationId then
    (invoice.given.filter (·.1 = year)).map (·.2)
  else none

/-! ### The database -/

/-- The counters hold `lastValue` by organization and period; `invoices` are the committed rows
in the order of their commits, `inserted` those of open transactions. -/
structure Db where
  counters : Versions (String × ℤ) ℕ
  invoices : List Invoice
  inserted : List (ℕ × Invoice)

def Db.insertedBy (db : Db) (i : ℕ) : List Invoice :=
  (db.inserted.filter (·.1 = i)).map (·.2)

def Db.rollback (db : Db) (i : ℕ) : Db where
  counters := db.counters.rollback i
  invoices := db.invoices
  inserted := db.inserted.filter (·.1 ≠ i)

def Db.commit (db : Db) (i : ℕ) : Db where
  counters := db.counters.commit i
  invoices := db.invoices ++ db.insertedBy i
  inserted := db.inserted.filter (·.1 ≠ i)

/-- What a statement or a program throws. -/
inductive Failure
  | tenancyError (statusCode : ℕ) (message : String)
  | error (message : String)
  | uniqueViolation
  | foreignKeyViolation
  | integerOutOfRange
  | interrupted
  deriving DecidableEq

/-- Whether the database answers a statement, or the transaction is lost at it. -/
inductive Choice
  | answered
  | interrupted
  deriving DecidableEq

inductive Stmt : Type → Type
  | owner (clientId : String) : Stmt (Except Failure (Option String))
  /-- `INSERT ... ON CONFLICT DO UPDATE ... RETURNING "lastValue"`. -/
  | increment (organizationId : String) (period : ℤ) : Stmt (Except Failure ℕ)
  | taken (organizationId invoiceNumber : String) : Stmt (Except Failure Bool)
  | insert (clientId invoiceNumber : String) (given : Option (ℤ × ℕ)) :
      Stmt (Except Failure Invoice)
  | commit : Stmt (Except Failure Unit)
  | rollback : Stmt Unit

section Machine

-- the organization of each client, which it never leaves
variable (clients : String → Option String)

/-- A statement waits for the transaction that holds the row or the number it wants. -/
def enabled {β : Type} (i : ℕ) (st : Stmt β) (db : Db) : Bool :=
  match st with
  | .increment organizationId period => !db.counters.locked i (organizationId, period)
  | .insert clientId invoiceNumber _ =>
    !db.inserted.any fun row => row.1 ≠ i && (clients clientId).any fun organizationId =>
      row.2.key = (organizationId, invoiceNumber)
  | _ => true

/-- The trigger sets the organization of a new invoice to the one of its client. -/
def insertInvoice (i : ℕ) (clientId invoiceNumber : String) (given : Option (ℤ × ℕ)) (db : Db) :
    Except Failure Invoice × Db :=
  match clients clientId with
  | none => (.error .foreignKeyViolation, db)
  | some organizationId =>
    let invoice : Invoice := ⟨organizationId, clientId, invoiceNumber, given⟩
    if (db.invoices ++ db.insertedBy i).any (·.key = invoice.key) then
      (.error .uniqueViolation, db)
    else (.ok invoice, { db with inserted := db.inserted ++ [(i, invoice)] })

def increment (i : ℕ) (key : String × ℤ) (db : Db) : Except Failure ℕ × Db :=
  let lastValue := (db.counters.read i key).elim 1 (· + 1)
  if maxInteger < lastValue then (.error .integerOutOfRange, db)
  else (.ok lastValue, { db with counters := db.counters.write i key lastValue })

def exec {β : Type} (i : ℕ) (st : Stmt β) (ch : Choice) (db : Db) : β × Db :=
  match st, ch with
  | .owner clientId, .answered => (.ok (clients clientId), db)
  | .increment organizationId period, .answered => increment i (organizationId, period) db
  | .taken organizationId invoiceNumber, .answered =>
    (.ok ((db.invoices ++ db.insertedBy i).any (·.key = (organizationId, invoiceNumber))), db)
  | .insert clientId invoiceNumber given, .answered =>
    insertInvoice clients i clientId invoiceNumber given db
  | .commit, .answered => (.ok (), db.commit i)
  | .commit, .interrupted => (.error .interrupted, db.rollback i)
  | .rollback, _ => ((), db.rollback i)
  | .owner _, .interrupted => (.error .interrupted, db)
  | .increment _ _, .interrupted => (.error .interrupted, db)
  | .taken _ _, .interrupted => (.error .interrupted, db)
  | .insert _ _ _, .interrupted => (.error .interrupted, db)

abbrev machine : Machine where
  Stmt := Stmt
  Choice := Choice
  State := Db
  enabled := enabled clients
  exec := exec clients

end Machine

/-! ### Programs -/

structure Allocated where
  invoiceNumber : String
  organizationId : String
  given : ℤ × ℕ

def clientNotFound : Failure := .tenancyError 404 "Client not found"

/-- The loop over the attempts that are left. -/
def allocate (organizationId : String) (year : ℤ) : ℕ → Throws Stmt Failure Allocated
  | 0 => throw (.error "Could not allocate a free invoice number")
  | attempts + 1 => do
    let lastValue ← Throws.stmt (.increment organizationId year)
    let invoiceNumber := formatInvoiceNumber year lastValue
    let taken ← Throws.stmt (.taken organizationId invoiceNumber)
    if taken then allocate organizationId year attempts
    else pure ⟨invoiceNumber, organizationId, (year, lastValue)⟩

def allocateInvoiceNumber (clientId : String) (organizationId : Option String) (now : Time) :
    Throws Stmt Failure Allocated := do
  match ← Throws.stmt (.owner clientId) with
  | none => throw clientNotFound
  | some owner =>
    if (organizationId.filter (· ≠ "")).any (· ≠ owner) then throw clientNotFound
    else allocate owner (utcFullYear now) maxAllocationAttempts

/-- The transaction around `body`. -/
def inTransaction {α : Type} (body : Throws Stmt Failure α) : Throws Stmt Failure α :=
  Throws.transaction .commit .rollback body

def createNumberedInvoice (clientId : String) (organizationId : Option String) (now : Time) :
    Throws Stmt Failure Invoice :=
  inTransaction do
    let allocated ← allocateInvoiceNumber clientId organizationId now
    Throws.stmt (.insert clientId allocated.invoiceNumber (some allocated.given))

/-- Inserts invoices under their own numbers, as an import does. -/
def insertInvoices (rows : List (String × String)) : Throws Stmt Failure PUnit :=
  inTransaction (rows.forM fun row => do
    let _ ← Throws.stmt (.insert row.1 row.2 none))

inductive Request
  | create (clientId : String) (organizationId : Option String) (now : Time)
  | insert (rows : List (String × String))

def Request.program : Request → Prog Stmt Unit
  | .create clientId organizationId now =>
    (createNumberedInvoice clientId organizationId now).run.bind fun _ => .ret ()
  | .insert rows => (insertInvoices rows).run.bind fun _ => .ret ()

/-- A program that answers a request. -/
def Requested (p : Prog Stmt Unit) : Prop := ∃ request : Request, p = request.program

/-! ### Numbers are unique, and those of a counter grow in the order of the commits -/

variable {clients : String → Option String} {db : Db} {i j : ℕ} {key : String × ℤ} {n : ℕ}

theorem sequence_eq_some {invoice : Invoice} {organizationId : String} {year : ℤ} :
    invoice.sequence organizationId year = some n ↔
      invoice.organizationId = organizationId ∧ invoice.given = some (year, n) := by
  unfold Invoice.sequence
  by_cases ho : invoice.organizationId = organizationId
  · cases hg : invoice.given with
    | none => simp
    | some given =>
      obtain ⟨year', n'⟩ := given
      by_cases hy : year' = year
      · simp [ho, hy]
      · simp [hy]
  · simp [ho]

theorem pairwise_of_length {l : List ℕ} (h : l.length ≤ 1) : l.Pairwise (· < ·) := by
  match l, h with
  | [], _ => exact .nil
  | [n], _ => exact List.pairwise_singleton _ n

theorem mem_insertedBy {invoice : Invoice} :
    invoice ∈ db.insertedBy i ↔ (i, invoice) ∈ db.inserted := by
  unfold Db.insertedBy
  constructor
  · intro h
    obtain ⟨⟨j, row⟩, hrow, rfl⟩ := List.mem_map.mp h
    obtain ⟨hin, hj⟩ := List.mem_filter.mp hrow
    obtain rfl : j = i := by simpa using hj
    exact hin
  · intro h
    exact List.mem_map.mpr ⟨(i, invoice), List.mem_filter.mpr ⟨h, by simp⟩, rfl⟩

/-! ### The invariant -/

structure Db.Inv (db : Db) : Prop where
  unique : ((db.invoices ++ db.inserted.map (·.2)).map Invoice.key).Nodup
  formatted : ∀ invoice ∈ db.invoices ++ db.inserted.map (·.2), ∀ year n,
    invoice.given = some (year, n) → invoice.invoiceNumber = formatInvoiceNumber year n
  increasing : ∀ organizationId year,
    (db.invoices.filterMap (·.sequence organizationId year)).Pairwise (· < ·)
  counted : ∀ invoice ∈ db.invoices, ∀ organizationId year n,
    invoice.sequence organizationId year = some n →
      ∃ lastValue, db.counters.rows (organizationId, year) = some lastValue ∧ n ≤ lastValue
  ahead : ∀ i key n, db.counters.mine i key = some n → ∀ lastValue, db.counters.rows key =
    some lastValue → lastValue < n
  backed : ∀ i invoice, (i, invoice) ∈ db.inserted → ∀ organizationId year n,
    invoice.sequence organizationId year = some n →
      db.counters.mine i (organizationId, year) = some n
  once : ∀ i organizationId year,
    ((db.insertedBy i).filterMap (·.sequence organizationId year)).length ≤ 1

theorem Db.Inv.rollback (h : db.Inv) : (db.rollback i).Inv := by
  have hsub : (db.rollback i).inserted.Sublist db.inserted := List.filter_sublist
  have hall : (db.invoices ++ (db.rollback i).inserted.map (·.2)).Sublist
      (db.invoices ++ db.inserted.map (·.2)) := (hsub.map _).append_left _
  refine ⟨h.unique.sublist (hall.map _), fun invoice hin => h.formatted invoice (hall.subset hin),
    h.increasing, h.counted, fun j key n hmine => ?_,
      fun j invoice hin organizationId year n hn => ?_,
    fun j organizationId year => ?_⟩
  · by_cases hj : j = i
    · subst hj
      rw [Db.rollback, Versions.mine_rollback] at hmine
      cases hmine
    · rw [Db.rollback, Versions.mine_rollback_other hj] at hmine
      exact h.ahead j key n hmine
  · obtain ⟨hin, hj⟩ := List.mem_filter.mp hin
    have hj : j ≠ i := by simpa using hj
    rw [Db.rollback, Versions.mine_rollback_other hj]
    exact h.backed j invoice hin organizationId year n hn
  · have hby : ((db.rollback i).insertedBy j).Sublist (db.insertedBy j) :=
      (hsub.filter _).map _
    exact (hby.filterMap _).length_le.trans (h.once j organizationId year)

theorem Db.Inv.commit (h : db.Inv) : (db.commit i).Inv := by
  have hback : (db.rollback i).Inv := h.rollback
  have hperm : (db.insertedBy i ++ (db.rollback i).inserted.map (·.2)).Perm
      (db.inserted.map (·.2)) := by
    have hsplit := List.filter_append_perm (fun row : ℕ × Invoice => decide (row.1 = i)) db.inserted
    have hmap := hsplit.map (·.2)
    rw [List.map_append] at hmap
    simpa [Db.insertedBy, Db.rollback] using hmap
  have hall : ((db.commit i).invoices ++ (db.commit i).inserted.map (·.2)).Perm
      (db.invoices ++ db.inserted.map (·.2)) := by
    rw [Db.commit, List.append_assoc]
    exact hperm.append_left _
  have hnew : ∀ invoice ∈ db.insertedBy i, ∀ organizationId year n,
      invoice.sequence organizationId year = some n →
        db.counters.mine i (organizationId, year) = some n := fun invoice hin =>
    h.backed i invoice (mem_insertedBy.mp hin)
  refine ⟨(hall.map _).nodup_iff.mpr h.unique, fun invoice hin => h.formatted invoice
    (hall.mem_iff.mp hin), fun organizationId year => ?_,
    fun invoice hin organizationId year n hn => ?_,
    fun j key n hmine lastValue hrow => ?_, hback.backed, hback.once⟩
  · rw [Db.commit, List.filterMap_append, List.pairwise_append]
    refine ⟨h.increasing organizationId year, ?_, fun m hm n hn => ?_⟩
    · exact pairwise_of_length (h.once i organizationId year)
    · obtain ⟨invoice, hin, hm⟩ := List.mem_filterMap.mp hm
      obtain ⟨invoice', hin', hn⟩ := List.mem_filterMap.mp hn
      obtain ⟨lastValue, hrow, hle⟩ := h.counted invoice hin _ _ m hm
      have hlt := h.ahead i _ n (hnew invoice' hin' _ _ n hn) lastValue hrow
      omega
  · rcases List.mem_append.mp hin with hin | hin
    · obtain ⟨lastValue, hrow, hle⟩ := h.counted invoice hin _ _ n hn
      cases hmine : db.counters.mine i (organizationId, year) with
      | none => exact ⟨lastValue,
        by simp [Db.commit, Versions.commit, Versions.read, hmine, hrow], hle⟩
      | some m =>
        have hlt := h.ahead i _ m hmine lastValue hrow
        exact ⟨m, by simp [Db.commit, Versions.commit, Versions.read, hmine], by omega⟩
    · have hmine := hnew invoice hin _ _ n hn
      exact ⟨n, by simp [Db.commit, Versions.commit, Versions.read, hmine], Nat.le_refl _⟩
  · have hmine' : (db.rollback i).counters.mine j key = some n := hmine
    have hnone : db.counters.mine i key = none := by
      rw [Option.eq_none_iff_forall_ne_some]
      intro m hm
      by_cases hj : j = i
      · subst hj
        rw [Db.rollback, Versions.mine_rollback] at hmine'
        cases hmine'
      · rw [Db.rollback, Versions.mine_rollback_other hj] at hmine'
        exact hj (Versions.mine_unique hmine' hm)
    have hread : db.counters.read i key = some lastValue := hrow
    rw [Versions.read, hnone, Option.none_or] at hread
    exact hback.ahead j key n hmine' lastValue hread

/-- A counter moves on in the transaction that holds it. -/
theorem Db.Inv.increment (h : db.Inv) (hlock : db.counters.locked i key = false)
    (hnone : db.insertedBy i = []) : (increment i key db).2.Inv := by
  unfold Numbering.increment
  dsimp only
  split
  · exact h
  have hahead : ∀ lastValue, db.counters.rows key = some lastValue →
      lastValue < (db.counters.read i key).elim 1 (· + 1) := by
    intro lastValue hrow
    unfold Versions.read
    cases hmine : db.counters.mine i key with
    | none => simp [hrow]
    | some m =>
      have hlt := h.ahead i key m hmine lastValue hrow
      rw [Option.some_or, Option.elim_some]
      omega
  generalize (db.counters.read i key).elim 1 (· + 1) = lastValue at hahead ⊢
  refine ⟨h.unique, h.formatted, h.increasing, h.counted, fun j key' m hmine => ?_,
    fun j invoice hin organizationId year m hm => ?_, h.once⟩
  · dsimp only at hmine ⊢
    by_cases hj : j = i
    · subst hj
      rw [Versions.mine_write] at hmine
      by_cases hkey : key' = key
      · subst hkey
        rw [Function.update_self] at hmine
        obtain rfl := Option.some.inj hmine
        exact hahead
      · rw [Function.update_of_ne hkey] at hmine
        exact h.ahead j key' m hmine
    · rw [Versions.mine_write_other hlock hj] at hmine
      exact h.ahead j key' m hmine
  · have hj : j ≠ i := by
      rintro rfl
      have hin' : invoice ∈ db.insertedBy j := mem_insertedBy.mpr hin
      rw [hnone] at hin'
      cases hin'
    dsimp only
    rw [Versions.mine_write_other hlock hj]
    exact h.backed j invoice hin _ _ m hm

/-- A new invoice has a number of its own, and an allocated one the value of the counter that its
transaction holds. -/
theorem Db.Inv.insert {clientId invoiceNumber : String} {given : Option (ℤ × ℕ)} (h : db.Inv)
    (he : enabled clients i (.insert clientId invoiceNumber given) db = true)
    (hgiven : ∀ year n, given = some (year, n) → db.insertedBy i = [] ∧
      invoiceNumber = formatInvoiceNumber year n ∧ ∀ organizationId,
        clients clientId = some organizationId →
          db.counters.mine i (organizationId, year) = some n) :
    (insertInvoice clients i clientId invoiceNumber given db).2.Inv := by
  unfold insertInvoice
  cases hclient : clients clientId with
  | none => exact h
  | some organizationId =>
    dsimp only
    split
    · exact h
    rename_i hfree
    have hwait : ∀ j row, (j, row) ∈ db.inserted → j ≠ i →
        row.key ≠ (organizationId, invoiceNumber) := by
      simpa [enabled, hclient] using he
    have hnew : ∀ invoice ∈ db.invoices ++ db.inserted.map (·.2),
        invoice.key ≠ (organizationId, invoiceNumber) := by
      intro invoice hin hkey
      rcases List.mem_append.mp hin with hin | hin
      · exact hfree (List.any_eq_true.mpr ⟨invoice, List.mem_append_left _ hin,
          decide_eq_true hkey⟩)
      · obtain ⟨⟨j, row⟩, hrow, rfl⟩ := List.mem_map.mp hin
        by_cases hj : j = i
        · subst hj
          exact hfree (List.any_eq_true.mpr ⟨row, List.mem_append_right _
            (mem_insertedBy.mpr hrow), decide_eq_true hkey⟩)
        · exact hwait j row hrow hj hkey
    generalize hinvoice : Invoice.mk organizationId clientId invoiceNumber given = invoice
    have hkey : invoice.key = (organizationId, invoiceNumber) := by
      rw [← hinvoice]
      rfl
    have hseq : ∀ o year n, invoice.sequence o year = some n →
        db.insertedBy i = [] ∧ db.counters.mine i (o, year) = some n := by
      intro o year n hn
      obtain ⟨ho, hg⟩ := sequence_eq_some.mp hn
      rw [← hinvoice] at ho hg
      obtain ⟨hnone, -, hmine⟩ := hgiven year n hg
      exact ⟨hnone, ho ▸ hmine organizationId hclient⟩
    have hall : db.invoices ++ (db.inserted ++ [(i, invoice)]).map (·.2) =
        (db.invoices ++ db.inserted.map (·.2)) ++ [invoice] := by
      rw [List.map_append, List.append_assoc]
      rfl
    refine ⟨?_, fun row hin => ?_, h.increasing, h.counted, h.ahead,
      fun j row hin o year n hn => ?_,
      fun j o year => ?_⟩
    · dsimp only
      rw [hall, List.map_append, List.nodup_append]
      refine ⟨h.unique, by simp, fun k hk k' hk' => ?_⟩
      obtain ⟨row, hrow, rfl⟩ := List.mem_map.mp hk
      simp only [List.map_cons, List.map_nil, List.mem_singleton] at hk'
      rw [hk', hkey]
      exact hnew row hrow
    · dsimp only at hin
      rw [hall, List.mem_append] at hin
      rcases hin with hin | hin
      · exact h.formatted row hin
      · rw [List.mem_singleton.mp hin, ← hinvoice]
        exact fun year n hg => (hgiven year n hg).2.1
    · rcases List.mem_append.mp hin with hin | hin
      · exact h.backed j row hin o year n hn
      · obtain ⟨rfl, rfl⟩ := Prod.ext_iff.mp (List.mem_singleton.mp hin)
        exact (hseq o year n hn).2
    · have hby : ({ db with inserted := db.inserted ++ [(i, invoice)] } : Db).insertedBy j =
          db.insertedBy j ++ if i = j then [invoice] else [] := by
        by_cases hj : i = j <;> simp [Db.insertedBy, hj]
      rw [hby, List.filterMap_append]
      cases hn : invoice.sequence o year with
      | none =>
        by_cases hj : i = j <;> simpa [hj, hn] using h.once j o year
      | some n =>
        by_cases hj : i = j
        · subst hj
          simp [(hseq o year n hn).1, hn]
        · simpa [hj] using h.once j o year

/-! ### Runs -/

/-- What thread `i` has written and not committed. -/
def Db.own (db : Db) (i : ℕ) : (String × ℤ → Option ℕ) × List Invoice :=
  (db.counters.mine i, db.insertedBy i)

def Db.Idle (db : Db) (i : ℕ) : Prop := db.own i = (fun _ => none, [])

theorem rollback_idle : (db.rollback i).Idle i := by
  refine Prod.ext (funext fun key => Versions.mine_rollback) ?_
  simp [Db.own, Db.insertedBy, Db.rollback]

theorem commit_idle : (db.commit i).Idle i := by
  refine Prod.ext (funext fun key => Versions.mine_rollback) ?_
  simp [Db.own, Db.insertedBy, Db.commit]

theorem rollback_own (hj : j ≠ i) : (db.rollback i).own j = db.own j := by
  refine Prod.ext (Versions.mine_rollback_other hj) ?_
  have hfilter : ∀ row : ℕ × Invoice, (decide (row.1 = j) && decide (row.1 ≠ i)) =
      decide (row.1 = j) := by
    intro row
    by_cases hrow : row.1 = j
    · simp [hrow, hj]
    · simp [hrow]
  simp only [Db.own, Db.insertedBy, Db.rollback, List.filter_filter, hfilter]

theorem increment_own (hlock : db.counters.locked i key = false) (hj : j ≠ i) :
    (increment i key db).2.own j = db.own j := by
  unfold increment
  dsimp only
  split
  · rfl
  · exact Prod.ext (Versions.mine_write_other hlock hj) rfl

theorem insert_own {clientId invoiceNumber : String} {given : Option (ℤ × ℕ)} (hj : j ≠ i) :
    (insertInvoice clients i clientId invoiceNumber given db).2.own j = db.own j := by
  unfold insertInvoice
  cases clients clientId with
  | none => rfl
  | some organizationId =>
    dsimp only
    split
    · rfl
    · simp [Db.own, Db.insertedBy, Ne.symm hj]

/-- A thread's own uncommitted rows are its own. -/
def contract (clients : String → Option String) : Contract (machine clients) where
  inv := Db.Inv
  rely i s t := s.own i = t.own i
  assumed _ := True
  guar _ := True
  fresh i s := s.Idle i
  final i s := s.Idle i
  refl _ _ := rfl
  trans _ _ _ _ h h' := h.trans h'
  fresh_rely _ _ _ h hs := h.symm.trans hs
  final_rely _ _ _ h hs := h.symm.trans hs

variable {α : Type} {st : Stmt α} {ch : Choice}

theorem exec_own (he : enabled clients i st db = true) (hj : j ≠ i) :
    (exec clients i st ch db).2.own j = db.own j := by
  cases ch with
  | answered =>
    cases st with
    | increment organizationId period => exact increment_own (by simpa [enabled] using he) hj
    | insert clientId invoiceNumber given => exact insert_own hj
    | commit => exact rollback_own hj
    | rollback => exact rollback_own hj
    | _ => rfl
  | interrupted =>
    cases st with
    | commit => exact rollback_own hj
    | rollback => exact rollback_own hj
    | _ => rfl

/-- An interrupted statement writes nothing. -/
theorem interrupted_inv (h : db.Inv) : (exec clients i st .interrupted db).2.Inv := by
  cases st with
  | commit => exact h.rollback
  | rollback => exact h.rollback
  | _ => exact h

theorem keeps {o : Occurrence (machine clients)} (he : enabled clients o.thread o.stmt o.pre = true)
    (h : o.post.Inv) : (contract clients).Keeps o :=
  ⟨trivial, h, fun _ hj => (exec_own he hj).symm⟩

theorem commit_safe (s : Db) : (Prog.stmt Stmt.commit).Safe (contract clients) i
    (fun _ t => t.Idle i) s := by
  intro t ch _ hi he _
  cases ch with
  | answered => exact ⟨keeps he (Db.Inv.commit hi), commit_idle⟩
  | interrupted => exact ⟨keeps he (Db.Inv.rollback hi), rollback_idle⟩

theorem rollback_safe (s : Db) : (Prog.stmt Stmt.rollback).Safe (contract clients) i
    (fun _ t => t.Idle i) s := by
  intro t ch _ hi he _
  cases ch with
  | answered => exact ⟨keeps he (Db.Inv.rollback hi), rollback_idle⟩
  | interrupted => exact ⟨keeps he (Db.Inv.rollback hi), rollback_idle⟩

/-- What an allocation hands on: the number of a counter that it holds. -/
structure Allocated.Held (a : Allocated) (i : ℕ) (organizationId : String) (db : Db) : Prop where
  owner : a.organizationId = organizationId
  formatted : a.invoiceNumber = formatInvoiceNumber a.given.1 a.given.2
  mine : db.counters.mine i (organizationId, a.given.1) = some a.given.2
  nothing : db.insertedBy i = []

theorem increment_mine {lastValue : ℕ} (h : (increment i key db).1 = .ok lastValue) :
    (increment i key db).2.counters.mine i key = some lastValue ∧
      (increment i key db).2.insertedBy i = db.insertedBy i := by
  unfold increment at h ⊢
  dsimp only at h ⊢
  split at h
  · cases h
  · rename_i hle
    rw [if_neg hle, Versions.mine_write]
    obtain rfl := Except.ok.inj h
    exact ⟨Function.update_self .., rfl⟩

theorem allocate_safe {organizationId : String} {year : ℤ} (attempts : ℕ) {s : Db}
    (hs : s.insertedBy i = []) : (allocate organizationId year attempts).Safe (contract clients) i
      (fun a t => a.Held i organizationId t) s := by
  induction attempts generalizing s with
  | zero => exact Throws.safe_throw
  | succ attempts ih =>
    refine Throws.safe_stmt_bind fun t ch hr hi he _ => ?_
    have hnone : t.insertedBy i = [] := (congrArg Prod.snd hr).symm.trans hs
    cases ch with
    | interrupted => exact ⟨keeps he (interrupted_inv hi), fun _ h => by cases h⟩
    | answered =>
      have hlock : t.counters.locked i (organizationId, year) = false := by simpa [enabled] using he
      refine ⟨keeps he (Db.Inv.increment hi hlock hnone), fun lastValue hlast => ?_⟩
      obtain ⟨hmine, hsame⟩ := increment_mine hlast
      refine Throws.safe_stmt_bind fun u ch hr' hi' he' _ => ?_
      have hmine' : u.counters.mine i (organizationId, year) = some lastValue :=
        (congrFun (congrArg Prod.fst hr') _).symm.trans hmine
      have hnone' : u.insertedBy i = [] :=
        (congrArg Prod.snd hr').symm.trans (hsame.trans hnone)
      cases ch with
      | interrupted => exact ⟨keeps he' (interrupted_inv hi'), fun _ h => by cases h⟩
      | answered =>
        refine ⟨keeps he' hi', fun taken _ => ?_⟩
        cases taken with
        | true => exact ih hnone'
        | false => exact Throws.safe_pure ⟨rfl, rfl, hmine', hnone'⟩

theorem allocateInvoiceNumber_safe {clientId : String} {organizationId : Option String} {now : Time}
    {s : Db} (hs : s.insertedBy i = []) :
    (allocateInvoiceNumber clientId organizationId now).Safe (contract clients) i
      (fun a t => ∃ owner, clients clientId = some owner ∧ a.Held i owner t) s := by
  refine Throws.safe_stmt_bind fun t ch hr hi he _ => ?_
  have hnone : t.insertedBy i = [] := (congrArg Prod.snd hr).symm.trans hs
  cases ch with
  | interrupted => exact ⟨keeps he (interrupted_inv hi), fun _ h => by cases h⟩
  | answered =>
    refine ⟨keeps he hi, fun owner howner => ?_⟩
    obtain rfl := Except.ok.inj howner
    cases hclient : clients clientId with
    | none => exact Throws.safe_throw
    | some owner =>
      dsimp only
      split
      · exact Throws.safe_throw
      · exact (allocate_safe _ hnone).mono fun a u ha => ⟨owner, rfl, ha⟩

theorem createNumberedInvoice_safe {clientId : String} {organizationId : Option String} {now : Time}
    {s : Db} (hs : s.Idle i) : (createNumberedInvoice clientId organizationId now).run.Safe
      (contract clients) i (fun _ t => t.Idle i) s := by
  refine Throws.safe_transaction (Q := fun _ _ => True) ?_ (fun _ u _ => commit_safe u)
    fun u => rollback_safe u
  refine Throws.Safe.bind ((allocateInvoiceNumber_safe (congrArg Prod.snd hs)).mono ?_)
  rintro a t ⟨owner, hclient, ha⟩
  refine Throws.safe_stmt fun u ch hr hi he _ => ?_
  cases ch with
  | interrupted => exact ⟨keeps he (interrupted_inv hi), fun _ _ => trivial⟩
  | answered =>
    refine ⟨keeps he (Db.Inv.insert hi he fun year n hn => ?_), fun _ _ => trivial⟩
    obtain ⟨rfl, rfl⟩ := Prod.ext_iff.mp (Option.some.inj hn)
    refine ⟨(congrArg Prod.snd hr).symm.trans ha.nothing, ha.formatted, fun organizationId ho => ?_⟩
    obtain rfl := Option.some.inj (hclient.symm.trans ho)
    exact (congrFun (congrArg Prod.fst hr) _).symm.trans ha.mine

theorem insertRows_safe (rows : List (String × String)) (s : Db) :
    (rows.forM fun row => do
      let _ ← Throws.stmt (.insert row.1 row.2 none)
      : Throws Stmt Failure PUnit).Safe (contract clients) i (fun _ _ => True) s := by
  induction rows generalizing s with
  | nil => exact Throws.safe_pure trivial
  | cons row rows ih =>
    refine Throws.Safe.bind ?_
    refine Throws.safe_stmt_bind fun t ch _ hi he _ => ?_
    cases ch with
    | interrupted => exact ⟨keeps he (interrupted_inv hi), fun _ h => by cases h⟩
    | answered =>
      refine ⟨keeps he (Db.Inv.insert hi he fun _ _ hn => by cases hn), fun _ _ => ?_⟩
      exact Throws.safe_pure (ih _)

theorem requested_safe {p : Prog Stmt Unit} (hp : Requested p) {s : Db} (hs : s.Idle i) :
    p.Safe (contract clients) i (fun _ t => t.Idle i) s := by
  obtain ⟨request, rfl⟩ := hp
  cases request with
  | create clientId organizationId now =>
    exact Prog.Safe.bind ((createNumberedInvoice_safe hs).mono fun _ _ h => h)
  | insert rows =>
    refine Prog.Safe.bind (Prog.Safe.mono ?_ fun _ _ h => h)
    exact Throws.safe_transaction (insertRows_safe rows s) (fun _ u _ => commit_safe u)
      fun u => rollback_safe u

/-- A database without open transactions, whose numbers so far are unique. -/
structure Db.Start (db : Db) : Prop where
  settled : db.counters.Settled
  inserted : db.inserted = []
  unique : (db.invoices.map Invoice.key).Nodup
  own : ∀ invoice ∈ db.invoices, invoice.given = none

theorem Db.Start.inv (h : db.Start) : db.Inv := by
  have hseq : ∀ invoice ∈ db.invoices, ∀ o y, invoice.sequence o y = none := by
    intro invoice hin o y
    rw [Option.eq_none_iff_forall_ne_some]
    intro n hn
    have hgiven := (sequence_eq_some.mp hn).2
    rw [h.own invoice hin] at hgiven
    cases hgiven
  have hnone : db.inserted.map (·.2) = [] := by rw [h.inserted]; rfl
  refine ⟨?_, fun invoice hin year n hn => ?_, fun o y => ?_, fun invoice hin o y n hn => ?_,
    fun i key n hn => ?_, fun i invoice hin => ?_, fun i o y => ?_⟩
  · rw [hnone, List.append_nil]
    exact h.unique
  · rw [hnone, List.append_nil] at hin
    rw [h.own invoice hin] at hn
    cases hn
  · rw [List.filterMap_eq_nil_iff.mpr fun invoice hin => hseq invoice hin o y]
    exact .nil
  · rw [hseq invoice hin] at hn
    cases hn
  · rw [h.settled.mine] at hn
    cases hn
  · rw [h.inserted] at hin
    cases hin
  · simp [Db.insertedBy, h.inserted]

theorem Db.Start.idle (h : db.Start) : db.Idle i := by
  refine Prod.ext (funext fun key => h.settled.mine) ?_
  simp [Db.own, Db.insertedBy, h.inserted]

/-- Every reachable database keeps the invariant, and threads that are done hold nothing. -/
theorem run_holds {db₀ : Db} {tr : List (Occurrence (machine clients))}
    {c : Config (machine clients)} (h0 : db₀.Start)
    (h : Run (M := machine clients) Requested db₀ tr c) :
    (contract clients).Holds c :=
  (Run.holds (K := contract clients) (fun _ hp _ _ _ hs => requested_safe hp hs) h0.inv
    (fun _ => h0.idle) h fun _ _ => trivial).1

end Ashbi.Numbering
