import Mathlib.Algebra.BigOperators.GroupWithZero.Action
import Mathlib.Algebra.Group.Prod
import Ashbi.Invoicing.Row
import Ashbi.Keyed.Rows

/-! The collection statistics of the invoices, and what their buckets add up to. -/

namespace Ashbi.Collections

open Invoicing

/-- A stored amount of money; every writer of a total or a payment rounds it to cents. -/
abbrev Amount := { q : ℚ // Cents q }

/-- An invoice with its payments, as far as the statistics read them. -/
structure Invoice where
  projectId : Option String
  status : InvoiceStatus
  currency : String
  dueDate : Option Time
  total : Amount
  deletedAt : Option Time
  payments : List Amount

/-- What `invoicePortfolioWhere` answers: the identities of the projects of a portfolio. -/
inductive Portfolio
  | everything
  | projects (ids : List String)
  | unclassified (ids : List String)

def Portfolio.wants (portfolio : Portfolio) (invoice : Invoice) : Bool :=
  match portfolio with
  | .everything => true
  | .projects ids => invoice.projectId.any ids.contains
  | .unclassified ids => invoice.projectId.all ids.contains

/-- `SENT_INVOICE_STATUSES`. -/
def sentStatus : InvoiceStatus → Bool
  | .sent | .viewed => true
  | _ => false

/-- Stored as overdue, or sent and past its due date. -/
def isOverdueInvoice (now : Time) (invoice : Invoice) : Bool :=
  invoice.status = .overdue || (sentStatus invoice.status && invoice.dueDate.any (· < now))

inductive Key
  | draft | sent | paid | overdue | void
  deriving DecidableEq

structure Bucket where
  count : ℤ
  amount : ℚ
  deriving DecidableEq

structure Buckets where
  bucket : Key → Bucket
  totalOutstanding : ℚ

def emptyBuckets : Buckets := ⟨fun _ => ⟨0, 0⟩, 0⟩

def Buckets.set (buckets : Buckets) (key : Key) (bucket : Bucket) : Buckets :=
  { buckets with bucket := fun key' => if key' = key then bucket else buckets.bucket key' }

def Buckets.add (key : Key) (count : ℤ) (amount : ℚ) (buckets : Buckets) : Buckets :=
  buckets.set key ⟨(buckets.bucket key).count + count,
    roundMoney ((buckets.bucket key).amount + amount)⟩

/-- A payment leaves less of a bucket outstanding. -/
def Buckets.pay (key : Key) (amount : ℚ) (buckets : Buckets) : Buckets :=
  buckets.set key ⟨(buckets.bucket key).count, roundMoney ((buckets.bucket key).amount - amount)⟩

def Buckets.close (buckets : Buckets) : Buckets :=
  ⟨buckets.bucket,
    roundMoney ((buckets.bucket .sent).amount + (buckets.bucket .overdue).amount)⟩

/-- `totals` and `byCurrency`, in the order in which the currencies came up. -/
structure Books where
  totals : Buckets
  byCurrency : List (String × Buckets)

def Books.empty : Books := ⟨emptyBuckets, []⟩

def currencyOf (currency : String) : String := if currency = "" then "CAD" else currency

/-- The buckets of a currency; they are empty when the currency comes up. -/
def Books.buckets (books : Books) (currency : String) : Buckets :=
  ((books.byCurrency.find? (·.1 = currency)).map (·.2)).getD emptyBuckets

/-- The bucket of a stored status. -/
def keyOf : InvoiceStatus → Key
  | .draft => .draft
  | .sent | .viewed => .sent
  | .overdue => .overdue
  | .paid => .paid
  | .void => .void

section Queries

variable (invoices : List Invoice) (portfolio : Portfolio) (now : Time)

/-- The rows that a top-level read finds: those that are not deleted. -/
def active : List Invoice :=
  invoices.filter fun invoice => invoice.deletedAt.isNone && portfolio.wants invoice

structure Stats where
  totals : Key → ℤ × Option ℚ
  totalOutstanding : Option ℚ
  currencies : List String
  mixedCurrency : Bool
  byCurrency : List (String × Buckets)

end Queries

/-- The buckets of a currency in the answer. -/
def Stats.buckets (stats : Stats) (currency : String) : Buckets :=
  ((stats.byCurrency.find? (·.1 = currency)).map (·.2)).getD emptyBuckets

/-! ### What the buckets add up to -/

open Invoicing Keyed

variable {books books' : Books} {c : String} {key : Key}

/-! ### Books as sums -/

/-- The count and the amount of a bucket. -/
def Books.entry (books : Books) (c : String) (key : Key) : ℤ × ℚ :=
  (((books.buckets c).bucket key).count, ((books.buckets c).bucket key).amount)

def Books.InCents (books : Books) : Prop := ∀ c key, Cents (books.entry c key).2

/-- One step adds these counts and amounts, and stays in cents. -/
def Posts (books books' : Books) (e : String → Key → ℤ × ℚ) : Prop :=
  books.InCents → books'.InCents ∧ ∀ c key, books'.entry c key = books.entry c key + e c key

theorem Posts.foldl {α : Type} {f : Books → α → Books} {e : α → String → Key → ℤ × ℚ}
    (hstep : ∀ x books, Posts books (f books x) (e x)) (xs : List α) (books : Books) :
    Posts books (xs.foldl f books) fun c key => (xs.map fun x => e x c key).sum := by
  intro hcents
  induction xs generalizing books with
  | nil => exact ⟨hcents, fun c key => by simp⟩
  | cons x xs ih =>
    obtain ⟨hcents', hentry⟩ := hstep x books hcents
    obtain ⟨hlast, hrest⟩ := ih (f books x) hcents'
    refine ⟨hlast, fun c key => ?_⟩
    dsimp only at hrest ⊢
    rw [List.foldl_cons, hrest, hentry, List.map_cons, List.sum_cons, add_assoc]

section Loops

variable (invoices : List Invoice) (portfolio : Portfolio) (now : Time)

/-- One invoice with its total. -/
def Invoice.whole (invoice : Invoice) : ℤ × ℚ := (1, invoice.total.val)

/-- What is past due leaves one bucket for another. -/
def moved : Key → ℤ
  | .sent => -1
  | .overdue => 1
  | _ => 0

/-- What the recorded payments of an invoice come to. -/
def Invoice.paid (invoice : Invoice) : ℚ := (invoice.payments.map (·.val)).sum

/-- The bucket that the payments of an open invoice are taken from. -/
def paidKey (invoice : Invoice) : Key := if isOverdueInvoice now invoice then .overdue else .sent

/-- The bucket an invoice belongs to. -/
def bucketOf (invoice : Invoice) : Key :=
  if isOverdueInvoice now invoice then .overdue else keyOf invoice.status

/-- The invoices of a currency that the portfolio wants, deleted or not. -/
def matching (c : String) : List Invoice :=
  invoices.filter fun invoice => portfolio.wants invoice && currencyOf invoice.currency = c

/-- What one invoice leaves in a bucket of its currency. -/
def Invoice.part (key : Key) (invoice : Invoice) : ℤ × ℚ :=
  (if invoice.deletedAt.isNone && bucketOf now invoice = key then invoice.whole else 0) +
    if invoice.status.payable && paidKey now invoice = key then (0, -invoice.paid) else 0

end Loops

/-! ### A deleted invoice with a payment -/

/-- An invoice of 100 with a payment of 40. -/
def sampleInvoice (deletedAt : Option Time) : Invoice where
  projectId := none
  status := .sent
  currency := "CAD"
  dueDate := none
  total := ⟨100, 10000, by norm_num⟩
  deletedAt := deletedAt
  payments := [⟨40, 4000, by norm_num⟩]

end Ashbi.Collections
