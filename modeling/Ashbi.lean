import Ashbi.Outbox.Accounting
import Ashbi.Invoicing.PriceFreshness
import Ashbi.Invoicing.Retirement
import Ashbi.Invoicing.VoidUndo
import Ashbi.Invoicing.Settlement
import Ashbi.Billing.ReviewedWork
import Ashbi.Mfa.GuessBudget
import Ashbi.Governance.KillSwitch
import Ashbi.Pages.DeepMove
import Ashbi.Recurrence.Order
import Ashbi.Records.FieldOrder
import Ashbi.Records.Fit
import Ashbi.Tools.AtMostOnce
import Ashbi.Drafts.Headers
import Ashbi.Estimates.Lifecycle
import Ashbi.Dependencies.Acyclic
import Ashbi.Boards.Listing
import Ashbi.Boards.Stages
import Ashbi.Collections.Conserved
import Ashbi.Numbering.Progress
import Ashbi.Timers.Recorded
import Ashbi.Repeats.CopiedOnce
import Ashbi.Escalation.SentOnce
import Ashbi.BreakGlass.Recovered
import Ashbi.Review.Revoked
import Ashbi.Emails.Resend
import Ashbi.Agents.CalledOnce
import Ashbi.Overdue.Chased
import Ashbi.Mfa.Base32
import Ashbi.Canonical.Hash
import Ashbi.Imports.CsvLines
import Ashbi.RecurringInvoices.Runs
import Ashbi.Pilot.Drafts
import Ashbi.Imports.MarkupThreads
import Ashbi.Audit.Truncation
import Ashbi.Stripe.Balanced
import Ashbi.Notes.Reachable
import Ashbi.Mfa.Enrollment
import Ashbi.Gmail.SentOnce
import Ashbi.Tasks.View
