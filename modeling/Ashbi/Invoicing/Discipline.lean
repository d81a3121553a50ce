import Ashbi.Interleaving.History
import Ashbi.Interleaving.Rules
import Ashbi.Invoicing.Programs
import Ashbi.Invoicing.Statements

/-! What every program of a deployment knows when it runs a statement. -/

namespace Ashbi.Invoicing

open Interleaving

/-- How a transaction leaves the rows that it found when it took the row lock. -/
inductive Moves : Operation → Ledger → Ledger → Prop
  /-- A repeated checkout event. -/
  | same (c : Ledger) : Moves .recordCompletedCheckout c c
  | pay {op : Operation} (hop : op = .recordManualPayment ∨ op = .recordCompletedCheckout)
      {c : Ledger} (hopen : c.invoice.status.payable = true) (source : PaymentSource)
      (method : String) (paidAt : Time) (fullyPaid : Bool) (p : Payment)
      (outbox : List InvoicePaid) :
      Moves op c ⟨(Write.payment source method paidAt fullyPaid).data c.invoice,
        c.payments ++ [p], outbox⟩
  | payLinked {c : Ledger} (hopen : c.invoice.status.payable = true) (source : PaymentSource)
      (method : String) (paidAt : Time) (sessionId : String) (p : Payment)
      (outbox : List InvoicePaid) :
      Moves .recordCompletedCheckout c ⟨(Write.linkSession sessionId).data
        ((Write.payment source method paidAt true).data c.invoice), c.payments ++ [p], outbox⟩
  | void {c : Ledger} (seen : Invoice) (voidedAt : Time)
      (hv : c.invoice.status.voidable = true) :
      Moves (.voidInvoice seen) c
        { c with invoice := (Write.void voidedAt seen.status).data c.invoice }
  | undo {c : Ledger} {now : Time} (hc : undoVoidCheck c.invoice now = .ok ()) :
      Moves .undoVoid c { c with invoice := (Write.undoVoid c.invoice).data c.invoice }

/-- What the writes outside of a transaction write; `sends` says whether drafts are sent. -/
def Write.Promised (sends : Prop) : Write → Prop
  | .send _ _ => sends
  | .finishSend _ => sends
  | .storeCheckout attempt data => data.attempt = attempt + 1
  | .markOverdue status => status = .sent ∨ status = .viewed
  | _ => False

variable {α β ε : Type} {sends : Prop}

/-- What thread `i` knows when it runs the statement. -/
def Promised (sends : Prop) (i : ℕ) (st : Stmt β) (s : Store) : Prop :=
  match st with
  | .updateMany false write => write.Promised sends ∧ s.heldBy i = false
  | .commit op => ∀ l, s.locked = some (i, l) → Moves op s.committed l
  | _ => True

/-- How one statement changes the committed rows. -/
inductive Change (sends : Prop) (i : ℕ) (s : Store) : {β : Type} → Stmt β → Store → Prop
  | same {β : Type} (st : Stmt β) {t : Store} (h : t.committed = s.committed) :
    Change sends i s st t
  | write (w : Write) {t : Store} (hp : w.Promised sends) (hf : w.filter s.committed.invoice = true)
      (h : t.committed = { s.committed with invoice := w.data s.committed.invoice }) :
      Change sends i s (.updateMany false w) t
  | commit (op : Operation) {t : Store} {l : Ledger} (hl : s.locked = some (i, l))
      (hm : Moves op s.committed l) (h : t.committed = l) : Change sends i s (.commit op) t

theorem view_idle {i : ℕ} {s : Store} (h : s.heldBy i = false) : s.view i = s.committed := by
  cases hl : s.locked with
  | none => exact view_free hl
  | some x =>
    have hx : x.1 ≠ i := by simpa [Store.heldBy, hl] using h
    simp [Store.view, hl, hx]

/-- Only promised writes and commits change committed rows. -/
theorem exec_change {i : ℕ} {st : Stmt β} {ch : Choice} {s : Store} (hp : Promised sends i st s) :
    Change sends i s st (exec i st ch s).2 := by
  cases st with
  | updateMany tx write =>
    cases tx with
    | true =>
      apply Change.same
      rcases updateMany_cases s i true write ch.conflict with h | ⟨_, h⟩
      · simp [exec, h]
      · simp [exec, h, Store.write]
    | false =>
      have hcases := updateMany_cases s i false write ch.conflict
      rw [view_idle hp.2] at hcases
      rcases hcases with h | ⟨hf, h⟩
      · exact .same _ (by simp [exec, h])
      · exact .write write hp.1 hf (by simp [exec, h, Store.write])
  | commit op =>
    cases hl : s.locked with
    | none => exact .same _ (by simp [exec, Store.commit, hl])
    | some x =>
      obtain ⟨j, l⟩ := x
      by_cases hij : j = i
      · subst hij
        exact .commit op hl (hp l hl) (by simp [exec, Store.commit, hl])
      · exact .same _ (by simp [exec, Store.commit, hl, hij])
  | createPayment data =>
    apply Change.same
    simp only [exec, Store.createPayment]
    split <;> rfl
  | recordInvoicePaid payment =>
    apply Change.same
    simp only [exec]
    split <;> rfl
  | rollback =>
    apply Change.same
    simp only [exec, Store.rollback]
    split <;> rfl
  | createSession key params =>
    apply Change.same
    simp only [exec, Store.createSession]
    split
    · rfl
    · rfl
    · split <;> rfl
  | _ => exact .same _ rfl

/-! ### What a thread has committed and retired -/

inductive Mark
  /-- A manual payment committed, with this session on the row. -/
  | paid (stored : Option String)
  /-- A void committed; its request has read `seen`. -/
  | voided (seen stored : Option String)
  | expired (sessionId : String)
  deriving DecidableEq

/-- The session that the operation still has to retire. -/
def Mark.owes : Mark → Option (Option String)
  | .paid stored => some stored
  | .voided seen _ => some seen
  | .expired _ => none

def Operation.marks (op : Operation) (c : Ledger) : List Mark :=
  match op with
  | .recordManualPayment => [.paid c.invoice.stripeCheckoutSessionId]
  | .voidInvoice seen => [.voided seen.stripeCheckoutSessionId c.invoice.stripeCheckoutSessionId]
  | _ => []

def markOf (i : ℕ) (st : Stmt β) (s : Store) : List Mark :=
  match st with
  | .commit op => if s.heldBy i then op.marks s.committed else []
  | .expireSession sessionId => [.expired sessionId]
  | _ => []

def mark (o : Occurrence machine) : List Mark := markOf o.thread o.stmt o.pre

/-- Whatever was owed has been retired, and nothing else after it. -/
def Closed : List Mark → Prop
  | [] => True
  | m :: rest => (∀ owed, m.owes = some owed → rest = owed.toList.map .expired) ∧ Closed rest

def Quiet (ms : List Mark) : Prop := ∀ m ∈ ms, m.owes = none

theorem Quiet.closed_append {ms rest : List Mark} (h : Quiet ms) (hr : Closed rest) :
    Closed (ms ++ rest) := by
  induction ms with
  | nil => exact hr
  | cons m ms ih =>
    refine ⟨fun owed ho => ?_, ih fun m' hm => h m' (List.mem_cons_of_mem _ hm)⟩
    rw [h m List.mem_cons_self] at ho
    cases ho

theorem Quiet.closed {ms : List Mark} (h : Quiet ms) : Closed ms := by
  have hnil : Closed [] := trivial
  simpa using h.closed_append hnil

theorem Quiet.append {ms ms' : List Mark} (h : Quiet ms) (h' : Quiet ms') : Quiet (ms ++ ms') := by
  intro m hm
  rcases List.mem_append.mp hm with hm | hm
  · exact h m hm
  · exact h' m hm

theorem quiet_expired (sessionId : String) : Quiet [.expired sessionId] := by
  intro m hm
  rw [List.mem_singleton.mp hm]
  rfl

theorem Closed.retired {a b : List Mark} {m : Mark} {owed : Option String}
    (h : Closed (a ++ m :: b)) (ho : m.owes = some owed) : b = owed.toList.map .expired := by
  induction a with
  | nil => exact h.1 owed ho
  | cons _ a ih => exact ih h.2

/-! ### The contract -/

abbrev World := Store × (ℕ → List Mark)

/-- What the other threads leave alone: the rows under a lock, and the thread's marks. -/
structure Rely (i : ℕ) (s t : World) : Prop where
  held : ∀ l, s.1.locked = some (i, l) →
    t.1.locked = some (i, l) ∧ t.1.committed = s.1.committed
  free : s.1.heldBy i = false → t.1.heldBy i = false
  marks : t.2 i = s.2 i

theorem Rely.refl (i : ℕ) (s : World) : Rely i s s := ⟨fun _ h => ⟨h, rfl⟩, id, rfl⟩

theorem Rely.trans {i : ℕ} {s t u : World} (h : Rely i s t) (h' : Rely i t u) : Rely i s u := by
  refine ⟨fun l hl => ?_, fun hf => h'.free (h.free hf), h'.marks.trans h.marks⟩
  obtain ⟨ht, hc⟩ := h.held l hl
  obtain ⟨hu, hc'⟩ := h'.held l ht
  exact ⟨hu, hc'.trans hc⟩

/-- The contract of a deployment; it assumes nothing about its runs. -/
def custody (sends : Prop) : Contract (machine.logged mark) where
  inv _ := True
  rely := Rely
  assumed _ := True
  guar o := Promised sends o.thread o.stmt o.pre.1
  fresh i s := s.1.heldBy i = false ∧ s.2 i = []
  final i s := s.1.heldBy i = false ∧ Closed (s.2 i)
  refl := Rely.refl
  trans _ _ _ _ := Rely.trans
  fresh_rely _ _ _ hr h := ⟨hr.free h.1, hr.marks.trans h.2⟩
  final_rely _ _ _ hr h := ⟨hr.free h.1, by rw [hr.marks]; exact h.2⟩

abbrev Safe (sends : Prop) (i : ℕ) (p : Prog Stmt α) (Q : α → World → Prop) (s : World) : Prop :=
  Prog.Safe (M := machine.logged mark) (custody sends) i p Q s

variable {i j : ℕ} {s : Store} {st : Stmt β} {ch : Choice}

theorem heldBy_of_locked {l : Ledger} (h : s.locked = some (i, l)) : s.heldBy i = true := by
  simp [Store.heldBy, h]

theorem locked_of_heldBy (h : s.heldBy i = true) : ∃ l, s.locked = some (i, l) := by
  obtain ⟨⟨j, l⟩, hl, hj⟩ := (Option.any_eq_true _ _).mp h
  obtain rfl : j = i := by simpa using hj
  exact ⟨l, hl⟩

theorem heldBy_false (hij : j ≠ i) {l : Ledger} (h : s.locked = some (i, l)) :
    s.heldBy j = false := by
  simpa [Store.heldBy, h] using fun e => hij e.symm

/-- Another thread's lock keeps a statement from changing rows. -/
theorem exec_held {l : Ledger} (hij : j ≠ i) (hl : s.locked = some (j, l))
    (he : enabled i st s = true) :
    (exec i st ch s).2.locked = some (j, l) ∧ (exec i st ch s).2.committed = s.committed := by
  have hi : s.heldBy i = false := heldBy_false (fun e => hij e.symm) hl
  have hview : s.view i = s.committed := by simp [Store.view, hl, hij]
  cases st with
  | updateMany tx write =>
    simp [enabled, hl, hi] at he
    simp [exec, Store.updateMany, hview, he, hl]
  | createPayment data => simp [enabled, hl, hi] at he
  | recordInvoicePaid payment => simp [enabled, hl, hi] at he
  | commit op => simp [exec, Store.commit, hl, hij]
  | rollback => simp [exec, Store.rollback, hi, hl]
  | createSession key params =>
    simp only [exec, Store.createSession]
    split
    · exact ⟨hl, rfl⟩
    · exact ⟨hl, rfl⟩
    · split <;> exact ⟨hl, rfl⟩
  | _ => exact ⟨hl, rfl⟩

/-- Only thread `i` can come to hold the lock by a statement of thread `i`. -/
theorem exec_free (hij : j ≠ i) (hj : s.heldBy j = false) :
    (exec i st ch s).2.heldBy j = false := by
  have hwrite : ∀ tx l, (s.write i tx l).heldBy j = false := by
    intro tx l
    cases tx with
    | false => exact hj
    | true => simpa [Store.write, Store.heldBy] using fun e => hij e.symm
  cases st with
  | updateMany tx write =>
    simp only [exec, Store.updateMany]
    split
    · split <;> first | exact hwrite _ _ | exact hj
    · split <;> first | exact hwrite _ _ | exact hj
  | createPayment data =>
    simp only [exec, Store.createPayment]
    split
    · exact hj
    · exact hwrite true _
  | recordInvoicePaid payment =>
    simp only [exec]
    split
    · exact hwrite true _
    · exact hj
  | commit op =>
    simp only [exec, Store.commit]
    split
    · split
      · rfl
      · exact hj
    · exact hj
  | rollback =>
    simp only [exec, Store.rollback]
    split
    · rfl
    · exact hj
  | createSession key params =>
    simp only [exec, Store.createSession]
    split
    · exact hj
    · exact hj
    · split <;> exact hj
  | _ => exact hj

/-- The world after a statement of thread `i`. -/
def World.after (w : World) (i : ℕ) (st : Stmt β) (ch : Choice) : World :=
  ((exec i st ch w.1).2, Function.update w.2 i (w.2 i ++ markOf i st w.1))

@[simp] theorem after_marks {w : World} : (w.after i st ch).2 i = w.2 i ++ markOf i st w.1 := by
  simp [World.after]

theorem after_rely {w : World} (hij : j ≠ i) (he : enabled i st w.1 = true) :
    Rely j w (w.after i st ch) := by
  refine ⟨fun l hl => exec_held hij hl he, exec_free hij, ?_⟩
  simp [World.after, Function.update_of_ne hij]

/-- The rule for one statement. -/
theorem safe_call {next : β → Prog Stmt α} {Q : α → World → Prop} {w : World}
    (h : ∀ (t : World) (ch : Choice), Rely i w t → Promised sends i st t.1 ∧
      Safe sends i (next (exec i st ch t.1).1) Q (t.after i st ch)) :
    Safe sends i (.call st next) Q w := by
  intro t ch hr _ he _
  obtain ⟨hp, hn⟩ := h t ch hr
  exact ⟨⟨hp, trivial, fun j hj => after_rely hj he⟩, hn⟩

end Ashbi.Invoicing
