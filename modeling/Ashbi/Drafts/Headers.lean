import Ashbi.Drafts.Atomicity
import Ashbi.Drafts.Discipline

/-! What a client is sent is what is stored, and the header of every invoice is what its lines
come to. -/

namespace Ashbi.Drafts

open Interleaving Invoicing

/-- Rows are keyed by their id, and no transaction is open. -/
def Table.Settled (s : Table) : Prop :=
  ∀ id c, s id = some c → c.committed.id = id ∧ c.held = none

theorem Table.Settled.sound {headers : Prop} {s : Table} (h : s.Settled)
    (hm : headers → ∀ id c, s id = some c → c.committed.Matches) : Sound headers s where
  keyed id c hc := (h id c hc).1
  held id c i w hc hw := by
    rw [(h id c hc).2] at hw
    cases hw
  matching := hm

/-- An issued invoice is there with the same status, amounts and payments. -/
def SameInvoice (c : Cell) (id : String) (t : Table) : Prop :=
  ∃ c', t id = some c' ∧ c'.committed.status = c.committed.status ∧
    c'.committed.amounts = c.committed.amounts ∧ c'.payments = c.payments

variable {s₀ : Table} {tr : List (Occurrence machine)} {c : Config machine}

/-- Where every send claims a draft of the total and currency that it read, clients are told the
amounts that are stored, and these stay with the sent invoice. -/
theorem sent_amounts_stored (h : Run Deployed s₀ tr c) (h₀ : s₀.Settled)
    (hunchanged : ∀ o ∈ tr, o.stmt.Unchanged o.pre) :
    (∀ o ∈ tr, o.stmt.Told o.pre) ∧ ∀ o ∈ tr, ∀ id cell, o.pre id = some cell →
      cell.committed.status = .sent → SameInvoice cell id c.state := by
  have hsound : Sound False s₀ := h₀.sound False.elim
  obtain ⟨-, hkeeps⟩ := h.holds (K := contract True False) (fun p hp i s _ _ => deployed_safe hp)
    hsound (fun _ => trivial) fun o ho => ⟨fun _ => hunchanged o ho, False.elim⟩
  have honward : ∀ o ∈ tr, o.pre.Onward o.post := fun o ho =>
    ((hkeeps o ho).2.others (o.thread + 1) (Nat.succ_ne_self _)).onward
  obtain ⟨-, hrest⟩ := h.preserves Table.Onward Table.Onward.refl (fun _ _ _ => Table.Onward.trans)
    honward
  refine ⟨fun o ho => (hkeeps o ho).2.guar trivial, fun o ho id cell hcell hst => ?_⟩
  obtain ⟨cell', hcell', hon, hpay⟩ := (honward o ho).trans (hrest o ho) id cell hcell
  obtain ⟨hst', ha⟩ := hon.frozen (by simp [hst])
  exact ⟨cell', hcell', hst', ha, hpay⟩

/-! ### Sample runs -/

/-- An email tells a client a total that the invoice does not have. -/
def Stmt.misinforms {β : Type} : Stmt β → Table → Bool
  | .deliverInvoiceEmail email, s => (s email.invoiceId).any (·.committed.total ≠ email.total)
  | _, _ => false

theorem not_told_of_misinforms {β : Type} {st : Stmt β} {s : Table} (h : st.misinforms s = true) :
    ¬ st.Told s := by
  cases st with
  | deliverInvoiceEmail email =>
    rintro ⟨c, hc, -, htotal, -⟩
    simp [Stmt.misinforms, hc, htotal] at h
  | _ => cases h

/-- A send that claims finds the total and currency that it read. -/
def Stmt.findsUnchanged {β : Type} : Stmt β → Table → Bool
  | .claimSend seen _ _ _, s => (s seen.id).all fun c =>
    c.committed.total = seen.total && c.committed.currency = seen.currency
  | _, _ => true

theorem unchanged_of_finds {β : Type} {st : Stmt β} {s : Table}
    (h : st.findsUnchanged s = true) : st.Unchanged s := by
  cases st with
  | claimSend seen sentAt viewToken nextDate =>
    intro c hc _
    simpa [Stmt.findsUnchanged, hc] using h
  | _ => trivial

def sampleFirst : FirstRecurringDate := fun anchor _ => anchor

def sampleBody : CreateBody where
  clientId := "client"
  projectId := none
  title := some "Website"
  lineItems := [⟨"Design", "LABOR", 1, 100, none⟩]
  notes := none
  internalNotes := none
  dueDate := none
  issueDate := none
  taxRate := some 0
  taxType := none
  discountAmount := none
  isRecurring := none
  recurringInterval := none
  currency := none

def sampleInvoice : Invoice :=
  (manualDraft sampleFirst "org" "Client" sampleBody 0).row "inv" "INV-2026-0001" "view" 0

def sampleTable : Table := fun id => if id = "inv" then some ⟨sampleInvoice, none, []⟩ else none

theorem sampleTable_settled : sampleTable.Settled := by
  intro id c hc
  unfold sampleTable at hc
  split at hc
  · rename_i hid
    obtain rfl := Option.some.inj hc
    exact ⟨hid.symm, rfl⟩
  · cases hc

/-- Doubles the price of the only line. -/
def sampleEdit : UpdateBody where
  title := none
  lineItems := some [⟨"Design", "LABOR", 1, 200, none⟩]
  notes := none
  internalNotes := none
  dueDate := none
  issueDate := none
  taxRate := none
  taxType := none
  discountAmount := none
  projectId := none
  isRecurring := none
  recurringInterval := none
  currency := none

def sampleChoice (time : Time) : Choice where
  time := time
  text := "token"
  fault := none
  contact := some ⟨"client@example.test", "Client"⟩
  billing := ⟨[], [], [], [], [], [], []⟩
  plan := none
  proposal := none
  accepted := true

def sampleSend : Prog Stmt Unit := (sendDraftInvoice sampleFirst "inv").bind fun _ => .ret ()

def samplePrograms : List (Prog Stmt Unit) :=
  [sampleSend, putInvoice sampleFirst "inv" "org" sampleEdit]

theorem samplePrograms_deployed : ∀ p ∈ samplePrograms, Deployed p := by
  simp only [samplePrograms, List.mem_cons, List.not_mem_nil, or_false, forall_eq_or_imp,
    forall_eq]
  exact ⟨.send sampleFirst "inv", .put sampleFirst "inv" "org" sampleEdit⟩

/-- The send runs alone and tells the client the stored total. -/
theorem sent_amounts_stored_sample : ∃ (tr : List (Occurrence machine)) (c : Config machine),
    Run Deployed sampleTable tr c ∧ tr.length = 9 ∧ ∀ o ∈ tr, o.stmt.Told o.pre := by
  have hrun : Run (M := machine) Deployed sampleTable _ _ := Run.of_schedule samplePrograms
    samplePrograms_deployed (List.replicate 9 (0, sampleChoice 1))
  refine ⟨_, _, hrun, by decide +kernel, ?_⟩
  have hfinds : ((⟨sampleTable, samplePrograms⟩ : Config machine).played
      (List.replicate 9 (0, sampleChoice 1))).all
        (fun o => Stmt.findsUnchanged o.stmt o.pre) = true := by decide +kernel
  exact (sent_amounts_stored hrun sampleTable_settled fun o ho =>
    unchanged_of_finds (List.all_eq_true.mp hfinds o ho)).1

/-- An edit between the read and the claim of a send: the client is emailed the old total. -/
theorem stale_amounts_sent : ∃ (tr : List (Occurrence machine)) (c : Config machine),
    Run Deployed sampleTable tr c ∧ sampleTable.Settled ∧ ∃ o ∈ tr, ¬ o.stmt.Told o.pre := by
  have hrun : Run (M := machine) Deployed sampleTable _ _ := Run.of_schedule samplePrograms
    samplePrograms_deployed ([(0, sampleChoice 1)] ++ List.replicate 8 (1, sampleChoice 1) ++
      List.replicate 8 (0, sampleChoice 2))
  have hmis : ((⟨sampleTable, samplePrograms⟩ : Config machine).played
      ([(0, sampleChoice 1)] ++ List.replicate 8 (1, sampleChoice 1) ++
        List.replicate 8 (0, sampleChoice 2))).any
          (fun o => Stmt.misinforms o.stmt o.pre) = true := by decide +kernel
  obtain ⟨o, ho, hwrong⟩ := List.any_eq_true.mp hmis
  exact ⟨_, _, hrun, sampleTable_settled, o, ho, not_told_of_misinforms hwrong⟩

/-! ### Headers -/

/-- Where retainers bill whole cents, every header matches its lines, and a request that is
answered that it failed has left every header and every line as it was. -/
theorem headers_match_lines (h : Run Deployed s₀ tr c) (h₀ : s₀.Settled)
    (hm₀ : ∀ id cell, s₀ id = some cell → cell.committed.Matches)
    (hcents : ∀ o ∈ tr, o.stmt.WholeCents) :
    (∀ id cell, c.state id = some cell → cell.committed.Matches) ∧
      ∀ k o, tr[k]? = some o → Stmt.fails o.stmt = true →
        ∀ o' ∈ tr.take k, o'.thread = o.thread → SameRows o'.pre o'.post := by
  have hsound : Sound True s₀ := h₀.sound fun _ => hm₀
  obtain ⟨hend, -⟩ := h.holds (K := contract False True) (fun p hp i s _ _ => deployed_safe hp)
    hsound (fun _ => trivial) fun o ho => ⟨False.elim, fun _ => hcents o ho⟩
  exact ⟨hend.inv.matching trivial, fun _ _ hk => failing_edit_unchanged h hk⟩

/-! ### Retainer invoices -/

def samplePlan (amount : ℚ) : RetainerPlan := ⟨"client", 20, none, some amount⟩

def sampleRetainer : Prog Stmt Unit :=
  generateRetainerInvoice "org" "client" .cad "2026-01" "January 2026" 0

def retainerChoice (amount : ℚ) : Choice :=
  { sampleChoice 0 with plan := some (samplePlan amount) }

theorem emptyTable_settled : Table.Settled (fun _ => none) := by
  intro id c hc
  cases hc

theorem sampleRetainer_deployed : ∀ p ∈ [sampleRetainer], Deployed p := by
  intro p hp
  rw [List.mem_singleton.mp hp]
  exact .retainer "org" "client" .cad "2026-01" "January 2026" 0

def Stmt.wholeCents {β : Type} : Stmt β → Bool
  | .createInvoice (.retainer amount) _ => roundMoney amount = amount
  | _ => true

theorem wholeCents_of_eq {β : Type} {st : Stmt β} (h : st.wholeCents = true) : st.WholeCents := by
  cases st with
  | createInvoice origin draft =>
    cases origin with
    | retainer amount =>
      have hround : roundMoney amount = amount := by simpa [Stmt.wholeCents] using h
      exact hround ▸ cents_roundMoney amount
    | _ => trivial
  | _ => trivial

/-- A retainer of 2,000.00: the invoice matches its line. -/
theorem headers_match_lines_sample : ∃ (tr : List (Occurrence machine)) (c : Config machine),
    Run Deployed (fun _ => none) tr c ∧ (c.state "token").isSome = true ∧
      ∀ id cell, c.state id = some cell → cell.committed.Matches := by
  have hrun : Run (M := machine) Deployed (fun _ => none) _ _ := Run.of_schedule [sampleRetainer]
    sampleRetainer_deployed (List.replicate 3 (0, retainerChoice 2000))
  have hcents : ((⟨fun _ => none, [sampleRetainer]⟩ : Config machine).played
      (List.replicate 3 (0, retainerChoice 2000))).all
        (fun o => Stmt.wholeCents o.stmt) = true := by decide +kernel
  refine ⟨_, _, hrun, by decide +kernel, ?_⟩
  exact (headers_match_lines hrun emptyTable_settled (fun id c hc => by cases hc) fun o ho =>
    wholeCents_of_eq (List.all_eq_true.mp hcents o ho)).1

/-- A retainer of 99.999 is billed unrounded. -/
theorem retainer_header_unrounded : ∃ (tr : List (Occurrence machine)) (c : Config machine),
    Run Deployed (fun _ => none) tr c ∧
      ∃ id cell, c.state id = some cell ∧ ¬ cell.committed.Matches := by
  have hrun : Run (M := machine) Deployed (fun _ => none) _ _ := Run.of_schedule [sampleRetainer]
    sampleRetainer_deployed (List.replicate 3 (0, retainerChoice (99999 / 1000)))
  have hwrong : (((⟨fun _ => none, [sampleRetainer]⟩ : Config machine).play
      (List.replicate 3 (0, retainerChoice (99999 / 1000)))).state "token").any (fun cell =>
        cell.committed.subtotal ≠ (totalsOf cell.committed.lineItems cell.committed.taxRate
          cell.committed.discountAmount).subtotal) = true := by decide +kernel
  generalize hcell : (((⟨fun _ => none, [sampleRetainer]⟩ : Config machine).play
      (List.replicate 3 (0, retainerChoice (99999 / 1000)))).state "token") = found at hwrong
  cases found with
  | none => cases hwrong
  | some cell =>
    refine ⟨_, _, hrun, "token", cell, hcell, fun hm => ?_⟩
    simp [(Draft.matches_iff.mp hm).1] at hwrong

end Ashbi.Drafts
