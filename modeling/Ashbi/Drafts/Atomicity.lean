import Ashbi.Drafts.Programs
import Ashbi.Interleaving.Budget
import Ashbi.Interleaving.History

/-! An edit that fails leaves everything as it was. -/

namespace Ashbi.Drafts

open Interleaving

variable {α β : Type} {i : ℕ}

/-- Changes committed rows, or answers a request. -/
def Stmt.loud : Stmt β → Bool
  | .createInvoice _ _ | .copyRecurring _ _ _ | .commit _ | .claimSend _ _ _ _ | .finishSend _ _
  | .reply _ => true
  | _ => false

/-- Answers that a request failed. -/
def Stmt.fails : Stmt β → Bool
  | .reply (.error _) => true
  | _ => false

/-- The statement takes effect on committed rows. -/
def Stmt.publishes : Stmt β → Choice → Bool
  | .createInvoice _ _, _ | .copyRecurring _ _ _, _ | .claimSend _ _ _ _, _
  | .finishSend _ _, _ => true
  | .commit _, ch => ch.fault.isNone
  | _, _ => false

/-- The committed rows are those of before. -/
def SameRows (s t : Table) : Prop := ∀ id, (t id).map (·.committed) = (s id).map (·.committed)

theorem SameRows.refl (s : Table) : SameRows s s := fun _ => rfl

theorem sameRows_hold {s : Table} {id : String} {c : Cell} {held : Option (ℕ × Invoice)}
    (hc : s id = some c) : SameRows s (s.put id { c with held := held }) := by
  intro id'
  by_cases hid : id' = id
  · subst hid
    simp [Table.put, hc]
  · simp [Table.put, Function.update_of_ne hid]

theorem inTransaction_rows {s : Table} {id : String} {fault : Option Fault}
    {f : Invoice → β × Invoice} : SameRows s (s.inTransaction i id fault f).2 := by
  unfold Table.inTransaction
  split
  · exact .refl s
  · exact .refl s
  rename_i c hc
  split
  · exact .refl s
  split
  · exact sameRows_hold hc
  · exact .refl s

theorem exec_rows {st : Stmt β} {ch : Choice} {s : Table} (h : st.publishes ch = false) :
    SameRows s (exec i st ch s).2 := by
  cases st with
  | createInvoice origin draft => cases h
  | copyRecurring seen nextDate draft => cases h
  | claimSend seen sentAt viewToken nextDate => cases h
  | finishSend id paymentLink => cases h
  | claimDraft id organizationId observed updatedAt =>
    simp only [exec]
    split
    · exact .refl s
    simp only [Table.claimDraft]
    split
    · exact .refl s
    rename_i c hc
    split
    · exact sameRows_hold hc
    · exact .refl s
  | findLineItems id => exact inTransaction_rows
  | deleteLineItems id => exact inTransaction_rows
  | createLineItems id lineItems => exact inTransaction_rows
  | updateInvoice id data updatedAt totals => exact inTransaction_rows
  | commit id =>
    simp only [exec]
    split
    · exact .refl s
    · rename_i hfault
      simp [Stmt.publishes, hfault] at h
  | rollback id =>
    simp only [exec, Table.rollback]
    split
    · exact .refl s
    rename_i c hc
    split
    · exact sameRows_hold hc
    · exact .refl s
  | _ => exact .refl s

/-! ### A failing request has published nothing -/

def published (o : Occurrence machine) : List Unit :=
  if o.stmt.publishes o.choice then [()] else []

/-- The table, with what every thread has published. -/
abbrev Publishers := Table × (ℕ → List Unit)

def failsClean : Contract (machine.logged published) where
  inv _ := True
  rely i s t := t.2 i = s.2 i
  assumed _ := True
  guar o := Stmt.fails o.stmt = true → o.pre.2 o.thread = []
  fresh i s := s.2 i = []
  refl _ _ := rfl
  trans _ _ _ _ h h' := h'.trans h
  fresh_rely _ _ _ h hf := h.trans hf

theorem publishes_loud {st : Stmt β} {ch : Choice} (h : st.loud = false) :
    st.publishes ch = false := by
  cases st <;> first | rfl | cases h

theorem keeps_log {st : Stmt β} {ch : Choice} {s : Publishers}
    (h : st.fails = true → s.2 i = []) : failsClean.Keeps ⟨i, st, ch, s⟩ :=
  ⟨h, trivial, fun _ hj => Function.update_of_ne hj _ _⟩

/-- A program that is never loud leaves the thread as clean as it was. -/
theorem quiet_safe {p : Prog Stmt α} {s : Publishers} (hp : p.AtMost Stmt.loud 0)
    (hs : s.2 i = []) : Prog.Safe (M := machine.logged published) failsClean i p
      (fun _ t => t.2 i = []) s := by
  refine Prog.AtMost.safe (M := machine.logged published) (K := failsClean)
    (J := fun i s => s.2 i = []) (fun _ _ _ hr h => hr.trans h) (fun _ _ h => h)
    (fun _ _ _ => trivial) ?_ hp hs
  intro β i st ch t hloud ht _ _ _
  have hpub : st.publishes ch = false := publishes_loud hloud
  exact ⟨keeps_log fun _ => ht, by simp [Machine.logged, published, hpub, ht]⟩

/-- A program that never answers with a failure has nothing to show. -/
theorem unfailing_safe {p : Prog Stmt α} {s : Publishers} (hp : p.AtMost Stmt.fails 0) :
    Prog.Safe (M := machine.logged published) failsClean i p (fun _ _ => True) s := by
  refine Prog.AtMost.safe (M := machine.logged published) (K := failsClean)
    (J := fun _ _ => True) (fun _ _ _ _ _ => trivial) (fun _ _ _ => trivial)
    (fun _ _ _ => trivial) ?_ hp trivial
  intro β i st ch t hfails _ _ _ _
  refine ⟨keeps_log fun h => ?_, trivial⟩
  rw [hfails] at h
  cases h

/-! ### Which requests are quiet -/

section Quiet

variable {p : Request α} {f : α → Request β}

abbrev Quiet (p : Request α) : Prop := p.run.AtMost Stmt.loud 0

theorem Quiet.bind (hp : Quiet p) (hf : ∀ a, Quiet (f a)) : Quiet (p >>= f) := by
  unfold Quiet
  rw [Throws.run_bind]
  refine Prog.AtMost.bind (n := 0) (m := 0) hp fun r => ?_
  cases r with
  | ok a => exact hf a
  | error e => trivial

theorem quiet_query {st : Stmt (Except Fault α)} (h : st.loud = false) : Quiet (query st) :=
  Prog.atMost_call h fun _ => trivial

theorem quiet_read {st : Stmt α} (h : st.loud = false) : Quiet (Throws.read st) :=
  Prog.atMost_call h fun _ => trivial

theorem quiet_throw {failure : Failure} : Quiet (throw failure : Request α) := trivial

theorem quiet_pure {a : α} : Quiet (pure a : Request α) := trivial

theorem recalculated_quiet {invoice : Invoice} {edit : Edit} :
    Quiet (recalculated invoice edit) := by
  unfold recalculated
  split
  · exact quiet_pure
  · split
    · exact (quiet_query rfl).bind fun _ => quiet_pure
    · exact quiet_pure

theorem replaceLineItems_quiet {id : String} {lineItems : Option (List LineItem)} :
    Quiet (replaceLineItems id lineItems) := by
  cases lineItems with
  | none => exact quiet_pure
  | some lineItems => exact (quiet_query rfl).bind fun _ => quiet_query rfl

/-- A request that answers with a failure has published nothing. -/
def Clean (i : ℕ) (r : Except Failure α) (s : Publishers) : Prop :=
  (∃ failure, r = .error failure) → s.2 i = []

theorem rollback_quiet {id : String} {failure : Failure} :
    (Prog.call (.rollback id) fun _ => .ret (.error failure) :
      Prog Stmt (Except Failure α)).AtMost Stmt.loud 0 :=
  Prog.atMost_call rfl fun _ => trivial

/-- A transaction publishes with its commit only, and then it has not failed. -/
theorem transaction_clean {id : String} {body : Request α} {s : Publishers} (hbody : Quiet body)
    (hs : s.2 i = []) :
    Prog.Safe (M := machine.logged published) failsClean i (transaction id body).run
      (Clean i) s := by
  apply Prog.Safe.bind
  apply (quiet_safe hbody hs).mono
  intro r t ht
  cases r with
  | error failure =>
    exact (quiet_safe rollback_quiet ht).mono fun _ _ h _ => h
  | ok a =>
    intro u ch hr _ _ _
    have hu : u.2 i = [] := hr.trans ht
    refine ⟨keeps_log fun _ => hu, ?_⟩
    cases hfault : ch.fault with
    | none =>
      simp only [Machine.logged, exec, hfault]
      rintro ⟨failure, he⟩
      cases he
    | some e =>
      simp only [Machine.logged, exec, hfault]
      refine (quiet_safe rollback_quiet ?_).mono fun _ _ h _ => h
      simp [published, Stmt.publishes, hfault, hu]

theorem Quiet.clean {s : Publishers} (hp : Quiet p) (hs : s.2 i = []) :
    Prog.Safe (M := machine.logged published) failsClean i p.run (Clean i) s :=
  (quiet_safe hp hs).mono fun _ _ h _ => h

theorem Quiet.then_clean {s : Publishers} (hp : Quiet p) (hs : s.2 i = [])
    (hf : ∀ a t, t.2 i = [] → Prog.Safe (M := machine.logged published) failsClean i (f a).run
      (Clean i) t) :
    Prog.Safe (M := machine.logged published) failsClean i (p >>= f).run (Clean i) s := by
  rw [Throws.run_bind]
  apply Prog.Safe.bind
  apply (quiet_safe hp hs).mono
  intro r t ht
  cases r with
  | ok a => exact hf a t ht
  | error failure => exact fun _ => ht

theorem claimedEdit_quiet {invoice : Invoice} {edit : Edit} {organizationId : String}
    {updatedAt : Time} : Quiet (do
      let count ← query (.claimDraft invoice.id organizationId invoice.updatedAt updatedAt)
      if count ≠ 1 then throw conflict
      else
        let totals ← recalculated invoice edit
        replaceLineItems invoice.id edit.lineItems
        query (.updateInvoice invoice.id edit.data updatedAt totals)) := by
  refine (quiet_query rfl).bind fun count => ?_
  split
  · exact quiet_throw
  · exact recalculated_quiet.bind fun totals =>
      replaceLineItems_quiet.bind fun _ => quiet_query rfl

theorem updateDraftInvoice_clean {invoice : Invoice} {edit : Edit} {organizationId : String}
    {s : Publishers} (hs : s.2 i = []) :
    Prog.Safe (M := machine.logged published) failsClean i
      (updateDraftInvoice invoice edit organizationId).run (Clean i) s := by
  unfold updateDraftInvoice
  split
  · exact quiet_throw.clean hs
  refine (quiet_read rfl).then_clean hs fun now t ht => ?_
  simp only []
  split
  · exact quiet_throw.clean ht
  split
  · exact quiet_throw.clean ht
  · exact transaction_clean claimedEdit_quiet ht

theorem editInvoice_clean {first : FirstRecurringDate} {id organizationId : String}
    {body : UpdateBody} {s : Publishers} (hs : s.2 i = []) :
    Prog.Safe (M := machine.logged published) failsClean i
      (editInvoice first id organizationId body).run (Clean i) s := by
  refine (quiet_read rfl).then_clean hs fun found t ht => ?_
  cases found with
  | none => exact quiet_throw.clean ht
  | some invoice =>
    simp only []
    split
    · exact quiet_throw.clean ht
    split
    · exact quiet_throw.clean ht
    · exact updateDraftInvoice_clean ht

end Quiet

theorem putInvoice_clean {first : FirstRecurringDate} {id organizationId : String}
    {body : UpdateBody} {s : Publishers} (hs : s.2 i = []) :
    Prog.Safe (M := machine.logged published) failsClean i
      (putInvoice first id organizationId body) (fun _ _ => True) s := by
  apply Prog.Safe.bind
  apply (editInvoice_clean hs).mono
  intro result t ht u ch hr _ _ _
  refine ⟨keeps_log fun hfails => ?_, trivial⟩
  cases result with
  | ok invoice => cases hfails
  | error failure => exact hr.trans (ht ⟨failure, rfl⟩)

/-! ### Requests that answer nothing -/

theorem findDue_unfailing {now : Time} {ids : List String} {next : List Invoice → Prog Stmt Unit}
    (hn : ∀ dueInvoices, (next dueInvoices).AtMost Stmt.fails 0) :
    ((findDue now ids).bind next).AtMost Stmt.fails 0 := by
  induction ids generalizing next with
  | nil => exact hn []
  | cons id ids ih =>
    simp only [findDue, Prog.bind_def, Prog.bind_assoc, Prog.stmt_bind, Prog.pure_def,
      Prog.ret_bind, Prog.call_bind]
    exact Prog.atMost_call rfl fun _ => ih fun _ => hn _

theorem generateCopies_unfailing {first : FirstRecurringDate} {now : Time}
    {dueInvoices : List Invoice} : (generateCopies first now dueInvoices).AtMost Stmt.fails 0 := by
  induction dueInvoices with
  | nil => trivial
  | cons invoice rest ih => exact Prog.atMost_call rfl fun _ => ih

theorem announce_unfailing {invoice : Invoice} {contact : Option Contact} {token : String} :
    (announce invoice contact token).AtMost Stmt.fails 0 := by
  refine Prog.atMost_call rfl fun _ => Prog.atMost_call rfl fun _ => ?_
  cases contact with
  | none => exact Prog.atMost_call rfl fun _ => trivial
  | some contact => exact Prog.atMost_call rfl fun _ => Prog.atMost_call rfl fun _ => trivial

theorem send_unfailing {first : FirstRecurringDate} {id : String} :
    ((sendDraftInvoice first id).bind fun _ => .ret ()).AtMost Stmt.fails 0 := by
  refine Prog.AtMost.bind (n := 0) (m := 0) ?_ fun _ => trivial
  refine Prog.atMost_call rfl fun found => ?_
  cases found with
  | none => trivial
  | some invoice =>
    simp only [Prog.ret_bind]
    split
    · trivial
    refine Prog.atMost_call rfl fun _ => Prog.atMost_call rfl fun _ =>
      Prog.atMost_call rfl fun _ => Prog.atMost_call rfl fun _ => ?_
    simp only [Prog.ret_bind]
    split
    · trivial
    · exact Prog.AtMost.bind (n := 0) (m := 0) announce_unfailing fun _ => trivial

theorem deployed_clean {p : Prog Stmt Unit} (hp : Deployed p) {s : Publishers}
    (hs : s.2 i = []) :
    Prog.Safe (M := machine.logged published) failsClean i p (fun _ _ => True) s := by
  cases hp with
  | put first id organizationId body => exact putInvoice_clean hs
  | send first id => exact unfailing_safe send_unfailing
  | recurring first ids =>
    exact unfailing_safe <| Prog.atMost_call rfl fun _ =>
      findDue_unfailing fun _ => generateCopies_unfailing
  | manual first organizationId body =>
    refine unfailing_safe <| Prog.atMost_call rfl fun found => ?_
    cases found with
    | none => trivial
    | some name => exact Prog.atMost_call rfl fun _ => Prog.atMost_call rfl fun _ => trivial
  | proposal organizationId proposalId =>
    refine unfailing_safe <| Prog.atMost_call rfl fun found => ?_
    cases found with
    | none => trivial
    | some proposal => exact Prog.atMost_call rfl fun _ => Prog.atMost_call rfl fun _ => trivial
  | unbilled digests title fingerprint rawInput actor =>
    refine unfailing_safe <| Prog.atMost_call rfl fun db => ?_
    simp only [Prog.ret_bind]
    split
    · trivial
    · split
      · trivial
      · exact Prog.atMost_call rfl fun _ => Prog.atMost_call rfl fun _ => trivial
  | retainer organizationId clientId currency period monthLabel dueDate =>
    refine unfailing_safe <| Prog.atMost_call rfl fun found => ?_
    simp only [Prog.ret_bind]
    split
    · trivial
    · split
      · trivial
      · exact Prog.atMost_call rfl fun _ => Prog.atMost_call rfl fun _ => trivial

variable {s₀ : Table} {tr : List (Occurrence machine)} {c : Config machine}

/-- Before a request is answered that it failed, none of its statements has changed a row. -/
theorem failing_edit_unchanged (h : Run Deployed s₀ tr c) {k : ℕ} {o : Occurrence machine}
    (hk : tr[k]? = some o) (hfails : Stmt.fails o.stmt = true) :
    ∀ o' ∈ tr.take k, o'.thread = o.thread → SameRows o'.pre o'.post := by
  obtain ⟨tr', rfl, hlog⟩ := h.logged published
  obtain ⟨-, hmarks⟩ := Run.marks_eq (M := machine) hlog
  have hfresh : ∀ i, failsClean.fresh i (s₀, fun _ => []) := fun _ => rfl
  have hkeeps := (Run.holds (M := machine.logged published) (K := failsClean)
    (fun p hp i s _ hs => deployed_clean hp hs) trivial hfresh hlog fun _ _ => trivial).2
  rw [List.getElem?_map, Option.map_eq_some_iff] at hk
  obtain ⟨q, hq, rfl⟩ := hk
  have hclean : q.pre.2 q.thread = [] :=
    (hkeeps q (List.mem_of_getElem? hq)).2.guar hfails
  rw [hmarks k q hq] at hclean
  intro o' ho' hthread
  apply exec_rows
  by_contra hpub
  have hmem : () ∈ marksOf published ((tr'.map (·.plain)).take k) q.thread :=
    mem_marksOf.mpr ⟨o', ho', hthread, by simp [published, hpub]⟩
  rw [hclean] at hmem
  cases hmem

end Ashbi.Drafts
