import Ashbi.Interleaving.Watch
import Ashbi.Overdue.Statements

/-! The claims of an invoice lie on one another; an accepted one is never taken off. -/

namespace Ashbi.Overdue

open Interleaving Invoicing Sql

/-- A claim that took a stage: the row that it found, the payments of that moment, and what its run
had listed. -/
structure Claim where
  thread : ℕ
  now : Time
  stage : Stage
  listed : Listed
  found : Invoice
  paid : List ℚ
  deriving DecidableEq

def Claim.id (claim : Claim) : ℕ := claim.listed.invoice.id

/-- The thread and the invoice. -/
def Claim.key (claim : Claim) : ℕ × ℕ := (claim.thread, claim.id)

inductive Event
  | started (thread : ℕ) (now : Time)
  | claimed (claim : Claim)
  | sent (thread id : ℕ) (stage : Stage) (total : ℚ) (accepted ok : Bool)
  | released (thread id : ℕ)
  deriving DecidableEq

@[simp] def Event.thread : Event → ℕ
  | .started thread _ | .sent thread _ _ _ _ _ | .released thread _ => thread
  | .claimed claim => claim.thread

def Stmt.events (i : ℕ) {β : Type} (st : Stmt β) (choice : Choice) (s : State) : List Event :=
  match st with
  | .start now => [.started i now]
  | .claim listed stage now =>
    match s.invoice listed.invoice.id with
    | some row =>
      if row.claimable listed stage then
        [.claimed ⟨i, now, stage, listed, row, s.paid listed.invoice.id⟩]
      else []
    | none => []
  | .sendOverdueEmail id stage _ email => [.sent i id stage email.total choice.accepted choice.ok]
  | .release listed _ now =>
    if (s.invoice listed.invoice.id).any (·.reminderSentAt = some now) then
      [.released i listed.invoice.id]
    else []
  | _ => []

/-- The events of an executed statement. -/
def events (o : Occurrence machine) : List Event := o.stmt.events o.thread o.choice o.pre

/-! ### Parts of a history -/

@[simp] def Event.start? : Event → Option (ℕ × Time)
  | .started thread now => some (thread, now)
  | _ => none

@[simp] def Event.claim? : Event → Option Claim
  | .claimed claim => some claim
  | _ => none

@[simp] def Event.sent? : Event → Option (ℕ × ℕ)
  | .sent thread id _ _ _ _ => some (thread, id)
  | _ => none

/-- The stage of an email about the invoice that the provider has accepted. -/
@[simp] def Event.accepted? (id : ℕ) : Event → Option Stage
  | .sent _ id' stage _ accepted _ => if id' = id ∧ accepted = true then some stage else none
  | _ => none

def starts (h : List Event) : List (ℕ × Time) := h.filterMap (·.start?)
def claims (h : List Event) : List Claim := h.filterMap (·.claim?)
def sends (h : List Event) : List (ℕ × ℕ) := h.filterMap (·.sent?)

/-- The stages of an invoice's accepted emails, in their order. -/
def accepted (id : ℕ) (h : List Event) : List Stage := h.filterMap (·.accepted? id)

/-- The claims of an invoice that have not been released. -/
def active (id : ℕ) (h : List Event) : List Claim :=
  (claims h).filter fun claim => claim.id = id && decide (.released claim.thread id ∉ h)

section Parts

variable {h : List Event} {e : Event}

@[simp] theorem starts_concat : starts (h ++ [e]) = starts h ++ e.start?.toList := by
  rw [starts, List.filterMap_append]
  cases e <;> rfl

@[simp] theorem claims_concat : claims (h ++ [e]) = claims h ++ e.claim?.toList := by
  rw [claims, List.filterMap_append]
  cases e <;> rfl

@[simp] theorem sends_concat : sends (h ++ [e]) = sends h ++ e.sent?.toList := by
  rw [sends, List.filterMap_append]
  cases e <;> rfl

theorem accepted_concat (id : ℕ) : accepted id (h ++ [e]) = accepted id h ++
    (e.accepted? id).toList := by
  rw [accepted, List.filterMap_append, accepted]
  congr 1

theorem mem_claims {claim : Claim} : claim ∈ claims h ↔ .claimed claim ∈ h := by
  simp only [claims, List.mem_filterMap]
  constructor
  · rintro ⟨e, he, heq⟩
    cases e with
    | claimed claim' =>
      obtain rfl := Option.some.inj heq
      exact he
    | _ => cases heq
  · intro hclaimed
    exact ⟨_, hclaimed, rfl⟩

theorem mem_sends {i id : ℕ} :
    (i, id) ∈ sends h ↔ ∃ stage total accepted ok, .sent i id stage total accepted ok ∈ h := by
  simp only [sends, List.mem_filterMap]
  constructor
  · rintro ⟨e, he, heq⟩
    cases e with
    | sent i' id' stage total accepted ok =>
      obtain ⟨rfl, rfl⟩ := Prod.mk.inj (Option.some.inj heq)
      exact ⟨stage, total, accepted, ok, he⟩
    | _ => cases heq
  · rintro ⟨stage, total, accepted, ok, hsent⟩
    exact ⟨_, hsent, rfl⟩

theorem mem_accepted {id : ℕ} {stage : Stage} :
    stage ∈ accepted id h ↔ ∃ i total ok, .sent i id stage total true ok ∈ h := by
  simp only [accepted, List.mem_filterMap]
  constructor
  · rintro ⟨e, he, heq⟩
    cases e with
    | sent i id' stage' total accepted ok =>
      obtain ⟨⟨rfl, rfl⟩, rfl⟩ : (id' = id ∧ accepted = true) ∧ stage' = stage := by
        simpa using heq
      exact ⟨i, total, ok, he⟩
    | _ => cases heq
  · rintro ⟨i, total, ok, hsent⟩
    exact ⟨_, hsent, by simp⟩

theorem mem_active {id : ℕ} {claim : Claim} :
    claim ∈ active id h ↔ claim ∈ claims h ∧ claim.id = id ∧ .released claim.thread id ∉ h := by
  simp only [active, List.mem_filter, Bool.and_eq_true, decide_eq_true_eq]

/-- An event that is neither a claim nor a release of the invoice. -/
theorem active_concat {id : ℕ} (hclaim : ∀ claim ∈ e.claim?, claim.id ≠ id)
    (hreleased : ∀ i, e ≠ .released i id) : active id (h ++ [e]) = active id h := by
  rw [active, claims_concat, List.filter_append]
  have hnone : e.claim?.toList.filter (fun claim => claim.id = id &&
      decide (.released claim.thread id ∉ h ++ [e])) = [] := by
    rw [List.filter_eq_nil_iff]
    intro claim hmem
    simp [hclaim claim (Option.mem_toList.mp hmem)]
  rw [hnone, List.append_nil]
  refine List.filter_congr fun claim _ => ?_
  have hsame : (.released claim.thread id ∉ h ++ [e]) ↔ .released claim.thread id ∉ h := by
    rw [List.mem_append, List.mem_singleton, not_or]
    exact and_iff_left fun heq => hreleased _ heq.symm
  simp only [hsame]

/-- A new claim lies on the others. -/
theorem active_claimed {claim : Claim} (hnew : .released claim.thread claim.id ∉ h) :
    active claim.id (h ++ [.claimed claim]) = active claim.id h ++ [claim] := by
  have hsame (i : ℕ) : (.released i claim.id ∉ h ++ [.claimed claim]) ↔
      .released i claim.id ∉ h := by simp
  rw [active, claims_concat, List.filter_append]
  congr 1
  · exact List.filter_congr fun other _ => by simp only [hsame]
  · exact List.filter_eq_self.mpr fun other hother => by
      obtain rfl := List.mem_singleton.mp hother
      simp [hnew]

/-- A release takes the claim of its thread away. -/
theorem active_released {i id : ℕ} :
    active id (h ++ [.released i id]) = (active id h).filter (·.thread ≠ i) := by
  have hclaims : claims (h ++ [.released i id]) = claims h := by simp
  rw [active, active, List.filter_filter, hclaims]
  refine List.filter_congr fun claim _ => ?_
  have hsame : (.released claim.thread id ∉ h ++ [.released i id]) ↔
      claim.thread ≠ i ∧ .released claim.thread id ∉ h := by
    simp only [List.mem_append, List.mem_singleton, Event.released.injEq, and_true, not_or]
    exact and_comm
  simp only [hsame, Bool.decide_and]
  rw [Bool.and_left_comm]

end Parts

/-! ### The claims of an invoice -/

/-- The claims lie on one another, with what the row says of them. -/
inductive Stacked : List Claim → Option Time → Option Time → Prop
  | empty : Stacked [] none none
  | reminder (claim : Claim) (stage : claim.stage = .reminder)
      (before : claim.listed.invoice.reminderSentAt = none) :
      Stacked [claim] (some claim.now) none
  | escalation (claims : List Claim) (claim : Claim) (stage : claim.stage = .escalation)
      (below : Stacked claims claim.listed.invoice.reminderSentAt none) :
      Stacked (claims ++ [claim]) (some claim.now) (some claim.now)

/-- The amounts that an email is about are those at the moment of its claim. -/
structure Claim.Exact (claim : Claim) : Prop where
  status : claim.found.status.payable = true
  balance : balanceDue claim.listed.invoice.total claim.listed.payments =
    balanceDue claim.found.total claim.paid

/-- The invoices are what the history has made of them; `totals` are their totals. -/
structure Ledger (totals : ℕ → ℚ) (s : State) (h : List Event) : Prop where
  ids : (s.invoices.map (·.id)).Nodup
  totals : ∀ row ∈ s.invoices, row.total = totals row.id
  startedOnce : ((starts h).map Prod.snd).Nodup
  started : ∀ start ∈ starts h, start.2 ∈ s.started
  claimStarted : ∀ claim ∈ claims h, (claim.thread, claim.now) ∈ starts h
  claimedOnce : ((claims h).map (·.key)).Nodup
  exact : ∀ claim ∈ claims h, claim.Exact
  releasedClaimed : ∀ i id, .released i id ∈ h → ∃ claim ∈ claims h, claim.key = (i, id)
  stacked : ∀ row ∈ s.invoices, Stacked (active row.id h) row.reminderSentAt row.overdueEscalatedAt
  sentOnce : (sends h).Nodup
  sentClaimed : ∀ i id stage total accepted ok, .sent i id stage total accepted ok ∈ h →
    ∃ claim ∈ claims h, claim.key = (i, id) ∧ claim.stage = stage ∧
      total = balanceDue claim.listed.invoice.total claim.listed.payments
  acceptedKept : ∀ i id stage total ok, .sent i id stage total true ok ∈ h → .released i id ∉ h
  /-- One reminder at most, then one escalation at most. -/
  order : ∀ id, (accepted id h).Sublist [.reminder, .escalation]

/-! ### Steps of the rows -/

/-- What the payments, voids and other updates leave of a row. -/
def Invoice.chase (row : Invoice) : ℕ × ℚ × Option Time × Option Time :=
  (row.id, row.total, row.reminderSentAt, row.overdueEscalatedAt)

section Steps

variable {totals : ℕ → ℚ} {s t : State} {h : List Event} {row : Invoice}

theorem chase_inj {a b : Invoice} (heq : a.chase = b.chase) : a.id = b.id ∧ a.total = b.total ∧
    a.reminderSentAt = b.reminderSentAt ∧ a.overdueEscalatedAt = b.overdueEscalatedAt := by
  simpa [Invoice.chase] using heq

/-- Statements that leave the claims of every row. -/
theorem Ledger.same (hl : Ledger totals s h)
    (hchase : t.invoices.map (·.chase) = s.invoices.map (·.chase))
    (hstarted : ∀ now ∈ s.started, now ∈ t.started) : Ledger totals t h := by
  have hids : t.invoices.map (·.id) = s.invoices.map (·.id) := by
    have hfst := congrArg (List.map Prod.fst) hchase
    rwa [List.map_map, List.map_map] at hfst
  have hold (row : Invoice) (hrow : row ∈ t.invoices) :
      ∃ old ∈ s.invoices, old.chase = row.chase := by
    have hmem : row.chase ∈ s.invoices.map (·.chase) := hchase ▸ List.mem_map_of_mem hrow
    exact List.mem_map.mp hmem
  refine { hl with
    ids := hids ▸ hl.ids
    totals := fun row hrow => ?_
    started := fun start hstart => hstarted _ (hl.started start hstart)
    stacked := fun row hrow => ?_ }
  · obtain ⟨old, hmem, heq⟩ := hold row hrow
    obtain ⟨hid, htotal, -⟩ := chase_inj heq
    rw [← hid, ← htotal]
    exact hl.totals old hmem
  · obtain ⟨old, hmem, heq⟩ := hold row hrow
    obtain ⟨hid, -, hsent, hescalated⟩ := chase_inj heq
    rw [← hid, ← hsent, ← hescalated]
    exact hl.stacked old hmem

theorem Ledger.invoice_eq (hl : Ledger totals s h) (hrow : row ∈ s.invoices) :
    s.invoice row.id = some row := (find?_eq_some hl.ids).mpr ⟨hrow, rfl⟩

theorem invoice_mem {id : ℕ} (hfind : s.invoice id = some row) : row ∈ s.invoices ∧ row.id = id :=
  ⟨List.mem_of_find?_eq_some hfind, key_of_find? hfind⟩

/-- An update of the row of an invoice. -/
theorem Ledger.mem_update (hl : Ledger totals s h) {selects : Invoice → Bool}
    {set : Invoice → Invoice} (hrow : row ∈ s.invoices) (hselects : selects row = true)
    {next : Invoice} : next ∈ (s.update row.id selects set).invoices ↔
      next = set row ∨ (next ∈ s.invoices ∧ next.id ≠ row.id) := by
  apply mem_update_single hl.ids hrow
  · simp [hselects]
  · intro other hother hboth
    rw [Bool.and_eq_true, decide_eq_true_eq] at hboth
    exact row_eq hl.ids hother hrow hboth.1

theorem Ledger.update_ids (hl : Ledger totals s h) {id : ℕ} {selects : Invoice → Bool}
    {set : Invoice → Invoice} (hset : ∀ row, (set row).id = row.id) :
    ((s.update id selects set).invoices.map (·.id)).Nodup := by
  rw [State.update, map_update fun row _ _ => hset row]
  exact hl.ids

theorem Ledger.update_totals (hl : Ledger totals s h) {id : ℕ} {selects : Invoice → Bool}
    {set : Invoice → Invoice} (hset : ∀ row, (set row).id = row.id ∧ (set row).total = row.total) :
    ∀ row ∈ (s.update id selects set).invoices, row.total = totals row.id := by
  intro row hrow
  rcases Sql.mem_update.mp hrow with ⟨old, hold, -, rfl⟩ | ⟨hold, -⟩
  · rw [(hset old).1, (hset old).2]
    exact hl.totals old hold
  · exact hl.totals row hold

/-- An update whose condition the row of the invoice does not meet. -/
theorem update_none {id : ℕ} {selects : Invoice → Bool} {set : Invoice → Invoice}
    (hl : Ledger totals s h) (hnone : ∀ row, s.invoice id = some row → selects row = false) :
    s.update id selects set = s := by
  have hrows : Sql.update (fun row => row.id = id && selects row) set s.invoices = s.invoices := by
    apply update_of_none
    intro row hrow
    by_cases hid : row.id = id
    · rw [hnone row (hid ▸ hl.invoice_eq hrow), Bool.and_false]
    · simp [hid]
  rw [State.update, hrows]

end Steps

end Ashbi.Overdue
