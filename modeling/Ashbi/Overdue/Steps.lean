import Ashbi.Overdue.Claims

/-! What a run of the job makes of the claims. -/

namespace Ashbi.Overdue

open Interleaving Invoicing Sql

/-! ### Claims on one another -/

section Stacks

variable {claims : List Claim} {sentAt escalatedAt : Option Time}

theorem Stacked.nil_of_none (h : Stacked claims none escalatedAt) :
    claims = [] ∧ escalatedAt = none := by
  generalize hsent : (none : Option Time) = sentAt at h
  cases h with
  | empty => exact ⟨rfl, rfl⟩
  | reminder claim stage before => cases hsent
  | escalation claims claim stage below => cases hsent

/-- The claim that the row tells of. -/
theorem Stacked.top {time : Time} (h : Stacked claims (some time) escalatedAt) :
    ∃ rest claim, claims = rest ++ [claim] ∧ claim.now = time ∧
      (claim.stage = .reminder → rest = [] ∧ escalatedAt = none ∧
        claim.listed.invoice.reminderSentAt = none) ∧
      (claim.stage = .escalation → Stacked rest claim.listed.invoice.reminderSentAt none) := by
  generalize hsent : some time = sentAt at h
  cases h with
  | empty => cases hsent
  | reminder claim stage before =>
    refine ⟨[], claim, rfl, (Option.some.inj hsent).symm, fun _ => ⟨rfl, rfl, before⟩, fun hs => ?_⟩
    rw [stage] at hs
    cases hs
  | escalation claims claim stage below =>
    refine ⟨claims, claim, rfl, (Option.some.inj hsent).symm, fun hs => ?_, fun _ => below⟩
    rw [stage] at hs
    cases hs

/-- No stage is claimed twice at a time. -/
theorem Stacked.stage_inj (h : Stacked claims sentAt escalatedAt) {a b : Claim} (ha : a ∈ claims)
    (hb : b ∈ claims) (hstage : a.stage = b.stage) : a = b := by
  cases h with
  | empty => cases ha
  | reminder claim stage before =>
    rw [List.mem_singleton.mp ha, List.mem_singleton.mp hb]
  | escalation claims claim stage below =>
    -- below an escalation lies a reminder at most
    have hbelow : ∀ x ∈ claims, x.stage = .reminder ∧ ∀ y ∈ claims, y = x := by
      generalize hescalated : (none : Option Time) = escalatedAt at below
      generalize claim.listed.invoice.reminderSentAt = before at below
      cases below with
      | empty => simp
      | reminder reminder stage' before =>
        intro x hx
        rw [List.mem_singleton.mp hx]
        exact ⟨stage', fun y hy => List.mem_singleton.mp hy⟩
      | escalation _ _ _ _ => cases hescalated
    rcases List.mem_append.mp ha with ha | ha <;> rcases List.mem_append.mp hb with hb | hb
    · exact (hbelow b hb).2 a ha
    · rw [List.mem_singleton.mp hb, stage, (hbelow a ha).1] at hstage
      cases hstage
    · rw [List.mem_singleton.mp ha, stage, (hbelow b hb).1] at hstage
      cases hstage
    · rw [List.mem_singleton.mp ha, List.mem_singleton.mp hb]

end Stacks

section Steps

variable {totals : ℕ → ℚ} {s : State} {h : List Event} {claim : Claim}

/-! ### Events that are no claim -/

theorem Ledger.begins (hl : Ledger totals s h) {i : ℕ} {now : Time} (hnew : now ∉ s.started) :
    Ledger totals { s with started := s.started ++ [now] } (h ++ [.started i now]) := by
  have hclaims : claims (h ++ [.started i now]) = claims h := by simp
  have hactive (id : ℕ) : active id (h ++ [.started i now]) = active id h :=
    active_concat (fun _ hmem => by cases hmem) fun _ heq => by cases heq
  constructor
  case ids => exact hl.ids
  case totals => exact hl.totals
  case startedOnce =>
    rw [starts_concat]
    refine nodup_map_concat hl.startedOnce fun start hstart heq => ?_
    have heq : start.2 = now := heq
    exact hnew (heq ▸ hl.started start hstart)
  case started =>
    intro start hstart
    rw [starts_concat] at hstart
    rcases List.mem_append.mp hstart with hstart | hstart
    · exact List.mem_append_left _ (hl.started start hstart)
    · obtain rfl := List.mem_singleton.mp hstart
      exact List.mem_append_right _ List.mem_cons_self
  case claimStarted =>
    intro claim hclaim
    rw [starts_concat]
    exact List.mem_append_left _ (hl.claimStarted claim (hclaims ▸ hclaim))
  case claimedOnce => exact hclaims ▸ hl.claimedOnce
  case exact => exact hclaims ▸ hl.exact
  case releasedClaimed =>
    intro j id hmem
    rw [hclaims]
    exact hl.releasedClaimed j id (by simpa using hmem)
  case stacked =>
    intro row hrow
    rw [hactive]
    exact hl.stacked row hrow
  case sentOnce => simpa using hl.sentOnce
  case sentClaimed =>
    intro j id stage total accepted ok hmem
    rw [hclaims]
    exact hl.sentClaimed j id stage total accepted ok (by simpa using hmem)
  case acceptedKept =>
    intro j id stage total ok hmem
    have hold := hl.acceptedKept j id stage total ok (by simpa using hmem)
    simpa using hold
  case order =>
    intro id
    rw [accepted_concat]
    simpa using hl.order id

/-- Claims of one invoice with one reading of the clock are one claim. -/
theorem Ledger.claim_eq (hl : Ledger totals s h) {a b : Claim} (ha : a ∈ claims h)
    (hb : b ∈ claims h) (hid : a.id = b.id) (hnow : a.now = b.now) : a = b := by
  have hstart := row_eq hl.startedOnce (hl.claimStarted a ha) (hl.claimStarted b hb) hnow
  refine row_eq hl.claimedOnce ha hb ?_
  rw [Claim.key, Claim.key, hid, (Prod.mk.inj hstart).1]

/-- The claim that an open claim's row tells of is on top. -/
theorem Ledger.on_top (hl : Ledger totals s h) (hclaim : claim ∈ claims h) {row : Invoice}
    (hrow : row ∈ s.invoices) (hid : row.id = claim.id)
    (hsent : row.reminderSentAt = some claim.now) :
    ∃ rest, active claim.id h = rest ++ [claim] ∧
      (claim.stage = .reminder → rest = [] ∧ row.overdueEscalatedAt = none ∧
        claim.listed.invoice.reminderSentAt = none) ∧
      (claim.stage = .escalation → Stacked rest claim.listed.invoice.reminderSentAt none) := by
  have hstacked := hl.stacked row hrow
  rw [hid, hsent] at hstacked
  obtain ⟨rest, top, hactive, hnow, hreminder, hescalation⟩ := hstacked.top
  have htop : top ∈ active claim.id h := hactive ▸ List.mem_append_right _ List.mem_cons_self
  obtain ⟨hmem, htopId, -⟩ := mem_active.mp htop
  obtain rfl := hl.claim_eq hmem hclaim htopId hnow
  exact ⟨rest, hactive, hreminder, hescalation⟩

/-! ### Emails -/

/-- A stage was accepted with a claim that is still there. -/
theorem Ledger.accepted_active (hl : Ledger totals s h) {id : ℕ} {stage : Stage}
    (haccepted : stage ∈ accepted id h) :
    ∃ claim ∈ active id h, claim.stage = stage ∧ claim.key ∈ sends h := by
  obtain ⟨i, total, ok, hsent⟩ := mem_accepted.mp haccepted
  obtain ⟨claim, hclaim, hkey, hstage, -⟩ := hl.sentClaimed i id stage total true ok hsent
  obtain ⟨hthread, hid⟩ := Prod.mk.inj hkey
  refine ⟨claim, mem_active.mpr ⟨hclaim, hid, ?_⟩, hstage, ?_⟩
  · rw [hthread]
    exact hl.acceptedKept i id stage total ok hsent
  · rw [hkey]
    exact mem_sends.mpr ⟨stage, total, true, ok, hsent⟩

/-- The email of a claim on top may be accepted next. -/
theorem Ledger.order_concat (hl : Ledger totals s h) (hclaim : claim ∈ claims h)
    (hkept : .released claim.thread claim.id ∉ h) (hnew : claim.key ∉ sends h)
    (htop : ∃ row, s.invoice claim.id = some row ∧ row.reminderSentAt = some claim.now) :
    (accepted claim.id h ++ [claim.stage]).Sublist [.reminder, .escalation] := by
  obtain ⟨row, hfind, hsent⟩ := htop
  obtain ⟨hrow, hid⟩ := invoice_mem hfind
  obtain ⟨rest, hactive, hreminder, -⟩ := hl.on_top hclaim hrow hid hsent
  have hmem : claim ∈ active claim.id h := mem_active.mpr ⟨hclaim, rfl, hkept⟩
  have hstacked := hl.stacked row hrow
  rw [hid] at hstacked
  -- no accepted email had the stage of the claim, whose email was not sent
  have hother : claim.stage ∉ accepted claim.id h := by
    intro haccepted
    obtain ⟨other, hactive, hstage, hkey⟩ := hl.accepted_active haccepted
    obtain rfl := hstacked.stage_inj hactive hmem hstage
    exact hnew hkey
  have horder := hl.order claim.id
  cases hstage : claim.stage with
  | reminder =>
    have hempty : accepted claim.id h = [] := by
      rw [List.eq_nil_iff_forall_not_mem]
      intro stage haccepted
      obtain ⟨other, hother', -, hkey⟩ := hl.accepted_active haccepted
      rw [hactive, (hreminder hstage).1] at hother'
      obtain rfl := List.mem_singleton.mp hother'
      exact hnew hkey
    rw [hempty]
    exact List.Sublist.cons_cons _ (List.nil_sublist _)
  | escalation =>
    rw [hstage] at hother
    have hbefore : (accepted claim.id h).Sublist [.reminder] := by
      generalize accepted claim.id h = stages at horder hother
      cases horder with
      | cons _ hrest =>
        cases hrest with
        | cons _ hrest => exact hrest.trans (List.nil_sublist _)
        | cons_cons _ _ => exact absurd List.mem_cons_self hother
      | cons_cons _ hrest =>
        cases hrest with
        | cons _ hrest => exact hrest.cons_cons _
        | cons_cons _ _ =>
          exact absurd (List.mem_cons_of_mem _ List.mem_cons_self) hother
    exact hbefore.append (List.Sublist.refl [Stage.escalation])

theorem Ledger.sent (hl : Ledger totals s h) (hclaim : claim ∈ claims h)
    (hkept : .released claim.thread claim.id ∉ h) (hnew : claim.key ∉ sends h)
    {accepted ok : Bool} (htop : accepted = true →
      ∃ row, s.invoice claim.id = some row ∧ row.reminderSentAt = some claim.now) {total : ℚ}
    (htotal : total = balanceDue claim.listed.invoice.total claim.listed.payments) :
    Ledger totals s (h ++ [.sent claim.thread claim.id claim.stage total accepted ok]) := by
  have hclaims : claims (h ++ [.sent claim.thread claim.id claim.stage total accepted ok]) =
    claims h := by simp
  constructor
  case ids => exact hl.ids
  case totals => exact hl.totals
  case startedOnce => simpa using hl.startedOnce
  case started =>
    intro start hstart
    exact hl.started start (by simpa using hstart)
  case claimStarted =>
    intro other hother
    rw [hclaims] at hother
    simpa using hl.claimStarted other hother
  case claimedOnce => exact hclaims ▸ hl.claimedOnce
  case exact => exact hclaims ▸ hl.exact
  case releasedClaimed =>
    intro j id hmem
    rw [hclaims]
    exact hl.releasedClaimed j id (by simpa using hmem)
  case stacked =>
    intro row hrow
    rw [active_concat (fun _ hmem => by cases hmem) fun _ heq => by cases heq]
    exact hl.stacked row hrow
  case sentOnce =>
    rw [sends_concat, Event.sent?, Option.toList_some, ← List.concat_eq_append]
    exact hl.sentOnce.concat hnew
  case sentClaimed =>
    intro j id stage total' accepted' ok' hmem
    rw [hclaims]
    rcases List.mem_append.mp hmem with hmem | hmem
    · exact hl.sentClaimed j id stage total' accepted' ok' hmem
    · obtain ⟨rfl, rfl, rfl, rfl, -, -⟩ := Event.sent.inj (List.mem_singleton.mp hmem)
      exact ⟨claim, hclaim, rfl, rfl, htotal⟩
  case acceptedKept =>
    intro j id stage total' ok' hmem hreleased
    have hold : .released j id ∈ h := by simpa using hreleased
    rcases List.mem_append.mp hmem with hmem | hmem
    · exact hl.acceptedKept j id stage total' ok' hmem hold
    · obtain ⟨rfl, rfl, -⟩ := Event.sent.inj (List.mem_singleton.mp hmem)
      exact hkept hold
  case order =>
    intro id
    rw [accepted_concat]
    by_cases hthis : claim.id = id ∧ accepted = true
    · obtain ⟨rfl, haccepted⟩ := hthis
      rw [Event.accepted?, if_pos ⟨rfl, haccepted⟩]
      exact hl.order_concat hclaim hkept hnew (htop haccepted)
    · rw [Event.accepted?, if_neg hthis, Option.toList_none, List.append_nil]
      exact hl.order id

/-! ### Claims and releases -/

/-- A claim is stacked on those that stand on its row. -/
theorem Ledger.stacked_claimed (hl : Ledger totals s h) {row : Invoice} (hrow : row ∈ s.invoices)
    (hid : row.id = claim.id) (hclaimable : row.claimable claim.listed claim.stage = true)
    (hdue : claim.stage = .reminder → claim.listed.invoice.reminderSentAt = none) :
    Stacked (active claim.id h ++ [claim]) (row.claimed claim.stage claim.now).reminderSentAt
      (row.claimed claim.stage claim.now).overdueEscalatedAt := by
  have hguard := hclaimable
  simp only [Invoice.claimable, Bool.and_eq_true, decide_eq_true_eq, Bool.or_eq_true] at hguard
  obtain ⟨⟨-, hsame⟩, hopen⟩ := hguard
  have hstacked := hl.stacked row hrow
  rw [hid] at hstacked
  cases hstage : claim.stage with
  | reminder =>
    have hnone := hdue hstage
    rw [hsame, hnone] at hstacked
    obtain ⟨hempty, hescalated⟩ := hstacked.nil_of_none
    rw [hempty]
    change Stacked [claim] (some claim.now) row.overdueEscalatedAt
    rw [hescalated]
    exact .reminder claim hstage hnone
  | escalation =>
    rw [hstage] at hopen
    have hnone : row.overdueEscalatedAt = none := by simpa using hopen
    rw [hsame, hnone] at hstacked
    exact .escalation _ claim hstage hstacked

/-- What makes a claim of a stage that is due. -/
theorem Ledger.claimed (hl : Ledger totals s h) {row : Invoice}
    (hfind : s.invoice claim.id = some row)
    (hclaimable : row.claimable claim.listed claim.stage = true)
    (hdue : claim.stage = .reminder → claim.listed.invoice.reminderSentAt = none)
    (hstarted : (claim.thread, claim.now) ∈ starts h)
    (hnew : ∀ other ∈ claims h, other.key ≠ claim.key) (hexact : claim.Exact) :
    Ledger totals (s.update claim.id (·.claimable claim.listed claim.stage)
      (·.claimed claim.stage claim.now)) (h ++ [.claimed claim]) := by
  obtain ⟨hrow, hid⟩ := invoice_mem hfind
  have hclaims {other : Claim} : other ∈ claims (h ++ [.claimed claim]) ↔
      other ∈ claims h ∨ other = claim := by simp
  have hkept : .released claim.thread claim.id ∉ h := by
    intro hreleased
    obtain ⟨other, hother, hkey⟩ := hl.releasedClaimed _ _ hreleased
    exact hnew other hother hkey
  have hset (invoice : Invoice) : (invoice.claimed claim.stage claim.now).id = invoice.id ∧
      (invoice.claimed claim.stage claim.now).total = invoice.total := by
    cases claim.stage <;> exact ⟨rfl, rfl⟩
  constructor
  case ids => exact hl.update_ids fun row => (hset row).1
  case totals => exact hl.update_totals hset
  case startedOnce => simpa using hl.startedOnce
  case started =>
    intro start hstart
    exact hl.started start (by simpa using hstart)
  case claimStarted =>
    intro other hother
    rw [starts_concat]
    apply List.mem_append_left
    rcases hclaims.mp hother with hother | rfl
    · exact hl.claimStarted other hother
    · exact hstarted
  case claimedOnce =>
    rw [claims_concat]
    exact nodup_map_concat hl.claimedOnce hnew
  case exact =>
    intro other hother
    rcases hclaims.mp hother with hother | rfl
    · exact hl.exact other hother
    · exact hexact
  case releasedClaimed =>
    intro j id hmem
    obtain ⟨other, hother, hkey⟩ := hl.releasedClaimed j id (by simpa using hmem)
    exact ⟨other, hclaims.mpr (.inl hother), hkey⟩
  case stacked =>
    intro next hnext
    rw [← hid] at hnext
    rcases (hl.mem_update hrow hclaimable).mp hnext with rfl | ⟨hnext, hne⟩
    · rw [(hset row).1, hid, active_claimed hkept]
      exact hl.stacked_claimed hrow hid hclaimable hdue
    · rw [active_concat]
      · exact hl.stacked next hnext
      · intro other hother heq
        obtain rfl := Option.some.inj hother
        exact hne (heq.symm.trans hid.symm)
      · exact fun _ heq => by cases heq
  case sentOnce => simpa using hl.sentOnce
  case sentClaimed =>
    intro j id stage total accepted ok hmem
    obtain ⟨other, hother, hrest⟩ := hl.sentClaimed j id stage total accepted ok
      (by simpa using hmem)
    exact ⟨other, hclaims.mpr (.inl hother), hrest⟩
  case acceptedKept =>
    intro j id stage total ok hmem
    have hold := hl.acceptedKept j id stage total ok (by simpa using hmem)
    simpa using hold
  case order =>
    intro id
    rw [accepted_concat]
    simpa using hl.order id

/-- Without the claims of its thread, a row loses the claim on top only. -/
theorem Ledger.active_taken (hl : Ledger totals s h) (hclaim : claim ∈ claims h)
    {rest : List Claim} (hactive : active claim.id h = rest ++ [claim]) :
    (active claim.id h).filter (·.thread ≠ claim.thread) = rest := by
  have hlast : [claim].filter (·.thread ≠ claim.thread) = [] := by simp
  have hrest : rest.filter (·.thread ≠ claim.thread) = rest := by
    rw [List.filter_eq_self]
    intro other hother
    rw [decide_eq_true_eq]
    intro hthread
    have hmem : other ∈ active claim.id h := hactive ▸ List.mem_append_left _ hother
    obtain ⟨hother', hotherId, -⟩ := mem_active.mp hmem
    have hsame : other = claim := row_eq hl.claimedOnce hother' hclaim
      (by rw [Claim.key, Claim.key, hthread, hotherId])
    have hnodup : (rest ++ [claim]).Nodup := by
      rw [← hactive]
      exact (List.Nodup.of_map _ hl.claimedOnce).filter _
    exact List.disjoint_of_nodup_append hnodup hother (hsame ▸ List.mem_cons_self)
  rw [hactive, List.filter_append, hlast, hrest, List.append_nil]

/-- A claim whose email was not accepted is taken off again. -/
theorem Ledger.released (hl : Ledger totals s h) (hclaim : claim ∈ claims h) {row : Invoice}
    (hfind : s.invoice claim.id = some row) (hsent : row.reminderSentAt = some claim.now)
    (hrejected : ∀ stage total ok, .sent claim.thread claim.id stage total true ok ∉ h) :
    Ledger totals (s.update claim.id (·.reminderSentAt = some claim.now)
      (·.released claim.listed claim.stage)) (h ++ [.released claim.thread claim.id]) := by
  obtain ⟨hrow, hid⟩ := invoice_mem hfind
  have hclaims : claims (h ++ [.released claim.thread claim.id]) = claims h := by simp
  obtain ⟨rest, hactive, hreminder, hescalation⟩ := hl.on_top hclaim hrow hid hsent
  have hset (invoice : Invoice) : (invoice.released claim.listed claim.stage).id = invoice.id ∧
      (invoice.released claim.listed claim.stage).total = invoice.total := by
    cases claim.stage <;> exact ⟨rfl, rfl⟩
  constructor
  case ids => exact hl.update_ids fun row => (hset row).1
  case totals => exact hl.update_totals hset
  case startedOnce => simpa using hl.startedOnce
  case started =>
    intro start hstart
    exact hl.started start (by simpa using hstart)
  case claimStarted =>
    intro other hother
    rw [hclaims] at hother
    simpa using hl.claimStarted other hother
  case claimedOnce => exact hclaims ▸ hl.claimedOnce
  case exact => exact hclaims ▸ hl.exact
  case releasedClaimed =>
    intro j id hmem
    rw [hclaims]
    rcases List.mem_append.mp hmem with hmem | hmem
    · exact hl.releasedClaimed j id hmem
    · obtain ⟨rfl, rfl⟩ := Event.released.inj (List.mem_singleton.mp hmem)
      exact ⟨claim, hclaim, rfl⟩
  case stacked =>
    intro next hnext
    rw [← hid] at hnext
    rcases (hl.mem_update hrow (by simp [hsent])).mp hnext with rfl | ⟨hnext, hne⟩
    · rw [(hset row).1, hid, active_released, hl.active_taken hclaim hactive]
      cases hstage : claim.stage with
      | reminder =>
        obtain ⟨rfl, hescalated, hbefore⟩ := hreminder hstage
        change Stacked [] claim.listed.invoice.reminderSentAt row.overdueEscalatedAt
        rw [hbefore, hescalated]
        exact .empty
      | escalation => exact hescalation hstage
    · rw [active_concat (fun _ hmem => by cases hmem)]
      · exact hl.stacked next hnext
      · intro j heq
        obtain ⟨-, hsame⟩ := Event.released.inj heq
        exact hne (hsame.symm.trans hid.symm)
  case sentOnce => simpa using hl.sentOnce
  case sentClaimed =>
    intro j id stage total accepted ok hmem
    rw [hclaims]
    exact hl.sentClaimed j id stage total accepted ok (by simpa using hmem)
  case acceptedKept =>
    intro j id stage total ok hmem hreleased
    have hold : .sent j id stage total true ok ∈ h := by simpa using hmem
    rcases List.mem_append.mp hreleased with hreleased | hreleased
    · exact hl.acceptedKept j id stage total ok hold hreleased
    · obtain ⟨rfl, rfl⟩ := Event.released.inj (List.mem_singleton.mp hreleased)
      exact hrejected stage total ok hold
  case order =>
    intro id
    rw [accepted_concat]
    simpa using hl.order id

end Steps

end Ashbi.Overdue
