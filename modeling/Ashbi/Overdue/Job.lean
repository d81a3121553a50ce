import Ashbi.Overdue.Steps

/-! What a run of the job knows of its claims, and the job under its contract. -/

namespace Ashbi.Overdue

open Interleaving Invoicing Sql

/-! ### What is kept of the job -/

/-- What is to hold where a stage is claimed, where an email about it is accepted, and where it is
released. A claim is to find the payments that were listed; an email that is accepted or released
is to find the claim still on the row; and the provider's answer is to say what it has done. -/
def Stmt.undisturbed {β : Type} (st : Stmt β) (choice : Choice) (s : State) : Prop :=
  match st with
  | .claim listed stage _ =>
    (∃ row ∈ s.invoice listed.invoice.id, row.claimable listed stage = true) →
      listed.payments = s.paid listed.invoice.id
  | .sendOverdueEmail id _ now _ =>
    choice.ok = choice.accepted ∧ (choice.accepted = true →
      ∃ row ∈ s.invoice id, row.reminderSentAt = some now)
  | .release listed _ now =>
    ∃ row ∈ s.invoice listed.invoice.id, row.reminderSentAt = some now
  | _ => True

def Undisturbed (o : Occurrence machine) : Prop := o.stmt.undisturbed o.choice o.pre

/-- What the job promises of its own statements. -/
def Stmt.due (i : ℕ) {β : Type} (st : Stmt β) (h : List Event) : Prop :=
  match st with
  | .markOverdue _ status => isSent status = true
  | .sendOverdueEmail id stage _ email =>
    ∃ claim ∈ claims h, claim.thread = i ∧ claim.id = id ∧ claim.stage = stage ∧
      email.total = balanceDue claim.listed.invoice.total claim.listed.payments
  | .release listed stage now =>
    ∃ claim ∈ claims h, claim.thread = i ∧ claim.listed = listed ∧ claim.stage = stage ∧
      claim.now = now
  | _ => True

/-- The emails of thread `i` that were not sent have had their claims released. -/
def Answered (i : ℕ) (h : List Event) : Prop :=
  ∀ id stage total accepted, .sent i id stage total accepted false ∈ h → .released i id ∈ h

/-- Thread `i` has left no event. -/
def Absent (i : ℕ) (h : List Event) : Prop := ∀ e ∈ h, e.thread ≠ i

/-- Only a thread itself brings about its events. -/
def isOf (e : Event) (i : ℕ) (_ : List Event) : Prop := e.thread = i

section Stability

variable {i : ℕ} {h later : List Event} {e : Event}

theorem mem_append_later (hlater : ∀ e ∈ later, ¬ isOf e i h) (he : e.thread = i) :
    e ∈ h ++ later ↔ e ∈ h := by
  rw [List.mem_append]
  exact or_iff_left fun hmem => hlater e hmem he

theorem stable_answered (i : ℕ) : Stable isOf i (Answered i) := by
  intro h later hlater hanswered id stage total accepted hsent
  rw [mem_append_later hlater rfl] at hsent
  exact List.mem_append_left _ (hanswered id stage total accepted hsent)

theorem stable_absent (i : ℕ) : Stable isOf i (Absent i) := by
  intro h later hlater habsent e he
  rcases List.mem_append.mp he with he | he
  · exact habsent e he
  · exact hlater e he

end Stability

section Contract

variable (totals : ℕ → ℚ)

abbrev watcher : Watcher machine Event where
  event := events
  owns := isOf
  mono := fun _ _ _ _ he => he
  inv := Ledger totals
  assumed := Undisturbed
  guar := fun o h => o.stmt.due o.thread h
  fresh := Absent
  final := Answered
  stable_fresh := stable_absent
  stable_final := stable_answered

/-- The contract of the job. -/
abbrev contract : Contract (machine.watched events) := (watcher totals).contract

/-- The statements that the history tells of. -/
def Stmt.telling : {β : Type} → Stmt β → Bool
  | _, .start _ | _, .markOverdue .. | _, .claim .. | _, .sendOverdueEmail .. | _, .release .. =>
    true
  | _, _ => false

variable {totals} {s : State}

/-- An update of what the claims say nothing of. -/
theorem chase_update {id : ℕ} {selects : Invoice → Bool} {set : Invoice → Invoice}
    (hset : ∀ row, (set row).chase = row.chase) :
    (s.update id selects set).invoices.map (·.chase) = s.invoices.map (·.chase) :=
  map_update fun row _ _ => hset row

theorem chase_pay {id : ℕ} {amount : Option ℚ} {transactionId : Option String} :
    (s.pay id amount transactionId).invoices.map (·.chase) = s.invoices.map (·.chase) ∧
      (s.pay id amount transactionId).started = s.started := by
  rw [State.pay]
  cases s.invoice id with
  | none => exact ⟨rfl, rfl⟩
  | some invoice =>
    dsimp only
    split
    · exact ⟨rfl, rfl⟩
    · split
      · exact ⟨rfl, rfl⟩
      · exact ⟨chase_update fun _ => rfl, rfl⟩

/-- A statement that the history does not tell of leaves the claims of every row. -/
theorem chase_exec {β : Type} {st : Stmt β} (hst : st.telling = false) (choice : Choice)
    (s : State) : (exec st choice s).2.invoices.map (·.chase) = s.invoices.map (·.chase) ∧
      (exec st choice s).2.started = s.started := by
  cases st with
  | start | markOverdue | claim | sendOverdueEmail | release => cases hst
  | recordManualPayment id amount => exact chase_pay
  | recordCompletedCheckout id transactionId amountTotal =>
    simp only [exec]
    split
    · exact chase_pay
    · exact ⟨rfl, rfl⟩
  | voidInvoice id fromStatus =>
    simp only [exec, State.void]
    split
    · exact ⟨rfl, rfl⟩
    · exact ⟨chase_update fun _ => rfl, rfl⟩
  | undoVoid id => exact ⟨chase_update fun _ => rfl, rfl⟩
  | findMany | clientEmail | resolveBranding | findStatus => exact ⟨rfl, rfl⟩

theorem silent : (watcher totals).Silent Stmt.telling where
  inv st hst _ choice s _ hl := by
    obtain ⟨hchase, hstarted⟩ := chase_exec hst choice s
    exact hl.same hchase fun now hnow => hstarted ▸ hnow
  event st hst i choice s := by
    cases st with
    | start | markOverdue | claim | sendOverdueEmail | release => cases hst
    | _ => rfl
  guar st hst i choice s h := by
    cases st with
    | start | markOverdue | claim | sendOverdueEmail | release => cases hst
    | _ => trivial

end Contract

/-! ### The job under its contract -/

/-! ### What a run of the job knows -/

section Knowledge

variable {n : ℕ} {now : Time} {claim : Claim}

/-- Thread `i` runs with `now` and has claimed no invoice from `n` on. -/
structure Working (i : ℕ) (now : Time) (n : ℕ) (h : List Event) : Prop where
  started : (i, now) ∈ starts h
  before : ∀ claim ∈ claims h, claim.thread = i → claim.id < n
  answered : Answered i h

/-- A claim whose email has not been accepted, and what its thread knows besides. -/
structure Unaccepted (claim : Claim) (h : List Event) : Prop where
  claimed : claim ∈ claims h
  started : (claim.thread, claim.now) ∈ starts h
  before : ∀ other ∈ claims h, other.thread = claim.thread → other.id < claim.id + 1
  kept : .released claim.thread claim.id ∉ h
  rejected : ∀ stage total ok, .sent claim.thread claim.id stage total true ok ∉ h
  answered : ∀ id stage total accepted, id ≠ claim.id →
    .sent claim.thread id stage total accepted false ∈ h → .released claim.thread id ∈ h

/-- A claim whose email has not been sent. -/
structure Holding (claim : Claim) (h : List Event) : Prop extends Unaccepted claim h where
  unsent : claim.key ∉ sends h

theorem starts_later (hstarted : (i, now) ∈ starts h) : (i, now) ∈ starts (h ++ later) := by
  rw [starts, List.filterMap_append]
  exact List.mem_append_left _ hstarted

theorem claims_later (hlater : ∀ e ∈ later, ¬ isOf e i h) (hclaim : claim ∈ claims (h ++ later))
    (hthread : claim.thread = i) : claim ∈ claims h :=
  mem_claims.mpr ((mem_append_later (e := .claimed claim) hlater hthread).mp (mem_claims.mp hclaim))

theorem stable_working (i : ℕ) (now : Time) (n : ℕ) : Stable isOf i (Working i now n) :=
  fun h later hlater hw =>
    { started := starts_later hw.started
      before := fun claim hclaim hthread =>
        hw.before claim (claims_later hlater hclaim hthread) hthread
      answered := stable_answered i h later hlater hw.answered }

theorem stable_unaccepted (claim : Claim) : Stable isOf claim.thread (Unaccepted claim) := by
  intro h later hlater hu
  refine ⟨?_, starts_later hu.started, fun other hother hthread => ?_, ?_, ?_, ?_⟩
  · rw [claims, List.filterMap_append]
    exact List.mem_append_left _ hu.claimed
  · exact hu.before other (claims_later hlater hother hthread) hthread
  · rw [mem_append_later hlater rfl]
    exact hu.kept
  · intro stage total ok
    rw [mem_append_later hlater rfl]
    exact hu.rejected stage total ok
  · intro id stage total accepted hne hsent
    rw [mem_append_later hlater rfl] at hsent
    exact List.mem_append_left _ (hu.answered id stage total accepted hne hsent)

theorem stable_holding (claim : Claim) : Stable isOf claim.thread (Holding claim) := by
  intro h later hlater hh
  refine ⟨stable_unaccepted claim h later hlater hh.toUnaccepted, fun hsends => hh.unsent ?_⟩
  obtain ⟨stage, total, accepted, ok, hsent⟩ := mem_sends.mp hsends
  rw [mem_append_later hlater rfl] at hsent
  exact mem_sends.mpr ⟨stage, total, accepted, ok, hsent⟩

theorem Working.mono {n' : ℕ} (hw : Working i now n h) (hn : n ≤ n') : Working i now n' h :=
  { hw with before := fun claim hclaim hthread =>
      Nat.lt_of_lt_of_le (hw.before claim hclaim hthread) hn }

/-- A claim without an email leaves nothing to answer. -/
theorem Holding.working (hh : Holding claim h) :
    Working claim.thread claim.now (claim.id + 1) h := by
  refine ⟨hh.started, hh.before, fun id stage total accepted hsent => ?_⟩
  by_cases hid : id = claim.id
  · subst hid
    exact absurd (mem_sends.mpr ⟨stage, total, accepted, false, hsent⟩) hh.unsent
  · exact hh.answered id stage total accepted hid hsent

theorem Working.holds (hw : Working claim.thread claim.now n h) (hn : n ≤ claim.id)
    (hl : ∀ i id, .released i id ∈ h → ∃ other ∈ claims h, other.key = (i, id))
    (hs : ∀ i id stage total accepted ok, .sent i id stage total accepted ok ∈ h →
      ∃ other ∈ claims h, other.key = (i, id)) : Holding claim (h ++ [.claimed claim]) := by
  have hnew (other : Claim) (hother : other ∈ claims h) : other.key ≠ claim.key := by
    intro hkey
    obtain ⟨hthread, hid⟩ := Prod.mk.inj hkey
    have hlt := hw.before other hother hthread
    omega
  refine ⟨⟨by simp, starts_later hw.started, ?_, ?_, ?_, ?_⟩, ?_⟩
  · intro other hother hthread
    rw [claims_concat] at hother
    rcases List.mem_append.mp hother with hother | hother
    · have hlt := hw.before other hother hthread
      omega
    · obtain rfl := List.mem_singleton.mp hother
      exact Nat.lt_succ_self _
  · intro hreleased
    obtain ⟨other, hother, hkey⟩ := hl _ _ (by simpa using hreleased)
    exact hnew other hother hkey
  · intro stage total ok hsent
    obtain ⟨other, hother, hkey⟩ := hs _ _ _ _ _ _ (by simpa using hsent)
    exact hnew other hother hkey
  · intro id stage total accepted _ hsent
    exact List.mem_append_left _ (hw.answered id stage total accepted (by simpa using hsent))
  · intro hsends
    obtain ⟨stage, total, accepted, ok, hsent⟩ := mem_sends.mp hsends
    obtain ⟨other, hother, hkey⟩ := hs _ _ _ _ _ _ (by simpa using hsent)
    exact hnew other hother hkey

/-- An accepted email needs no answer. -/
theorem Holding.accepted (hh : Holding claim h) {total : ℚ} : Working claim.thread claim.now
    (claim.id + 1) (h ++ [.sent claim.thread claim.id claim.stage total true true]) := by
  have hw := hh.working
  refine ⟨starts_later hw.started, fun other hother => ?_, ?_⟩
  · exact hw.before other (by simpa using hother)
  · intro id stage total' accepted hsent
    exact List.mem_append_left _ (hw.answered id stage total' accepted (by simpa using hsent))

theorem Holding.rejected_sent (hh : Holding claim h) {total : ℚ} : Unaccepted claim
    (h ++ [.sent claim.thread claim.id claim.stage total false false]) := by
  refine ⟨by simpa using hh.claimed, starts_later hh.started, fun other hother => ?_, ?_, ?_, ?_⟩
  · exact hh.before other (by simpa using hother)
  · simpa using hh.kept
  · intro stage total' ok
    simpa using hh.rejected stage total' ok
  · intro id stage total' accepted hne hsent
    rcases List.mem_append.mp hsent with hsent | hsent
    · exact List.mem_append_left _ (hh.answered id stage total' accepted hne hsent)
    · obtain ⟨-, rfl, -⟩ := Event.sent.inj (List.mem_singleton.mp hsent)
      exact absurd rfl hne

/-- A release answers for the email of its claim. -/
theorem Unaccepted.release (hu : Unaccepted claim h) : Working claim.thread claim.now
    (claim.id + 1) (h ++ [.released claim.thread claim.id]) := by
  refine ⟨starts_later hu.started, fun other hother => ?_, ?_⟩
  · exact hu.before other (by simpa using hother)
  · intro id stage total accepted hsent
    by_cases hid : id = claim.id
    · rw [hid]
      exact List.mem_append_right _ List.mem_cons_self
    · exact List.mem_append_left _
        (hu.answered id stage total accepted hid (by simpa using hsent))

end Knowledge

/-! ### Pages -/

section Pages

variable {totals : ℕ → ℚ} {s : State} {now : Time} {cursor : Option ℕ}
  {pageSize : ℕ}

/-- The first id that a page after the cursor may list. -/
def after (cursor : Option ℕ) : ℕ := cursor.elim 0 (· + 1)

theorem page_seen (hl : Ledger totals s h) {listed : Listed}
    (hlisted : listed ∈ s.page now cursor pageSize) :
    listed.invoice.total = totals listed.invoice.id ∧ after cursor ≤ listed.invoice.id := by
  obtain ⟨invoice, hinvoice, rfl⟩ := List.mem_map.mp hlisted
  have hmem := (List.mem_insertionSort _).mp (List.mem_of_mem_take hinvoice)
  obtain ⟨hrow, hselects⟩ := List.mem_filter.mp hmem
  refine ⟨hl.totals invoice hrow, ?_⟩
  simp only [Invoice.listed, Bool.and_eq_true] at hselects
  cases cursor with
  | none => exact Nat.zero_le _
  | some id =>
    have hlt : id < invoice.id := of_decide_eq_true hselects.2
    exact hlt

/-- A page lists every invoice once, in the order of the ids. -/
theorem page_sorted (hl : Ledger totals s h) :
    (s.page now cursor pageSize).Pairwise fun a b => a.invoice.id < b.invoice.id := by
  rw [State.page, List.pairwise_map]
  refine List.Pairwise.sublist (List.take_sublist _ _) ?_
  have hnodup : (((s.invoices.filter (·.listed now cursor)).insertionSort
      (·.id ≤ ·.id)).map (·.id)).Nodup := by
    have hperm := (List.perm_insertionSort (fun a b : Invoice => a.id ≤ b.id)
      (s.invoices.filter (·.listed now cursor))).map (·.id)
    exact hperm.nodup_iff.mpr (hl.ids.sublist (List.filter_sublist.map _))
  have hsorted := List.pairwise_insertionSort (fun a b : Invoice => a.id ≤ b.id)
    (s.invoices.filter (·.listed now cursor))
  exact (hsorted.and (List.pairwise_map.mp hnodup)).imp fun hboth =>
    Nat.lt_of_le_of_ne hboth.1 hboth.2

end Pages

/-! ### The job under the contract -/

section Job

variable {totals : ℕ → ℚ} {α β : Type} {n : ℕ} {now : Time} {claim : Claim} {listed : Listed}
  {stage : Stage} {s : State × List Event} {R : List Event → Prop}
  {Q : α → State × List Event → Prop}

theorem events_thread {st : Stmt β} {choice : Choice} {s : State} {e : Event}
    (he : e ∈ st.events i choice s) : e.thread = i := by
  cases st with
  | start | sendOverdueEmail =>
    obtain rfl := List.mem_singleton.mp he
    rfl
  | claim listed stage now =>
    simp only [Stmt.events] at he
    split at he
    · split at he
      · obtain rfl := List.mem_singleton.mp he
        rfl
      · cases he
    · cases he
  | release listed stage now =>
    simp only [Stmt.events] at he
    split at he
    · obtain rfl := List.mem_singleton.mp he
      rfl
    · cases he
  | _ => cases he

/-- A statement that tells of itself, with what its thread knows when it is executed. -/
theorem told_safe {st : Stmt β} {next : β → Prog Stmt α} (hstable : Stable isOf i R) (hR : R s.2)
    (h : ∀ (t : State × List Event) (choice : Choice), Ledger totals t.1 t.2 → R t.2 →
      st.enabled t.1 = true → st.undisturbed choice t.1 →
      (Ledger totals (exec st choice t.1).2 (t.2 ++ st.events i choice t.1) ∧ st.due i t.2) ∧
      Prog.Safe (contract totals) i (next (exec st choice t.1).1) Q
        ((exec st choice t.1).2, t.2 ++ st.events i choice t.1)) :
    Prog.Safe (contract totals) i (Prog.call st next) Q s := by
  intro t choice hr hl henabled hassumed
  obtain ⟨⟨hpost, hdue⟩, hnext⟩ := h t choice hl (hstable.onward hr hR) henabled hassumed
  refine ⟨Watcher.keeps (W := watcher totals) hpost (fun _ hj e he hof => ?_) hdue, hnext⟩
  exact hj (hof.symm.trans (events_thread he))

theorem telling_safe {st : Stmt β} {next : β → Prog Stmt α} (hstable : Stable isOf i R) (hR : R s.2)
    (h : ∀ (t : State × List Event) (choice : Choice), Ledger totals t.1 t.2 → R t.2 →
      st.enabled t.1 = true → st.undisturbed choice t.1 →
      (Ledger totals (exec st choice t.1).2 (t.2 ++ st.events i choice t.1) ∧ st.due i t.2) ∧
      Prog.Safe (contract totals) i (next (exec st choice t.1).1) Q
        ((exec st choice t.1).2, t.2 ++ st.events i choice t.1)) :
    Prog.Safe (contract totals) i (Prog.stmt st >>= next) Q s := told_safe hstable hR h

/-- A statement that the history does not tell of. -/
theorem silent_safe {st : Stmt β} {next : β → Prog Stmt α} (hst : st.telling = false)
    (hstable : Stable isOf i R) (hR : R s.2)
    (h : ∀ (t : State × List Event) (choice : Choice), Ledger totals t.1 t.2 → R t.2 →
      Prog.Safe (contract totals) i (next (exec st choice t.1).1) Q
        ((exec st choice t.1).2, t.2)) :
    Prog.Safe (contract totals) i (Prog.stmt st >>= next) Q s :=
  silent.call hst hstable hR h

/-- A claim is undone that was not accepted. -/
theorem release_safe (hu : Unaccepted claim s.2) :
    Prog.Safe (contract totals) claim.thread
      (Prog.stmt (.release claim.listed claim.stage claim.now))
      (fun _ t => Working claim.thread claim.now (claim.id + 1) t.2) s := by
  refine told_safe (stable_unaccepted claim) hu fun t choice hl hu _ hassumed => ?_
  obtain ⟨row, hfind, hsent⟩ := hassumed
  have hfind : t.1.invoice claim.id = some row := hfind
  have hevents : (Stmt.release claim.listed claim.stage claim.now).events claim.thread choice t.1 =
      [.released claim.thread claim.id] := by
    have hany : (t.1.invoice claim.id).any (·.reminderSentAt = some claim.now) = true := by
      rw [hfind, Option.any_some, decide_eq_true_eq]
      exact hsent
    exact if_pos hany
  rw [hevents]
  exact ⟨⟨hl.released hu.claimed hfind hsent hu.rejected,
    claim, hu.claimed, rfl, rfl, rfl, rfl⟩, hu.release⟩

theorem sendClaimed_safe {recipient : String} (hh : Holding claim s.2) :
    Prog.Safe (contract totals) claim.thread
      (sendClaimed claim.now claim.listed claim.stage recipient)
      (fun _ t => Working claim.thread claim.now (claim.id + 1) t.2) s := by
  refine silent_safe rfl (stable_holding claim) hh fun t choice _ ht => ?_
  dsimp only
  split
  · exact release_safe ht.toUnaccepted
  · refine telling_safe (stable_holding claim) ht fun u choice' hl hh _ hassumed => ?_
    obtain ⟨hok, htop⟩ := hassumed
    refine ⟨⟨hl.sent hh.claimed hh.kept hh.unsent htop rfl,
      claim, hh.claimed, rfl, rfl, rfl, rfl⟩, ?_⟩
    simp only [exec, Stmt.events, hok]
    cases choice'.accepted with
    | true => exact hh.accepted
    | false => exact release_safe hh.rejected_sent

/-- Every claim is delivered, released or left to the staff. -/
theorem deliver_safe (hh : Holding claim s.2) :
    Prog.Safe (contract totals) claim.thread (deliver claim.now claim.listed claim.stage)
      (fun _ t => Working claim.thread claim.now (claim.id + 1) t.2) s := by
  refine silent_safe rfl (stable_holding claim) hh fun t choice _ ht => ?_
  dsimp only
  split
  · split
    · exact sendClaimed_safe ht
    · exact ht.working
  · exact ht.working

theorem count_none {s : State} {id : ℕ} {selects : Invoice → Bool} {h : List Event}
    (hl : Ledger totals s h) (hnone : ∀ row, s.invoice id = some row → selects row = false) :
    s.count id selects = 0 := by
  rw [State.count, List.length_eq_zero_iff, List.filter_eq_nil_iff]
  intro row hrow hboth
  rw [Bool.and_eq_true, decide_eq_true_eq] at hboth
  obtain ⟨rfl, hselects⟩ := hboth
  rw [hnone row (hl.invoice_eq hrow)] at hselects
  cases hselects

/-- A claim that takes the row, with the payments that were listed. -/
theorem Ledger.claims_exactly {s : State} {h : List Event} (hl : Ledger totals s h)
    (hw : Working claim.thread claim.now n h) (hn : n ≤ claim.id)
    (htotal : claim.listed.invoice.total = totals claim.id)
    (hdue : claim.stage = .reminder → claim.listed.invoice.reminderSentAt = none)
    (hfind : s.invoice claim.id = some claim.found)
    (hclaimable : claim.found.claimable claim.listed claim.stage = true)
    (hpaid : claim.listed.payments = claim.paid) :
    Ledger totals (s.update claim.id (·.claimable claim.listed claim.stage)
      (·.claimed claim.stage claim.now)) (h ++ [.claimed claim]) := by
  refine hl.claimed hfind hclaimable hdue hw.started ?_ ⟨?_, ?_⟩
  · intro other hother hkey
    obtain ⟨hthread, hid⟩ := Prod.mk.inj hkey
    have hlt := hw.before other hother hthread
    omega
  · simp only [Invoice.claimable, Bool.and_eq_true] at hclaimable
    exact hclaimable.1.1
  · obtain ⟨hrow, hid⟩ := invoice_mem hfind
    rw [htotal, hl.totals _ hrow, hid, hpaid]

theorem claimOverdueStage_safe (hw : Working i now n s.2) (hn : n ≤ listed.invoice.id)
    (htotal : listed.invoice.total = totals listed.invoice.id)
    (hdue : stage = .reminder → listed.invoice.reminderSentAt = none) :
    Prog.Safe (contract totals) i (claimOverdueStage now listed stage)
      (fun _ t => Working i now (listed.invoice.id + 1) t.2) s := by
  refine telling_safe (stable_working i now n) hw fun t choice hl hw _ hassumed => ?_
  by_cases hfound : ∃ row, t.1.invoice listed.invoice.id = some row ∧
      row.claimable listed stage = true
  · have hpaid : listed.payments = t.1.paid listed.invoice.id := hassumed hfound
    obtain ⟨row, hfind, hclaimable⟩ := hfound
    let claim : Claim := ⟨i, now, stage, listed, row, t.1.paid listed.invoice.id⟩
    have hevents : (Stmt.claim listed stage now).events i choice t.1 = [.claimed claim] := by
      simp only [Stmt.events, hfind, hclaimable, ↓reduceIte, claim]
    have hw : Working claim.thread claim.now n t.2 := hw
    have hholding : Holding claim (t.2 ++ [.claimed claim]) := by
      refine hw.holds hn hl.releasedClaimed ?_
      intro j id stage total accepted ok hsent
      obtain ⟨other, hother, hkey, -⟩ := hl.sentClaimed j id stage total accepted ok hsent
      exact ⟨other, hother, hkey⟩
    rw [hevents]
    refine ⟨⟨hl.claims_exactly hw hn htotal hdue hfind hclaimable hpaid,
      trivial⟩, ?_⟩
    split
    · exact hholding.working
    · exact deliver_safe (s := (_, t.2 ++ [.claimed claim])) hholding
  · have hnone (row : Invoice) (hfind : t.1.invoice listed.invoice.id = some row) :
        row.claimable listed stage = false := by
      rw [← Bool.not_eq_true]
      exact fun hclaimable => hfound ⟨row, hfind, hclaimable⟩
    have hevents : (Stmt.claim listed stage now).events i choice t.1 = [] := by
      simp only [Stmt.events]
      split
      · rename_i row hfind
        rw [hnone row hfind]
        rfl
      · rfl
    rw [hevents, List.append_nil, exec, update_none hl hnone, count_none hl hnone]
    exact ⟨⟨hl, trivial⟩, hw.mono (Nat.le_succ_of_le hn)⟩

theorem chaseInvoice_safe (hw : Working i now n s.2) (hn : n ≤ listed.invoice.id)
    (htotal : listed.invoice.total = totals listed.invoice.id) :
    Prog.Safe (contract totals) i (chaseInvoice now listed)
      (fun _ t => Working i now (listed.invoice.id + 1) t.2) s := by
  rw [chaseInvoice]
  split
  · exact hw.mono (Nat.le_succ_of_le hn)
  · rename_i stage hstage
    apply claimOverdueStage_safe hw hn htotal
    intro hreminder
    rw [overdueReminderStage, hreminder] at hstage
    split at hstage
    · split at hstage <;> cases hstage
    · split at hstage
      · cases hstage
      · rename_i hnone
        simpa using hnone

theorem processOverdueInvoice_safe (hw : Working i now n s.2) (hn : n ≤ listed.invoice.id)
    (htotal : listed.invoice.total = totals listed.invoice.id) :
    Prog.Safe (contract totals) i (processOverdueInvoice now listed)
      (fun _ t => Working i now (listed.invoice.id + 1) t.2) s := by
  rw [processOverdueInvoice]
  split
  · rename_i hsent
    refine telling_safe (stable_working i now n) hw fun t choice hl hw _ _ => ?_
    simp only [Stmt.events, List.append_nil]
    refine ⟨⟨hl.same (chase_update fun _ => rfl) fun _ hnow => hnow, hsent⟩, ?_⟩
    split
    · exact hw.mono (Nat.le_succ_of_le hn)
    · exact chaseInvoice_safe hw hn htotal
  · exact chaseInvoice_safe hw hn htotal

/-- The invoices of a page are processed in the order of their ids. -/
theorem processPage_safe {page : List Listed}
    (hsorted : page.Pairwise fun a b => a.invoice.id < b.invoice.id)
    (hseen : ∀ listed ∈ page, listed.invoice.total = totals listed.invoice.id ∧
      n ≤ listed.invoice.id) (hw : Working i now n s.2) :
    Prog.Safe (contract totals) i (processPage now page)
      (fun _ t => Working i now ((page.getLast?.map (·.invoice.id + 1)).getD n) t.2) s := by
  induction page generalizing n s with
  | nil => exact hw
  | cons listed page ih =>
    obtain ⟨hbefore, hsorted⟩ := List.pairwise_cons.mp hsorted
    obtain ⟨htotal, hn⟩ := hseen listed List.mem_cons_self
    refine Prog.Safe.bind ((processOverdueInvoice_safe hw hn htotal).mono fun _ t ht => ?_)
    have hrest := ih hsorted (fun other hother =>
      ⟨(hseen other (List.mem_cons_of_mem _ hother)).1, hbefore other hother⟩) ht
    refine hrest.mono fun _ u hu => ?_
    cases page with
    | nil => exact hu
    | cons next page => exact hu

theorem checkPages_safe {pageSize pages : ℕ} {cursor : Option ℕ}
    (hw : Working i now (after cursor) s.2) : Prog.Safe (contract totals) i
      (checkPages now pageSize pages cursor) (fun _ t => Answered i t.2) s := by
  induction pages generalizing cursor s with
  | zero => exact hw.answered
  | succ pages ih =>
    refine silent_safe rfl (stable_working i now _) hw fun t choice hl hw => ?_
    refine Prog.Safe.bind ((processPage_safe (page_sorted hl) (fun _ => page_seen hl) hw).mono ?_)
    intro _ u hu
    dsimp only
    split
    · exact hu.answered
    · rename_i last hlast
      split
      · exact hu.answered
      · apply ih
        have hlast : (t.1.page now cursor pageSize).getLast? = some last := hlast
        rw [hlast] at hu
        exact hu

theorem checkOverdueInvoices_safe {pageSize pages : ℕ} (habsent : Absent i s.2) :
    Prog.Safe (contract totals) i (checkOverdueInvoices now pageSize pages)
      (fun _ t => Answered i t.2) s := by
  refine telling_safe (stable_absent i) habsent fun t choice hl habsent henabled _ => ?_
  have hnew : now ∉ t.1.started := by simpa [Stmt.enabled] using henabled
  refine ⟨⟨hl.begins hnew, trivial⟩, checkPages_safe ⟨by simp [Stmt.events], ?_, ?_⟩⟩
  · intro claim hclaim hthread
    have hclaim : claim ∈ claims t.2 := by simpa [Stmt.events] using hclaim
    exact absurd hthread (habsent _ (mem_claims.mp hclaim))
  · intro id stage total accepted hsent
    have hsent : .sent i id stage total accepted false ∈ t.2 := by simpa [Stmt.events] using hsent
    exact absurd rfl (habsent _ hsent)

theorem Absent.answered {h : List Event} (habsent : Absent i h) : Answered i h :=
  fun _ _ _ _ hsent => absurd rfl (habsent _ hsent)

theorem deployed_safe {p : Prog Stmt Unit} (hp : Deployed p) (habsent : Absent i s.2) :
    Prog.Safe (contract totals) i p (fun _ t => Answered i t.2) s := by
  have hquiet (hwithout : p.Without Stmt.telling fun _ => True) :
      Prog.Safe (contract totals) i p (fun _ t => Answered i t.2) s :=
    (silent.safe hwithout (stable_answered i) habsent.answered).mono fun _ _ ht => ht.2
  cases hp with
  | checkOverdueInvoices now pageSize pages => exact checkOverdueInvoices_safe habsent
  | deleteInvoice id =>
    refine hquiet ⟨rfl, fun status => ?_⟩
    simp only [Prog.ret_bind]
    split
    · trivial
    · split
      · exact ⟨rfl, fun _ => trivial⟩
      · trivial
  | recordManualPayment | recordCompletedCheckout | undoVoid => exact hquiet ⟨rfl, fun _ => trivial⟩

end Job

end Ashbi.Overdue
