import Ashbi.Outbox.Ordering

/-! How often events are claimed, and who may publish them. -/

namespace Ashbi.Outbox

open Interleaving

variable {registry : List Subscriber} {N R i : ℕ} {s t : Table} {β : Type}
  {tr : List (Occurrence machine)} {c : Config machine}

/-- How often the event was claimed. -/
def Table.claimsOf (s : Table) (id : ℕ) : ℕ := s.claims.countP (·.event.id = id)

/-- The bounds of one row that was claimed `n` times, for `N` attempts and `R` replays. -/
structure Budget (N R n : ℕ) (e : DomainEvent) : Prop where
  attempts : e.attempts ≤ N
  pending : e.status = .pending → e.attempts < N
  replays : e.replayCount ≤ R
  claims : n ≤ N * e.replayCount + e.attempts

def WithinBudget (N R : ℕ) (s : Table) : Prop := ∀ e ∈ s.events, Budget N R (s.claimsOf e.id) e

theorem Budget.replay {n : ℕ} {e : DomainEvent} (h : Budget N R n e) (hN : 1 ≤ N)
    (hlt : e.replayCount < R) (now : Time) : Budget N R n (e.requeue now) := by
  refine ⟨Nat.zero_le _, fun _ => hN, hlt, ?_⟩
  have hc := h.claims
  have ha := h.attempts
  have hm : N * (e.replayCount + 1) = N * e.replayCount + N := Nat.mul_succ _ _
  simp only [DomainEvent.requeue]
  omega

theorem Budget.claim {n : ℕ} {e : DomainEvent} (h : Budget N R n e) (hlt : e.attempts < N)
    (now : Time) (leaseMs : ℤ) (token : ℕ) : Budget N R (n + 1) (e.claim now leaseMs token) := by
  refine ⟨hlt, fun hp => by simp [DomainEvent.claim] at hp, h.replays, ?_⟩
  have hc := h.claims
  simp only [DomainEvent.claim]
  omega

theorem due_attempts {n : ℕ} {e : DomainEvent} {now : Time} (h : Budget N R n e)
    (hd : s.due now N e = true) : e.attempts < N := by
  rcases (due_iff.mp hd).1 with ⟨hp, _⟩ | ⟨_, hlt⟩
  · exact h.pending hp
  · exact hlt

theorem WithinBudget.update {p : DomainEvent → Bool} {f : DomainEvent → DomainEvent}
    (h : WithinBudget N R s) (hf : ∀ e, (f e).toEnvelope = e.toEnvelope)
    (step : ∀ e ∈ s.events, p e = true → Budget N R (s.claimsOf e.id) e →
      Budget N R (s.claimsOf e.id) (f e)) : WithinBudget N R (s.updateMany p f).2 := by
  intro e he
  obtain ⟨d, hd, rfl⟩ := mem_updateMany.mp he
  have hid : (if p d then f d else d).id = d.id := congrArg Envelope.id (envelope_ite hf d)
  rw [hid]
  change Budget N R (s.claimsOf d.id) _
  split
  · rename_i hp
    exact step d hd hp (h d hd)
  · exact h d hd

/-- A claim statement takes every due row at most once. -/
theorem candidates_nodup (hs : RowsConsistent s) (now : Time) (limit maxAttempts : ℕ)
    (rowLocked : ℕ → Bool) :
    ((s.candidates now limit maxAttempts rowLocked).map (·.id)).Nodup := by
  have hrows : ((s.events.filter (s.due now maxAttempts)).map (·.id)).Nodup :=
    (List.Nodup.of_append_left hs.ids).sublist (List.filter_sublist.map _)
  have hsorted := ((List.perm_insertionSort (claimOrder · ·)
    (s.events.filter (s.due now maxAttempts))).map (·.id)).nodup_iff.mpr hrows
  exact hsorted.sublist (((List.take_sublist _ _).trans List.filter_sublist).map _)

theorem claimsOf_claim {rows : List DomainEvent} {now : Time} {leaseMs : ℤ} (id : ℕ) :
    (s.claim rows now leaseMs).claimsOf id = s.claimsOf id + (rows.map (·.id)).count id := by
  simp only [Table.claimsOf, Table.claim, List.countP_append, List.countP_map, List.count]
  congr 1

/-- The claim statement adds one claim to each row it takes, and no other. -/
theorem WithinBudget.claim (hs : RowsConsistent s) (h : WithinBudget N R s) (now : Time)
    (limit : ℕ) (leaseMs : ℤ) (rowLocked : ℕ → Bool) :
    WithinBudget N R (s.claim (s.candidates now limit N rowLocked) now leaseMs) := by
  have hnodup := candidates_nodup hs now limit N rowLocked
  intro e he
  rw [claimsOf_claim]
  obtain ⟨d, hd, rfl⟩ := mem_updateMany.mp he
  split
  · rename_i hp
    have hdue := candidate_due (claimed_row hs hd hp)
    have hmem : d.id ∈ (s.candidates now limit N rowLocked).map (·.id) :=
      List.mem_map.mpr ⟨d, claimed_row hs hd hp, rfl⟩
    have hcount : ((s.candidates now limit N rowLocked).map (·.id)).count
        (d.claim now leaseMs s.nextToken).id = 1 := List.count_eq_one_of_mem hnodup hmem
    rw [hcount]
    exact (h d hd).claim (due_attempts (h d hd) hdue.2) now leaseMs s.nextToken
  · rename_i hp
    have hnot : d.id ∉ (s.candidates now limit N rowLocked).map (·.id) := by
      intro hm
      obtain ⟨b, hb, hid⟩ := List.mem_map.mp hm
      exact hp (List.any_eq_true.mpr ⟨b, hb, decide_eq_true hid⟩)
    rw [List.count_eq_zero_of_not_mem hnot]
    exact h d hd

/-- The row that a settle writes is as the claim in hand left it. -/
theorem held_attempts (hs : ClaimsConsistent s) {e : DomainEvent} (he : e ∈ s.events)
    {token : Option ℕ} {d : Claim} (hd : d ∈ s.claims) (hid : d.event.id = e.id)
    (htok : d.event.claimToken = token) (hheld : e.claimToken = token) :
    d.event.attempts = e.attempts := by
  have htoken : e.claimToken = some d.token := hheld.trans (htok.symm.trans (hs.claimToken d hd))
  obtain ⟨_, c, hc, hct, hci, hca⟩ := hs.held e he d.token htoken
  rw [hs.tokenOnce d hd c hc hct.symm (hid.trans hci.symm)]
  exact hca

theorem WithinBudget.settle (hs : Consistent s) (h : WithinBudget N R s) {id : ℕ}
    {token : Option ℕ} {data : Settlement} {d : Claim} (hd : d ∈ s.claims) (hid : d.event.id = id)
    (htok : d.event.claimToken = token)
    (earned : Earned registry (· = N) s d.event data) :
    WithinBudget N R (s.updateMany (·.heldBy id token) (·.settle data)).2 := by
  refine h.update (fun e => by cases data <;> rfl) fun e he hp hb => ?_
  obtain ⟨hei, hst, hheld⟩ := heldBy_iff.mp hp
  cases data with
  | published at_ => exact ⟨hb.attempts, fun hq => (by cases hq), hb.replays, hb.claims⟩
  | dead error => exact ⟨hb.attempts, fun hq => (by cases hq), hb.replays, hb.claims⟩
  | retry at_ error =>
    obtain ⟨m, rfl, hlt⟩ := earned
    have hatt := held_attempts hs.toClaimsConsistent he hd (hid.trans hei.symm) htok hheld
    exact ⟨hb.attempts, fun _ => hatt ▸ hlt, hb.replays, hb.claims⟩

/-- Committed new rows have never been claimed. -/
theorem WithinBudget.commit (hN : 1 ≤ N) (hs : Consistent s) (h : WithinBudget N R s)
    (commit : Bool) : WithinBudget N R (s.endTransaction i commit) := by
  cases commit with
  | false => exact h
  | true =>
    intro e he
    rcases mem_visible.mp he with he | he
    · exact h e he
    · have hnone : s.claimsOf e.id = 0 := by
        refine List.countP_eq_zero.mpr fun c hc hid => ?_
        obtain ⟨d, hd, hde⟩ := hs.claimed c hc
        have hids := List.disjoint_of_nodup_append hs.ids
        refine hids (List.mem_map.mpr ⟨d, hd, rfl⟩) (List.mem_map.mpr ⟨(i, e), he, ?_⟩)
        exact (of_decide_eq_true hid).symm.trans (congrArg Envelope.id hde).symm
      obtain ⟨now, hnew⟩ := hs.stagedNew _ he
      change Budget N R (s.claimsOf e.id) e
      simp only [] at hnew
      rw [hnone, hnew]
      exact ⟨Nat.zero_le _, fun _ => hN, Nat.zero_le _, Nat.zero_le _⟩

/-- One disciplined statement keeps every row within its budget. -/
theorem exec_budget {st : Stmt β} {ch : Choice} (hN : 1 ≤ N) (hs : Consistent s)
    (hd : Disciplined registry (· = N) (· = R) i st s) (h : WithinBudget N R s) :
    WithinBudget N R (exec i st ch s).2 := by
  have finish : ∀ {v : Table} {sub : Subscriber} {event : DomainEvent} {outcome : Outcome},
      WithinBudget N R v → WithinBudget N R (v.finish sub event outcome) := by
    intro v sub event outcome hv
    cases outcome <;> exact hv
  cases st with
  | endTransaction commit => exact WithinBudget.commit hN hs h commit
  | createEvent d =>
    simp only [exec, Table.create]
    split <;> exact h
  | deadLetterAbandonedClaims now maxAttempts =>
    exact h.update (fun _ => rfl) fun e _ _ hb =>
      ⟨hb.attempts, fun hq => (by cases hq), hb.replays, hb.claims⟩
  | claimDomainEvents now limit leaseMs maxAttempts =>
    have hm : maxAttempts = N := hd
    subst hm
    rw [exec_claim]
    exact h.claim hs.toRowsConsistent now limit leaseMs ch.rowLocked
  | renewLease id token lockedUntil =>
    exact h.update (fun _ => rfl) fun e _ _ hb => ⟨hb.attempts, hb.pending, hb.replays, hb.claims⟩
  | settle id token data =>
    obtain ⟨d, hd, hid, htok, hearned⟩ := hd
    exact h.settle hs hd hid htok hearned
  | requeue org id count now =>
    obtain ⟨m, rfl, hlt⟩ := hd
    refine h.update (fun _ => rfl) fun e _ hp hb => hb.replay hN ?_ now
    exact (deadRow_iff.mp hp).2.2.2 ▸ hlt
  | discard org id count now =>
    exact h.update (fun _ => rfl) fun e _ _ hb =>
      ⟨hb.attempts, fun hq => (by cases hq), hb.replays, hb.claims⟩
  | handle sub event => exact finish (v := s.handOver sub event) h
  | awaitHandler sub event => exact finish h
  | _ => exact h

/-- The row and the token of a statement that settles with `published`. -/
def Stmt.publishes {β : Type} : Stmt β → Option (ℕ × Option ℕ)
  | .settle id claimToken (.published _) => some (id, claimToken)
  | _ => none

/-- The row and the token of a statement fenced by a claim token. -/
def Stmt.fenced {β : Type} : Stmt β → Option (ℕ × Option ℕ)
  | .settle id claimToken _ => some (id, claimToken)
  | .renewLease id claimToken _ => some (id, claimToken)
  | _ => none

/-- Only a settle under the row's own token publishes it. -/
theorem exec_published {st : Stmt β} {ch : Choice} (hs : Consistent s) {e : DomainEvent}
    (he : e ∈ (exec i st ch s).2.events) (hp : e.status = .published) :
    e ∈ s.events ∨ ∃ d ∈ s.events, d.toEnvelope = e.toEnvelope ∧ d.status = .dispatching ∧
      st.publishes = some (d.id, d.claimToken) := by
  have update : ∀ {r : DomainEvent → Bool} {f : DomainEvent → DomainEvent},
      e ∈ (s.updateMany r f).2.events → (∀ d, r d = true → (f d).status ≠ .published) →
      e ∈ s.events := by
    intro r f he hf
    obtain ⟨d, hd, rfl⟩ := mem_updateMany.mp he
    split at hp
    · rename_i hr
      exact absurd hp (hf d hr)
    · rename_i hr
      simpa only [hr, Bool.false_eq_true, ↓reduceIte] using hd
  have finish : ∀ {v : Table} {sub : Subscriber} {event : DomainEvent} {outcome : Outcome},
      (v.finish sub event outcome).events = v.events := by
    intro v sub event outcome
    cases outcome <;> rfl
  cases st with
  | endTransaction commit =>
    cases commit with
    | false => exact .inl he
    | true =>
      rcases mem_visible.mp he with he | he
      · exact .inl he
      · obtain ⟨now, hnew⟩ := hs.stagedNew _ he
        simp only [] at hnew
        rw [hnew] at hp
        cases hp
  | createEvent d =>
    simp only [exec, Table.create] at he
    split at he <;> exact .inl he
  | deadLetterAbandonedClaims now maxAttempts =>
    exact .inl (update he fun d _ hd => by cases hd)
  | claimDomainEvents now limit leaseMs maxAttempts =>
    exact .inl (update he fun d _ hd => by cases hd)
  | renewLease id token lockedUntil =>
    refine .inl (update he fun d hr hd => ?_)
    have hst : d.status = .published := hd
    rw [(heldBy_iff.mp hr).2.1] at hst
    cases hst
  | settle id token data =>
    cases data with
    | retry at_ error => exact .inl (update he fun d _ hd => by cases hd)
    | dead error => exact .inl (update he fun d _ hd => by cases hd)
    | published at_ =>
      obtain ⟨d, hd, rfl⟩ := mem_updateMany.mp he
      split
      · rename_i hr
        obtain ⟨rfl, hst, rfl⟩ := heldBy_iff.mp hr
        exact .inr ⟨d, hd, rfl, hst, rfl⟩
      · exact .inl hd
  | requeue org id count now => exact .inl (update he fun d _ hd => by cases hd)
  | discard org id count now => exact .inl (update he fun d _ hd => by cases hd)
  | handle sub event => exact .inl ((finish (v := s.handOver sub event)) ▸ he)
  | awaitHandler sub event => exact .inl ((finish (v := s)) ▸ he)
  | _ => exact .inl he

/-- Whoever publishes has every registered subscriber's answer to this claim. -/
theorem publishes_earned {st : Stmt β} (hs : Consistent s) {replays : ℕ → Prop}
    (hd : Disciplined registry (· = N) replays i st s) {d : DomainEvent} (hm : d ∈ s.events)
    (hp : st.publishes = some (d.id, d.claimToken)) :
    (∃ q ∈ s.claims, q.event.id = d.id ∧ d.claimToken = some q.token) ∧
      ∀ sub ∈ subscribersFor d.type registry, ⟨d.id, d.claimToken, sub⟩ ∈ s.returned := by
  cases st with
  | settle id token data =>
    cases data with
    | published at_ =>
      simp only [Stmt.publishes, Option.some.injEq, Prod.mk.injEq] at hp
      obtain ⟨rfl, rfl⟩ := hp
      obtain ⟨q, hq, hid, htok, hearned⟩ := hd
      obtain ⟨e, he, hee⟩ := hs.claimed q hq
      have hed : e = d := row_of_id hs.toRowsConsistent he hm ((congrArg Envelope.id hee).trans hid)
      subst hed
      have htype : e.type = q.event.type := congrArg Envelope.type hee
      refine ⟨⟨q, hq, hid, htok.symm.trans (hs.claimToken q hq)⟩, fun sub hsub => ?_⟩
      have hret := hearned sub (htype ▸ hsub)
      rwa [hid, htok] at hret
    | _ => simp [Stmt.publishes] at hp
  | _ => simp [Stmt.publishes] at hp

theorem updateMany_none {p : DomainEvent → Bool} {f : DomainEvent → DomainEvent}
    (h : ∀ e ∈ s.events, p e = false) : (s.updateMany p f).2 = s := by
  have hmap : (s.events.map fun e => if p e then f e else e) = s.events := by
    refine (List.map_congr_left fun e he => ?_).trans (List.map_id _)
    simp [h e he]
  simp only [Table.updateMany, hmap]

/-- A settle or renewal under a token that the row no longer carries is void. -/
theorem exec_stale {st : Stmt β} {ch : Choice} {id : ℕ} {token : Option ℕ}
    (hf : st.fenced = some (id, token))
    (hstale : ∀ e ∈ s.events, e.id = id → e.claimToken ≠ token) : (exec i st ch s).2 = s := by
  have hnone : ∀ e ∈ s.events, e.heldBy id token = false := by
    intro e he
    refine Bool.eq_false_iff.mpr fun hh => ?_
    obtain ⟨hid, _, htok⟩ := heldBy_iff.mp hh
    exact hstale e he hid htok
  cases st with
  | settle id' token' data =>
    simp only [Stmt.fenced, Option.some.injEq, Prod.mk.injEq] at hf
    obtain ⟨rfl, rfl⟩ := hf
    exact updateMany_none hnone
  | renewLease id' token' lockedUntil =>
    simp only [Stmt.fenced, Option.some.injEq, Prod.mk.injEq] at hf
    obtain ⟨rfl, rfl⟩ := hf
    exact updateMany_none hnone
  | _ => simp [Stmt.fenced] at hf

theorem OutboxRun.withinBudget (hN : 1 ≤ N)
    (h : OutboxRun registry (· = N) (· = R) tr c) : WithinBudget N R c.state :=
  (Run.invariant (WithinBudget N R) h
    (fun o ho hb => exec_budget hN (h.holds.2 o ho).1 (h.disciplined ho) hb)
    (by simp [WithinBudget, Table.empty])).1

/-- Accounting over any run whose dispatchers share `maxAttempts = N` and whose
replays share `maxReplays = R`: publishing takes the current claim and every
subscriber's success, stale tokens write nothing, settled rows stay as they are,
the counters and the number of claims are bounded, and no row is ever lost. -/
theorem outbox_accounting (hN : 1 ≤ N) (h : OutboxRun registry (· = N) (· = R) tr c) :
    (∀ o ∈ tr, ∀ e ∈ o.post.events, e.status = .published → e ∈ o.pre.events ∨
      ∃ d ∈ o.pre.events, d.id = e.id ∧ d.status = .dispatching ∧
        o.stmt.publishes = some (d.id, d.claimToken) ∧
        (∃ q ∈ o.pre.claims, q.event.id = d.id ∧ d.claimToken = some q.token) ∧
        ∀ sub ∈ subscribersFor d.type registry, ⟨d.id, d.claimToken, sub⟩ ∈ o.pre.returned) ∧
    (∀ o ∈ tr, ∀ id token, o.stmt.fenced = some (id, token) →
      (∀ e ∈ o.pre.events, e.id = id → e.claimToken ≠ token) → o.post = o.pre) ∧
    (∀ o ∈ tr, ∀ e ∈ o.pre.events, e.status = .published ∨ e.status = .discarded →
      e ∈ c.state.events) ∧
    (∀ e ∈ c.state.events, e.attempts ≤ N ∧ e.replayCount ≤ R ∧
      c.state.claimsOf e.id ≤ N * (e.replayCount + 1)) ∧
    (∀ o ∈ tr, ∀ e ∈ o.pre.events, ∃ e' ∈ c.state.events, e'.toEnvelope = e.toEnvelope) ∧
    (c.state.events.map (·.id)).Nodup := by
  refine ⟨fun o ho e he hp => ?_, fun o _ id token => exec_stale, fun o ho e he hst => ?_,
    fun e he => ?_, fun o ho e he => ?_, ?_⟩
  · have hs := (h.holds.2 o ho).1
    rcases exec_published hs he hp with hold | ⟨d, hd, hde, hst, hpub⟩
    · exact .inl hold
    · exact .inr ⟨d, hd, congrArg Envelope.id hde, hst, hpub,
        publishes_earned hs (h.disciplined ho) hd hpub⟩
  · obtain ⟨e', he', _, hsame⟩ := (h.appends ho).rows e he
    rwa [hsame (settled_iff.mpr hst)] at he'
  · obtain ⟨hatt, _, hrep, hcl⟩ := h.withinBudget hN e he
    refine ⟨hatt, hrep, hcl.trans ?_⟩
    rw [Nat.mul_succ]
    exact Nat.add_le_add_left hatt _
  · obtain ⟨e', he', hee, _⟩ := (h.appends ho).rows e he
    exact ⟨e', he', hee⟩
  · exact List.Nodup.of_append_left h.holds.1.ids

theorem outbox_accounting_sample :
    (sampleEnd.state.events.map fun e => sampleEnd.state.claimsOf e.id) = [1, 1] ∧
    ∀ e ∈ sampleEnd.state.events, e.attempts ≤ 10 ∧ e.replayCount ≤ 5 ∧
      sampleEnd.state.claimsOf e.id ≤ 10 * (e.replayCount + 1) :=
  ⟨by decide, (outbox_accounting (by decide) sample_run).2.2.2.1⟩

end Ashbi.Outbox
