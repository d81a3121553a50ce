import Mathlib.Data.List.Pairwise
import Ashbi.Interleaving.Rules
import Ashbi.Outbox.Programs

/-! What the rows, the locks and the claims of the outbox always look like, and that each
statement keeps it, given what its program knows. -/

namespace Ashbi.Outbox

/-- Identities, sequences and what open producer transactions may hold. -/
structure RowsConsistent (s : Table) : Prop where
  ids : (s.events.map (·.id) ++ s.staged.map (·.2.id)).Nodup
  idBound : ∀ e ∈ s.events, e.id < s.nextId
  stagedBound : ∀ r ∈ s.staged, r.2.id < s.nextId
  lockOwner : ∀ i j k, (i, k) ∈ s.locks → (j, k) ∈ s.locks → i = j
  stagedLocked : ∀ r ∈ s.staged, (r.1, r.2.key) ∈ s.locks
  stagedNew : ∀ r ∈ s.staged, ∃ now, r.2 = .ofEnvelope r.2.toEnvelope now
  stagedLater : ∀ r ∈ s.staged, ∀ p ∈ s.events, p.key = r.2.key → p.sequence < r.2.sequence
  stagedDistinct : s.staged.Pairwise fun a b => a.2.key = b.2.key → a.2.sequence ≠ b.2.sequence
  sequences : s.events.Pairwise fun a b => a.key = b.key → a.sequence ≠ b.sequence

/-- What the claims made so far say about the rows. Only the first unsettled
event of an aggregate can have been claimed: `front` and `untouched` together. -/
structure ClaimsConsistent (s : Table) : Prop where
  tokenBound : ∀ c ∈ s.claims, c.token < s.nextToken
  tokenOnce : ∀ c ∈ s.claims, ∀ d ∈ s.claims, c.token = d.token → c.event.id = d.event.id → c = d
  claimToken : ∀ c ∈ s.claims, c.event.claimToken = some c.token
  claimed : ∀ c ∈ s.claims, ∃ e ∈ s.events, e.toEnvelope = c.event.toEnvelope
  front : ∀ c ∈ s.claims, ∀ p ∈ s.events, p.key = c.event.key → p.sequence < c.event.sequence →
    p.status.settled = true
  held : ∀ e ∈ s.events, ∀ t, e.claimToken = some t → e.status = .dispatching ∧
    ∃ c ∈ s.claims, c.token = t ∧ c.event.id = e.id ∧ c.event.attempts = e.attempts
  holder : ∀ e ∈ s.events, e.status = .dispatching → e.claimToken ≠ none
  untouched : ∀ e ∈ s.events, (∀ c ∈ s.claims, c.event.id ≠ e.id) →
    e.status = .pending ∧ e.attempts = 0 ∧ e.replayCount = 0

/-- The invariant between statements. -/
structure Consistent (s : Table) : Prop extends RowsConsistent s, ClaimsConsistent s

theorem empty_consistent : Consistent Table.empty := by
  refine ⟨?_, ?_⟩ <;> constructor <;> simp [Table.empty]

/-- Nothing recorded is forgotten, no row is lost and no settled row changes. -/
structure Grows (s t : Table) : Prop where
  claims : s.claims ⊆ t.claims
  handed : s.handed ⊆ t.handed
  returned : s.returned ⊆ t.returned
  rows : ∀ e ∈ s.events, ∃ e' ∈ t.events, e'.toEnvelope = e.toEnvelope ∧
    (e.status.settled = true → e' = e)

theorem Grows.refl (s : Table) : Grows s s :=
  ⟨List.Subset.refl _, List.Subset.refl _, List.Subset.refl _,
    fun e he => ⟨e, he, rfl, fun _ => rfl⟩⟩

theorem Grows.trans {s t u : Table} (h : Grows s t) (h' : Grows t u) : Grows s u := by
  refine ⟨List.Subset.trans h.claims h'.claims, List.Subset.trans h.handed h'.handed,
    List.Subset.trans h.returned h'.returned, fun e he => ?_⟩
  obtain ⟨f, hf, hfe, hfs⟩ := h.rows e he
  obtain ⟨g, hg, hgf, hgs⟩ := h'.rows f hf
  refine ⟨g, hg, hgf.trans hfe, fun hs => ?_⟩
  have hfe := hfs hs
  subst hfe
  exact hgs hs

/-- What thread `i` may assume of the others: everything recorded stays, and an
aggregate that it has locked gets no events from anyone else. -/
structure Rely (i : ℕ) (s t : Table) : Prop where
  grows : Grows s t
  locks : ∀ k, (i, k) ∈ s.locks → (i, k) ∈ t.locks
  rows : ∀ k, (i, k) ∈ s.locks → ∀ p ∈ t.events, p.key = k →
    ∃ q ∈ s.events, q.toEnvelope = p.toEnvelope
  staged : t.staged.filter (·.1 = i) = s.staged.filter (·.1 = i)

theorem Rely.refl (i : ℕ) (s : Table) : Rely i s s :=
  ⟨Grows.refl s, fun _ h => h, fun _ _ p hp _ => ⟨p, hp, rfl⟩, rfl⟩

theorem Rely.trans {i : ℕ} {s t u : Table} (h : Rely i s t) (h' : Rely i t u) : Rely i s u := by
  refine ⟨h.grows.trans h'.grows, fun k hk => h'.locks k (h.locks k hk), fun k hk p hp he => ?_,
    h'.staged.trans h.staged⟩
  obtain ⟨q, hq, hqe⟩ := h'.rows k (h.locks k hk) p hp he
  have hqk : q.key = k := by rw [← he]; exact congrArg Envelope.key hqe
  obtain ⟨r, hr, hre⟩ := h.rows k hk q hq hqk
  exact ⟨r, hr, hre.trans hqe⟩

/-! ### Row updates -/

/-- An update that keeps envelopes and settled rows, and only touches rows that
were claimed before. -/
structure RowUpdate (s : Table) (p : DomainEvent → Bool) (f : DomainEvent → DomainEvent) :
    Prop where
  envelope : ∀ e, (f e).toEnvelope = e.toEnvelope
  unsettled : ∀ e ∈ s.events, p e = true → e.status.settled = false
  held : ∀ e ∈ s.events, p e = true → ∀ t, (f e).claimToken = some t →
    (f e).status = .dispatching ∧ (f e).attempts = e.attempts ∧ e.claimToken = some t
  holder : ∀ e ∈ s.events, p e = true → (f e).status = .dispatching → (f e).claimToken ≠ none
  claimed : ∀ e ∈ s.events, p e = true → ∃ c ∈ s.claims, c.event.id = e.id

section Updates

variable {s : Table} {p : DomainEvent → Bool} {f : DomainEvent → DomainEvent}

theorem mem_updateMany {e : DomainEvent} :
    e ∈ (s.updateMany p f).2.events ↔ ∃ d ∈ s.events, (if p d then f d else d) = e := List.mem_map

theorem envelope_ite (hf : ∀ e, (f e).toEnvelope = e.toEnvelope) (d : DomainEvent) :
    (if p d then f d else d).toEnvelope = d.toEnvelope := by
  split
  · exact hf d
  · rfl

theorem grows_updateMany (hf : ∀ e, (f e).toEnvelope = e.toEnvelope)
    (hu : ∀ e ∈ s.events, p e = true → e.status.settled = false) :
    Grows s (s.updateMany p f).2 := by
  refine ⟨List.Subset.refl _, List.Subset.refl _, List.Subset.refl _, fun e he => ?_⟩
  refine ⟨_, (mem_updateMany).mpr ⟨e, he, rfl⟩, envelope_ite hf e, fun hs => ?_⟩
  split
  · rename_i hp
    simp [hu e he hp] at hs
  · rfl

theorem rely_updateMany (hf : ∀ e, (f e).toEnvelope = e.toEnvelope)
    (hu : ∀ e ∈ s.events, p e = true → e.status.settled = false) (j : ℕ) :
    Rely j s (s.updateMany p f).2 := by
  refine ⟨grows_updateMany hf hu, fun _ hk => hk, fun k _ e he _ => ?_, rfl⟩
  obtain ⟨d, hd, rfl⟩ := (mem_updateMany).mp he
  exact ⟨d, hd, (envelope_ite hf d).symm⟩

theorem RowsConsistent.update (h : RowsConsistent s) (hf : ∀ e, (f e).toEnvelope = e.toEnvelope) :
    RowsConsistent (s.updateMany p f).2 := by
  have hid : ∀ d, (if p d then f d else d).id = d.id :=
    fun d => congrArg Envelope.id (envelope_ite hf d)
  have hkey : ∀ d, (if p d then f d else d).key = d.key :=
    fun d => congrArg Envelope.key (envelope_ite hf d)
  have hseq : ∀ d, (if p d then f d else d).sequence = d.sequence :=
    fun d => congrArg Envelope.sequence (envelope_ite hf d)
  have hids : (s.updateMany p f).2.events.map (·.id) = s.events.map (·.id) := by
    simp only [Table.updateMany, List.map_map]
    exact List.map_congr_left fun d _ => hid d
  refine ⟨hids ▸ h.ids, ?_, h.stagedBound, h.lockOwner, h.stagedLocked, h.stagedNew, ?_,
    h.stagedDistinct, ?_⟩
  · intro e he
    obtain ⟨d, hd, rfl⟩ := (mem_updateMany).mp he
    exact (hid d).symm ▸ h.idBound d hd
  · intro r hr e he hk
    obtain ⟨d, hd, rfl⟩ := (mem_updateMany).mp he
    rw [hkey] at hk
    exact (hseq d).symm ▸ h.stagedLater r hr d hd hk
  · refine List.pairwise_map.mpr (h.sequences.imp fun {a b} hab hk => ?_)
    rw [hkey, hkey] at hk
    rw [hseq, hseq]
    exact hab hk

theorem RowUpdate.claims (h : RowUpdate s p f) (hs : ClaimsConsistent s) :
    ClaimsConsistent (s.updateMany p f).2 := by
  have hid : ∀ d, (if p d then f d else d).id = d.id :=
    fun d => congrArg Envelope.id (envelope_ite h.envelope d)
  refine ⟨hs.tokenBound, hs.tokenOnce, hs.claimToken, ?_, ?_, ?_, ?_, ?_⟩
  · intro c hc
    obtain ⟨e, he, hee⟩ := hs.claimed c hc
    exact ⟨_, (mem_updateMany).mpr ⟨e, he, rfl⟩, (envelope_ite h.envelope e).trans hee⟩
  · intro c hc e he hk hlt
    obtain ⟨d, hd, rfl⟩ := (mem_updateMany).mp he
    rw [DomainEvent.key, envelope_ite h.envelope] at hk
    rw [envelope_ite h.envelope] at hlt
    have hset := hs.front c hc d hd hk hlt
    split
    · rename_i hp
      simp [h.unsettled d hd hp] at hset
    · exact hset
  · intro e he t ht
    obtain ⟨d, hd, rfl⟩ := (mem_updateMany).mp he
    rw [hid]
    split at ht
    · rename_i hp
      obtain ⟨hst, hat, htok⟩ := h.held d hd hp t ht
      obtain ⟨c, hc, hct, hci, hca⟩ := (hs.held d hd t htok).2
      simp only [hp, ↓reduceIte]
      exact ⟨hst, c, hc, hct, hci, hca.trans hat.symm⟩
    · rename_i hp
      simp only [hp, Bool.false_eq_true, ↓reduceIte]
      exact hs.held d hd t ht
  · intro e he
    obtain ⟨d, hd, rfl⟩ := (mem_updateMany).mp he
    split
    · rename_i hp
      exact h.holder d hd hp
    · exact hs.holder d hd
  · intro e he hn
    obtain ⟨d, hd, rfl⟩ := (mem_updateMany).mp he
    rw [hid] at hn
    split
    · rename_i hp
      obtain ⟨c, hc, hci⟩ := h.claimed d hd hp
      exact absurd hci (hn c hc)
    · exact hs.untouched d hd hn

theorem RowUpdate.keeps (h : RowUpdate s p f) (hs : Consistent s) :
    Consistent (s.updateMany p f).2 ∧ ∀ j, Rely j s (s.updateMany p f).2 :=
  ⟨⟨hs.toRowsConsistent.update h.envelope, h.claims hs.toClaimsConsistent⟩,
    rely_updateMany h.envelope h.unsettled⟩

/-- A row that is no longer as inserted has been claimed. -/
theorem ClaimsConsistent.was_claimed (h : ClaimsConsistent s) {e : DomainEvent} (he : e ∈ s.events)
    (hst : e.status ≠ .pending) : ∃ c ∈ s.claims, c.event.id = e.id := by
  by_contra hn
  push Not at hn
  exact hst (h.untouched e he hn).1

theorem heldBy_iff {e : DomainEvent} {id : ℕ} {token : Option ℕ} :
    e.heldBy id token = true ↔ e.id = id ∧ e.status = .dispatching ∧ e.claimToken = token := by
  simp [DomainEvent.heldBy, and_assoc]

theorem leaseExpired_dispatching {e : DomainEvent} {now : Time} (h : e.leaseExpired now = true) :
    e.status = .dispatching := by
  simp only [DomainEvent.leaseExpired, Bool.and_eq_true, decide_eq_true_eq] at h
  exact h.1

theorem abandon_update (hs : Consistent s) (now : Time) (maxAttempts : ℕ) :
    RowUpdate s (fun e => e.leaseExpired now && maxAttempts ≤ e.attempts) DomainEvent.abandon := by
  have hd : ∀ e : DomainEvent, (e.leaseExpired now && decide (maxAttempts ≤ e.attempts)) = true →
      e.status = .dispatching := by
    intro e he
    exact leaseExpired_dispatching (Bool.and_eq_true_iff.mp he).1
  refine ⟨fun _ => rfl, fun e _ hp => ?_, ?_, ?_, fun e he hp => ?_⟩
  · rw [hd e hp]; rfl
  · intro e _ _ t ht
    simp [DomainEvent.abandon] at ht
  · intro e _ _ hst
    simp [DomainEvent.abandon] at hst
  · exact hs.was_claimed he (by simp [hd e hp])

theorem renew_update (hs : Consistent s) (id : ℕ) (token : Option ℕ) (lockedUntil : Time) :
    RowUpdate s (·.heldBy id token) fun e => { e with lockedUntil := some lockedUntil } := by
  refine ⟨fun _ => rfl, fun e _ hp => ?_, ?_, ?_, fun e he hp => ?_⟩
  · rw [((heldBy_iff).mp hp).2.1]; rfl
  · intro e _ hp t ht
    exact ⟨((heldBy_iff).mp hp).2.1, rfl, ht⟩
  · intro e he _ hst
    exact hs.holder e he hst
  · exact hs.was_claimed he (by simp [((heldBy_iff).mp hp).2.1])

theorem settle_update (hs : Consistent s) (id : ℕ) (token : Option ℕ) (data : Settlement) :
    RowUpdate s (·.heldBy id token) (·.settle data) := by
  have htok : ∀ e : DomainEvent, (e.settle data).claimToken = none := by intro e; cases data <;> rfl
  have hst : ∀ e : DomainEvent, (e.settle data).status ≠ .dispatching := by
    intro e; cases data <;> simp [DomainEvent.settle]
  refine ⟨fun e => by cases data <;> rfl, fun e _ hp => ?_, ?_, ?_, fun e he hp => ?_⟩
  · rw [((heldBy_iff).mp hp).2.1]; rfl
  · intro e _ _ t ht
    simp [htok] at ht
  · intro e _ _ hd
    exact absurd hd (hst e)
  · exact hs.was_claimed he (by simp [((heldBy_iff).mp hp).2.1])

theorem deadRow_iff {e : DomainEvent} {organizationId : String} {id replayCount : ℕ} :
    deadRow organizationId id replayCount e = true ↔ e.organizationId = organizationId ∧ e.id = id ∧
      e.status = .dead ∧ e.replayCount = replayCount := by
  simp [deadRow, and_assoc]

theorem requeue_update (hs : Consistent s) (organizationId : String) (id replayCount : ℕ)
    (now : Time) : RowUpdate s (deadRow organizationId id replayCount) (·.requeue now) := by
  refine ⟨fun _ => rfl, fun e _ hp => ?_, ?_, ?_, fun e he hp => ?_⟩
  · rw [((deadRow_iff).mp hp).2.2.1]; rfl
  · intro e he hp t ht
    have hd := (hs.held e he t ht).1
    rw [((deadRow_iff).mp hp).2.2.1] at hd
    cases hd
  · intro e _ _ hst
    simp [DomainEvent.requeue] at hst
  · exact hs.was_claimed he (by simp [((deadRow_iff).mp hp).2.2.1])

theorem discard_update (hs : Consistent s) (organizationId : String) (id replayCount : ℕ)
    (now : Time) : RowUpdate s (deadRow organizationId id replayCount) (·.discard now) := by
  refine ⟨fun _ => rfl, fun e _ hp => ?_, ?_, ?_, fun e he hp => ?_⟩
  · rw [((deadRow_iff).mp hp).2.2.1]; rfl
  · intro e he hp t ht
    have hd := (hs.held e he t ht).1
    rw [((deadRow_iff).mp hp).2.2.1] at hd
    cases hd
  · intro e _ _ hst
    simp [DomainEvent.discard] at hst
  · exact hs.was_claimed he (by simp [((deadRow_iff).mp hp).2.2.1])

end Updates

variable {s : Table} {i : ℕ}

/-! ### Claiming -/

section Claiming

variable {now : Time} {limit maxAttempts : ℕ} {leaseMs : ℤ} {rowLocked : ℕ → Bool}

theorem due_iff {e : DomainEvent} : s.due now maxAttempts e = true ↔
    ((e.status = .pending ∧ e.nextAttemptAt ≤ now) ∨
      (e.leaseExpired now = true ∧ e.attempts < maxAttempts)) ∧
    ∀ p ∈ s.events, p.key = e.key → p.sequence < e.sequence → p.status.settled = true := by
  simp [Table.due, Table.blocked, List.any_eq_false, and_imp]

/-- Every candidate is a due row of the table. -/
theorem candidate_due {e : DomainEvent} (h : e ∈ s.candidates now limit maxAttempts rowLocked) :
    e ∈ s.events ∧ s.due now maxAttempts e = true := by
  have hf := (List.mem_filter.mp (List.mem_of_mem_take h)).1
  have hs := (List.perm_insertionSort _ _).mem_iff.mp hf
  exact List.mem_filter.mp hs

theorem due_unsettled {e : DomainEvent} (h : s.due now maxAttempts e = true) :
    e.status.settled = false := by
  rcases ((due_iff).mp h).1 with ⟨hp, _⟩ | ⟨hl, _⟩
  · rw [hp]; rfl
  · rw [leaseExpired_dispatching hl]; rfl

/-- A row that shares its id with a candidate is that candidate. -/
theorem row_of_id (hs : RowsConsistent s) {d e : DomainEvent} (hd : d ∈ s.events)
    (he : e ∈ s.events) (h : d.id = e.id) : d = e :=
  List.inj_on_of_nodup_map (List.Nodup.of_append_left hs.ids) hd he h

theorem sequence_unique (hs : RowsConsistent s) {d e : DomainEvent} (hd : d ∈ s.events)
    (he : e ∈ s.events) (hk : d.key = e.key) (h : d.sequence = e.sequence) : d = e := by
  by_contra hne
  have symm : Std.Symm fun a b : DomainEvent => a.key = b.key → a.sequence ≠ b.sequence :=
    ⟨fun _ _ hab hk hq => hab hk.symm hq.symm⟩
  exact hs.sequences.forall hd he hne hk h

/-- The rows that the claim statement rewrites. -/
theorem claimed_row (hs : RowsConsistent s) {e : DomainEvent} (he : e ∈ s.events)
    (h : (s.candidates now limit maxAttempts rowLocked).any (·.id = e.id) = true) :
    e ∈ s.candidates now limit maxAttempts rowLocked := by
  obtain ⟨d, hd, hid⟩ := List.any_eq_true.mp h
  have heq := row_of_id hs (candidate_due hd).1 he (of_decide_eq_true hid)
  exact heq ▸ hd

/-- The state after `claimDomainEvents`. -/
def Table.claim (s : Table) (rows : List DomainEvent) (now : Time) (leaseMs : ℤ) : Table :=
  { (s.updateMany (fun e => rows.any (·.id = e.id)) fun e => e.claim now leaseMs s.nextToken).2 with
    nextToken := s.nextToken + 1
    claims := s.claims ++ rows.map fun e => ⟨e.claim now leaseMs s.nextToken, s.nextToken⟩ }

theorem exec_claim {ch : Choice} :
    (exec i (.claimDomainEvents now limit leaseMs maxAttempts) ch s).2 =
      s.claim (s.candidates now limit maxAttempts ch.rowLocked) now leaseMs := by
  simp only [exec, Table.claim, List.map_map]
  rfl

theorem mem_claims {rows : List DomainEvent} {c : Claim} :
    c ∈ (s.claim rows now leaseMs).claims ↔ c ∈ s.claims ∨
      ∃ e ∈ rows, ⟨e.claim now leaseMs s.nextToken, s.nextToken⟩ = c := by
  simp [Table.claim]

theorem claim_keeps (hs : Consistent s) (now : Time) (limit maxAttempts : ℕ) (leaseMs : ℤ)
    (rowLocked : ℕ → Bool) :
    Consistent (s.claim (s.candidates now limit maxAttempts rowLocked) now leaseMs) ∧
    ∀ j, Rely j s (s.claim (s.candidates now limit maxAttempts rowLocked) now leaseMs) := by
  generalize hrows : s.candidates now limit maxAttempts rowLocked = rows
  have hdue : ∀ e ∈ rows, e ∈ s.events ∧ s.due now maxAttempts e = true :=
    fun e he => candidate_due (hrows ▸ he)
  have hrow : ∀ e ∈ s.events, rows.any (·.id = e.id) = true → e ∈ rows := by
    intro e he h
    subst hrows
    exact claimed_row hs.toRowsConsistent he h
  have henv : ∀ e : DomainEvent, (e.claim now leaseMs s.nextToken).toEnvelope = e.toEnvelope :=
    fun _ => rfl
  have hopen : ∀ e ∈ s.events, rows.any (·.id = e.id) = true → e.status.settled = false :=
    fun e he h => due_unsettled (hdue e (hrow e he h)).2
  have hite := envelope_ite (p := fun e => rows.any (·.id = e.id)) henv
  have hupd := rely_updateMany (f := fun e => e.claim now leaseMs s.nextToken) henv hopen
  refine ⟨⟨?_, ?_⟩, fun j => ?_⟩
  · obtain ⟨h1, h2, h3, h4, h5, h6, h7, h8, h9⟩ := hs.toRowsConsistent.update
      (p := fun e => rows.any (·.id = e.id)) henv
    exact ⟨h1, h2, h3, h4, h5, h6, h7, h8, h9⟩
  · refine ⟨?_, ?_, ?_, ?_, ?_, ?_, ?_, ?_⟩
    · intro c hc
      rcases (mem_claims).mp hc with hc | ⟨e, _, rfl⟩
      · exact Nat.lt_succ_of_lt (hs.tokenBound c hc)
      · exact Nat.lt_succ_self _
    · -- a new claim cannot share its token with an old one
      intro c hc d hd ht hid
      rcases (mem_claims).mp hc with hc | ⟨e, he, rfl⟩ <;>
        rcases (mem_claims).mp hd with hd | ⟨e', he', rfl⟩
      · exact hs.tokenOnce c hc d hd ht hid
      · exact absurd ht (Nat.ne_of_lt (hs.tokenBound c hc))
      · exact absurd ht.symm (Nat.ne_of_lt (hs.tokenBound d hd))
      · rw [row_of_id hs.toRowsConsistent (hdue e he).1 (hdue e' he').1 hid]
    · intro c hc
      rcases (mem_claims).mp hc with hc | ⟨e, _, rfl⟩
      · exact hs.claimToken c hc
      · rfl
    · intro c hc
      have hold : ∃ e ∈ s.events, e.toEnvelope = c.event.toEnvelope := by
        rcases (mem_claims).mp hc with hc | ⟨e, he, rfl⟩
        · exact hs.claimed c hc
        · exact ⟨e, (hdue e he).1, rfl⟩
      obtain ⟨e, he, hee⟩ := hold
      exact ⟨_, (mem_updateMany).mpr ⟨e, he, rfl⟩, (hite e).trans hee⟩
    · intro c hc p hp hk hlt
      obtain ⟨d, hd, rfl⟩ := (mem_updateMany).mp hp
      rw [DomainEvent.key, hite d] at hk
      rw [hite d] at hlt
      have hset : d.status.settled = true := by
        rcases (mem_claims).mp hc with hc | ⟨e, he, rfl⟩
        · exact hs.front c hc d hd hk hlt
        · exact ((due_iff).mp (hdue e he).2).2 d hd hk hlt
      split
      · rename_i h
        simp [hopen d hd h] at hset
      · exact hset
    · intro e he t ht
      obtain ⟨d, hd, rfl⟩ := (mem_updateMany).mp he
      split at ht
      · rename_i h
        simp only [DomainEvent.claim, Option.some.injEq] at ht
        subst ht
        simp only [h, ↓reduceIte]
        exact ⟨rfl, _, (mem_claims).mpr (.inr ⟨d, hrow d hd h, rfl⟩), rfl, rfl, rfl⟩
      · rename_i h
        simp only [h, Bool.false_eq_true, ↓reduceIte]
        obtain ⟨hst, c, hc, hrest⟩ := hs.held d hd t ht
        exact ⟨hst, c, (mem_claims).mpr (.inl hc), hrest⟩
    · intro e he
      obtain ⟨d, hd, rfl⟩ := (mem_updateMany).mp he
      split
      · simp [DomainEvent.claim]
      · exact hs.holder d hd
    · intro e he hn
      obtain ⟨d, hd, rfl⟩ := (mem_updateMany).mp he
      split at hn
      · rename_i h
        exact absurd rfl (hn _ ((mem_claims).mpr (.inr ⟨d, hrow d hd h, rfl⟩)))
      · rename_i h
        simp only [h, Bool.false_eq_true, ↓reduceIte]
        exact hs.untouched d hd fun c hc => hn c ((mem_claims).mpr (.inl hc))
  · obtain ⟨⟨_, hh, hr, hrows'⟩, hl, hrw, hst⟩ := hupd j
    exact ⟨⟨fun c hc => (mem_claims).mpr (.inl hc), hh, hr, hrows'⟩, hl, hrw, hst⟩

end Claiming

/-! ### Producer transactions -/

theorem lock_keeps {key : AggregateKey} (hs : Consistent s)
    (he : (s.locks.all fun l => l.1 = i || l.2 ≠ key) = true) :
    Consistent { s with locks := s.locks ++ [(i, key)] } ∧
    ∀ j, Rely j s { s with locks := s.locks ++ [(i, key)] } := by
  have hfree : ∀ j, (j, key) ∈ s.locks → j = i := by
    intro j hj
    simpa using List.all_eq_true.mp he _ hj
  have howner : ∀ a b k, (a, k) ∈ s.locks ++ [(i, key)] → (b, k) ∈ s.locks ++ [(i, key)] →
    a = b := by
    intro a b k ha hb
    simp only [List.mem_append, List.mem_singleton, Prod.mk.injEq] at ha hb
    rcases ha with ha | ⟨rfl, rfl⟩ <;> rcases hb with hb | ⟨rfl, hk⟩
    · exact hs.lockOwner a b k ha hb
    · exact hfree a (hk ▸ ha)
    · exact (hfree b hb).symm
    · rfl
  refine ⟨⟨⟨hs.ids, hs.idBound, hs.stagedBound, howner,
    fun r hr => List.mem_append_left _ (hs.stagedLocked r hr), hs.stagedNew, hs.stagedLater,
    hs.stagedDistinct, hs.sequences⟩, ⟨hs.tokenBound, hs.tokenOnce, hs.claimToken, hs.claimed,
    hs.front, hs.held, hs.holder, hs.untouched⟩⟩, fun j => ?_⟩
  exact ⟨⟨List.Subset.refl _, List.Subset.refl _, List.Subset.refl _,
    fun e he => ⟨e, he, rfl, fun _ => rfl⟩⟩,
    fun k hk => List.mem_append_left _ hk, fun k _ p hp _ => ⟨p, hp, rfl⟩, rfl⟩

theorem mem_visible {e : DomainEvent} :
    e ∈ s.visible i ↔ e ∈ s.events ∨ (i, e) ∈ s.staged := by
  simp [Table.visible]

theorem no_clash {d : NewEvent} {e : DomainEvent} (h : d.clashes e = none) (hk : e.key = d.key) :
    e.sequence ≠ d.sequence := by
  intro hq
  unfold NewEvent.clashes at h
  split at h
  · cases h
  · simp [hk, hq] at h

/-- A created row is staged behind everything its transaction sees. -/
theorem create_keeps {d : NewEvent} {now : Time} (hs : Consistent s) (hl : (i, d.key) ∈ s.locks)
    (hlater : ∀ p ∈ s.events, p.key = d.key → p.sequence < d.sequence) :
    Consistent (s.create i d now).2 ∧ ∀ j, j ≠ i → Rely j s (s.create i d now).2 := by
  unfold Table.create
  cases hclash : (s.visible i).findSome? d.clashes with
  | some index => exact ⟨hs, fun j _ => Rely.refl j s⟩
  | none =>
    have hno := List.findSome?_eq_none_iff.mp hclash
    have hkey : (d.row s.nextId now).key = d.key := rfl
    refine ⟨⟨⟨?_, ?_, ?_, hs.lockOwner, ?_, ?_, ?_, ?_, hs.sequences⟩, ⟨hs.tokenBound, hs.tokenOnce,
      hs.claimToken, hs.claimed, hs.front, hs.held, hs.holder, hs.untouched⟩⟩, fun j hj => ?_⟩
    · have hfresh : s.nextId ∉ s.events.map (·.id) ++ s.staged.map (·.2.id) := by
        intro hm
        rcases List.mem_append.mp hm with hm | hm
        · obtain ⟨e, he, hid⟩ := List.mem_map.mp hm
          exact Nat.ne_of_lt (hs.idBound e he) hid
        · obtain ⟨r, hr, hid⟩ := List.mem_map.mp hm
          exact Nat.ne_of_lt (hs.stagedBound r hr) hid
      simp only [List.map_append, List.map_cons, List.map_nil, ← List.append_assoc]
      exact List.Nodup.append hs.ids (List.nodup_singleton _)
        (List.disjoint_singleton.mpr hfresh)
    · exact fun e he => Nat.lt_succ_of_lt (hs.idBound e he)
    · intro r hr
      rcases List.mem_append.mp hr with hr | hr
      · exact Nat.lt_succ_of_lt (hs.stagedBound r hr)
      · rw [List.mem_singleton.mp hr]
        exact Nat.lt_succ_self _
    · intro r hr
      rcases List.mem_append.mp hr with hr | hr
      · exact hs.stagedLocked r hr
      · rw [List.mem_singleton.mp hr]
        exact hl
    · intro r hr
      rcases List.mem_append.mp hr with hr | hr
      · exact hs.stagedNew r hr
      · rw [List.mem_singleton.mp hr]
        exact ⟨now, rfl⟩
    · intro r hr
      rcases List.mem_append.mp hr with hr | hr
      · exact hs.stagedLater r hr
      · rw [List.mem_singleton.mp hr]
        exact hlater
    · -- only this transaction stages rows of the locked aggregate
      refine List.pairwise_append.mpr ⟨hs.stagedDistinct, List.pairwise_singleton _ _, ?_⟩
      intro r hr q hq hk
      rw [List.mem_singleton.mp hq] at hk ⊢
      have hi : r.1 = i := hs.lockOwner _ _ _ (hs.stagedLocked r hr) (hk ▸ hl)
      exact no_clash (hno r.2 ((mem_visible).mpr (.inr (hi ▸ hr)))) hk
    · refine ⟨⟨List.Subset.refl _, List.Subset.refl _, List.Subset.refl _,
        fun e he => ⟨e, he, rfl, fun _ => rfl⟩⟩, fun _ hk => hk, fun k _ p hp _ => ⟨p, hp, rfl⟩, ?_⟩
      simp [List.filter_append, Ne.symm hj]

/-- The rows that thread `i` has staged. -/
def Table.own (s : Table) (i : ℕ) : List DomainEvent := (s.staged.filter (·.1 = i)).map (·.2)

theorem visible_eq : s.visible i = s.events ++ s.own i := rfl

theorem mem_own {e : DomainEvent} : e ∈ s.own i ↔ (i, e) ∈ s.staged := by
  simp [Table.own]

theorem mem_others {r : ℕ × DomainEvent} :
    r ∈ s.staged.filter (·.1 ≠ i) ↔ r ∈ s.staged ∧ r.1 ≠ i := by
  simp [List.mem_filter]

/-- Ids stay distinct when the staged rows of one thread move to the table. -/
theorem commit_ids (hs : RowsConsistent s) :
    ((s.visible i).map (·.id) ++ (s.staged.filter (·.1 ≠ i)).map (·.2.id)).Nodup := by
  have hperm : ((s.own i).map (·.id) ++ (s.staged.filter (·.1 ≠ i)).map (·.2.id)).Perm
      (s.staged.map (·.2.id)) := by
    have hsplit := (List.filter_append_perm (fun r : ℕ × DomainEvent => decide (r.1 = i))
      s.staged).map (·.2.id)
    simpa [Table.own, Function.comp_def] using hsplit
  rw [visible_eq, List.map_append, List.append_assoc]
  exact (hperm.append_left _).nodup_iff.mpr hs.ids

theorem commit_later (hs : RowsConsistent s) {r : ℕ × DomainEvent} (hr : r ∈ s.staged)
    (hi : r.1 ≠ i) {p : DomainEvent} (hp : p ∈ s.visible i) (hk : p.key = r.2.key) :
    p.sequence < r.2.sequence := by
  rcases (mem_visible).mp hp with hp | hp
  · exact hs.stagedLater r hr p hp hk
  · have hlock := hs.stagedLocked _ hp
    have howner := hs.lockOwner _ _ _ hlock (hk ▸ hs.stagedLocked r hr)
    exact absurd howner.symm hi

theorem commit_sequences (hs : RowsConsistent s) :
    (s.visible i).Pairwise fun a b => a.key = b.key → a.sequence ≠ b.sequence := by
  refine List.pairwise_append.mpr ⟨hs.sequences, ?_, ?_⟩
  · exact List.pairwise_map.mpr (hs.stagedDistinct.filter _)
  · intro p hp e he hk
    exact Nat.ne_of_lt (hs.stagedLater (i, e) ((mem_own).mp he) p hp hk)

theorem end_rows {commit : Bool} (hs : RowsConsistent s) :
    RowsConsistent (s.endTransaction i commit) := by
  have hsub : (s.events.map (·.id) ++ (s.staged.filter (·.1 ≠ i)).map (·.2.id)).Sublist
      (s.events.map (·.id) ++ s.staged.map (·.2.id)) :=
    (List.filter_sublist.map _).append_left _
  have hmem : ∀ e ∈ (s.endTransaction i commit).events, e ∈ s.visible i := by
    intro e he
    cases commit with
    | true => exact he
    | false => exact (mem_visible).mpr (.inl he)
  refine ⟨?_, ?_, ?_, ?_, ?_, ?_, ?_, ?_, ?_⟩
  · cases commit with
    | true => exact commit_ids hs
    | false => exact hs.ids.sublist hsub
  · intro e he
    rcases (mem_visible).mp (hmem e he) with he | he
    · exact hs.idBound e he
    · exact hs.stagedBound _ he
  · exact fun r hr => hs.stagedBound r ((mem_others).mp hr).1
  · exact fun a b k ha hb => hs.lockOwner a b k (List.mem_filter.mp ha).1 (List.mem_filter.mp hb).1
  · intro r hr
    obtain ⟨hr, hne⟩ := (mem_others).mp hr
    exact List.mem_filter.mpr ⟨hs.stagedLocked r hr, by simpa using hne⟩
  · exact fun r hr => hs.stagedNew r ((mem_others).mp hr).1
  · intro r hr p hp hk
    obtain ⟨hr, hne⟩ := (mem_others).mp hr
    exact commit_later hs hr hne (hmem p hp) hk
  · exact hs.stagedDistinct.filter _
  · cases commit with
    | true => exact commit_sequences hs
    | false => exact hs.sequences

/-- A committed new row is pending, unclaimed and behind everything claimed. -/
theorem end_claims {commit : Bool} (hs : Consistent s) :
    ClaimsConsistent (s.endTransaction i commit) := by
  cases commit with
  | false => exact ⟨hs.tokenBound, hs.tokenOnce, hs.claimToken, hs.claimed, hs.front, hs.held,
      hs.holder, hs.untouched⟩
  | true =>
    have hnew : ∀ e, (i, e) ∈ s.staged → e.status = .pending ∧ e.attempts = 0 ∧
        e.replayCount = 0 ∧ e.claimToken = none := by
      intro e he
      obtain ⟨now, hn⟩ := hs.stagedNew _ he
      simp only [] at hn
      rw [hn]
      exact ⟨rfl, rfl, rfl, rfl⟩
    refine ⟨hs.tokenBound, hs.tokenOnce, hs.claimToken, ?_, ?_, ?_, ?_, ?_⟩
    · intro c hc
      obtain ⟨e, he, hee⟩ := hs.claimed c hc
      exact ⟨e, (mem_visible).mpr (.inl he), hee⟩
    · intro c hc p hp hk hlt
      rcases (mem_visible).mp hp with hp | hp
      · exact hs.front c hc p hp hk hlt
      · obtain ⟨e, he, hee⟩ := hs.claimed c hc
        have hke : e.key = p.key := (congrArg Envelope.key hee).trans hk.symm
        have hse : e.sequence = c.event.sequence := congrArg Envelope.sequence hee
        have hlater := hs.stagedLater _ hp e he hke
        simp only [] at hlater
        omega
    · intro e he t ht
      rcases (mem_visible).mp he with he | he
      · exact hs.held e he t ht
      · rw [(hnew e he).2.2.2] at ht
        cases ht
    · intro e he hd
      rcases (mem_visible).mp he with he | he
      · exact hs.holder e he hd
      · rw [(hnew e he).1] at hd
        cases hd
    · intro e he hn
      rcases (mem_visible).mp he with he | he
      · exact hs.untouched e he hn
      · obtain ⟨h1, h2, h3, _⟩ := hnew e he
        exact ⟨h1, h2, h3⟩

theorem end_grows {commit : Bool} : Grows s (s.endTransaction i commit) := by
  refine ⟨List.Subset.refl _, List.Subset.refl _, List.Subset.refl _, fun e he => ?_⟩
  cases commit with
  | true => exact ⟨e, (mem_visible).mpr (.inl he), rfl, fun _ => rfl⟩
  | false => exact ⟨e, he, rfl, fun _ => rfl⟩

theorem end_rely {commit : Bool} (hs : RowsConsistent s) {j : ℕ} (hj : j ≠ i) :
    Rely j s (s.endTransaction i commit) := by
  refine ⟨end_grows, ?_, ?_, ?_⟩
  · intro k hk
    exact List.mem_filter.mpr ⟨hk, by simpa using hj⟩
  · intro k hk p hp he
    cases commit with
    | false => exact ⟨p, hp, rfl⟩
    | true =>
      rcases (mem_visible).mp hp with hp | hp
      · exact ⟨p, hp, rfl⟩
      · have howner := hs.lockOwner _ _ _ hk (he ▸ hs.stagedLocked _ hp)
        exact absurd howner hj
  · simp only [Table.endTransaction, List.filter_filter]
    refine List.filter_congr fun r _ => ?_
    by_cases hr : r.1 = j <;> simp [hr, hj]

end Ashbi.Outbox
