import Ashbi.Outbox.Steps

/-! What every program of a deployment knows when it runs a statement: each runs only
disciplined ones. -/

namespace Ashbi.Outbox

open Interleaving

variable (registry : List Subscriber) (attempts replays : ℕ → Prop)

/-- What a dispatcher has seen before it settles the event it claimed. -/
def Earned (s : Table) (event : DomainEvent) : Settlement → Prop
  | .published _ => ∀ sub ∈ subscribersFor event.type registry,
      ⟨event.id, event.claimToken, sub⟩ ∈ s.returned
  | .retry _ _ => ∃ maxAttempts, attempts maxAttempts ∧ event.attempts < maxAttempts
  | .dead _ => True

/-- What thread `i` knows before it runs the statement. -/
def Disciplined {β : Type} (i : ℕ) (st : Stmt β) (s : Table) : Prop :=
  match st with
  | .createEvent d =>
    (i, d.key) ∈ s.locks ∧ ∀ p ∈ s.events, p.key = d.key → p.sequence < d.sequence
  | .deadLetterAbandonedClaims _ maxAttempts => attempts maxAttempts
  | .claimDomainEvents _ _ _ maxAttempts => attempts maxAttempts
  | .settle id claimToken data => ∃ c ∈ s.claims, c.event.id = id ∧
      c.event.claimToken = claimToken ∧ Earned registry attempts s c.event data
  | .handle _ event => ∃ c ∈ s.claims, c.event = event
  | .awaitHandler _ event => ∃ c ∈ s.claims, c.event = event
  | .requeue _ _ replayCount _ => ∃ maxReplays, replays maxReplays ∧ replayCount < maxReplays
  | _ => True

/-- The contract of a deployment; it assumes nothing about its runs. -/
def contract : Contract machine where
  inv := Consistent
  rely := Rely
  assumed _ := True
  guar o := Disciplined registry attempts replays o.thread o.stmt o.pre
  refl := Rely.refl
  trans _ _ _ _ := Rely.trans

variable {registry attempts replays} {i : ℕ} {s : Table} {α β : Type}

/-- Recording what happened changes neither rows nor claims. -/
theorem record_keeps (hs : Consistent s) (handed returned : List Handling)
    (hh : s.handed ⊆ handed) (hr : s.returned ⊆ returned) :
    Consistent { s with handed, returned } ∧ ∀ j, Rely j s { s with handed, returned } :=
  ⟨⟨⟨hs.ids, hs.idBound, hs.stagedBound, hs.lockOwner, hs.stagedLocked, hs.stagedNew,
    hs.stagedLater, hs.stagedDistinct, hs.sequences⟩, ⟨hs.tokenBound, hs.tokenOnce, hs.claimToken,
    hs.claimed, hs.front, hs.held, hs.holder, hs.untouched⟩⟩, fun _ =>
    ⟨⟨List.Subset.refl _, hh, hr, fun e he => ⟨e, he, rfl, fun _ => rfl⟩⟩, fun _ hk => hk,
      fun _ _ p hp _ => ⟨p, hp, rfl⟩, rfl⟩⟩

theorem finish_keeps (hs : Consistent s) (sub : Subscriber) (event : DomainEvent)
    (outcome : Outcome) : Consistent (s.finish sub event outcome) ∧
      ∀ j, Rely j s (s.finish sub event outcome) := by
  cases outcome with
  | returned => exact record_keeps hs _ _ (List.Subset.refl _) (List.subset_append_left _ _)
  | threw _ => exact ⟨hs, fun j => Rely.refl j s⟩
  | timedOut => exact ⟨hs, fun j => Rely.refl j s⟩

/-- One disciplined statement keeps the invariant and what the other threads rely on. -/
theorem exec_keeps {st : Stmt β} {ch : Choice} (hs : Consistent s)
    (he : enabled i st s = true) (hd : Disciplined registry attempts replays i st s) :
    Consistent (exec i st ch s).2 ∧ ∀ j, j ≠ i → Rely j s (exec i st ch s).2 := by
  have hread : Consistent s ∧ ∀ j, j ≠ i → Rely j s s := ⟨hs, fun j _ => Rely.refl j s⟩
  cases st with
  | now => exact hread
  | random => exact hread
  | randomUUID => exact hread
  | findByIdempotencyKey _ _ => exact hread
  | maxSequence _ => exact hread
  | findOrganization _ => exact hread
  | findEvents _ _ => exact hread
  | advisoryLock key => exact (lock_keeps hs he).imp_right fun h j _ => h j
  | createEvent d => exact create_keeps hs hd.1 hd.2
  | endTransaction commit =>
    exact ⟨⟨end_rows hs.toRowsConsistent, end_claims hs⟩, fun j hj =>
      end_rely hs.toRowsConsistent hj⟩
  | deadLetterAbandonedClaims now maxAttempts =>
    exact ((abandon_update hs now maxAttempts).keeps hs).imp_right fun h j _ => h j
  | claimDomainEvents now limit leaseMs maxAttempts =>
    rw [exec_claim]
    exact (claim_keeps hs now limit maxAttempts leaseMs ch.rowLocked).imp_right fun h j _ => h j
  | renewLease id token until_ =>
    exact ((renew_update hs id token until_).keeps hs).imp_right fun h j _ => h j
  | settle id token data =>
    exact ((settle_update hs id token data).keeps hs).imp_right fun h j _ => h j
  | handle sub event =>
    obtain ⟨hh, hr⟩ := record_keeps hs (s.handOver sub event).handed s.returned
      (List.subset_append_left _ _) (List.Subset.refl _)
    obtain ⟨hf, hfr⟩ := finish_keeps hh sub event ch.outcome
    exact ⟨hf, fun j _ => (hr j).trans (hfr j)⟩
  | awaitHandler sub event =>
    exact (finish_keeps hs sub event ch.outcome).imp_right fun h j _ => h j
  | requeue org id count now =>
    exact ((requeue_update hs org id count now).keeps hs).imp_right fun h j _ => h j
  | discard org id count now =>
    exact ((discard_update hs org id count now).keeps hs).imp_right fun h j _ => h j

theorem exec_grows {st : Stmt β} {ch : Choice} (hs : Consistent s)
    (he : enabled i st s = true) (hd : Disciplined registry attempts replays i st s) :
    Grows s (exec i st ch s).2 :=
  ((exec_keeps hs he hd).2 (i + 1) (Nat.succ_ne_self i)).grows

/-- The rule for one statement: it is disciplined wherever it may run, and the
rest is safe after it. -/
theorem safe_call {st : Stmt β} {next : β → Prog Stmt α} {Q : α → Table → Prop}
    (h : ∀ (t : Table) (ch : Choice), Rely i s t → Consistent t →
      Disciplined registry attempts replays i st t ∧ (Grows t (exec i st ch t).2 →
        (next (exec i st ch t).1).Safe (contract registry attempts replays) i Q
          (exec i st ch t).2)) :
    (Prog.call st next : Prog machine.Stmt α).Safe (contract registry attempts replays) i Q s := by
  intro t ch hr hi he _
  obtain ⟨hd, hn⟩ := h t ch hr hi
  have hkeep : Consistent (exec i st ch t).2 ∧ ∀ j, j ≠ i → Rely j t (exec i st ch t).2 :=
    exec_keeps hi he hd
  exact ⟨⟨hd, hkeep.1, hkeep.2⟩, hn (exec_grows hi he hd)⟩

/-! ### Programs of a deployment -/

abbrev Safe (registry : List Subscriber) (attempts replays : ℕ → Prop) (i : ℕ) {α : Type}
    (p : Prog Stmt α) (Q : α → Table → Prop) (s : Table) : Prop :=
  Prog.Safe (M := machine) (contract registry attempts replays) i p Q s

/-- The event was returned by a claim, and these subscribers have handled it. -/
structure Delivered (done : List Subscriber) (event : DomainEvent) (s : Table) : Prop where
  claimed : ∃ c ∈ s.claims, c.event = event
  returned : ∀ sub ∈ done, ⟨event.id, event.claimToken, sub⟩ ∈ s.returned

theorem Delivered.grows {done : List Subscriber} {event : DomainEvent} {t : Table}
    (h : Delivered done event s) (hg : Grows s t) : Delivered done event t := by
  obtain ⟨c, hc, he⟩ := h.claimed
  exact ⟨⟨c, hg.claims hc, he⟩, fun sub hsub => hg.returned (h.returned sub hsub)⟩

theorem Delivered.finish {done : List Subscriber} {event : DomainEvent} {sub : Subscriber}
    (h : Delivered done event s) :
    Delivered (done ++ [sub]) event (s.finish sub event .returned) := by
  refine ⟨h.claimed, fun q hq => ?_⟩
  rcases List.mem_append.mp hq with hq | hq
  · exact List.mem_append_left _ (h.returned q hq)
  · rw [List.mem_singleton.mp hq]
    exact List.mem_append_right _ List.mem_cons_self

/-- What `runTargets` leaves: on success all of `targets` have returned. -/
def Ran (targets : List Subscriber) (event : DomainEvent) (failure : Option String) (s : Table) :
    Prop :=
  Delivered (if failure = none then targets else []) event s

theorem Delivered.failed {done targets : List Subscriber} {event : DomainEvent} {error : String}
    (h : Delivered done event s) : Ran targets event (some error) s :=
  ⟨h.claimed, by simp⟩

theorem runTargets_safe (timeoutMs : ℤ) (event : DomainEvent) (done targets : List Subscriber)
    (h : Delivered done event s) :
    Safe registry attempts replays i (runTargets timeoutMs event targets)
      (Ran (done ++ targets) event) s := by
  induction targets generalizing done s i with
  | nil => exact show Ran (done ++ []) event none s by simpa [Ran] using h
  | cons sub rest ih =>
    refine safe_call fun t ch hr _ => ⟨(h.grows hr.grows).claimed, fun _ => ?_⟩
    have ht : Delivered done event (t.handOver sub event) :=
      ⟨(h.grows hr.grows).claimed, (h.grows hr.grows).returned⟩
    have rest_safe : ∀ j u, Delivered done event u → Safe registry attempts replays j
        (runTargets timeoutMs event rest) (Ran (done ++ sub :: rest) event)
        (u.finish sub event .returned) := by
      intro j u hu
      have hn := ih (i := j) (done ++ [sub]) hu.finish
      rwa [List.append_assoc] at hn
    simp only [exec]
    cases ch.outcome with
    | returned => exact rest_safe i _ ht
    | threw error => exact ht.failed
    | timedOut =>
      refine fun u hu _ => ⟨fun j _ => ?_, (ht.grows hu.grows).failed⟩
      have hu := ht.grows hu.grows
      refine safe_call fun v ch hv _ => ⟨(hu.grows hv.grows).claimed, fun _ => ?_⟩
      simp only [exec]
      cases ch.outcome with
      | returned =>
        exact Prog.Safe.bind ((rest_safe j v (hu.grows hv.grows)).mono fun _ _ _ => trivial)
      | threw error => trivial
      | timedOut => trivial

theorem runInTenant_safe (timeoutMs : ℤ) (event : DomainEvent) (targets : List Subscriber)
    (h : Delivered [] event s) :
    Safe registry attempts replays i (runInTenant timeoutMs event targets)
      (Ran targets event) s := by
  have run_safe : ∀ j u, Delivered [] event u →
      Safe registry attempts replays j (runTargets timeoutMs event targets) (Ran targets event) u :=
    fun j u hu => runTargets_safe timeoutMs event [] targets hu
  refine safe_call fun t ch hr _ => ⟨trivial, fun _ => ?_⟩
  have ht := h.grows hr.grows
  simp only [exec]
  cases ch.outcome with
  | returned => exact run_safe i t ht
  | threw error => exact ht.failed
  | timedOut =>
    refine fun u hu _ => ⟨fun j _ => ?_, (ht.grows hu.grows).failed⟩
    refine safe_call fun v ch hv _ => ⟨trivial, fun _ => ?_⟩
    simp only [exec]
    cases ch.outcome with
    | returned =>
      have hrun := run_safe j v ((ht.grows hu.grows).grows hv.grows)
      exact Prog.Safe.bind (hrun.mono fun _ _ _ => trivial)
    | threw error => trivial
    | timedOut => trivial

/-- One `settle` and the count that follows it. -/
theorem settle_safe {event : DomainEvent} {data : Settlement} {done : List Subscriber}
    {won lost : Summary} (h : Delivered done event s)
    (earned : ∀ t, Delivered done event t → Earned registry attempts t event data) :
    Safe registry attempts replays i
      (.call (.settle event.id event.claimToken data) fun ok =>
        if ok then .ret won else .ret lost) (fun _ _ => True) s := by
  refine safe_call fun t ch hr _ => ?_
  have ht := h.grows hr.grows
  obtain ⟨c, hc, he⟩ := ht.claimed
  have hd : Earned registry attempts t c.event data := he ▸ earned t ht
  refine ⟨⟨c, hc, by rw [he], by rw [he], hd⟩, fun _ => ?_⟩
  split <;> trivial

theorem deliver_safe {options : DispatchOptions} (ho : attempts options.maxAttempts)
    (summary : Summary) {event : DomainEvent} (h : Delivered [] event s) :
    Safe registry attempts replays i (deliver registry options summary event)
      (fun _ _ => True) s := by
  refine safe_call fun t₁ ch₁ hr₁ _ => ⟨trivial, fun _ => ?_⟩
  refine safe_call fun t₂ ch₂ hr₂ _ => ⟨trivial, fun hg₂ => ?_⟩
  have h₂ := ((h.grows hr₁.grows).grows hr₂.grows).grows hg₂
  generalize (exec i (Stmt.renewLease event.id event.claimToken _) ch₂ t₂).1 = renewed
  cases renewed with
  | false => trivial
  | true =>
    simp only [Prog.ret_bind, Prog.bind_def, ↓reduceIte]
    refine Prog.Safe.bind ((runInTenant_safe _ event _ h₂).mono fun failure u hran => ?_)
    refine safe_call fun t₃ ch₃ hr₃ _ => ⟨trivial, fun _ => ?_⟩
    have hran : Ran _ event failure t₃ := hran.grows hr₃.grows
    cases failure with
    | none => exact settle_safe hran fun t ht => ht.returned
    | some lastError =>
      simp only []
      split
      · exact settle_safe hran fun _ _ => trivial
      · rename_i hlt
        refine safe_call fun t₄ ch₄ hr₄ _ => ⟨trivial, fun _ => ?_⟩
        exact settle_safe (hran.grows hr₄.grows) fun _ _ => ⟨_, ho, Nat.not_le.mp hlt⟩

/-- Every row that a claim statement returns is claimed. -/
theorem claimed_delivered {now : Time} {limit maxAttempts : ℕ} {leaseMs : ℤ} {ch : Choice} :
    ∀ e ∈ (exec i (.claimDomainEvents now limit leaseMs maxAttempts) ch s).1,
      Delivered [] e (exec i (.claimDomainEvents now limit leaseMs maxAttempts) ch s).2 := by
  intro e he
  refine ⟨⟨⟨e, s.nextToken⟩, ?_, rfl⟩, by simp⟩
  exact List.mem_append_right _ (List.mem_map.mpr ⟨e, he, rfl⟩)

theorem batch_safe {options : DispatchOptions} (ho : attempts options.maxAttempts)
    (summary : Summary) {claimed : List DomainEvent} (h : ∀ e ∈ claimed, Delivered [] e s) :
    Safe registry attempts replays i (claimed.foldlM (deliver registry options) summary)
      (fun _ t => ∀ e ∈ claimed, Delivered [] e t) s := by
  refine Prog.Safe.foldlM (M := machine) (I := fun _ t => ∀ e ∈ claimed, Delivered [] e t) ?_ h
  intro summary event u hm hu
  have stable : ∀ j v w, Rely j v w → (∀ e ∈ claimed, Delivered [] e v) →
      ∀ e ∈ claimed, Delivered [] e w := fun _ _ _ hr hv e he => (hv e he).grows hr.grows
  exact ((deliver_safe ho summary (hu event hm)).frame stable hu).mono fun _ _ ht => ht.2

theorem rounds_safe {options : DispatchOptions} (ho : attempts options.maxAttempts) (n : ℕ)
    (summary : Summary) :
    Safe registry attempts replays i (rounds registry options n summary) (fun _ _ => True) s := by
  induction n generalizing s summary with
  | zero => trivial
  | succ n ih =>
    refine safe_call fun t₁ ch₁ _ _ => ⟨trivial, fun _ => ?_⟩
    refine safe_call fun t₂ ch₂ _ _ => ⟨ho, fun _ => ?_⟩
    simp only [Prog.ret_bind, Prog.bind_def]
    split
    · trivial
    · exact Prog.Safe.bind ((batch_safe ho _ claimed_delivered).mono fun _ _ _ => ih _)

theorem dispatchDomainEvents_safe {options : DispatchOptions} (ho : attempts options.maxAttempts) :
    Safe registry attempts replays i (dispatchDomainEvents registry options)
      (fun _ _ => True) s := by
  unfold dispatchDomainEvents
  split
  · refine safe_call fun t₁ ch₁ _ _ => ⟨trivial, fun _ => ?_⟩
    refine safe_call fun t₂ ch₂ _ _ => ⟨ho, fun _ => ?_⟩
    simp only [Prog.ret_bind, Prog.bind_def]
    exact Prog.Safe.bind ((rounds_safe ho _ _).mono fun _ _ _ => trivial)
  · trivial

/-! ### Producers -/

/-- The highest sequence read under the aggregate's lock stays the highest. -/
theorem sequence_later {key : AggregateKey} {t : Table} (hr : Rely i s t)
    (hl : (i, key) ∈ s.locks) {p : DomainEvent} (hp : p ∈ t.events) (hk : p.key = key) :
    p.sequence < ((((s.visible i).filter (·.key = key)).map (·.sequence)).max?).getD 0 + 1 := by
  obtain ⟨q, hq, hqe⟩ := hr.rows key hl p hp hk
  have hqk : q.key = key := (congrArg Envelope.key hqe).trans hk
  have hmem : q.sequence ∈ ((s.visible i).filter (·.key = key)).map (·.sequence) := by
    refine List.mem_map.mpr ⟨q, List.mem_filter.mpr ⟨mem_visible.mpr (.inl hq), ?_⟩, rfl⟩
    exact decide_eq_true hqk
  have hseq : q.sequence = p.sequence := congrArg Envelope.sequence hqe
  have hle := List.le_max?_getD_of_mem (k := 0) hmem
  omega

theorem insertEvent_safe (input : RecordInput) (checked : CheckedInput) (correlationId : String)
    (occurredAt : Time) (hl : (i, checked.key) ∈ s.locks) :
    Safe registry attempts replays i (insertEvent input checked correlationId occurredAt)
      (fun _ _ => True) s := by
  refine safe_call fun t₁ ch₁ hr₁ _ => ⟨trivial, fun _ => ?_⟩
  have hl₁ := hr₁.locks _ hl
  refine safe_call fun t₂ ch₂ hr₂ _ => ⟨⟨hr₂.locks _ hl₁, fun p hp hk => ?_⟩, fun _ => ?_⟩
  · exact sequence_later hr₂ hl₁ hp hk
  · simp only [Prog.ret_bind]
    split <;> trivial

theorem correlation_safe (input : RecordInput) :
    Safe registry attempts replays i (correlation input) (fun _ _ => True) s := by
  unfold correlation
  split
  · trivial
  · exact safe_call fun _ _ _ _ => ⟨trivial, fun _ => trivial⟩

theorem occurrence_safe (input : RecordInput) :
    Safe registry attempts replays i (occurrence input) (fun _ _ => True) s := by
  unfold occurrence
  split
  · trivial
  · exact safe_call fun _ _ _ _ => ⟨trivial, fun _ => trivial⟩

theorem appendEvent_safe (input : RecordInput) (checked : CheckedInput) :
    Safe registry attempts replays i (appendEvent input checked) (fun _ _ => True) s := by
  refine Prog.Safe.bind ((correlation_safe input).mono fun correlationId t _ => ?_)
  refine Prog.Safe.bind ((occurrence_safe input).mono fun occurredAt u _ => ?_)
  refine safe_call fun t₁ ch₁ _ _ => ⟨trivial, fun _ => ?_⟩
  have hl : (i, checked.key) ∈ (t₁.locks ++ [(i, checked.key)]) := by simp
  refine safe_call fun t₂ ch₂ hr₂ _ => ⟨trivial, fun _ => ?_⟩
  have hl₂ := hr₂.locks checked.key hl
  simp only [Prog.ret_bind]
  split
  · split <;> trivial
  · exact insertEvent_safe input checked correlationId occurredAt hl₂

theorem recordDomainEvent_safe (validPayload : String → String → Bool) (input : RecordInput) :
    Safe registry attempts replays i (recordDomainEvent validPayload input)
      (fun _ _ => True) s := by
  unfold recordDomainEvent
  split
  · trivial
  · exact appendEvent_safe input _

theorem producer_safe (validPayload : String → String → Bool) (commits : Bool)
    (inputs : List RecordInput) :
    Safe registry attempts replays i (producer validPayload commits inputs)
      (fun _ _ => True) s := by
  have ends : ∀ commit t, Safe registry attempts replays i (.stmt (.endTransaction commit))
      (fun _ _ => True) t := fun _ _ => safe_call fun _ _ _ _ => ⟨trivial, fun _ => trivial⟩
  induction inputs generalizing s with
  | nil => exact ends commits s
  | cons input rest ih =>
    refine Prog.Safe.bind ((recordDomainEvent_safe validPayload input).mono fun result t _ => ?_)
    cases result with
    | ok _ => exact ih
    | error _ => exact ends false t

/-! ### Admin requests -/

theorem replayDeadDomainEvents_safe {maxReplays : ℕ} (hR : replays maxReplays)
    (organizationId : String) (eventIds : List ℕ) (now : Time) :
    Safe registry attempts replays i
      (replayDeadDomainEvents organizationId eventIds now maxReplays) (fun _ _ => True) s := by
  unfold replayDeadDomainEvents
  dsimp only
  split
  · trivial
  · refine safe_call fun t₁ ch₁ _ _ => ⟨trivial, fun _ => ?_⟩
    simp only [Prog.ret_bind, Prog.bind_def]
    refine Prog.Safe.bind ((Prog.Safe.foldlM (M := machine) (I := fun _ _ => True) ?_ trivial).mono
      fun _ _ _ => trivial)
    intro result id t _ _
    unfold replayOne
    split
    · trivial
    · split
      · trivial
      · split
        · trivial
        · rename_i hlt
          refine safe_call fun t₂ ch₂ _ _ => ⟨⟨_, hR, Nat.not_le.mp hlt⟩, fun _ => ?_⟩
          simp only [Prog.ret_bind]
          split <;> trivial

theorem discardDeadDomainEvents_safe (organizationId : String) (eventIds : List ℕ) (now : Time) :
    Safe registry attempts replays i (discardDeadDomainEvents organizationId eventIds now)
      (fun _ _ => True) s := by
  unfold discardDeadDomainEvents
  dsimp only
  split
  · trivial
  · refine safe_call fun t₁ ch₁ _ _ => ⟨trivial, fun _ => ?_⟩
    simp only [Prog.ret_bind, Prog.bind_def]
    refine Prog.Safe.bind ((Prog.Safe.foldlM (M := machine) (I := fun _ _ => True) ?_ trivial).mono
      fun _ _ _ => trivial)
    intro result id t _ _
    unfold discardOne
    split
    · trivial
    · split
      · trivial
      · refine safe_call fun t₂ ch₂ _ _ => ⟨trivial, fun _ => ?_⟩
        simp only [Prog.ret_bind]
        split <;> trivial

theorem Deployed.safe {p : Prog Stmt Unit} (h : Deployed registry attempts replays p) (i : ℕ)
    (s : Table) : Safe registry attempts replays i p (fun _ _ => True) s := by
  cases h with
  | producer validPayload commits inputs => exact producer_safe validPayload commits inputs
  | dispatch options ho =>
    exact Prog.Safe.bind ((dispatchDomainEvents_safe ho).mono fun _ _ _ => trivial)
  | replay org ids now maxReplays hR =>
    exact Prog.Safe.bind ((replayDeadDomainEvents_safe hR org ids now).mono fun _ _ _ => trivial)
  | discard org ids now =>
    exact Prog.Safe.bind ((discardDeadDomainEvents_safe org ids now).mono fun _ _ _ => trivial)

/-- Runs of a deployment, from the empty outbox. -/
abbrev OutboxRun (registry : List Subscriber) (attempts replays : ℕ → Prop)
    (tr : List (Occurrence machine)) (c : Config machine) : Prop :=
  Run (Deployed registry attempts replays) Table.empty tr c

variable {tr : List (Occurrence machine)} {c : Config machine}

theorem OutboxRun.holds (h : OutboxRun registry attempts replays tr c) :
    Consistent c.state ∧ ∀ o ∈ tr, Consistent o.pre ∧
      (contract registry attempts replays).Keeps o := by
  obtain ⟨hc, ho⟩ := Run.holds (K := contract registry attempts replays)
    (fun p hp i s _ _ => hp.safe i s) empty_consistent (fun _ => trivial) h fun _ _ => trivial
  exact ⟨hc.1, ho⟩

theorem OutboxRun.disciplined (h : OutboxRun registry attempts replays tr c)
    {o : Occurrence machine} (ho : o ∈ tr) :
    Disciplined registry attempts replays o.thread o.stmt o.pre :=
  (h.holds.2 o ho).2.guar

theorem OutboxRun.grows (h : OutboxRun registry attempts replays tr c)
    {o : Occurrence machine} (ho : o ∈ tr) : Grows o.pre o.post :=
  ((h.holds.2 o ho).2.others (o.thread + 1) (Nat.succ_ne_self _)).grows

end Ashbi.Outbox
