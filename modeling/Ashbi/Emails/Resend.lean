import Mathlib.Order.Interval.Finset.Nat
import Ashbi.Emails.Attempts

/-! No email is sent again blindly, where no claim takes a row that another attempt has left. -/

namespace Ashbi.Emails

open Interleaving Sql

/-! ### The attempt of a thread -/

section Attempts

variable {Inbox : Type} {feed : Inbox → Time → Actor → List Candidate} {i : ℕ}
  {s : State Inbox × List Event} {delivery : Delivery} {now : Time}
  {parse : String → Option Url} {env : Env}

/-- What is known where the handler of a failed attempt starts. -/
def Failed (i : ℕ) (delivery : Delivery) (error : Thrown) (h : List Event) : Prop :=
  Attempt i delivery h ∧ ((providerFailure error).1 = .retry →
    ∃ settlement, settlement.isTransient = true ∧ Settled delivery settlement h)

theorem stable_failed (i : ℕ) (delivery : Delivery) (error : Thrown) :
    Stable Event.isOf i (Failed i delivery error) := by
  rintro h later hlater ⟨ha, hretry⟩
  refine ⟨stable_attempt i delivery h later hlater ha, fun hstatus => ?_⟩
  obtain ⟨settlement, htransient, hs⟩ := hretry hstatus
  exact ⟨settlement, htransient,
    (stable_settled i delivery settlement h later hlater ⟨ha, hs⟩).2⟩

theorem failedStatus_ne_pending (error : Thrown) :
    failedStatus delivery now error ≠ .pending := by
  unfold failedStatus
  split
  · nofun
  · unfold providerFailure
    split
    · nofun
    split
    · nofun
    split
    · nofun
    split
    · nofun
    split <;> nofun

theorem failure_safe {error : Thrown} (hf : Failed i delivery error s.2) :
    (Throws.stmt (.update delivery.key (failureWrite delivery now error)) : Job Inbox Unit).Safe
      (contract feed) i (fun _ _ => True) s := by
  intro t choice hr hl _ _
  have hl : Ledger t.1 t.2 := hl
  obtain ⟨ha, hretry⟩ := (stable_failed i delivery error).onward hr hf
  refine ⟨update_keeps hl (failedStatus_ne_pending error) (fun hstatus row hrow _ hselects => ?_)
    (fun j hj e he => ?_), fun _ _ => trivial⟩
  · obtain ⟨hkey, hattempts⟩ := ha.attempts_eq hl hrow hselects
    have hclassified : (providerFailure error).1 = .retry := by
      have hstatus : failedStatus delivery now error = .retry := hstatus
      unfold failedStatus at hstatus
      split at hstatus
      · cases hstatus
      · exact hstatus
    obtain ⟨settlement, htransient, hs⟩ := hretry hclassified
    rw [hkey, hattempts]
    exact fun mail hsent => ⟨settlement, htransient, hs mail hsent⟩
  · rcases recorded_cases t.1 delivery.key (failureWrite delivery now error) with
      ⟨-, hnone⟩ | ⟨row, hrow, hselects, hevents⟩
    · rw [hnone] at he
      cases he
    · rw [hevents] at he
      obtain rfl := List.mem_singleton.mp he
      obtain ⟨-, hattempts⟩ := ha.attempts_eq hl (delivery_mem hrow) hselects
      refine ha.not_isOf hl.toChronicle rfl (fun attempt hattempt => ?_) hj
      rw [hattempts] at hattempt
      unfold Event.attempt? at hattempt
      split at hattempt
      · rename_i heq
        cases heq
      · rename_i heq
        cases heq
      · rename_i heq
        obtain ⟨rfl, rfl, -⟩ := Event.recorded.inj heq
        exact (Option.some.inj hattempt).symm
      · cases hattempt

/-- A database error is not one of the provider's. -/
theorem failed_database {h : List Event} (ha : Attempt i delivery h) :
    Failed i delivery databaseError h := by
  refine ⟨ha, fun hretry => ?_⟩
  cases hretry

theorem accepted_safe {providerId : String} (ha : Attempt i delivery s.2) :
    (Throws.stmt (.update delivery.key (.accepted now delivery.leaseToken providerId)) :
      Job Inbox Unit).run.Safe (contract feed) i
      (fun r t => ∀ error, r = .error error → Failed i delivery error t.2) s := by
  intro t choice hr hl _ _
  refine ⟨closing_keeps hl nofun nofun, fun error herror => ?_⟩
  have ha := @Attempt.closing _ _ _ _ delivery.key
    (.accepted now delivery.leaseToken providerId) choice
    ((stable_attempt i delivery).onward hr ha) nofun
  have hdatabase : error = databaseError := by
    change (execAt feed _ choice _).1 = _ at herror
    simp only [execAt] at herror
    split at herror
    · cases herror
    · exact (Except.error.inj herror).symm
    · exact (Except.error.inj herror).symm
  rw [hdatabase]
  exact failed_database ha

theorem send_keeps {mail : Mail} {choice : Choice} (hl : Ledger s.1 s.2)
    (ha : Attempt i delivery s.2) (hu : Unsent delivery s.2)
    (hrecipient : mail.recipient = delivery.recipientEmail)
    (hsender : parseSender delivery.sender = some mail.sender) :
    (contract feed).Keeps ⟨i, .send delivery mail, choice, s⟩ := by
  apply keeps
  · refine (hl.log ?_ rfl rfl rfl fun _ _ _ => Event.noConfusion).same rfl (Nat.le_refl _)
    obtain ⟨claim, hclaim, -, hkey, hattempt, -⟩ := ha.claimed
    obtain ⟨first, hfirst, hfrom⟩ := ha.origin
    apply hl.toChronicle.sent ⟨claim, hclaim, by rw [hkey, hattempt]⟩ hu ha.unrecorded
    · exact ⟨first, hfirst, hfrom.key, hrecipient.trans hfrom.recipientEmail.symm,
        hfrom.sender ▸ hsender⟩
    · have hunsent : (claim.key, claim.attempt) ∉ sends s.2 := by
        rw [hkey, hattempt]
        exact hu
      have hunrecorded : .recorded claim.key claim.attempt .retry ∉ s.2 := by
        rw [hkey, hattempt]
        exact ha.unrecorded
      rw [← hkey]
      exact hl.earlier_recorded hclaim hunsent hunrecorded
  · intro j hj e he
    obtain rfl := List.mem_singleton.mp he
    exact ha.not_isOf hl.toChronicle rfl (fun _ h => by simpa [eq_comm] using h) hj

/-- The end of the call is known to its thread. -/
theorem settled_of_ended {settlement : Settlement} {h : List Event} :
    Settled delivery settlement (h ++ [.ended delivery.key delivery.attempts settlement]) := by
  intro mail hsent
  have hold := List.singleton_sublist.mpr ((List.mem_append.mp hsent).resolve_right (by simp))
  exact hold.append (List.Sublist.refl [Event.ended delivery.key delivery.attempts settlement])

theorem settled_safe (ha : Attempt i delivery s.2) :
    ((Throws.read (.settled delivery) : Job Inbox Settlement) >>= fun settlement =>
      Throws.returns settlement.result).run.Safe (contract feed) i
      (fun r t => match r with
        | .ok _ => Attempt i delivery t.2
        | .error error => Failed i delivery error t.2) s := by
  rw [Throws.run_bind]
  intro t choice hr hl _ _
  have hl : Ledger t.1 t.2 := hl
  have ha := (stable_attempt i delivery).onward hr ha
  have hpost : Attempt i delivery
      (t.2 ++ [.ended delivery.key delivery.attempts choice.settlement]) := ha.append (by simp)
  constructor
  · apply keeps
    · exact (hl.log hl.toChronicle.ended rfl rfl rfl fun _ _ _ => Event.noConfusion).same rfl
        (Nat.le_refl _)
    · intro j hj e he
      obtain rfl := List.mem_singleton.mp he
      exact ha.not_isOf hl.toChronicle rfl (fun _ h => by simpa [eq_comm] using h) hj
  · change match choice.settlement.result with
      | .ok _ => Attempt i delivery _
      | .error error => Failed i delivery error _
    cases hresult : choice.settlement.result with
    | ok _ => exact hpost
    | error error =>
      refine ⟨hpost, fun hretry => ⟨choice.settlement, ?_, settled_of_ended⟩⟩
      exact Settlement.transient_of_retry hresult hretry

theorem sendEmail_safe (ha : Attempt i delivery s.2) (hu : Unsent delivery s.2) :
    (sendEmail parse env delivery).run.Safe (contract feed) i
      (fun r t => match r with
        | .ok _ => Attempt i delivery t.2
        | .error error => Failed i delivery error t.2) s := by
  unfold sendEmail
  split
  · refine ⟨ha, fun hretry => ?_⟩
    cases hretry
  · rename_i sender hsender
    rw [Throws.run_bind]
    intro t choice hr hl _ _
    have hl : Ledger t.1 t.2 := hl
    obtain ⟨ha, hu⟩ := (stable_unsent i delivery).onward hr ⟨ha, hu⟩
    constructor
    · exact send_keeps hl ha hu rfl hsender
    · apply settled_safe
      exact ha.append (by simp [events, Stmt.events])

theorem recordFailure_safe {error : Thrown} (hf : Failed i delivery error s.2) :
    (recordFailure delivery now error : Job Inbox Status).Safe (contract feed) i
      (fun _ _ => True) s :=
  Throws.Safe.bind ((failure_safe hf).mono fun _ _ _ => Throws.safe_pure trivial)

theorem sendAndAccept_safe (ha : Attempt i delivery s.2) (hu : Unsent delivery s.2) :
    (sendAndAccept parse env delivery now).run.Safe (contract feed) i
      (fun r t => ∀ error, r = .error error → Failed i delivery error t.2) s := by
  apply Throws.safe_run_bind
  apply (sendEmail_safe ha hu).mono
  intro r t hsent
  cases r with
  | error error =>
    intro error' herror
    obtain rfl := Except.error.inj herror
    exact hsent
  | ok providerId =>
    apply Throws.safe_run_bind
    apply (accepted_safe hsent).mono
    intro r' u haccepted
    cases r' with
    | ok _ =>
      intro error herror
      cases herror
    | error error =>
      intro error' herror
      obtain rfl := Except.error.inj herror
      exact haccepted error rfl

theorem attemptSend_safe (ha : Attempt i delivery s.2) (hu : Unsent delivery s.2) :
    (attemptSend parse env delivery now).Safe (contract feed) i (fun _ _ => True) s := by
  apply Throws.safe_tryCatch
  apply (sendAndAccept_safe ha hu).mono
  intro r t hfailed
  cases r with
  | ok _ => trivial
  | error error => exact recordFailure_safe (hfailed error rfl)

theorem dropDelivery_safe :
    (dropDelivery delivery now).Safe (contract feed) i (fun _ _ => True) s := by
  refine Throws.Safe.bind (Throws.Safe.mono (closing_safe ?_ ?_) fun _ _ _ =>
    Throws.safe_pure trivial)
  · nofun
  · nofun

end Attempts

/-! ### Drains -/

section Drains

variable {Inbox : Type} {feed : Inbox → Time → Actor → List Candidate} {i : ℕ}
  {s : State Inbox × List Event} {delivery : Delivery} {actor : Recipient} {now : Time}
  {parse : String → Option Url} {env : Env} {P : List Event → Prop}

theorem setPreference_quiet (organizationId actorId : String) (email : Bool) (timestamp : Time) :
    (Stmt.setPreference organizationId actorId email timestamp).Quiet feed := by
  intro i choice s
  refine ⟨?_, ?_, rfl⟩
  · simp only [execAt, State.setPreference]
    split <;> rfl
  · simp only [execAt, State.setPreference]
    split <;> rfl

theorem eventEligible_safe (hstable : Stable Event.isOf i P) (hP : P s.2) :
    (eventEligible actor delivery now).Safe (contract feed) i (fun _ t => P t.2) s := by
  refine read_safe (P := P) (fun _ _ _ => ⟨rfl, rfl, rfl⟩) hstable hP fun t choice ht => ?_
  dsimp only
  split
  · exact Throws.safe_pure ht
  · refine read_safe (P := P) (fun _ _ _ => ⟨rfl, rfl, rfl⟩) hstable ht fun u choice' hu => ?_
    exact Throws.safe_pure hu

theorem deliverOne_safe (ha : Attempt i delivery s.2) (hu : Unsent delivery s.2) :
    (deliverOne parse env actor delivery now).Safe (contract feed) i (fun _ _ => True) s := by
  unfold deliverOne
  split
  · exact dropDelivery_safe
  · apply Throws.Safe.bind
    apply (eventEligible_safe (stable_unsent i delivery) ⟨ha, hu⟩).mono
    intro eligible t ht
    split
    · exact attemptSend_safe ht.1 ht.2
    · exact dropDelivery_safe

theorem disableStale_safe :
    (disableStale actor now).Safe (contract feed) i (fun _ _ => True) s := by
  refine read_safe (P := fun _ => True) (fun _ _ _ => ⟨rfl, rfl, rfl⟩) stable_true trivial
    fun t choice _ => ?_
  apply Throws.safe_foldlM (I := fun _ _ => True) _ trivial
  intro _ row u _ _
  apply Throws.Safe.bind
  apply (eventEligible_safe stable_true trivial).mono
  intro eligible v _
  split
  · exact Throws.safe_pure trivial
  · apply closing_safe
    · nofun
    · nofun

theorem insert_keeps {row : Delivery} {choice : Choice} (hl : Ledger s.1 s.2) (hf : row.Fresh) :
    (contract feed).Keeps ⟨i, .insert row, choice, s⟩ := by
  cases hold : s.1.delivery row.key with
  | some old =>
    have hevents : (Stmt.insert row).events i choice s.1 = [] := by
      simp only [Stmt.events, hold, Option.isSome_some, ↓reduceIte]
    have hstate : (s.1.later choice.elapsed).insert row = s.1.later choice.elapsed := by
      have hold : (s.1.later choice.elapsed).delivery row.key = some old := hold
      simp only [State.insert, hold, Option.isSome_some, ↓reduceIte]
    apply keeps
    · rw [hevents, List.append_nil]
      simp only [execAt, hstate]
      exact hl.same rfl (Nat.le_refl _)
    · rw [hevents]
      exact fun _ _ _ he => absurd he List.not_mem_nil
  | none =>
    have hevents : (Stmt.insert row).events i choice s.1 = [.created row] := by
      simp only [Stmt.events, hold, Option.isSome_none, Bool.false_eq_true, ↓reduceIte]
    have hstate : (s.1.later choice.elapsed).insert row =
        { s.1.later choice.elapsed with deliveries := s.1.deliveries ++ [row] } := by
      have hold : (s.1.later choice.elapsed).delivery row.key = none := hold
      simp only [State.insert, hold, Option.isSome_none, Bool.false_eq_true, ↓reduceIte]
      rfl
    apply keeps
    · rw [hevents]
      simp only [execAt, hstate]
      exact (hl.created hf hold).same rfl (Nat.le_refl _)
    · rw [hevents]
      intro j _ e he
      obtain rfl := List.mem_singleton.mp he
      exact not_isOf rfl rfl

theorem retirement_closes {existing : Delivery} {write : Write}
    (h : retirement env actor existing now = some write) :
    write.status ≠ .pending ∧ write.status ≠ .retry := by
  unfold retirement at h
  split at h
  · obtain rfl := Option.some.inj h
    exact ⟨nofun, nofun⟩
  split at h
  · obtain rfl := Option.some.inj h
    exact ⟨nofun, nofun⟩
  split at h
  · obtain rfl := Option.some.inj h
    exact ⟨nofun, nofun⟩
  split at h
  · obtain rfl := Option.some.inj h
    exact ⟨nofun, nofun⟩
  · cases h

theorem createOrClaim_safe {row : Candidate} (hnow : 0 ≤ now) :
    (createOrClaim env actor row now).Safe (contract feed) i
      (fun claimed t => ∀ delivery, claimed = some delivery →
        Attempt i delivery t.2 ∧ Unsent delivery t.2) s := by
  apply Throws.safe_read_bind
  intro t choice _ hl _ _
  refine ⟨insert_keeps hl ⟨rfl, rfl, rfl, rfl⟩, ?_⟩
  refine read_safe (P := fun _ => True) (fun _ _ _ => ⟨rfl, rfl, rfl⟩) stable_true trivial
    fun u choice' _ => ?_
  dsimp only
  split
  · exact Throws.safe_pure fun _ hnone => absurd hnone.symm (Option.some_ne_none _)
  split
  · rename_i write hwrite
    obtain ⟨hpending, hretry⟩ := retirement_closes hwrite
    apply Throws.Safe.bind
    apply (closing_safe hpending hretry).mono
    intro _ v _
    exact Throws.safe_pure fun _ hnone => absurd hnone.symm (Option.some_ne_none _)
  · exact claimDelivery_safe hnow

/-- What follows a reading of the clock may take it to be one. -/
theorem now_safe {α : Type} {f : Time → Job Inbox α} {Q : α → State Inbox × List Event → Prop}
    (hstable : Stable Event.isOf i P) (hP : P s.2)
    (hnext : ∀ (now : Time) (t : State Inbox × List Event), 0 ≤ now → P t.2 →
      (f now).Safe (contract feed) i Q t) :
    (Throws.read .now >>= f).Safe (contract feed) i Q s := by
  refine read_safe (P := P) (fun _ _ _ => ⟨rfl, rfl, rfl⟩) hstable hP fun t choice ht => ?_
  exact hnext _ _ (Int.natCast_nonneg _) ht

theorem deliverCandidate_safe {totals : Totals} {row : Candidate} :
    (deliverCandidate parse env actor totals row).Safe (contract feed) i (fun _ _ => True) s := by
  unfold deliverCandidate
  split
  · exact Throws.safe_pure trivial
  apply now_safe stable_true trivial
  intro claimedAt t hclaimedAt _
  apply Throws.Safe.bind
  apply (createOrClaim_safe hclaimedAt).mono
  intro claimed u hclaimed
  split
  · exact Throws.safe_pure trivial
  · rename_i delivery
    obtain ⟨ha, hu⟩ := hclaimed delivery rfl
    apply now_safe (stable_unsent i delivery) ⟨ha, hu⟩
    intro now v _ hv
    apply Throws.Safe.bind
    exact (deliverOne_safe hv.1 hv.2).mono fun _ _ _ => Throws.safe_pure trivial

theorem drainActor_safe {scanned : Totals × Option Recipient} :
    (drainActor parse env scanned actor).Safe (contract feed) i (fun _ _ => True) s := by
  unfold drainActor
  split
  · exact Throws.safe_pure trivial
  apply now_safe stable_true trivial
  intro staleAt t _ _
  apply Throws.Safe.bind
  apply disableStale_safe.mono
  intro _ u _
  apply now_safe stable_true trivial
  intro now v _ _
  refine read_safe (P := fun _ => True) (fun _ _ _ => ⟨rfl, rfl, rfl⟩) stable_true trivial
    fun w choice _ => ?_
  apply Throws.Safe.bind
  refine (Throws.safe_foldlM (I := fun _ _ => True) (fun _ _ _ _ _ => ?_) trivial).mono
    fun _ _ _ => Throws.safe_pure trivial
  exact deliverCandidate_safe

theorem actorWindow_safe :
    (actorWindow : Job Inbox (List Recipient)).Safe (contract feed) i (fun _ _ => True) s := by
  refine read_safe (P := fun _ => True) (fun _ _ _ => ⟨rfl, rfl, rfl⟩) stable_true trivial
    fun t choice _ => ?_
  refine read_safe (P := fun _ => True) (fun _ _ _ => ⟨rfl, rfl, rfl⟩) stable_true trivial
    fun u choice' _ => ?_
  split
  · exact Throws.safe_pure trivial
  split
  · exact quiet_safe fun _ _ _ => ⟨rfl, rfl, rfl⟩
  · refine read_safe (P := fun _ => True) (fun _ _ _ => ⟨rfl, rfl, rfl⟩) stable_true trivial
      fun v _ _ => ?_
    exact Throws.safe_pure trivial

theorem drain_safe :
    (drainNotificationEmails parse env : Job Inbox (Option Totals)).Safe (contract feed) i
      (fun _ _ => True) s := by
  unfold drainNotificationEmails
  split
  · exact Throws.safe_pure trivial
  apply Throws.Safe.bind
  apply actorWindow_safe.mono
  intro actors t _
  apply Throws.Safe.bind
  refine (Throws.safe_foldlM (I := fun _ _ => True) (fun _ _ _ _ _ => drainActor_safe)
    trivial).mono fun scanned u _ => ?_
  apply Throws.Safe.bind
  refine Throws.Safe.mono (Q := fun _ _ => True) ?_ fun _ _ _ => Throws.safe_pure trivial
  unfold saveCursor
  split
  · exact Throws.safe_pure trivial
  · exact quiet_safe fun _ _ _ => ⟨rfl, rfl, rfl⟩

end Drains

/-! ### Statuses that are never left -/

section Final

variable {Inbox : Type} {feed : Inbox → Time → Actor → List Candidate} {s : State Inbox}
  {h : List Event} {row : Delivery}

def Status.final : Status → Bool
  | .accepted | .failed | .disabled => true
  | _ => false

theorem selects_final (hsound : row.Sound) (hfinal : row.status.final = true) (write : Write) :
    write.selects row = false := by
  have hnone : row.leaseToken = none := by
    by_contra hsome
    have hpending := hsound.held (Option.isSome_iff_ne_none.mpr hsome)
    rw [hpending] at hfinal
    cases hfinal
  have hlive : row.status.live = false := by
    cases hstatus : row.status <;> simp_all [Status.final, Status.live]
  have hpending : row.status ≠ .pending := by
    intro hpending
    rw [hpending] at hfinal
    cases hfinal
  have htoken (token : Option ℕ) : row.hasToken token = false := by
    cases token <;> simp [Delivery.hasToken, hnone]
  cases write <;> simp [Write.selects, hlive, hpending, htoken]

theorem claimable_final (hfinal : row.status.final = true) (now : Time) :
    row.claimable now = false := by
  cases hstatus : row.status <;> simp_all [Status.final, Delivery.claimable]

theorem update_final {key : Key} {selects : Delivery → Bool} {set : Delivery → Delivery}
    (hrow : row ∈ s.deliveries) (hselects : selects row = false) :
    row ∈ (s.update key selects set).deliveries :=
  mem_update.mpr (.inr ⟨hrow, by simp [hselects]⟩)

/-- A delivery that was accepted, failed or disabled stays as it is. -/
theorem exec_final (hl : Ledger s h) (hrow : row ∈ s.deliveries)
    (hfinal : row.status.final = true) {β : Type} (st : Stmt Inbox β) (choice : Choice) :
    row ∈ (execAt feed st choice s).2.deliveries := by
  cases st with
  | update key write =>
    have hupdate : row ∈ (s.update key write.selects write.set).deliveries :=
      update_final hrow (selects_final (hl.sound row hrow) hfinal write)
    simp only [execAt]
    cases choice.fault with
    | before => exact hrow
    | none => exact hupdate
    | after => exact hupdate
  | claim key now token =>
    rcases claim_cases s key now token 0 choice with ⟨_, -, -, hstate, -⟩ | ⟨-, hstate, -⟩
    · simp only [execAt, hstate]
      exact update_final hrow (claimable_final hfinal now)
    · simp only [execAt, hstate]
      exact hrow
  | insert new =>
    simp only [execAt, State.insert]
    split
    · exact hrow
    · exact List.mem_append_left _ hrow
  | setPreference organizationId actorId email timestamp =>
    rw [(setPreference_quiet organizationId actorId email timestamp 0 choice s).1]
    exact hrow
  | _ => exact hrow

end Final

/-! ### The deliveries of every run -/

section Runs

variable {Inbox : Type} {feed : Inbox → Time → Actor → List Candidate}
  {parse : String → Option Url} {s₀ : State Inbox} {tr : List (Occurrence (machine feed))}
  {c : Config (machine feed)}

theorem Deployed.safe {p : Prog (Stmt Inbox) Unit} (h : Deployed parse p) {i : ℕ}
    {s : State Inbox × List Event} :
    Prog.Safe (contract feed) i p (fun _ _ => True) s := by
  have hquiet {st : Stmt Inbox Unit} (hst : st.Quiet feed) (t : State Inbox × List Event) :
      Prog.Safe (contract feed) i (Prog.stmt st) (fun _ _ => True) t := by
    intro u choice _ hl _ _
    exact ⟨(read_keeps choice hst hl).1, trivial⟩
  cases h with
  | drain env =>
    apply Prog.Safe.bind
    exact Prog.Safe.mono drain_safe fun _ _ _ => trivial
  | setPreference organizationId actorId email =>
    intro t choice _ hl _ _
    refine ⟨(read_keeps choice (fun _ _ _ => ⟨rfl, rfl, rfl⟩) hl).1, ?_⟩
    exact hquiet (setPreference_quiet organizationId actorId email _) _
  | act write => exact hquiet (fun _ _ _ => ⟨rfl, rfl, rfl⟩) s
  | setActors actors => exact hquiet (fun _ _ _ => ⟨rfl, rfl, rfl⟩) s

theorem ledger_init (h0 : s₀.deliveries = []) : Ledger s₀ [] := by
  have hchronicle : Chronicle [] := by
    constructor <;> simp [draws, creations, claims, sends]
  constructor
  case toChronicle => exact hchronicle
  all_goals simp [h0, draws, creations, claims]

/-- Every run keeps the ledger. -/
theorem run_ledger (h0 : s₀.deliveries = [])
    (h : Run (M := machine feed) (Deployed parse) s₀ tr c) :
    Ledger c.state (tr.flatMap (events feed)) ∧ ∀ (k : ℕ) o, tr[k]? = some o →
      Ledger o.pre ((tr.take k).flatMap (events feed)) := by
  obtain ⟨hend, hall, -⟩ := (watcher feed).run (fun _ hp _ _ _ => hp.safe) (ledger_init h0)
    (fun _ => trivial) h fun _ _ => trivial
  exact ⟨hend, hall⟩

/-- The attempts of a key are numbered from one to the limit. -/
theorem sends_le {s : State Inbox} {h : List Event} (hl : Ledger s h) (key : Key) :
    ((sends h).filter (·.1 = key)).length ≤ maxAttempts := by
  have hnodup : (((sends h).filter (·.1 = key)).map Prod.snd).Nodup := by
    refine List.Nodup.map_on (fun a ha b hb heq => ?_) (hl.sentOnce.filter _)
    have hakey := of_decide_eq_true (List.mem_filter.mp ha).2
    have hbkey := of_decide_eq_true (List.mem_filter.mp hb).2
    exact Prod.ext (hakey.trans hbkey.symm) heq
  have hsub : (((sends h).filter (·.1 = key)).map Prod.snd).toFinset ⊆
      Finset.Icc 1 maxAttempts := by
    intro attempt hattempt
    obtain ⟨sent, hsent, rfl⟩ := List.mem_map.mp (List.mem_toFinset.mp hattempt)
    obtain ⟨claim, hclaim, rfl⟩ := hl.sentClaimed sent (List.mem_filter.mp hsent).1
    obtain ⟨row, hrow, -, hle⟩ := hl.claimedRow claim hclaim
    have hbound := (hl.sound row hrow).bounded
    have hpositive : 1 ≤ claim.attempt := Nat.succ_le_succ (Nat.zero_le _)
    exact Finset.mem_Icc.mpr ⟨hpositive, hle.trans hbound⟩
  calc ((sends h).filter (·.1 = key)).length
      = (((sends h).filter (·.1 = key)).map Prod.snd).toFinset.card := by
        rw [List.toFinset_card_of_nodup hnodup, List.length_map]
    _ ≤ (Finset.Icc 1 maxAttempts).card := Finset.card_le_card hsub
    _ = maxAttempts := by simp

/-- For each delivery of every run: the send function is called at most four times, each call goes
to the address and the sender that were stored when the row was created, and ACCEPTED, FAILED and
DISABLED are never left. Where no claim took the row while it stood PENDING under a lease, the
function is called again only after the last call had ended with an error that is listed as
transient and RETRY had been recorded for it. -/
theorem never_resent_blindly (h0 : s₀.deliveries = [])
    (h : Run (M := machine feed) (Deployed parse) s₀ tr c) (key : Key) :
    ((sends (tr.flatMap (events feed))).Nodup ∧
      ((sends (tr.flatMap (events feed))).filter (·.1 = key)).length ≤ maxAttempts) ∧
    (((creations (tr.flatMap (events feed))).map (·.key)).Nodup ∧
      ∀ attempt mail, .sent key attempt mail ∈ tr.flatMap (events feed) →
        ∃ first : Delivery, first.key = key ∧ mail.recipient = first.recipientEmail ∧
          parseSender first.sender = some mail.sender ∧
          [.created first, .sent key attempt mail].Sublist (tr.flatMap (events feed))) ∧
    (∀ o ∈ tr, ∀ row ∈ o.pre.deliveries, row.key = key → row.status.final = true →
      row ∈ o.post.deliveries) ∧
    (Orderly key (tr.flatMap (events feed)) → ∀ attempt attempt' mail mail',
      [.sent key attempt mail, .sent key attempt' mail'].Sublist (tr.flatMap (events feed)) →
      Retried key attempt mail [.sent key attempt' mail'] (tr.flatMap (events feed))) := by
  obtain ⟨hl, hall⟩ := run_ledger h0 h
  refine ⟨⟨hl.sentOnce, sends_le hl key⟩, ⟨hl.createdOnce, hl.sentTo key⟩,
    fun o ho row hrow _ hfinal => ?_, hl.law key⟩
  obtain ⟨k, hk⟩ := List.getElem?_of_mem ho
  have hlater := @Ledger.same _ _ (o.pre.later o.choice.elapsed) _ (hall k o hk) rfl (Nat.le_refl _)
  exact exec_final hlater hrow hfinal o.stmt o.choice

end Runs

/-! ### A retry and a blind resend -/

/-- The inbox of the examples is its feed. -/
def sampleFeed (inbox : List Candidate) (_ : Time) (_ : Actor) : List Candidate := inbox

def sampleParse (_ : String) : Option Url :=
  some ⟨"", "", "https:", "", "/", "", "", "https://a.co"⟩

def sampleEnv : Env := ⟨"true", "ashbi@a.co", "https://a.co", true⟩

def sampleKey : Key := ⟨"org", "ann", .message, "m1"⟩

def sampleMail : Mail := genericMessage sampleParse sampleEnv "ann@a.co" ⟨"ashbi@a.co", none⟩

def sampleState : State (List Candidate) where
  actors := [⟨"ann", "org", "staff", none, "ann@a.co", true⟩]
  preferences := [⟨"org", "ann", true, some 0⟩]
  inbox := [⟨.message, "m1", 0, true⟩]
  deliveries := []
  scheduler := none
  clock := 0
  issued := 0

/-- The provider accepts every email. -/
def accepted (elapsed : ℕ) : Choice := ⟨elapsed, .none, .resolved (some "id")⟩

def sampleDrains : List (Prog (Stmt (List Candidate)) Unit) :=
  List.replicate 2 ((drainNotificationEmails sampleParse sampleEnv).run.bind fun _ => .ret ())

theorem sampleDrains_deployed : ∀ p ∈ sampleDrains, Deployed sampleParse p := by
  intro p hp
  rw [List.eq_of_mem_replicate hp]
  exact .drain sampleEnv

/-- The first drain is told of a rate limit, and the second sends again. -/
def retrySchedule : List (ℕ × Choice) :=
  List.replicate 17 (0, ⟨0, .none, .rejected ⟨some "E_RATE_LIMIT_EXCEEDED", none⟩⟩) ++
    [(1, accepted 70000)] ++ List.replicate 20 (1, accepted 0)

def eventsOf (schedule : List (ℕ × Choice)) : List Event :=
  ((⟨sampleState, sampleDrains⟩ : Config (machine sampleFeed)).played schedule).flatMap
    (events sampleFeed)

theorem retried_after_limit : Retried sampleKey 1 sampleMail [.sent sampleKey 2 sampleMail]
    (eventsOf retrySchedule) := by
  have hrun := @Run.of_schedule (machine sampleFeed) _ sampleState sampleDrains
    sampleDrains_deployed retrySchedule
  have horderly : Orderly sampleKey (eventsOf retrySchedule) := by
    unfold Orderly
    decide +kernel
  have hsent : [.sent sampleKey 1 sampleMail, .sent sampleKey 2 sampleMail].Sublist
      (eventsOf retrySchedule) := by decide +kernel
  exact (never_resent_blindly rfl hrun sampleKey).2.2.2 horderly 1 2 sampleMail sampleMail hsent

/-- The second drain reads the row while the first, whose reading of the clock is older than a
lease, has not claimed it yet; then both claim it and send. -/
def sampleSchedule : List (ℕ × Choice) :=
  List.replicate 10 (0, accepted 0) ++ [(1, accepted 200000)] ++
    List.replicate 11 (1, accepted 0) ++ List.replicate 6 (0, accepted 0) ++
    List.replicate 8 (1, accepted 0)

theorem resent_blindly :
    ¬ ∀ tr c, Run (M := machine sampleFeed) (Deployed sampleParse) sampleState tr c →
      ∀ attempt attempt' mail mail', [.sent sampleKey attempt mail,
        .sent sampleKey attempt' mail'].Sublist (tr.flatMap (events sampleFeed)) →
      Retried sampleKey attempt mail [.sent sampleKey attempt' mail']
        (tr.flatMap (events sampleFeed)) := by
  intro hall
  have hrun := @Run.of_schedule (machine sampleFeed) _ sampleState sampleDrains
    sampleDrains_deployed sampleSchedule
  have hsent : [.sent sampleKey 1 sampleMail, .sent sampleKey 2 sampleMail].Sublist
      (eventsOf sampleSchedule) := by decide +kernel
  obtain ⟨settlement, -, hsub⟩ := hall _ _ hrun 1 2 sampleMail sampleMail hsent
  have hrecorded : .recorded sampleKey 1 .retry ∈ eventsOf sampleSchedule := hsub.subset (by simp)
  revert hrecorded
  decide +kernel

end Ashbi.Emails
