import Ashbi.Emails.Steps

/-! What a thread knows of the attempt that it has claimed. -/

namespace Ashbi.Emails

open Interleaving Sql

section Contract

variable {Inbox : Type} (feed : Inbox → Time → Actor → List Candidate)

/-- The attempt that an event belongs to, of which only its thread speaks. -/
@[simp] def Event.attempt? : Event → Option (Key × ℕ)
  | .sent key attempt _ | .ended key attempt _ | .recorded key attempt .retry =>
    some (key, attempt)
  | _ => none

/-- What only thread `i` brings about: the events of its own tokens and attempts. -/
def Event.isOf (e : Event) (i : ℕ) (h : List Event) : Prop :=
  (∃ claim ∈ e.claim?, (i, claim.token) ∈ draws h) ∨
    ∃ claim ∈ claims h, claim.thread = i ∧ e.attempt? = some (claim.key, claim.attempt)

theorem Event.isOf_append (e : Event) (i : ℕ) (h later : List Event) (he : e.isOf i h) :
    e.isOf i (h ++ later) := by
  rcases he with ⟨claim, hclaim, hdrawn⟩ | ⟨claim, hclaim, hrest⟩
  · refine .inl ⟨claim, hclaim, ?_⟩
    rw [draws, List.filterMap_append]
    exact List.mem_append_left _ hdrawn
  · refine .inr ⟨claim, ?_, hrest⟩
    rw [claims, List.filterMap_append]
    exact List.mem_append_left _ hclaim

/-- What is kept of the drains. -/
abbrev watcher : Watcher (machine feed) Event where
  event := events feed
  owns := Event.isOf
  mono := Event.isOf_append
  inv := Ledger

/-- The contract of the drains. -/
abbrev contract : Contract ((machine feed).watched (events feed)) := (watcher feed).contract

end Contract

/-! ### What a thread knows of its attempt -/

section Attempts

variable {i : ℕ} {delivery : Delivery}

/-- Thread `i` has claimed the delivery, and RETRY was not recorded for it. -/
structure Attempt (i : ℕ) (delivery : Delivery) (h : List Event) : Prop where
  claimed : ∃ claim ∈ claims h, claim.thread = i ∧ claim.key = delivery.key ∧
    claim.attempt = delivery.attempts ∧ delivery.leaseToken = some claim.token
  origin : ∃ first ∈ creations h, delivery.From first
  unrecorded : .recorded delivery.key delivery.attempts .retry ∉ h

theorem Attempt.isOf {h : List Event} (ha : Attempt i delivery h) {e : Event}
    (he : e.attempt? = some (delivery.key, delivery.attempts)) : e.isOf i h := by
  obtain ⟨claim, hclaim, hthread, hkey, hattempt, -⟩ := ha.claimed
  exact .inr ⟨claim, hclaim, hthread, by rw [he, hkey, hattempt]⟩

theorem Attempt.append {h later : List Event} (ha : Attempt i delivery h)
    (hlater : .recorded delivery.key delivery.attempts .retry ∉ later) :
    Attempt i delivery (h ++ later) := by
  obtain ⟨claim, hclaim, hrest⟩ := ha.claimed
  obtain ⟨first, hfirst, hfrom⟩ := ha.origin
  refine ⟨⟨claim, ?_, hrest⟩, ⟨first, ?_, hfrom⟩, fun hmem => ?_⟩
  · rw [claims, List.filterMap_append]
    exact List.mem_append_left _ hclaim
  · rw [creations, List.filterMap_append]
    exact List.mem_append_left _ hfirst
  · exact (List.mem_append.mp hmem).elim ha.unrecorded hlater

theorem stable_attempt (i : ℕ) (delivery : Delivery) :
    Stable Event.isOf i (Attempt i delivery) :=
  fun _ _ hlater ha => ha.append fun hmem => hlater _ hmem (ha.isOf rfl)

/-- The attempt has called the send function at most once and knows how that ended. -/
def Settled (delivery : Delivery) (settlement : Settlement) (h : List Event) : Prop :=
  ∀ mail, .sent delivery.key delivery.attempts mail ∈ h →
    ([.sent delivery.key delivery.attempts mail,
      .ended delivery.key delivery.attempts settlement] : List Event).Sublist h

theorem Settled.append {settlement : Settlement} {h later : List Event}
    (hs : Settled delivery settlement h)
    (hlater : ∀ mail, .sent delivery.key delivery.attempts mail ∉ later) :
    Settled delivery settlement (h ++ later) := by
  intro mail hmem
  have hold := (List.mem_append.mp hmem).resolve_right (hlater mail)
  exact (hs mail hold).trans (List.sublist_append_left ..)

theorem stable_settled (i : ℕ) (delivery : Delivery) (settlement : Settlement) :
    Stable Event.isOf i fun h => Attempt i delivery h ∧ Settled delivery settlement h :=
  fun h later hlater hs => ⟨stable_attempt i delivery h later hlater hs.1,
    hs.2.append fun _ hmem => hlater _ hmem (hs.1.isOf rfl)⟩

/-- The attempt has not called the send function. -/
def Unsent (delivery : Delivery) (h : List Event) : Prop :=
  (delivery.key, delivery.attempts) ∉ sends h

theorem stable_unsent (i : ℕ) (delivery : Delivery) :
    Stable Event.isOf i fun h => Attempt i delivery h ∧ Unsent delivery h := by
  rintro h later hlater ⟨ha, hu⟩
  refine ⟨stable_attempt i delivery h later hlater ha, fun hmem => ?_⟩
  obtain ⟨mail, hsent⟩ := mem_sends.mp hmem
  rcases List.mem_append.mp hsent with hsent | hsent
  · exact hu (mem_sends.mpr ⟨mail, hsent⟩)
  · exact hlater _ hsent (ha.isOf rfl)

/-- Two threads never work on the same attempt. -/
theorem Attempt.not_isOf {h : List Event} (hc : Chronicle h) (ha : Attempt i delivery h)
    {e : Event} (hclaim : e.claim? = none)
    (he : ∀ attempt, e.attempt? = some attempt → attempt = (delivery.key, delivery.attempts))
    {j : ℕ}
    (hj : j ≠ i) : ¬ e.isOf j h := by
  rintro (⟨claim, hmem, -⟩ | ⟨other, hother, rfl, heq⟩)
  · rw [hclaim] at hmem
    cases hmem
  · obtain ⟨claim, hmem, rfl, hkey, hattempt, -⟩ := ha.claimed
    have hsame := he _ heq
    rw [← hkey, ← hattempt] at hsame
    exact hj (congrArg Claim.thread (Sql.row_eq hc.attemptsOnce hother hmem hsame))

/-- The row still has the token of an attempt as long as that is its last one. -/
theorem Attempt.attempts_eq {Inbox : Type} {s : State Inbox} {h : List Event} {row : Delivery}
    (hl : Ledger s h) (ha : Attempt i delivery h) (hrow : row ∈ s.deliveries)
    (htoken : row.hasToken delivery.leaseToken = true) :
    row.key = delivery.key ∧ row.attempts = delivery.attempts := by
  obtain ⟨claim, hclaim, -, hkey, hattempt, hlease⟩ := ha.claimed
  have hhas : row.leaseToken = some claim.token := by
    rw [hlease] at htoken
    simpa [Delivery.hasToken] using htoken
  obtain ⟨holder, hholder, hsame, hholderKey, hholderAttempt⟩ := hl.holder row hrow _ hhas
  obtain rfl := Sql.row_eq hl.tokensOnce hholder hclaim hsame
  exact ⟨hholderKey.symm.trans hkey, hholderAttempt.symm.trans hattempt⟩

end Attempts

/-! ### Statements under the contract -/

section Statements

variable {Inbox : Type} {feed : Inbox → Time → Actor → List Candidate} {α β : Type} {i : ℕ}
  {s : State Inbox × List Event}

theorem keeps {st : Stmt Inbox β} {choice : Choice}
    (hl : Ledger (execAt feed st choice (s.1.later choice.elapsed)).2
      (s.2 ++ st.events i choice s.1))
    (hothers : ∀ j, j ≠ i → ∀ e ∈ st.events i choice s.1, ¬ e.isOf j s.2) :
    (contract feed).Keeps ⟨i, st, choice, s⟩ :=
  Watcher.keeps (W := watcher feed) hl hothers trivial

/-- The statement reads, or writes other tables. -/
def Stmt.Quiet (feed : Inbox → Time → Actor → List Candidate) (st : Stmt Inbox β) : Prop :=
  ∀ i choice s, (execAt feed st choice s).2.deliveries = s.deliveries ∧
    (execAt feed st choice s).2.issued = s.issued ∧ st.events i choice s = []

variable {P : List Event → Prop}

theorem read_keeps {st : Stmt Inbox β} {t : State Inbox × List Event} (choice : Choice)
    (hquiet : st.Quiet feed) (hl : Ledger t.1 t.2) :
    (contract feed).Keeps ⟨i, st, choice, t⟩ ∧
      ((machine feed).watched (events feed)).exec i st choice t =
        ((execAt feed st choice (t.1.later choice.elapsed)).1,
          (execAt feed st choice (t.1.later choice.elapsed)).2, t.2) := by
  obtain ⟨hrows, hissued, -⟩ := hquiet i choice (t.1.later choice.elapsed)
  obtain ⟨-, -, hevents⟩ := hquiet i choice t.1
  constructor
  · apply keeps
    · rw [hevents, List.append_nil]
      exact hl.same hrows (Nat.le_of_eq hissued.symm)
    · rw [hevents]
      exact fun _ _ _ he => absurd he List.not_mem_nil
  · change (_, _, t.2 ++ st.events i choice t.1) = _
    rw [hevents, List.append_nil]

theorem read_safe {st : Stmt Inbox β} {f : β → Job Inbox α}
    {Q : α → State Inbox × List Event → Prop} (hquiet : st.Quiet feed)
    (hstable : Stable Event.isOf i P) (hP : P s.2)
    (hnext : ∀ (t : State Inbox × List Event) (choice : Choice), P t.2 →
      (f (execAt feed st choice (t.1.later choice.elapsed)).1).Safe (contract feed) i Q
        ((execAt feed st choice (t.1.later choice.elapsed)).2, t.2)) :
    (Throws.read st >>= f).Safe (contract feed) i Q s := by
  apply Throws.safe_read_bind
  intro t choice hr hl _ _
  obtain ⟨hkeeps, hpost⟩ := read_keeps choice hquiet hl
  rw [hpost]
  exact ⟨hkeeps, hnext t choice (hstable.onward hr hP)⟩

/-- A statement with which a program ends. -/
theorem quiet_safe {st : Stmt Inbox β} (hquiet : st.Quiet feed) :
    (Throws.read st : Job Inbox β).Safe (contract feed) i (fun _ _ => True) s := by
  intro t choice hr hl _ _
  obtain ⟨hkeeps, -⟩ := read_keeps (i := i) choice hquiet hl
  exact ⟨hkeeps, fun _ _ => trivial⟩

theorem recorded_cases (s : State Inbox) (key : Key) (write : Write) :
    (∀ row, s.delivery key = some row → write.selects row = false) ∧ s.recorded key write = [] ∨
      ∃ row, s.delivery key = some row ∧ write.selects row = true ∧
        s.recorded key write = [.recorded key row.attempts write.status] := by
  cases hrow : s.delivery key with
  | none =>
    left
    refine ⟨fun row hsome => absurd hsome.symm (Option.some_ne_none row), ?_⟩
    simp only [State.recorded, hrow]
  | some row =>
    cases hselects : write.selects row with
    | false =>
      left
      refine ⟨fun other hother => ?_, ?_⟩
      · obtain rfl := Option.some.inj hother
        exact hselects
      · simp only [State.recorded, hrow, hselects, Bool.false_eq_true, ↓reduceIte]
    | true =>
      right
      refine ⟨row, rfl, hselects, ?_⟩
      simp only [State.recorded, hrow, hselects, ↓reduceIte]

/-- An executed update by key. -/
theorem Ledger.update {s : State Inbox} {h : List Event} (hl : Ledger s h) {key : Key}
    {write : Write} (hstatus : write.status ≠ .pending)
    (hretry : write.status = .retry → ∀ row ∈ s.deliveries, row.key = key →
      write.selects row = true → EndedTransient row.key row.attempts h) :
    Ledger (s.update key write.selects write.set) (h ++ s.recorded key write) := by
  rcases recorded_cases s key write with ⟨hnone, hevents⟩ | ⟨row, hrow, hselects, hevents⟩
  · rw [hevents, List.append_nil, hl.update_none hnone]
    exact hl
  · rw [hevents]
    obtain rfl := delivery_key hrow
    have hmem := delivery_mem hrow
    exact hl.recorded hmem hselects hstatus fun hr => hretry hr row hmem rfl hselects

theorem update_keeps {key : Key} {write : Write} {choice : Choice} (hl : Ledger s.1 s.2)
    (hstatus : write.status ≠ .pending)
    (hretry : write.status = .retry → ∀ row ∈ s.1.deliveries, row.key = key →
      write.selects row = true → EndedTransient row.key row.attempts s.2)
    (hothers : ∀ j, j ≠ i → ∀ e ∈ s.1.recorded key write, ¬ e.isOf j s.2) :
    (contract feed).Keeps ⟨i, .update key write, choice, s⟩ := by
  have hupdate := (@Ledger.same _ _ (s.1.later choice.elapsed) _ hl rfl (Nat.le_refl _)).update
    hstatus
    hretry
  by_cases hfault : choice.fault = .before
  · have hevents : (Stmt.update key write).events i choice s.1 = [] := if_pos hfault
    apply keeps
    · rw [hevents, List.append_nil]
      simp only [execAt, hfault]
      exact hl.same rfl (Nat.le_refl _)
    · rw [hevents]
      exact fun _ _ _ he => absurd he List.not_mem_nil
  · have hevents : (Stmt.update key write).events i choice s.1 = s.1.recorded key write :=
      if_neg hfault
    apply keeps
    · rw [hevents]
      simp only [execAt]
      cases hcase : choice.fault with
      | before => exact absurd hcase hfault
      | none => exact hupdate
      | after => exact hupdate
    · rw [hevents]
      exact hothers

/-- An event that belongs to no attempt is no other thread's. -/
theorem not_isOf {h : List Event} {e : Event} {j : ℕ} (hclaim : e.claim? = none)
    (hattempt : e.attempt? = none) : ¬ e.isOf j h := by
  rintro (⟨claim, hmem, -⟩ | ⟨claim, -, -, heq⟩)
  · rw [hclaim] at hmem
    cases hmem
  · rw [hattempt] at heq
    cases heq

theorem recorded_attempt {key : Key} {attempt : ℕ} {status : Status} (hretry : status ≠ .retry) :
    (Event.recorded key attempt status).attempt? = none := by
  cases status with
  | retry => exact absurd rfl hretry
  | _ => rfl

/-- An update that records anything but RETRY, by whichever thread. -/
theorem closing_keeps {key : Key} {write : Write} {choice : Choice} (hl : Ledger s.1 s.2)
    (hstatus : write.status ≠ .pending) (hretry : write.status ≠ .retry) :
    (contract feed).Keeps ⟨i, .update key write, choice, s⟩ := by
  apply update_keeps hl hstatus (fun h => absurd h hretry)
  intro j _ e he
  rcases recorded_cases s.1 key write with ⟨-, hnone⟩ | ⟨row, -, -, hevents⟩
  · rw [hnone] at he
    cases he
  · rw [hevents] at he
    obtain rfl := List.mem_singleton.mp he
    exact not_isOf rfl (recorded_attempt hretry)

theorem closing_safe {key : Key} {write : Write} (hstatus : write.status ≠ .pending)
    (hretry : write.status ≠ .retry) :
    (Throws.stmt (.update key write) : Job Inbox Unit).Safe (contract feed) i (fun _ _ => True)
      s := by
  intro t choice _ hl _ _
  exact ⟨closing_keeps hl hstatus hretry, fun _ _ => trivial⟩

/-- Such an update leaves what a thread knows of its own attempt. -/
theorem Attempt.closing {delivery : Delivery} {key : Key} {write : Write} {choice : Choice}
    (ha : Attempt i delivery s.2) (hretry : write.status ≠ .retry) :
    Attempt i delivery (s.2 ++ (Stmt.update key write).events i choice s.1) := by
  apply ha.append
  intro hmem
  simp only [Stmt.events] at hmem
  split at hmem
  · cases hmem
  · rcases recorded_cases s.1 key write with ⟨-, hnone⟩ | ⟨row, -, -, hevents⟩
    · rw [hnone] at hmem
      cases hmem
    · rw [hevents] at hmem
      have heq := List.mem_singleton.mp hmem
      exact hretry (Event.recorded.inj heq).2.2.symm

end Statements

/-! ### Claims -/

section Claims

variable {Inbox : Type} {feed : Inbox → Time → Actor → List Candidate} {i : ℕ}
  {s : State Inbox × List Event} {key : Key} {now : Time}

/-- A claim takes a row that can be claimed, or nothing. -/
theorem claim_cases (s : State Inbox) (key : Key) (now : Time) (token i : ℕ) (choice : Choice) :
    (∃ row, s.delivery key = some row ∧ row.claimable now = true ∧
        (s.claim key now token).2 = s.update key (·.claimable now) (·.claimed now token) ∧
        (s.claim key now token).1 =
          (s.update key (·.claimable now) (·.claimed now token)).delivery key ∧
        (Stmt.claim key now token).events i choice s = [.claimed ⟨i, row, token⟩]) ∨
      (s.claim key now token).1 = none ∧ (s.claim key now token).2 = s ∧
        (Stmt.claim key now token).events i choice s = [] := by
  cases hrow : s.delivery key with
  | none =>
    right
    simp only [State.claim, Stmt.events, hrow, and_self]
  | some row =>
    cases hclaimable : row.claimable now with
    | false =>
      right
      simp only [State.claim, Stmt.events, hrow, hclaimable, Bool.false_eq_true, ↓reduceIte,
        and_self]
    | true =>
      left
      refine ⟨row, rfl, hclaimable, ?_⟩
      simp only [State.claim, Stmt.events, hrow, hclaimable, ↓reduceIte, and_self]

/-- What a claim returns is the thread's own. -/
theorem claimed_attempt {s : State Inbox} {h : List Event} {row claimed : Delivery} {token : ℕ}
    (hl : Ledger s h) (hrow : row ∈ s.deliveries)
    (hpost : Ledger (s.update row.key (·.claimable now) (·.claimed now token))
      (h ++ [.claimed ⟨i, row, token⟩]))
    (hclaimable : row.claimable now = true)
    (hclaimed : (s.update row.key (·.claimable now) (·.claimed now token)).delivery row.key =
      some claimed) :
    Attempt i claimed (h ++ [.claimed ⟨i, row, token⟩]) ∧
      Unsent claimed (h ++ [.claimed ⟨i, row, token⟩]) := by
  have hmem : claimed = row.claimed now token := by
    have hall := (@Ledger.mem_update _ _ _ _ hl hrow (·.claimable now) hclaimable
      (·.claimed now token) _).mp (delivery_mem hclaimed)
    exact hall.resolve_right fun hother => hother.2 (delivery_key hclaimed)
  subst hmem
  refine ⟨⟨⟨⟨i, row, token⟩, ?_, rfl, rfl, rfl, rfl⟩, ?_, fun hrecorded => ?_⟩, fun hsent => ?_⟩
  · rw [claims_concat]
    exact List.mem_append_right _ List.mem_cons_self
  · exact hpost.origin _ (delivery_mem hclaimed)
  · have hrecorded : .recorded row.key (row.attempts + 1) .retry ∈
      h ++ [.claimed ⟨i, row, token⟩] := hrecorded
    have hold : .recorded row.key (row.attempts + 1) .retry ∈ h := by simpa using hrecorded
    obtain ⟨other, hother, hkey, hle⟩ := hl.recordedRow _ _ _ hold
    rw [hl.row_eq hother hrow hkey] at hle
    exact absurd hle (Nat.not_succ_le_self _)
  · have hsent : (row.key, row.attempts + 1) ∈ sends (h ++ [.claimed ⟨i, row, token⟩]) := hsent
    have hold : (row.key, row.attempts + 1) ∈ sends h := by simpa using hsent
    obtain ⟨other, hother, heq⟩ := hl.sentClaimed _ hold
    obtain ⟨hkey, hattempt⟩ := Prod.mk.inj heq
    have hle := hl.attempt_le hrow hother hkey
    rw [hattempt] at hle
    exact absurd hle (Nat.not_succ_le_self _)

/-- Thread `i` has drawn the token and not used it. -/
def Drawn (i token : ℕ) (h : List Event) : Prop :=
  (i, token) ∈ draws h ∧ ∀ claim ∈ claims h, claim.token ≠ token

theorem stable_drawn (i token : ℕ) : Stable Event.isOf i (Drawn i token) := by
  rintro h later hlater ⟨hdrawn, hunused⟩
  constructor
  · rw [draws, List.filterMap_append]
    exact List.mem_append_left _ hdrawn
  · intro claim hclaim
    rw [claims, List.filterMap_append] at hclaim
    rcases List.mem_append.mp hclaim with hclaim | hclaim
    · exact hunused claim hclaim
    · rintro rfl
      obtain ⟨e, he, hsome⟩ := List.mem_filterMap.mp hclaim
      exact hlater e he (.inl ⟨claim, hsome, hdrawn⟩)

/-- A token is drawn by one thread. -/
theorem claimed_not_isOf {h : List Event} (hc : Chronicle h) {claim : Claim}
    (hdrawn : (i, claim.token) ∈ draws h) {j : ℕ} (hj : j ≠ i) :
    ¬ (Event.claimed claim).isOf j h := by
  rintro (⟨other, hother, hdraw⟩ | ⟨other, -, -, heq⟩)
  · obtain rfl := Option.some.inj hother
    have hsame := Sql.row_eq hc.drawnOnce hdraw hdrawn rfl
    exact hj (Prod.mk.inj hsame).1
  · cases heq

/-- The claim with a token that the thread has drawn. -/
theorem claim_safe {token : ℕ} (hnow : 0 ≤ now) (hdrawn : Drawn i token s.2) :
    ((Throws.read (.claim key now token) : Job Inbox (Option Delivery)) >>= fun claimed =>
      pure (claimed.filter (·.leaseToken = some token))).Safe (contract feed) i
      (fun claimed t => ∀ delivery, claimed = some delivery →
        Attempt i delivery t.2 ∧ Unsent delivery t.2) s := by
  apply Throws.safe_read_bind
  intro t choice hr hl _ _
  have hl : Ledger t.1 t.2 := hl
  obtain ⟨hdrawn, hunused⟩ := (stable_drawn i token).onward hr hdrawn
  have hsame : Ledger (t.1.later choice.elapsed) t.2 := hl.same rfl (Nat.le_refl _)
  rcases claim_cases (t.1.later choice.elapsed) key now token i choice with
    ⟨row, hrow, hclaimable, hstate, hresult, hevents⟩ | ⟨hresult, hstate, hevents⟩
  · obtain rfl := delivery_key hrow
    have hpost := hsame.claimed (delivery_mem hrow) hclaimable hnow hdrawn hunused
    have hevents : (Stmt.claim row.key now token).events i choice t.1 =
      [.claimed ⟨i, row, token⟩] := hevents
    constructor
    · apply keeps
      · rw [hevents]
        rw [← hstate] at hpost
        exact hpost
      · intro j hj e he
        obtain rfl := List.mem_singleton.mp (hevents ▸ he)
        exact claimed_not_isOf hl.toChronicle hdrawn hj
    · apply Throws.safe_pure
      intro delivery hdelivery
      obtain ⟨hclaimed, -⟩ := Option.filter_eq_some_iff.mp hdelivery
      have hown := claimed_attempt hsame (delivery_mem hrow) hpost hclaimable
        (hresult ▸ hclaimed)
      rw [← hevents] at hown
      exact hown
  · have hevents : (Stmt.claim key now token).events i choice t.1 = [] := hevents
    constructor
    · apply keeps
      · rw [hevents, List.append_nil]
        rw [← hstate] at hsame
        exact hsame
      · intro j _ e he
        rw [hevents] at he
        cases he
    · apply Throws.safe_pure
      intro delivery hdelivery
      obtain ⟨hclaimed, -⟩ := Option.filter_eq_some_iff.mp hdelivery
      exact absurd (hresult.symm.trans hclaimed).symm (Option.some_ne_none _)

theorem claimDelivery_safe (hnow : 0 ≤ now) : (claimDelivery key now).Safe (contract feed) i
    (fun claimed t => ∀ delivery, claimed = some delivery →
      Attempt i delivery t.2 ∧ Unsent delivery t.2) s := by
  apply Throws.safe_read_bind
  intro t choice _ hl _ _
  have hl : Ledger t.1 t.2 := hl
  constructor
  · apply keeps
    · exact (hl.drawn i).same rfl (Nat.le_refl _)
    · intro j _ e he
      obtain rfl := List.mem_singleton.mp he
      exact not_isOf rfl rfl
  · have hdrawn : Drawn i t.1.issued (t.2 ++ [.drawn i t.1.issued]) := by
      constructor
      · rw [draws_concat]
        exact List.mem_append_right _ List.mem_cons_self
      · intro claim hclaim
        have hold := hl.claimDrawn claim (by simpa using hclaim)
        exact Nat.ne_of_lt (hl.drawnBelow _ hold)
    exact claim_safe hnow hdrawn

end Claims

end Ashbi.Emails
