import Ashbi.Emails.Drain
import Ashbi.Interleaving.Watch

/-! What the runs do to the deliveries, event by event. -/

namespace Ashbi.Emails

open Interleaving Sql

/-- A claim that took a row. -/
structure Claim where
  thread : ℕ
  /-- The row as the claim found it. -/
  found : Delivery
  token : ℕ
  deriving DecidableEq

def Claim.key (claim : Claim) : Key := claim.found.key

/-- The attempts of a row are numbered by its claims. -/
def Claim.attempt (claim : Claim) : ℕ := claim.found.attempts + 1

/-- The claim took a row that another attempt had left, its lease run out and nothing recorded. -/
def Claim.lapsed (claim : Claim) : Bool :=
  claim.found.status = .pending && claim.found.leaseUntil ≠ 0

inductive Event
  | drawn (thread token : ℕ)
  | created (row : Delivery)
  | claimed (claim : Claim)
  | sent (key : Key) (attempt : ℕ) (mail : Mail)
  | ended (key : Key) (attempt : ℕ) (settlement : Settlement)
  /-- An update set the status of the row that has been claimed so often. -/
  | recorded (key : Key) (attempt : ℕ) (status : Status)
  deriving DecidableEq

def Write.status : Write → Status
  | .stale _ | .snapshotChanged _ | .eligibilityChanged _ _ => .disabled
  | .leaseExpired _ => .uncertain
  | .expired _ | .attemptsExhausted _ => .failed
  | .accepted _ _ _ => .accepted
  | .failure _ _ status _ _ => status

section Events

variable {Inbox : Type}

/-- The event of an update that is executed. -/
def State.recorded (s : State Inbox) (key : Key) (write : Write) : List Event :=
  match s.delivery key with
  | some row => if write.selects row then [.recorded key row.attempts write.status] else []
  | none => []

def Stmt.events (i : ℕ) {β : Type} (st : Stmt Inbox β) (choice : Choice) (s : State Inbox) :
    List Event :=
  match st with
  | .randomUUID => [.drawn i s.issued]
  | .insert row => if (s.delivery row.key).isSome then [] else [.created row]
  | .claim key time token =>
    match s.delivery key with
    | some row => if row.claimable time then [.claimed ⟨i, row, token⟩] else []
    | none => []
  | .send delivery mail => [.sent delivery.key delivery.attempts mail]
  | .settled delivery => [.ended delivery.key delivery.attempts choice.settlement]
  | .update key write => if choice.fault = .before then [] else s.recorded key write
  | _ => []

variable (feed : Inbox → Time → Actor → List Candidate)

/-- The events of an executed statement. -/
def events (o : Occurrence (machine feed)) : List Event := o.stmt.events o.thread o.choice o.pre

end Events

/-! ### Parts of a history -/

@[simp] def Event.draw? : Event → Option (ℕ × ℕ)
  | .drawn thread token => some (thread, token)
  | _ => none

@[simp] def Event.created? : Event → Option Delivery
  | .created row => some row
  | _ => none

@[simp] def Event.claim? : Event → Option Claim
  | .claimed claim => some claim
  | _ => none

@[simp] def Event.sent? : Event → Option (Key × ℕ)
  | .sent key attempt _ => some (key, attempt)
  | _ => none

def draws (h : List Event) : List (ℕ × ℕ) := h.filterMap (·.draw?)
def creations (h : List Event) : List Delivery := h.filterMap (·.created?)
def claims (h : List Event) : List Claim := h.filterMap (·.claim?)

/-- The attempts with which the send function was called. -/
def sends (h : List Event) : List (Key × ℕ) := h.filterMap (·.sent?)

section Parts

variable {h : List Event} {e : Event}

@[simp] theorem draws_concat : draws (h ++ [e]) = draws h ++ e.draw?.toList := by
  rw [draws, List.filterMap_append]
  cases e <;> rfl

@[simp] theorem creations_concat : creations (h ++ [e]) = creations h ++ e.created?.toList := by
  rw [creations, List.filterMap_append]
  cases e <;> rfl

@[simp] theorem claims_concat : claims (h ++ [e]) = claims h ++ e.claim?.toList := by
  rw [claims, List.filterMap_append]
  cases e <;> rfl

@[simp] theorem sends_concat : sends (h ++ [e]) = sends h ++ e.sent?.toList := by
  rw [sends, List.filterMap_append]
  cases e <;> rfl

theorem mem_sends {key : Key} {attempt : ℕ} :
    (key, attempt) ∈ sends h ↔ ∃ mail, Event.sent key attempt mail ∈ h := by
  simp only [sends, List.mem_filterMap]
  constructor
  · rintro ⟨e, he, heq⟩
    cases e with
    | sent key' attempt' mail =>
      obtain ⟨rfl, rfl⟩ := Prod.mk.inj (Option.some.inj heq)
      exact ⟨mail, he⟩
    | _ => cases heq
  · rintro ⟨mail, hsent⟩
    exact ⟨_, hsent, rfl⟩

theorem mem_creations {row : Delivery} : row ∈ creations h ↔ Event.created row ∈ h := by
  simp only [creations, List.mem_filterMap]
  constructor
  · rintro ⟨e, he, heq⟩
    cases e with
    | created row' =>
      obtain rfl := Option.some.inj heq
      exact he
    | _ => cases heq
  · intro hcreated
    exact ⟨_, hcreated, rfl⟩

/-- A list that ends in `x` stands in a longer history before or with its last event. -/
theorem sublist_concat {α : Type} {l h : List α} {x e : α} :
    (l ++ [x]).Sublist (h ++ [e]) ↔ (l ++ [x]).Sublist h ∨ (x = e ∧ l.Sublist h) := by
  rw [← List.reverse_sublist, ← @List.reverse_sublist _ _ h, ← @List.reverse_sublist _ l]
  simp only [List.reverse_append, List.reverse_singleton, List.singleton_append]
  exact List.cons_sublist_cons'

end Parts

/-! ### The invariant -/

/-- The columns of a delivery fit each other. -/
structure Delivery.Sound (row : Delivery) : Prop where
  held : row.leaseToken.isSome = true → row.status = .pending
  free : row.leaseToken = none → row.leaseUntil = 0
  first : row.status = .pending → row.leaseUntil = 0 → row.attempts = 0
  bounded : row.attempts ≤ maxAttempts

/-- The attempt ended with an error listed as transient, and that was recorded as RETRY. -/
def Retried (key : Key) (attempt : ℕ) (mail : Mail) (after : List Event) (h : List Event) : Prop :=
  ∃ settlement : Settlement, settlement.isTransient = true ∧
    (([.sent key attempt mail, .ended key attempt settlement, .recorded key attempt .retry] :
      List Event) ++ after).Sublist h

/-- No claim of the key took a lapsed row. -/
def Orderly (key : Key) (h : List Event) : Prop :=
  ∀ claim ∈ claims h, claim.key = key → claim.lapsed = false

/-- A row keeps what was inserted under its key. -/
structure Delivery.From (row first : Delivery) : Prop where
  key : first.key = row.key
  recipientEmail : first.recipientEmail = row.recipientEmail
  sender : first.sender = row.sender

/-- What any history of the drains satisfies. -/
structure Chronicle (h : List Event) : Prop where
  drawnOnce : ((draws h).map Prod.snd).Nodup
  createdOnce : ((creations h).map (·.key)).Nodup
  tokensOnce : ((claims h).map (·.token)).Nodup
  attemptsOnce : ((claims h).map fun claim => (claim.key, claim.attempt)).Nodup
  claimDrawn : ∀ claim ∈ claims h, (claim.thread, claim.token) ∈ draws h
  sentOnce : (sends h).Nodup
  sentClaimed : ∀ sent ∈ sends h, ∃ claim ∈ claims h, (claim.key, claim.attempt) = sent
  sentTo : ∀ key attempt mail, .sent key attempt mail ∈ h → ∃ first : Delivery, first.key = key ∧
    mail.recipient = first.recipientEmail ∧ parseSender first.sender = some mail.sender ∧
    [.created first, .sent key attempt mail].Sublist h
  /-- A RETRY is the record of a transient error. -/
  retried : ∀ key attempt mail, .recorded key attempt .retry ∈ h → .sent key attempt mail ∈ h →
    Retried key attempt mail [] h
  /-- No send of an orderly key is repeated blindly. -/
  law : ∀ key, Orderly key h → ∀ attempt attempt' mail mail',
    [.sent key attempt mail, .sent key attempt' mail'].Sublist h →
    Retried key attempt mail [.sent key attempt' mail'] h

/-- The deliveries are what the history has made of them. -/
structure Ledger {Inbox : Type} (s : State Inbox) (h : List Event) : Prop extends Chronicle h where
  unique : (s.deliveries.map (·.key)).Nodup
  sound : ∀ row ∈ s.deliveries, row.Sound
  drawnBelow : ∀ draw ∈ draws h, draw.2 < s.issued
  createdRow : ∀ first ∈ creations h, ∃ row ∈ s.deliveries, row.key = first.key
  origin : ∀ row ∈ s.deliveries, ∃ first ∈ creations h, row.From first
  claimedRow : ∀ claim ∈ claims h, ∃ row ∈ s.deliveries, row.key = claim.key ∧
    claim.attempt ≤ row.attempts
  holder : ∀ row ∈ s.deliveries, ∀ token, row.leaseToken = some token →
    ∃ claim ∈ claims h, claim.token = token ∧ claim.key = row.key ∧ claim.attempt = row.attempts
  recordedRow : ∀ key attempt status, .recorded key attempt status ∈ h →
    ∃ row ∈ s.deliveries, row.key = key ∧ attempt ≤ row.attempts
  /-- Of an orderly key every attempt but the last was recorded as RETRY. -/
  cleared : ∀ row ∈ s.deliveries, Orderly row.key h → ∀ claim ∈ claims h, claim.key = row.key →
    claim.attempt < row.attempts ∨ row.status = .retry →
    .recorded row.key claim.attempt .retry ∈ h

/-! ### Histories grow -/

section Growth

variable {h : List Event} {e : Event}

theorem Retried.concat {key : Key} {attempt : ℕ} {mail : Mail} {after : List Event}
    (hretried : Retried key attempt mail after h) : Retried key attempt mail after (h ++ [e]) := by
  obtain ⟨settlement, htransient, hsub⟩ := hretried
  exact ⟨settlement, htransient, hsub.trans (List.sublist_append_left ..)⟩

theorem Orderly.of_concat {key : Key} (horderly : Orderly key (h ++ [e])) : Orderly key h := by
  intro claim hclaim
  apply horderly claim
  rw [claims_concat]
  exact List.mem_append_left _ hclaim

/-- Only a send or a record of RETRY asks for a reason. -/
structure Event.Plain (e : Event) : Prop where
  send : ∀ key attempt mail, e ≠ .sent key attempt mail
  record : ∀ key attempt, e ≠ .recorded key attempt .retry

theorem Chronicle.sentTo_concat (hc : Chronicle h) (key : Key) (attempt : ℕ) (mail : Mail)
    (hsent : .sent key attempt mail ∈ h) : ∃ first : Delivery, first.key = key ∧
      mail.recipient = first.recipientEmail ∧ parseSender first.sender = some mail.sender ∧
      [.created first, .sent key attempt mail].Sublist (h ++ [e]) := by
  obtain ⟨first, hkey, hto, hfrom, hsub⟩ := hc.sentTo key attempt mail hsent
  exact ⟨first, hkey, hto, hfrom, hsub.trans (List.sublist_append_left ..)⟩

theorem Chronicle.law_concat (hc : Chronicle h) (he : e.Plain) (key : Key)
    (horderly : Orderly key (h ++ [e])) (attempt attempt' : ℕ) (mail mail' : Mail)
    (hsub : [.sent key attempt mail, .sent key attempt' mail'].Sublist (h ++ [e])) :
    Retried key attempt mail [.sent key attempt' mail'] (h ++ [e]) := by
  have hsplit : (([.sent key attempt mail] : List Event) ++
      [Event.sent key attempt' mail']).Sublist (h ++ [e]) := hsub
  rcases sublist_concat.mp hsplit with hsub | ⟨rfl, -⟩
  · exact (hc.law key horderly.of_concat attempt attempt' mail mail' hsub).concat
  · exact absurd rfl (he.send key attempt' mail')

theorem Chronicle.retried_concat (hc : Chronicle h) (he : e.Plain) (key : Key) (attempt : ℕ)
    (mail : Mail) (hrecorded : .recorded key attempt .retry ∈ h ++ [e])
    (hsent : .sent key attempt mail ∈ h ++ [e]) : Retried key attempt mail [] (h ++ [e]) := by
  rcases List.mem_append.mp hrecorded with hrecorded | hrecorded
  · rcases List.mem_append.mp hsent with hsent | hsent
    · exact (hc.retried key attempt mail hrecorded hsent).concat
    · exact absurd (List.mem_singleton.mp hsent).symm (he.send key attempt mail)
  · exact absurd (List.mem_singleton.mp hrecorded).symm (he.record key attempt)

theorem Chronicle.drawn (hc : Chronicle h) {i token : ℕ}
    (hnew : ∀ draw ∈ draws h, draw.2 ≠ token) : Chronicle (h ++ [.drawn i token]) := by
  have hplain : (Event.drawn i token).Plain := ⟨nofun, nofun⟩
  refine ⟨?_, by simpa using hc.createdOnce, by simpa using hc.tokensOnce,
    by simpa using hc.attemptsOnce, ?_, by simpa using hc.sentOnce, by simpa using hc.sentClaimed,
    ?_, hc.retried_concat hplain, hc.law_concat hplain⟩
  · rw [draws_concat]
    exact nodup_map_concat hc.drawnOnce hnew
  · intro claim hclaim
    rw [draws_concat]
    apply List.mem_append_left
    exact hc.claimDrawn claim (by simpa using hclaim)
  · intro key attempt mail hsent
    exact hc.sentTo_concat key attempt mail (by simpa using hsent)

theorem Chronicle.created (hc : Chronicle h) {row : Delivery}
    (hnew : ∀ first ∈ creations h, first.key ≠ row.key) : Chronicle (h ++ [.created row]) := by
  have hplain : (Event.created row).Plain := ⟨nofun, nofun⟩
  refine ⟨by simpa using hc.drawnOnce, ?_, by simpa using hc.tokensOnce,
    by simpa using hc.attemptsOnce, by simpa using hc.claimDrawn, by simpa using hc.sentOnce,
    by simpa using hc.sentClaimed, ?_, hc.retried_concat hplain, hc.law_concat hplain⟩
  · rw [creations_concat]
    exact nodup_map_concat hc.createdOnce hnew
  · intro key attempt mail hsent
    exact hc.sentTo_concat key attempt mail (by simpa using hsent)

theorem Chronicle.claimed (hc : Chronicle h) {claim : Claim}
    (hdrawn : (claim.thread, claim.token) ∈ draws h)
    (htoken : ∀ other ∈ claims h, other.token ≠ claim.token)
    (hattempt : ∀ other ∈ claims h, (other.key, other.attempt) ≠ (claim.key, claim.attempt)) :
    Chronicle (h ++ [.claimed claim]) := by
  have hplain : (Event.claimed claim).Plain := ⟨nofun, nofun⟩
  refine ⟨by simpa using hc.drawnOnce, by simpa using hc.createdOnce, ?_, ?_, ?_,
    by simpa using hc.sentOnce, ?_, ?_, hc.retried_concat hplain, hc.law_concat hplain⟩
  · rw [claims_concat]
    exact nodup_map_concat hc.tokensOnce htoken
  · rw [claims_concat]
    exact nodup_map_concat hc.attemptsOnce hattempt
  · intro other hother
    rw [claims_concat] at hother
    rw [draws_concat]
    apply List.mem_append_left
    rcases List.mem_append.mp hother with hother | hother
    · exact hc.claimDrawn other hother
    · obtain rfl := List.mem_singleton.mp hother
      exact hdrawn
  · intro sent hsent
    obtain ⟨other, hother, heq⟩ := hc.sentClaimed sent (by simpa using hsent)
    rw [claims_concat]
    exact ⟨other, List.mem_append_left _ hother, heq⟩
  · intro key attempt mail hsent
    exact hc.sentTo_concat key attempt mail (by simpa using hsent)

theorem Chronicle.ended (hc : Chronicle h) {key : Key} {attempt : ℕ} {settlement : Settlement} :
    Chronicle (h ++ [.ended key attempt settlement]) := by
  have hplain : (Event.ended key attempt settlement).Plain := ⟨nofun, nofun⟩
  refine ⟨by simpa using hc.drawnOnce, by simpa using hc.createdOnce,
    by simpa using hc.tokensOnce, by simpa using hc.attemptsOnce, by simpa using hc.claimDrawn,
    by simpa using hc.sentOnce, by simpa using hc.sentClaimed, ?_, hc.retried_concat hplain,
    hc.law_concat hplain⟩
  intro key attempt mail hsent
  exact hc.sentTo_concat key attempt mail (by simpa using hsent)

/-- The call of an attempt, if there was one, ended with a transient error. -/
def EndedTransient (key : Key) (attempt : ℕ) (h : List Event) : Prop :=
  ∀ mail, .sent key attempt mail ∈ h → ∃ settlement : Settlement, settlement.isTransient = true ∧
    ([.sent key attempt mail, .ended key attempt settlement] : List Event).Sublist h

theorem Chronicle.recorded (hc : Chronicle h) {key : Key} {attempt : ℕ} {status : Status}
    (hretry : status = .retry → EndedTransient key attempt h) :
    Chronicle (h ++ [.recorded key attempt status]) := by
  refine ⟨by simpa using hc.drawnOnce, by simpa using hc.createdOnce,
    by simpa using hc.tokensOnce, by simpa using hc.attemptsOnce, by simpa using hc.claimDrawn,
    by simpa using hc.sentOnce, by simpa using hc.sentClaimed, ?_, ?_, ?_⟩
  · intro key attempt mail hsent
    exact hc.sentTo_concat key attempt mail (by simpa using hsent)
  · intro key' attempt' mail hrecorded hsent
    have hold : .sent key' attempt' mail ∈ h := by simpa using hsent
    rcases List.mem_append.mp hrecorded with hrecorded | hrecorded
    · exact (hc.retried key' attempt' mail hrecorded hold).concat
    · cases List.mem_singleton.mp hrecorded
      obtain ⟨settlement, htransient, hsub⟩ := hretry rfl mail hold
      exact ⟨settlement, htransient, hsub.append (List.Sublist.refl _)⟩
  · intro key' horderly attempt₁ attempt₂ mail₁ mail₂ hsub
    have hsplit : (([.sent key' attempt₁ mail₁] : List Event) ++
      [Event.sent key' attempt₂ mail₂]).Sublist (h ++ [.recorded key attempt status]) := hsub
    rcases sublist_concat.mp hsplit with hsub | ⟨heq, -⟩
    · exact (hc.law key' horderly.of_concat attempt₁ attempt₂ mail₁ mail₂ hsub).concat
    · cases heq

theorem Chronicle.sent (hc : Chronicle h) {key : Key} {attempt : ℕ} {mail : Mail}
    (hclaim : ∃ claim ∈ claims h, (claim.key, claim.attempt) = (key, attempt))
    (hnew : (key, attempt) ∉ sends h) (hunrecorded : .recorded key attempt .retry ∉ h)
    (hto : ∃ first ∈ creations h, first.key = key ∧ mail.recipient = first.recipientEmail ∧
      parseSender first.sender = some mail.sender)
    (hlaw : Orderly key h → ∀ earlier mail', .sent key earlier mail' ∈ h →
      .recorded key earlier .retry ∈ h) : Chronicle (h ++ [.sent key attempt mail]) := by
  refine ⟨by simpa using hc.drawnOnce, by simpa using hc.createdOnce,
    by simpa using hc.tokensOnce, by simpa using hc.attemptsOnce, by simpa using hc.claimDrawn,
    ?_, ?_, ?_, ?_, ?_⟩
  · rw [sends_concat]
    exact List.nodup_append.mpr ⟨hc.sentOnce, List.nodup_singleton _,
      fun sent hsent other hother heq => hnew (List.mem_singleton.mp hother ▸ heq ▸ hsent)⟩
  · intro sent hsent
    rw [sends_concat] at hsent
    simp only [claims_concat, Event.claim?, Option.toList_none, List.append_nil]
    rcases List.mem_append.mp hsent with hsent | hsent
    · exact hc.sentClaimed sent hsent
    · exact List.mem_singleton.mp hsent ▸ hclaim
  · intro key' attempt' mail' hsent
    rcases List.mem_append.mp hsent with hsent | hsent
    · exact hc.sentTo_concat key' attempt' mail' hsent
    · cases List.mem_singleton.mp hsent
      obtain ⟨first, hfirst, hkey, hrecipient, hsender⟩ := hto
      refine ⟨first, hkey, hrecipient, hsender, ?_⟩
      have hcreated := List.singleton_sublist.mpr (mem_creations.mp hfirst)
      exact hcreated.append (List.Sublist.refl _)
  · intro key' attempt' mail' hrecorded hsent
    have hrecorded : .recorded key' attempt' .retry ∈ h := by simpa using hrecorded
    rcases List.mem_append.mp hsent with hsent | hsent
    · exact (hc.retried key' attempt' mail' hrecorded hsent).concat
    · cases List.mem_singleton.mp hsent
      exact absurd hrecorded hunrecorded
  · intro key' horderly attempt₁ attempt₂ mail₁ mail₂ hsub
    have hsplit : (([.sent key' attempt₁ mail₁] : List Event) ++
      [Event.sent key' attempt₂ mail₂]).Sublist (h ++ [.sent key attempt mail]) := hsub
    rcases sublist_concat.mp hsplit with hold | ⟨heq, hold⟩
    · exact (hc.law key' horderly.of_concat attempt₁ attempt₂ mail₁ mail₂ hold).concat
    · cases heq
      have hsent := List.singleton_sublist.mp hold
      have hrecorded := hlaw horderly.of_concat attempt₁ mail₁ hsent
      obtain ⟨settlement, htransient, hfull⟩ := hc.retried key attempt₁ mail₁ hrecorded hsent
      refine ⟨settlement, htransient, ?_⟩
      rw [List.append_nil] at hfull
      exact hfull.append (List.Sublist.refl _)

end Growth

end Ashbi.Emails
