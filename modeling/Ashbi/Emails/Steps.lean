import Ashbi.Emails.Ledger

/-! What each kind of statement does to the deliveries. -/

namespace Ashbi.Emails

open Interleaving Sql

variable {Inbox : Type} {s s' : State Inbox} {h : List Event} {row : Delivery}

theorem delivery_mem {key : Key} (hrow : s.delivery key = some row) : row ∈ s.deliveries :=
  Keyed.find_mem hrow

theorem delivery_key {key : Key} (hrow : s.delivery key = some row) : row.key = key :=
  Keyed.find_key hrow

theorem Ledger.delivery_eq (hl : Ledger s h) (hrow : row ∈ s.deliveries) :
    s.delivery row.key = some row := Keyed.find_of_mem hl.unique hrow

/-- Two rows with one key are one row. -/
theorem Ledger.row_eq (hl : Ledger s h) {other : Delivery} (hrow : row ∈ s.deliveries)
    (hother : other ∈ s.deliveries) (hkey : row.key = other.key) : row = other :=
  Sql.row_eq hl.unique hrow hother hkey

/-- The attempts that were claimed are those that the row has counted. -/
theorem Ledger.attempt_le (hl : Ledger s h) (hrow : row ∈ s.deliveries) {claim : Claim}
    (hclaim : claim ∈ claims h) (hkey : claim.key = row.key) : claim.attempt ≤ row.attempts := by
  obtain ⟨other, hother, hotherKey, hle⟩ := hl.claimedRow claim hclaim
  rw [hl.row_eq hrow hother (hkey.symm.trans hotherKey.symm)]
  exact hle

/-! ### Statements that leave the deliveries -/

theorem Ledger.same (hl : Ledger s h) (hrows : s'.deliveries = s.deliveries)
    (hissued : s.issued ≤ s'.issued) : Ledger s' h where
  toChronicle := hl.toChronicle
  unique := hrows ▸ hl.unique
  sound := hrows ▸ hl.sound
  drawnBelow := fun draw hdraw => Nat.lt_of_lt_of_le (hl.drawnBelow draw hdraw) hissued
  createdRow := hrows ▸ hl.createdRow
  origin := hrows ▸ hl.origin
  claimedRow := hrows ▸ hl.claimedRow
  holder := hrows ▸ hl.holder
  recordedRow := hrows ▸ hl.recordedRow
  cleared := hrows ▸ hl.cleared

/-- An event that is no draw, creation or claim changes nothing about the rows. -/
theorem Ledger.log (hl : Ledger s h) {e : Event} (hc : Chronicle (h ++ [e]))
    (hdraw : e.draw? = none) (hcreated : e.created? = none) (hclaim : e.claim? = none)
    (hrecorded : ∀ key attempt status, e = .recorded key attempt status →
      ∃ row ∈ s.deliveries, row.key = key ∧ attempt ≤ row.attempts) :
    Ledger s (h ++ [e]) := by
  have hdraws : draws (h ++ [e]) = draws h := by
    rw [draws_concat, hdraw, Option.toList_none, List.append_nil]
  have hcreations : creations (h ++ [e]) = creations h := by
    rw [creations_concat, hcreated, Option.toList_none, List.append_nil]
  have hclaims : claims (h ++ [e]) = claims h := by
    rw [claims_concat, hclaim, Option.toList_none, List.append_nil]
  refine ⟨hc, hl.unique, hl.sound, hdraws ▸ hl.drawnBelow, hcreations ▸ hl.createdRow,
    hcreations ▸ hl.origin, hclaims ▸ hl.claimedRow, hclaims ▸ hl.holder, ?_, ?_⟩
  · intro key attempt status hmem
    rcases List.mem_append.mp hmem with hmem | hmem
    · exact hl.recordedRow key attempt status hmem
    · exact hrecorded key attempt status (List.mem_singleton.mp hmem).symm
  · intro row hrow horderly claim hmem hkey hlate
    rw [hclaims] at hmem
    exact List.mem_append_left _ (hl.cleared row hrow horderly.of_concat claim hmem hkey hlate)

theorem Ledger.drawn (hl : Ledger s h) (i : ℕ) :
    Ledger { s with issued := s.issued + 1 } (h ++ [.drawn i s.issued]) where
  toChronicle := hl.toChronicle.drawn fun draw hdraw => Nat.ne_of_lt (hl.drawnBelow draw hdraw)
  unique := hl.unique
  sound := hl.sound
  drawnBelow := by
    intro draw hdraw
    rw [draws_concat] at hdraw
    rcases List.mem_append.mp hdraw with hdraw | hdraw
    · exact Nat.lt_succ_of_lt (hl.drawnBelow draw hdraw)
    · obtain rfl := List.mem_singleton.mp hdraw
      exact Nat.lt_succ_self _
  createdRow := by simpa using hl.createdRow
  origin := by simpa using hl.origin
  claimedRow := by simpa using hl.claimedRow
  holder := by simpa using hl.holder
  recordedRow := by simpa using hl.recordedRow
  cleared := by
    intro row hrow horderly claim hmem hkey hlate
    have hold : claim ∈ claims h := by simpa using hmem
    exact List.mem_append_left _ (hl.cleared row hrow horderly.of_concat claim hold hkey hlate)

/-! ### New rows -/

/-- A row that was never claimed. -/
structure Delivery.Fresh (row : Delivery) : Prop where
  status : row.status = .pending
  attempts : row.attempts = 0
  leaseUntil : row.leaseUntil = 0
  leaseToken : row.leaseToken = none

theorem Delivery.Fresh.sound (hf : row.Fresh) : row.Sound where
  held := fun _ => hf.status
  free := fun _ => hf.leaseUntil
  first := fun _ _ => hf.attempts
  bounded := by
    rw [hf.attempts]
    exact Nat.zero_le _

theorem Ledger.created (hl : Ledger s h) (hf : row.Fresh) (hnew : s.delivery row.key = none) :
    Ledger { s with deliveries := s.deliveries ++ [row] } (h ++ [.created row]) := by
  have hfree : ∀ old ∈ s.deliveries, old.key ≠ row.key := Keyed.find_none.mp hnew
  have hcreations : ∀ first ∈ creations h, first.key ≠ row.key := by
    intro first hfirst heq
    obtain ⟨old, hold, hkey⟩ := hl.createdRow first hfirst
    exact hfree old hold (hkey.trans heq)
  constructor
  case toChronicle => exact hl.toChronicle.created hcreations
  case unique => exact nodup_map_concat hl.unique hfree
  case sound =>
    intro x hx
    rcases List.mem_append.mp hx with hx | hx
    · exact hl.sound x hx
    · exact List.mem_singleton.mp hx ▸ hf.sound
  case drawnBelow => simpa using hl.drawnBelow
  case createdRow =>
    intro first hfirst
    rw [creations_concat] at hfirst
    rcases List.mem_append.mp hfirst with hfirst | hfirst
    · obtain ⟨old, hold, hkey⟩ := hl.createdRow first hfirst
      exact ⟨old, List.mem_append_left _ hold, hkey⟩
    · obtain rfl := List.mem_singleton.mp hfirst
      exact ⟨_, List.mem_append_right _ List.mem_cons_self, rfl⟩
  case origin =>
    intro x hx
    rw [creations_concat]
    rcases List.mem_append.mp hx with hx | hx
    · obtain ⟨first, hfirst, hfrom⟩ := hl.origin x hx
      exact ⟨first, List.mem_append_left _ hfirst, hfrom⟩
    · obtain rfl := List.mem_singleton.mp hx
      exact ⟨_, List.mem_append_right _ List.mem_cons_self, rfl, rfl, rfl⟩
  case claimedRow =>
    intro claim hclaim
    obtain ⟨old, hold, hkey, hle⟩ := hl.claimedRow claim (by simpa using hclaim)
    exact ⟨old, List.mem_append_left _ hold, hkey, hle⟩
  case holder =>
    intro x hx token htoken
    rcases List.mem_append.mp hx with hx | hx
    · obtain ⟨claim, hclaim, hrest⟩ := hl.holder x hx token htoken
      exact ⟨claim, by simpa using hclaim, hrest⟩
    · obtain rfl := List.mem_singleton.mp hx
      rw [hf.leaseToken] at htoken
      cases htoken
  case recordedRow =>
    intro key attempt status hrecorded
    obtain ⟨old, hold, hrest⟩ := hl.recordedRow key attempt status (by simpa using hrecorded)
    exact ⟨old, List.mem_append_left _ hold, hrest⟩
  case cleared =>
    intro x hx horderly claim hmem hkey hlate
    have hold : claim ∈ claims h := by simpa using hmem
    rcases List.mem_append.mp hx with hx | hx
    · exact List.mem_append_left _ (hl.cleared x hx horderly.of_concat claim hold hkey hlate)
    · obtain rfl := List.mem_singleton.mp hx
      obtain ⟨old, hrow, holdKey, -⟩ := hl.claimedRow claim hold
      exact absurd (holdKey.trans hkey) (hfree old hrow)

/-! ### Updates of one row -/

/-- The rows after one of them was rewritten. -/
theorem Ledger.mem_update (hl : Ledger s h) (hrow : row ∈ s.deliveries)
    {selects : Delivery → Bool} (hselects : selects row = true) {set : Delivery → Delivery}
    {x : Delivery} : x ∈ (s.update row.key selects set).deliveries ↔
      x = set row ∨ (x ∈ s.deliveries ∧ x.key ≠ row.key) := by
  rw [State.update, Sql.mem_update]
  constructor
  · rintro (⟨old, hold, hold', rfl⟩ | ⟨hx, hx'⟩)
    · obtain ⟨hkey, -⟩ := Bool.and_eq_true _ _ ▸ hold'
      rw [hl.row_eq hold hrow (of_decide_eq_true hkey)]
      exact .inl rfl
    · refine .inr ⟨hx, fun hkey => ?_⟩
      obtain rfl := hl.row_eq hx hrow hkey
      simp [hselects] at hx'
  · rintro (rfl | ⟨hx, hkey⟩)
    · exact .inl ⟨row, hrow, by simp [hselects], rfl⟩
    · exact .inr ⟨hx, by simp [hkey]⟩

/-- Every row keeps its key, and its attempts do not go down. -/
theorem Ledger.row_update (hl : Ledger s h) (hrow : row ∈ s.deliveries)
    {selects : Delivery → Bool} (hselects : selects row = true) {set : Delivery → Delivery}
    (hkey : (set row).key = row.key) (hle : row.attempts ≤ (set row).attempts) {old : Delivery}
    (hold : old ∈ s.deliveries) : ∃ next ∈ (s.update row.key selects set).deliveries,
      next.key = old.key ∧ old.attempts ≤ next.attempts := by
  by_cases hsame : old.key = row.key
  · obtain rfl := hl.row_eq hold hrow hsame
    exact ⟨_, (hl.mem_update hrow hselects).mpr (.inl rfl), hkey, hle⟩
  · exact ⟨old, (hl.mem_update hrow hselects).mpr (.inr ⟨hold, hsame⟩), rfl, Nat.le_refl _⟩

theorem Ledger.unique_update (hl : Ledger s h) {key : Key} {selects : Delivery → Bool}
    {set : Delivery → Delivery} (hset : ∀ old, (set old).key = old.key) :
    ((s.update key selects set).deliveries.map (·.key)).Nodup := by
  rw [State.update, map_update fun old _ _ => hset old]
  exact hl.unique

/-- An update whose condition the row does not meet. -/
theorem Ledger.update_none (hl : Ledger s h) {key : Key} {selects : Delivery → Bool}
    {set : Delivery → Delivery} (hnone : ∀ row, s.delivery key = some row → selects row = false) :
    s.update key selects set = s := by
  have hrows : Sql.update (fun row => row.key = key && selects row) set s.deliveries =
      s.deliveries := by
    apply update_of_none
    intro old hold
    by_cases hkey : old.key = key
    · rw [hnone old (hkey ▸ hl.delivery_eq hold), Bool.and_false]
    · simp [hkey]
  rw [State.update, hrows]

/-- What an update leaves in the row that it selects. -/
structure Write.Released (write : Write) (row : Delivery) : Prop where
  key : (write.set row).key = row.key
  status : (write.set row).status = write.status
  attempts : (write.set row).attempts = row.attempts
  leaseUntil : (write.set row).leaseUntil = 0
  leaseToken : (write.set row).leaseToken = none
  recipientEmail : (write.set row).recipientEmail = row.recipientEmail
  sender : (write.set row).sender = row.sender

theorem Write.released (write : Write) (row : Delivery) : write.Released row := by
  cases write <;> exact ⟨rfl, rfl, rfl, rfl, rfl, rfl, rfl⟩

theorem Ledger.recorded (hl : Ledger s h) {write : Write} (hrow : row ∈ s.deliveries)
    (hselects : write.selects row = true) (hstatus : write.status ≠ .pending)
    (hretry : write.status = .retry → EndedTransient row.key row.attempts h) :
    Ledger (s.update row.key write.selects write.set)
      (h ++ [.recorded row.key row.attempts write.status]) := by
  have hset := write.released row
  have hmem {x : Delivery} : x ∈ (s.update row.key write.selects write.set).deliveries ↔
      x = write.set row ∨ (x ∈ s.deliveries ∧ x.key ≠ row.key) := hl.mem_update hrow hselects
  have hnext {old : Delivery} (hold : old ∈ s.deliveries) :=
    hl.row_update hrow hselects hset.key hset.attempts.ge hold
  have hlog : Ledger s (h ++ [.recorded row.key row.attempts write.status]) := by
    refine hl.log (hl.toChronicle.recorded hretry) rfl rfl rfl fun key attempt status heq => ?_
    obtain ⟨rfl, rfl, -⟩ := Event.recorded.inj heq
    exact ⟨row, hrow, rfl, Nat.le_refl _⟩
  constructor
  case toChronicle => exact hl.toChronicle.recorded hretry
  case unique => exact hl.unique_update fun old => (write.released old).key
  case sound =>
    intro x hx
    rcases hmem.mp hx with rfl | ⟨hx, -⟩
    · refine ⟨fun htoken => ?_, fun _ => hset.leaseUntil, fun hpending _ => ?_, ?_⟩
      · rw [hset.leaseToken] at htoken
        cases htoken
      · exact absurd (hset.status ▸ hpending) hstatus
      · rw [hset.attempts]
        exact (hl.sound row hrow).bounded
    · exact hl.sound x hx
  case drawnBelow => exact hlog.drawnBelow
  case createdRow =>
    intro first hfirst
    obtain ⟨old, hold, hkey⟩ := hlog.createdRow first hfirst
    obtain ⟨next, hmem, hsame, -⟩ := hnext hold
    exact ⟨next, hmem, hsame.trans hkey⟩
  case origin =>
    intro x hx
    rcases hmem.mp hx with rfl | ⟨hx, -⟩
    · obtain ⟨first, hfirst, hfrom⟩ := hlog.origin row hrow
      exact ⟨first, hfirst, hfrom.key.trans hset.key.symm,
        hfrom.recipientEmail.trans hset.recipientEmail.symm, hfrom.sender.trans hset.sender.symm⟩
    · exact hlog.origin x hx
  case claimedRow =>
    intro claim hclaim
    obtain ⟨old, hold, hkey, hle⟩ := hlog.claimedRow claim hclaim
    obtain ⟨next, hmem, hsame, hmore⟩ := hnext hold
    exact ⟨next, hmem, hsame.trans hkey, hle.trans hmore⟩
  case holder =>
    intro x hx token htoken
    rcases hmem.mp hx with rfl | ⟨hx, -⟩
    · rw [hset.leaseToken] at htoken
      cases htoken
    · exact hlog.holder x hx token htoken
  case recordedRow =>
    intro key attempt status hrecorded
    obtain ⟨old, hold, hkey, hle⟩ := hlog.recordedRow key attempt status hrecorded
    obtain ⟨next, hmem, hsame, hmore⟩ := hnext hold
    exact ⟨next, hmem, hsame.trans hkey, hle.trans hmore⟩
  case cleared =>
    intro x hx horderly claim hclaim hkey hlate
    rcases hmem.mp hx with rfl | ⟨hx, -⟩
    · rw [hset.key] at horderly hkey ⊢
      rw [hset.attempts, hset.status] at hlate
      have hle := hl.attempt_le hrow (by simpa using hclaim) hkey
      by_cases hlast : claim.attempt < row.attempts
      · exact hlog.cleared row hrow horderly claim hclaim hkey (.inl hlast)
      · have heq : claim.attempt = row.attempts := by omega
        rw [heq, hlate.resolve_left (by omega)]
        exact List.mem_append_right _ List.mem_cons_self
    · exact hlog.cleared x hx horderly claim hclaim hkey hlate

/-! ### Claims -/

theorem Delivery.claimable_iff {now : Time} : row.claimable now = true ↔
    (row.status = .pending ∨ row.status = .retry) ∧ row.nextAttemptAt ≤ now ∧
      (row.leaseUntil = 0 ∨ row.leaseUntil < now) ∧ row.attempts < maxAttempts := by
  simp [Delivery.claimable, and_assoc]

/-- A row that an orderly claim takes was free, so that RETRY had been recorded for its last
attempt, if it had one. -/
theorem Ledger.cleared_claimable (hl : Ledger s h) {i token : ℕ} (hrow : row ∈ s.deliveries)
    (hstatus : row.status = .pending ∨ row.status = .retry)
    (horderly : Orderly row.key (h ++ [.claimed ⟨i, row, token⟩])) {claim : Claim}
    (hclaim : claim ∈ claims h) (hkey : claim.key = row.key) (hle : claim.attempt ≤ row.attempts) :
    .recorded row.key claim.attempt .retry ∈ h := by
  refine hl.cleared row hrow horderly.of_concat claim hclaim hkey ?_
  rcases hstatus with hpending | hretry
  · have hfree : row.leaseUntil = 0 := by
      have hnew := horderly ⟨i, row, token⟩
        (by rw [claims_concat]; exact List.mem_append_right _ List.mem_cons_self) rfl
      simpa [Claim.lapsed, hpending] using hnew
    have hnone := (hl.sound row hrow).first hpending hfree
    rw [Claim.attempt] at hle
    omega
  · exact .inr hretry

theorem Ledger.claimed (hl : Ledger s h) {now : Time} {i token : ℕ} (hrow : row ∈ s.deliveries)
    (hclaimable : row.claimable now = true) (hnow : 0 ≤ now) (hdrawn : (i, token) ∈ draws h)
    (htoken : ∀ other ∈ claims h, other.token ≠ token) :
    Ledger (s.update row.key (·.claimable now) (·.claimed now token))
      (h ++ [.claimed ⟨i, row, token⟩]) := by
  obtain ⟨hstatus, -, -, hattempts⟩ := Delivery.claimable_iff.mp hclaimable
  have hmem {x : Delivery} : x ∈ (s.update row.key (·.claimable now)
      (·.claimed now token)).deliveries ↔ x = row.claimed now token ∨
        (x ∈ s.deliveries ∧ x.key ≠ row.key) := by
    apply hl.mem_update hrow
    exact hclaimable
  have hnext {old : Delivery} (hold : old ∈ s.deliveries) :
      ∃ next ∈ (s.update row.key (·.claimable now) (·.claimed now token)).deliveries,
        next.key = old.key ∧ old.attempts ≤ next.attempts := by
    apply hl.row_update hrow hclaimable rfl (Nat.le_succ _) hold
  have hchronicle : Chronicle (h ++ [.claimed ⟨i, row, token⟩]) := by
    refine hl.toChronicle.claimed hdrawn htoken fun other hother heq => ?_
    obtain ⟨hkey, hattempt⟩ := Prod.mk.inj heq
    have hle := hl.attempt_le hrow hother hkey
    rw [hattempt] at hle
    exact absurd hle (Nat.not_succ_le_self _)
  constructor
  case toChronicle => exact hchronicle
  case unique => exact hl.unique_update fun _ => rfl
  case sound =>
    intro x hx
    rcases hmem.mp hx with rfl | ⟨hx, -⟩
    · refine ⟨fun _ => rfl, nofun, fun _ huntil => ?_, hattempts⟩
      have hpositive : (0 : ℤ) < now + 120000 := Int.add_pos_of_nonneg_of_pos hnow (by decide)
      exact absurd huntil hpositive.ne'
    · exact hl.sound x hx
  case drawnBelow =>
    intro draw hdraw
    exact hl.drawnBelow draw (by simpa using hdraw)
  case createdRow =>
    intro first hfirst
    obtain ⟨old, hold, hkey⟩ := hl.createdRow first (by simpa using hfirst)
    obtain ⟨next, hmem, hsame, -⟩ := hnext hold
    exact ⟨next, hmem, hsame.trans hkey⟩
  case origin =>
    intro x hx
    simp only [creations_concat, Event.created?, Option.toList_none, List.append_nil]
    rcases hmem.mp hx with rfl | ⟨hx, -⟩
    · obtain ⟨first, hfirst, hfrom⟩ := hl.origin row hrow
      exact ⟨first, hfirst, hfrom.key, hfrom.recipientEmail, hfrom.sender⟩
    · exact hl.origin x hx
  case claimedRow =>
    intro claim hclaim
    rw [claims_concat] at hclaim
    rcases List.mem_append.mp hclaim with hclaim | hclaim
    · obtain ⟨old, hold, hkey, hle⟩ := hl.claimedRow claim hclaim
      obtain ⟨next, hmem, hsame, hmore⟩ := hnext hold
      exact ⟨next, hmem, hsame.trans hkey, hle.trans hmore⟩
    · obtain rfl := List.mem_singleton.mp hclaim
      exact ⟨_, hmem.mpr (.inl rfl), rfl, Nat.le_refl _⟩
  case holder =>
    intro x hx token' htoken'
    rw [claims_concat]
    rcases hmem.mp hx with rfl | ⟨hx, -⟩
    · exact ⟨_, List.mem_append_right _ List.mem_cons_self, Option.some.inj htoken', rfl, rfl⟩
    · obtain ⟨claim, hclaim, hrest⟩ := hl.holder x hx token' htoken'
      exact ⟨claim, List.mem_append_left _ hclaim, hrest⟩
  case recordedRow =>
    intro key attempt status hrecorded
    obtain ⟨old, hold, hkey, hle⟩ := hl.recordedRow key attempt status (by simpa using hrecorded)
    obtain ⟨next, hmem, hsame, hmore⟩ := hnext hold
    exact ⟨next, hmem, hsame.trans hkey, hle.trans hmore⟩
  case cleared =>
    intro x hx horderly claim hclaim hkey hlate
    rw [claims_concat] at hclaim
    rcases hmem.mp hx with rfl | ⟨hx, hother⟩
    · have hlate : claim.attempt < row.attempts + 1 := hlate.resolve_right nofun
      rcases List.mem_append.mp hclaim with hclaim | hclaim
      · exact List.mem_append_left _
          (hl.cleared_claimable hrow hstatus horderly hclaim hkey (Nat.le_of_lt_succ hlate))
      · obtain rfl := List.mem_singleton.mp hclaim
        exact absurd hlate (Nat.lt_irrefl _)
    · rcases List.mem_append.mp hclaim with hclaim | hclaim
      · exact List.mem_append_left _ (hl.cleared x hx horderly.of_concat claim hclaim hkey hlate)
      · obtain rfl := List.mem_singleton.mp hclaim
        exact absurd hkey.symm hother

/-! ### Sends -/

/-- An attempt that has not been recorded is the last one of an orderly key, and every earlier
one was recorded as RETRY. -/
theorem Ledger.earlier_recorded (hl : Ledger s h) {claim : Claim} (hclaim : claim ∈ claims h)
    (hnew : (claim.key, claim.attempt) ∉ sends h)
    (hunrecorded : .recorded claim.key claim.attempt .retry ∉ h) (horderly : Orderly claim.key h)
    (earlier : ℕ) (mail : Mail) (hsent : .sent claim.key earlier mail ∈ h) :
    .recorded claim.key earlier .retry ∈ h := by
  obtain ⟨row, hrow, hkey, hle⟩ := hl.claimedRow claim hclaim
  have hlast : claim.attempt = row.attempts := by
    by_contra hne
    rw [← hkey] at horderly hunrecorded
    exact hunrecorded (hl.cleared row hrow horderly claim hclaim hkey.symm (.inl (by omega)))
  obtain ⟨other, hother, heq⟩ := hl.sentClaimed _ (mem_sends.mpr ⟨mail, hsent⟩)
  obtain ⟨hotherKey, rfl⟩ := Prod.mk.inj heq
  have hotherLe := hl.attempt_le hrow hother (hotherKey.trans hkey.symm)
  have hne : other.attempt ≠ claim.attempt := by
    intro hsame
    exact hnew (mem_sends.mpr ⟨mail, hsame ▸ hsent⟩)
  rw [← hkey] at horderly ⊢
  exact hl.cleared row hrow horderly other hother (hotherKey.trans hkey.symm) (.inl (by omega))

end Ashbi.Emails
