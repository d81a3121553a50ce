import Ashbi.Interleaving.Learned
import Ashbi.Mfa.SingleUse

/-! Enrollment of a second factor: the routes that write the secret of one account. -/

namespace Ashbi.Mfa.Enrollment

open Interleaving

/-! ### Statements -/

/-- What the routes of `mfa.routes.js` do beside the checks of codes; `permitted` is a check of a
password or an organization, and `newSecret` is `startEnrollment`. -/
inductive RouteStmt : Type → Type
  | permitted : RouteStmt Bool
  | newSecret : RouteStmt String
  | enroll (encryptedSecret : String) : RouteStmt Unit
  | clear : RouteStmt Unit

abbrev Stmt (β : Type) : Type := Mfa.Stmt β ⊕ RouteStmt β

structure Choice extends Mfa.Choice where
  secret : String
  permitted : Bool

def RouteStmt.exec {β : Type} (st : RouteStmt β) (ch : Choice) (u : User) : β × User :=
  match st with
  | .permitted => (ch.permitted, u)
  | .newSecret => (ch.secret, u)
  | .enroll encryptedSecret =>
    ((), { u with
      mfaSecret := some encryptedSecret, mfaLastUsedStep := none, mfaRecoveryCodes := [] })
  | .clear =>
    ((), { u with
      mfaEnabled := false, mfaSecret := none, mfaLastUsedStep := none, mfaRecoveryCodes := []
      mfaFailedAttempts := 0, mfaLockedUntil := none, sessionVersion := u.sessionVersion + 1 })

def exec {β : Type} (st : Stmt β) (ch : Choice) (u : User) : β × User :=
  match st with
  | .inl st => Mfa.exec st ch.toChoice u
  | .inr st => st.exec ch u

abbrev machine : Machine where
  Stmt := Stmt
  Choice := Choice
  State := User
  enabled := fun _ _ _ => true
  exec := fun _ st ch u => exec st ch u

/-! ### Requests -/

/-- A program that only checks codes. -/
def ofFactor {α : Type} (p : Prog Mfa.Stmt α) : Prog Stmt α :=
  p.lift (T := Stmt) fun st => .inl st

/-- `POST /mfa/enroll`; the stored secret, unless the request is refused. -/
def enrollRequest : Prog Stmt (Option String) := do
  let user ← .stmt (.inl .findUser)
  if user.mfaEnabled then pure none
  else
    let permitted ← .stmt (.inr .permitted)
    if permitted then
      let encryptedSecret ← .stmt (.inr .newSecret)
      .stmt (.inr (.enroll encryptedSecret))
      pure (some encryptedSecret)
    else pure none

/-- `POST /mfa/confirm`. -/
def confirmRequest (crypto : Crypto) (code : String) : Prog Stmt (Option Result) :=
  ofFactor (Mfa.confirmRequest crypto code)

/-- `POST /mfa/disable`. -/
def disableRequest (crypto : Crypto) (factor : Factor) : Prog Stmt (Option Result) := do
  let user ← .stmt (.inl .findUser)
  if !user.mfaEnabled then pure none
  else
    let permitted ← .stmt (.inr .permitted)
    if permitted then
      let nowMs ← .stmt (.inl .now)
      let result ← ofFactor (verifySecondFactor crypto user factor nowMs)
      match result with
      | .ok .. =>
        .stmt (.inr .clear)
        pure (some result)
      | _ => pure (some result)
    else pure none

/-- `POST /mfa/admin/users/:userId/reset` on the account, by an administrator whose own account is
another. -/
def resetRequest : Prog Stmt Bool := do
  let _ ← .stmt (.inl .findUser)
  let permitted ← .stmt (.inr .permitted)
  if permitted then
    .stmt (.inr .clear)
    pure true
  else pure false

/-- The requests of one account; sign-in and step-up only verify a factor. -/
inductive Deployed (crypto : Crypto) : Prog Stmt Unit → Prop
  | enroll : Deployed crypto (enrollRequest.bind fun _ => .ret ())
  | confirm (code) : Deployed crypto ((confirmRequest crypto code).bind fun _ => .ret ())
  | disable (factor) : Deployed crypto ((disableRequest crypto factor).bind fun _ => .ret ())
  | reset : Deployed crypto (resetRequest.bind fun _ => .ret ())
  | verify (factor) :
      Deployed crypto ((ofFactor (verifyRequest crypto factor)).bind fun _ => .ret ())

/-! ### What a request knows -/

inductive Fact
  | read (user : User)
  | claimed (step : ℤ)
  deriving DecidableEq

def Fact.row : Fact → Option User
  | .read user => some user
  | .claimed _ => none

def learnFactor {β : Type} (st : Mfa.Stmt β) (answer : β) : List Fact :=
  match st with
  | .findUser => [.read answer]
  | .claimStep step => if answer = 1 then [.claimed step] else []
  | _ => []

def learn {β : Type} (st : Stmt β) (answer : β) : List Fact :=
  match st with
  | .inl st => learnFactor st answer
  | .inr _ => []

/-- A request that knows these has read the secret and claimed a code of it. -/
def Verified (crypto : Crypto) (facts : List Fact) (encryptedSecret : String) : Prop :=
  ∃ user step code nowMs secret, facts = [.read user, .claimed step] ∧
    user.mfaSecret = some encryptedSecret ∧ crypto.decrypt encryptedSecret = some secret ∧
    verifyTotp crypto secret code nowMs = some step

/-- An enabling write follows a verified code, and a consumed code leaves the list as read. -/
def needFactor (crypto : Crypto) {β : Type} (st : Mfa.Stmt β) (facts : List Fact) : Prop :=
  match st with
  | .enable _ => ∃ encryptedSecret, Verified crypto facts encryptedSecret
  | .consumeCode sessionVersion hash remaining => ∃ user, facts = [.read user] ∧
    sessionVersion = user.sessionVersion ∧ remaining = user.mfaRecoveryCodes.filter (· ≠ hash)
  | _ => True

def need (crypto : Crypto) {β : Type} (st : Stmt β) (facts : List Fact) : Prop :=
  match st with
  | .inl st => needFactor crypto st facts
  | .inr _ => True

section Programs

variable {crypto : Crypto} {facts : List Fact} {user : User}

theorem ofFactor_learned {α : Type} {p : Prog Mfa.Stmt α} {Q : α → List Fact → Prop}
    (h : p.Learned learnFactor (needFactor crypto) Q facts) :
    (ofFactor p).Learned learn (need crypto) Q facts :=
  Prog.Learned.lift (T := Stmt) (f := fun st => .inl st) h

theorem reserveCodeAttempt_learned (nowMs : Time) :
    (reserveCodeAttempt nowMs).Learned learnFactor (needFactor crypto)
    (fun _ known => known = facts)
      facts := by
  refine ⟨trivial, fun reserved => ?_⟩
  cases reserved with
  | none => exact List.append_nil facts
  | some attempt =>
    simp only [Prog.ret_bind]
    split
    · exact ⟨trivial, fun _ => by simp [Prog.Learned, learnFactor]⟩
    · exact List.append_nil facts

theorem fail_learned (attempt : ℕ) (nowMs : Time) (reason : FailReason) :
    (fail attempt nowMs reason).Learned learnFactor (needFactor crypto)
    (fun _ _ => True) facts := by
  unfold fail
  split
  · exact ⟨trivial, fun _ => trivial⟩
  · trivial

theorem claimTotpCode_learned (code : String) (nowMs : Time) :
    (claimTotpCode crypto user code nowMs).Learned learnFactor (needFactor crypto)
      (fun claim known => claim = .ok → ∃ encryptedSecret step secret,
        known = facts ++ [.claimed step] ∧ user.mfaSecret = some encryptedSecret ∧
        crypto.decrypt encryptedSecret = some secret ∧
        verifyTotp crypto secret code nowMs = some step) facts := by
  unfold claimTotpCode
  split
  · exact fun h => by cases h
  rename_i encryptedSecret hsecret
  split
  · exact fun h => by cases h
  rename_i secret hdecrypt
  split
  · exact fun h => by cases h
  rename_i step hstep
  refine ⟨trivial, fun count => ?_⟩
  have hstored : user.mfaSecret = some encryptedSecret := (Option.filter_eq_some_iff.mp hsecret).1
  simp only [Prog.ret_bind]
  split
  · rename_i hcount
    intro _
    exact ⟨encryptedSecret, step, secret, by simp [learnFactor, hcount], hstored, hdecrypt, hstep⟩
  · exact fun h => by cases h

theorem confirmRequest_learned (code : String) :
    (Mfa.confirmRequest crypto code).Learned learnFactor (needFactor crypto)
    (fun _ _ => True) [] := by
  refine ⟨trivial, fun user => ?_⟩
  change Prog.Learned learnFactor (needFactor crypto) _ _ [.read user]
  simp only [Prog.bind_def, Prog.ret_bind]
  split
  · trivial
  refine ⟨trivial, fun reservedAt => ?_⟩
  simp only [Prog.ret_bind]
  refine Prog.Learned.bind ((reserveCodeAttempt_learned reservedAt).mono
    fun reserved known hk => ?_)
  subst hk
  cases reserved with
  | none => trivial
  | some attempt =>
    refine ⟨trivial, fun claimedAt => ?_⟩
    simp only [Prog.ret_bind]
    refine Prog.Learned.bind ((claimTotpCode_learned code claimedAt).mono fun claim known hk => ?_)
    cases claim with
    | ok =>
      obtain ⟨encryptedSecret, step, secret, rfl, hstored, hdecrypt, hstep⟩ := hk rfl
      refine ⟨trivial, fun hashes => ⟨⟨encryptedSecret, ?_⟩, fun _ => trivial⟩⟩
      exact ⟨user, step, code, claimedAt, secret, by simp [learnFactor], hstored, hdecrypt, hstep⟩
    | invalid => exact Prog.Learned.bind ((fail_learned _ _ _).mono fun _ _ _ => trivial)
    | replayed => exact Prog.Learned.bind ((fail_learned _ _ _).mono fun _ _ _ => trivial)
    | thrown => trivial

theorem verifySecondFactor_learned (factor : Factor) (nowMs : Time) :
    (verifySecondFactor crypto user factor nowMs).Learned learnFactor (needFactor crypto)
      (fun _ _ => True) [.read user] := by
  refine Prog.Learned.bind ((reserveCodeAttempt_learned nowMs).mono fun reserved known hk => ?_)
  subst hk
  cases reserved with
  | none => trivial
  | some attempt =>
    dsimp only
    split
    · unfold verifyRecoveryCode
      split
      · exact fail_learned _ _ _
      · refine ⟨⟨user, rfl, rfl, rfl⟩, fun count => ?_⟩
        simp only [Prog.ret_bind]
        split
        · trivial
        · exact fail_learned _ _ _
    · refine Prog.Learned.bind ((claimTotpCode_learned _ nowMs).mono fun claim known _ => ?_)
      cases claim with
      | ok => exact ⟨trivial, fun _ => trivial⟩
      | invalid => exact fail_learned _ _ _
      | replayed => exact fail_learned _ _ _
      | thrown => trivial
    · exact fail_learned _ _ _

theorem Deployed.learned {p : Prog Stmt Unit} (h : Deployed crypto p) :
    p.Learned learn (need crypto) (fun _ _ => True) [] := by
  cases h with
  | enroll =>
    refine Prog.Learned.bind ⟨trivial, fun user => ?_⟩
    simp only [Prog.ret_bind]
    split
    · trivial
    refine ⟨trivial, fun permitted => ?_⟩
    simp only [Prog.ret_bind]
    split
    · exact ⟨trivial, fun _ => ⟨trivial, fun _ => trivial⟩⟩
    · trivial
  | confirm code =>
    refine Prog.Learned.bind (Prog.Learned.mono (Q := fun _ _ => True) ?_ fun _ _ _ => trivial)
    exact ofFactor_learned (confirmRequest_learned code)
  | disable factor =>
    refine Prog.Learned.bind ⟨trivial, fun user => ?_⟩
    simp only [Prog.ret_bind]
    split
    · trivial
    refine ⟨trivial, fun permitted => ?_⟩
    simp only [Prog.ret_bind]
    split
    · refine ⟨trivial, fun nowMs => ?_⟩
      have hverify := ofFactor_learned (@verifySecondFactor_learned crypto user factor nowMs)
      simp only [Prog.ret_bind]
      refine Prog.Learned.bind (hverify.mono fun result known _ => ?_)
      cases result with
      | ok => exact ⟨trivial, fun _ => trivial⟩
      | failed => trivial
      | thrown => trivial
    · trivial
  | reset =>
    refine Prog.Learned.bind ⟨trivial, fun user => ⟨trivial, fun permitted => ?_⟩⟩
    simp only [Prog.ret_bind]
    split
    · exact ⟨trivial, fun _ => trivial⟩
    · trivial
  | verify factor =>
    refine Prog.Learned.bind (Prog.Learned.mono (Q := fun _ _ => True) ?_ fun _ _ _ => trivial)
    refine ofFactor_learned ⟨trivial, fun user => ⟨trivial, fun nowMs => ?_⟩⟩
    exact verifySecondFactor_learned factor nowMs

end Programs

/-! ### Confirmed secrets -/

/-- The recovery codes that an enabling write stores. -/
def Stmt.hashes {β : Type} (st : Stmt β) : Option (List String) :=
  match st with
  | .inl (.enable hashes) => some hashes
  | _ => none

/-- The secret that an enrollment stores. -/
def Stmt.secret {β : Type} (st : Stmt β) : Option String :=
  match st with
  | .inr (.enroll encryptedSecret) => some encryptedSecret
  | _ => none

/-- The recovery code that the statement consumes. -/
def Stmt.consumes {β : Type} (st : Stmt β) (u : User) : Option String :=
  match st with
  | .inl st => Mfa.Stmt.consumes st u
  | .inr _ => none

def enabling (o : Occurrence machine) : Option (List String) := Stmt.hashes o.stmt

def enrolled (o : Occurrence machine) : Option String := Stmt.secret o.stmt

def accepted (o : Occurrence machine) : Option String := Stmt.consumes o.stmt o.pre

/-- What thread `i` has learned. -/
def knows (tr : List (Occurrence machine)) (i : ℕ) : List Fact :=
  marksOf (Occurrence.learned (M := machine) learn) tr i

/-- The last enabling request verified a code of the stored secret, and the stored recovery codes
are its own without those consumed since. -/
def Confirmed (crypto : Crypto) (tr : List (Occurrence machine)) (u : User) : Prop :=
  ∃ before o after hashes encryptedSecret, tr = before ++ o :: after ∧
    enabling o = some hashes ∧ (∀ o' ∈ after, enabling o' = none) ∧
    Verified crypto (knows before o.thread) encryptedSecret ∧
    u.mfaSecret = some encryptedSecret ∧
    u.mfaRecoveryCodes = hashes.filter (· ∉ after.filterMap accepted)

structure Sound (crypto : Crypto) (tr : List (Occurrence machine)) (u : User) : Prop where
  enabled : u.mfaEnabled = true → Confirmed crypto tr u
  disabled : u.mfaEnabled = false → u.mfaRecoveryCodes = []

/-- An enrollment finds the account not enabled, and an enabling write the secret that its request
has read. -/
def Fits (facts : List Fact) (o : Occurrence machine) : Prop :=
  ((enrolled o).isSome = true → o.pre.mfaEnabled = false) ∧
    ((enabling o).isSome = true → ∀ user ∈ facts.filterMap Fact.row,
      o.pre.mfaSecret = user.mfaSecret)

instance (facts : List Fact) (o : Occurrence machine) : Decidable (Fits facts o) :=
  inferInstanceAs (Decidable (_ ∧ _))

variable {crypto : Crypto} {s₀ u v : User} {tr : List (Occurrence machine)} {c : Config machine}

/-! ### Recovery codes -/

/-- Within a session version the recovery codes stay or go. -/
structure Since (u v : User) : Prop where
  version : u.sessionVersion ≤ v.sessionVersion
  codes : u.sessionVersion = v.sessionVersion →
    v.mfaRecoveryCodes = u.mfaRecoveryCodes ∨ v.mfaRecoveryCodes = []

theorem Since.refl (u : User) : Since u u := ⟨Nat.le_refl _, fun _ => .inl rfl⟩

theorem Since.trans {u v w : User} (huv : Since u v) (hvw : Since v w) : Since u w where
  version := huv.version.trans hvw.version
  codes h := by
    have hu := huv.version
    have hv := hvw.version
    rcases hvw.codes (by omega) with hw | hw
    · rw [hw]
      exact huv.codes (by omega)
    · exact .inr hw

theorem post_since (o : Occurrence machine) : Since o.pre o.post := by
  obtain ⟨i, st, ch, u⟩ := o
  match st with
  | .inl st =>
    have hlater := @exec_later _ ch.toChoice u st
    exact ⟨hlater.version, fun h => .inl (hlater.codes h).symm⟩
  | .inr .permitted => exact .refl u
  | .inr .newSecret => exact .refl u
  | .inr (.enroll encryptedSecret) => exact ⟨Nat.le_refl _, fun _ => .inr rfl⟩
  | .inr .clear => exact ⟨Nat.le_succ _, fun h => absurd h (Nat.ne_of_lt (Nat.lt_succ_self _))⟩

/-- A row that a thread has read was the stored one. -/
theorem stored_of_read {i : ℕ} {user : User} (hread : .read user ∈ knows tr i) :
    ∃ o ∈ tr, o.pre = user ∧ o.post = user := by
  obtain ⟨o, ho, -, hfact⟩ := mem_marksOf.mp hread
  refine ⟨o, ho, ?_⟩
  obtain ⟨i, st, ch, u⟩ := o
  match st with
  | .inl .findUser =>
    have hfact : Fact.read user ∈ [Fact.read u] := hfact
    obtain rfl := Fact.read.inj (List.mem_singleton.mp hfact)
    exact ⟨rfl, rfl⟩
  | .inl (.claimStep step) =>
    simp only [Occurrence.learned, learn, learnFactor] at hfact
    split at hfact <;> simp at hfact
  | .inl .now | .inl .newRecoveryCodes | .inl (.reserveAttempt _) | .inl (.lockAccount _)
  | .inl (.consumeCode ..) | .inl .resetAttempts | .inl (.enable _) | .inr _ => cases hfact

theorem since_read (h : Run (Deployed crypto) s₀ tr c) {i : ℕ} {user : User}
    (hread : .read user ∈ knows tr i) : Since user c.state := by
  obtain ⟨o, ho, -, hpost⟩ := stored_of_read hread
  obtain ⟨-, hsince⟩ := h.preserves Since Since.refl (fun _ _ _ => Since.trans)
    fun o _ => post_since o
  exact hpost ▸ hsince o ho

/-- A consumed code leaves the stored list without it. -/
theorem consumed_post (h : Run (Deployed crypto) s₀ tr c) {o : Occurrence machine}
    (hpre : o.pre = c.state) (hneed : need crypto o.stmt (knows tr o.thread)) {hash : String}
    (ha : accepted o = some hash) :
    o.post.mfaRecoveryCodes = o.pre.mfaRecoveryCodes.filter (· ≠ hash) ∧
      o.post.mfaEnabled = o.pre.mfaEnabled ∧ o.post.mfaSecret = o.pre.mfaSecret ∧
      hash ∈ o.pre.mfaRecoveryCodes := by
  obtain ⟨i, st, ch, u⟩ := o
  obtain rfl : u = c.state := hpre
  match st with
  | .inl (.consumeCode sessionVersion hash' remaining) =>
    simp only [accepted, Stmt.consumes, Mfa.Stmt.consumes] at ha
    split at ha
    · rename_i hfound
      obtain rfl := Option.some.inj ha
      obtain ⟨user, hfacts, rfl, rfl⟩ := hneed
      have hread : Since user c.state :=
        since_read h (by rw [hfacts]; exact List.mem_singleton_self _)
      have hpost : Occurrence.post (M := machine) ⟨i, .inl (.consumeCode user.sessionVersion hash'
          (user.mfaRecoveryCodes.filter (· ≠ hash'))), ch, c.state⟩ = { c.state with
            mfaRecoveryCodes := user.mfaRecoveryCodes.filter (· ≠ hash')
            sessionVersion := c.state.sessionVersion + 1, mfaFailedAttempts := 0 } := by
        simp only [Occurrence.post, exec, Mfa.exec, hfound, if_true]
      simp only [Bool.and_eq_true, decide_eq_true_eq, List.contains_eq_mem] at hfound
      have hcodes : c.state.mfaRecoveryCodes = user.mfaRecoveryCodes := by
        rcases hread.codes hfound.1.symm with hsame | hnone
        · exact hsame
        · rw [hnone] at hfound
          cases hfound.2
      rw [hpost]
      exact ⟨by rw [hcodes], rfl, rfl, hfound.2⟩
    · cases ha
  | .inl .findUser | .inl (.claimStep _) | .inl .now | .inl .newRecoveryCodes
  | .inl (.reserveAttempt _) | .inl (.lockAccount _) | .inl .resetAttempts | .inl (.enable _)
  | .inr _ => cases ha

/-! ### Runs -/

/-- A statement that leaves the secret as it is, and of the recovery codes takes away the consumed
one. -/
theorem Sound.keep {o : Occurrence machine} (h : Sound crypto tr o.pre) (hno : enabling o = none)
    (henabled : o.post.mfaEnabled = o.pre.mfaEnabled) (hsecret : o.post.mfaSecret = o.pre.mfaSecret)
    (hcodes : o.post.mfaRecoveryCodes = o.pre.mfaRecoveryCodes.filter (· ∉ (accepted o).toList)) :
    Sound crypto (tr ++ [o]) o.post where
  enabled hon := by
    obtain ⟨before, first, after, hashes, encryptedSecret, rfl, hfirst, hafter, hverified, hstored,
      hleft⟩ := h.enabled (henabled ▸ hon)
    refine ⟨before, first, after ++ [o], hashes, encryptedSecret, by simp, hfirst, fun o' ho' => ?_,
      hverified, hsecret.trans hstored, ?_⟩
    · rcases List.mem_append.mp ho' with ho' | ho'
      · exact hafter o' ho'
      · exact List.mem_singleton.mp ho' ▸ hno
    · rw [hcodes, hleft, List.filter_filter, List.filterMap_append]
      refine List.filter_congr fun hash _ => ?_
      cases hconsumed : accepted o <;> simp [hconsumed, Bool.and_comm]
  disabled hoff := by
    rw [hcodes, h.disabled (henabled ▸ hoff), List.filter_nil]

theorem Sound.step (h : Run (Deployed crypto) s₀ tr c) {o : Occurrence machine}
    (hpre : o.pre = c.state) (hneed : need crypto o.stmt (knows tr o.thread))
    (hs : Sound crypto tr o.pre) (hfits : Fits (knows tr o.thread) o) :
    Sound crypto (tr ++ [o]) o.post := by
  cases haccepted : accepted o with
  | some hash =>
    obtain ⟨hcodes, henabled, hsecret, -⟩ := consumed_post h hpre hneed haccepted
    refine hs.keep ?_ henabled hsecret ?_
    · obtain ⟨i, st, ch, u⟩ := o
      match st with
      | .inl (.consumeCode ..) => rfl
      | .inl .findUser | .inl (.claimStep _) | .inl .now | .inl .newRecoveryCodes
      | .inl (.reserveAttempt _) | .inl (.lockAccount _) | .inl .resetAttempts | .inl (.enable _)
      | .inr _ => cases haccepted
    · rw [hcodes, haccepted]
      exact List.filter_congr fun _ _ => by simp
  | none =>
    have hkeep : o.post.mfaRecoveryCodes = o.pre.mfaRecoveryCodes → enabling o = none →
        o.post.mfaEnabled = o.pre.mfaEnabled → o.post.mfaSecret = o.pre.mfaSecret →
        Sound crypto (tr ++ [o]) o.post := by
      intro hcodes hno henabled hsecret
      refine hs.keep hno henabled hsecret ?_
      rw [hcodes, haccepted]
      simp
    obtain ⟨i, st, ch, u⟩ := o
    match st with
    | .inl (.enable hashes) =>
      obtain ⟨encryptedSecret, hverified⟩ := hneed
      refine ⟨fun _ => ⟨tr, _, [], hashes, encryptedSecret, rfl, rfl, by simp, hverified, ?_, ?_⟩,
        fun hoff => by cases hoff⟩
      · obtain ⟨user, step, code, nowMs, secret, hfacts, hstored, -⟩ := hverified
        have hread := hfits.2 rfl user (by simp [hfacts, Fact.row])
        exact hread.trans hstored
      · simp [Occurrence.post, exec, Mfa.exec]
    | .inl (.consumeCode sessionVersion hash remaining) =>
      have hpost : Occurrence.post (M := machine)
          ⟨i, .inl (.consumeCode sessionVersion hash remaining), ch, u⟩ = u := by
        simp only [accepted, Stmt.consumes, Mfa.Stmt.consumes] at haccepted
        split at haccepted
        · cases haccepted
        · rename_i hmiss
          simp only [Occurrence.post, exec, Mfa.exec, hmiss]
          rfl
      rw [hpost] at hkeep ⊢
      exact hkeep rfl rfl rfl rfl
    | .inr (.enroll encryptedSecret) =>
      exact ⟨fun hon => absurd (hon.symm.trans (hfits.1 rfl)) (by decide), fun _ => rfl⟩
    | .inr .clear => exact ⟨fun hon => (by cases hon), fun _ => rfl⟩
    | .inl (.reserveAttempt nowMs) =>
      refine hkeep ?_ rfl ?_ ?_ <;> simp only [Occurrence.post, exec, Mfa.exec] <;> split <;> rfl
    | .inl (.lockAccount nowMs) =>
      refine hkeep ?_ rfl ?_ ?_ <;> simp only [Occurrence.post, exec, Mfa.exec] <;> split <;> rfl
    | .inl (.claimStep step) =>
      refine hkeep ?_ rfl ?_ ?_ <;> simp only [Occurrence.post, exec, Mfa.exec] <;> split <;> rfl
    | .inl .findUser | .inl .now | .inl .newRecoveryCodes | .inl .resetAttempts | .inr .permitted
    | .inr .newSecret => exact hkeep rfl rfl rfl rfl

/-- No enrollment stores a secret that was stored before. -/
def Fresh (tr : List (Occurrence machine)) : Prop :=
  ∀ (k : ℕ) o, tr[k]? = some o → ∀ encryptedSecret, enrolled o = some encryptedSecret →
    ∀ o' ∈ tr.take k, o'.pre.mfaSecret ≠ some encryptedSecret

/-- What the last statement of a confirmed account was. -/
theorem Confirmed.last {o : Occurrence machine} (h : Confirmed crypto (tr ++ [o]) u) :
    ((enabling o).isSome = true → ∃ encryptedSecret,
        Verified crypto (knows tr o.thread) encryptedSecret ∧ u.mfaSecret = some encryptedSecret) ∧
      (enabling o = none → ∃ o' ∈ tr, o'.pre.mfaSecret = u.mfaSecret) := by
  obtain ⟨before, first, after, hashes, encryptedSecret, htr, hfirst, hafter, hverified, hstored,
    -⟩ := h
  rcases List.eq_nil_or_concat after with rfl | ⟨rest, last, rfl⟩
  · obtain ⟨rfl, hlast⟩ := List.append_inj' htr rfl
    obtain rfl := List.cons.inj hlast |>.1
    exact ⟨fun _ => ⟨encryptedSecret, hverified, hstored⟩, fun hno => by
      cases hno.symm.trans hfirst⟩
  · rw [List.concat_eq_append, ← List.cons_append, ← List.append_assoc] at htr
    obtain ⟨rfl, hlast⟩ := List.append_inj' htr rfl
    obtain rfl := List.cons.inj hlast |>.1
    refine ⟨fun hsome => ?_, fun _ => ?_⟩
    · rw [hafter o (by simp)] at hsome
      cases hsome
    · obtain ⟨user, step, code, nowMs, secret, hfacts, hread, -⟩ := hverified
      have hmem : Fact.read user ∈ knows before first.thread := by
        rw [hfacts]
        exact List.mem_cons_self
      obtain ⟨o', ho', hpre, -⟩ := stored_of_read hmem
      exact ⟨o', List.mem_append_left _ ho', by rw [hpre, hread, hstored]⟩

/-- A statement that leaves the account sound fits. -/
theorem Sound.fits {o : Occurrence machine} (h : Sound crypto (tr ++ [o]) o.post)
    (hfresh : ∀ encryptedSecret, enrolled o = some encryptedSecret →
      ∀ o' ∈ tr, o'.pre.mfaSecret ≠ some encryptedSecret) : Fits (knows tr o.thread) o := by
  constructor
  · intro henrolled
    rw [Bool.eq_false_iff]
    intro hon
    obtain ⟨i, st, ch, u⟩ := o
    match st with
    | .inr (.enroll encryptedSecret) =>
      obtain ⟨o', ho', hstored⟩ := (h.enabled hon).last.2 rfl
      exact hfresh encryptedSecret rfl o' ho' hstored
    | .inl _ | .inr .permitted | .inr .newSecret | .inr .clear => cases henrolled
  · intro henabling user huser
    have hon : o.post.mfaEnabled = true ∧ o.post.mfaSecret = o.pre.mfaSecret := by
      obtain ⟨i, st, ch, u⟩ := o
      match st with
      | .inl (.enable hashes) => exact ⟨rfl, rfl⟩
      | .inl .findUser | .inl (.claimStep _) | .inl .now | .inl .newRecoveryCodes
      | .inl (.reserveAttempt _) | .inl (.lockAccount _) | .inl .resetAttempts
      | .inl (.consumeCode ..) | .inr _ => cases henabling
    obtain ⟨encryptedSecret, ⟨read, step, code, nowMs, secret, hfacts, hread, -⟩, hstored⟩ :=
      (h.enabled hon.1).last.1 henabling
    rw [hfacts] at huser
    obtain rfl := List.mem_singleton.mp huser
    rw [← hon.2, hstored, hread]

/-- As long as enrollments find the account not enabled and enabling writes the secret that their
request has verified, the account is enabled only with a confirmed secret and its own recovery
codes, and has none while it is not; and with new secrets only then. -/
theorem confirmed_secret (h : Run (Deployed crypto) s₀ tr c) (hoff : s₀.mfaEnabled = false)
    (hcodes : s₀.mfaRecoveryCodes = []) :
    ((∀ (k : ℕ) o, tr[k]? = some o → Fits (knows (tr.take k) o.thread) o) →
        Sound crypto tr c.state ∧
          ∀ (k : ℕ) o, tr[k]? = some o → Sound crypto (tr.take k ++ [o]) o.post) ∧
      (Fresh tr → (∀ (k : ℕ) o, tr[k]? = some o → Sound crypto (tr.take k ++ [o]) o.post) →
        ∀ (k : ℕ) o, tr[k]? = some o → Fits (knows (tr.take k) o.thread) o) := by
  constructor
  · intro hfits
    refine h.along (Sound crypto) ⟨fun hon => ?_, fun _ => hcodes⟩
      fun k o ho c' hrun hstate _ hs => ?_
    · cases hoff.symm.trans hon
    · have hneed := h.learned (fun p hp => hp.learned) ho
      exact hs.step hrun hstate.symm hneed (hfits k o ho)
  · intro hfresh hsound k o ho
    exact (hsound k o ho).fits (hfresh k o ho)

/-! ### A sample account -/

def newUser : User :=
  { sampleUser with mfaEnabled := false, mfaSecret := none, mfaRecoveryCodes := [] }

def answers (secret : String) : Choice := { sampleChoice 300000 with
  hashes := ["hash"], secret := secret, permitted := true }

def enrollments (n : ℕ) : List (Prog Stmt Unit) :=
  List.replicate n (enrollRequest.bind fun _ => .ret ()) ++
    [(confirmRequest sampleCrypto "123456").bind fun _ => .ret ()]

theorem enrollments_deployed {n : ℕ} : ∀ p ∈ enrollments n, Deployed sampleCrypto p := by
  intro p hp
  rcases List.mem_append.mp hp with hp | hp
  · obtain rfl := List.eq_of_mem_replicate hp
    exact .enroll
  · obtain rfl := List.mem_singleton.mp hp
    exact .confirm "123456"

theorem fits_of_all (h : ∀ k : Fin tr.length, Fits (knows (tr.take k) tr[k].thread) tr[k]) :
    ∀ (k : ℕ) o, tr[k]? = some o → Fits (knows (tr.take k) o.thread) o := by
  intro k o ho
  obtain ⟨hlt, rfl⟩ := List.getElem?_eq_some_iff.mp ho
  exact h ⟨k, hlt⟩

/-- An enrollment and then its confirmation. -/
theorem confirmed_secret_sample : ∃ (tr : List (Occurrence machine)) (c : Config machine),
    Run (Deployed sampleCrypto) newUser tr c ∧ c.state.mfaEnabled = true ∧
      c.state.mfaSecret = some "A" ∧ Sound sampleCrypto tr c.state := by
  have hrun : Run (M := machine) (Deployed sampleCrypto) newUser _ _ := Run.of_schedule
    (enrollments 1) enrollments_deployed
    ((List.replicate 4 0 ++ List.replicate 7 1).map (⟨·, answers "A"⟩))
  exact ⟨_, _, hrun, by decide +kernel, by decide +kernel,
    ((confirmed_secret hrun rfl rfl).1 (fits_of_all (by decide +kernel))).1⟩

/-- An enrollment that was slower than another one and its confirmation. -/
theorem late_enrollment : ∃ (tr : List (Occurrence machine)) (c : Config machine),
    Run (Deployed sampleCrypto) newUser tr c ∧ ∃ (k : ℕ) (o : Occurrence machine),
      tr[k]? = some o ∧ o.post.mfaEnabled = true ∧ o.post.mfaSecret = some "A" ∧
        o.post.mfaRecoveryCodes = [] ∧ ¬ Sound sampleCrypto (tr.take k ++ [o]) o.post := by
  have hrun : Run (M := machine) (Deployed sampleCrypto) newUser _ _ := Run.of_schedule
    (enrollments 2) enrollments_deployed
    ((0 :: List.replicate 4 1 ++ List.replicate 7 2).map (⟨·, answers "B"⟩) ++
      (List.replicate 3 0).map (⟨·, answers "A"⟩))
  refine ⟨_, _, hrun, 14, _, rfl, rfl, rfl, rfl, fun hs => ?_⟩
  have hfits := hs.fits fun encryptedSecret henrolled => by
    obtain rfl := Option.some.inj henrolled
    decide +kernel
  exact absurd (hfits.1 rfl) (by decide)

end Ashbi.Mfa.Enrollment
