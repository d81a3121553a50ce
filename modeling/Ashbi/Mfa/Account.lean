import Ashbi.Interleaving.Program
import Ashbi.Js

/-! The second factor of one account: one-time passwords and recovery codes, its row, the
statements on it and the programs. -/

namespace Ashbi.Mfa

/-- `decrypt` of the credential vault (which may fail), `hotp` with six digits and
SHA-256 in hexadecimal. -/
structure Crypto where
  decrypt : String → Option String
  hotp : String → ℤ → String
  sha256 : String → String

/-- The RFC 6238 time step of a moment: 30-second steps. -/
def totpStep (timeMs : Time) : ℤ := timeMs / 30000

/-- The submitted digits, without white space; `none` unless there are exactly six. -/
def sixDigits (code : String) : Option String :=
  let submitted := code.toList.filter fun c => !Js.isSpace c
  if submitted.length = 6 && submitted.all fun c => '0' ≤ c && c ≤ '9' then
    some (String.ofList submitted)
  else none

/-- The first step within one of now whose code was submitted. -/
def verifyTotp (crypto : Crypto) (secret code : String) (timeMs : Time) : Option ℤ := do
  let submitted ← sixDigits code
  let current := totpStep timeMs
  [current - 1, current, current + 1].find? fun step =>
    0 ≤ step && crypto.hotp secret step = submitted

/-- One character of `toLowerCase().replace(/[^a-z0-9]/g, '')`; only two characters outside
ASCII have a lower case with a kept character. -/
def normalizeChar (c : Char) : Option Char :=
  if ('a' ≤ c && c ≤ 'z') || ('0' ≤ c && c ≤ '9') then some c
  else if 'A' ≤ c && c ≤ 'Z' then some c.toLower
  else if c = '\u212a' then some 'k'
  else if c = '\u0130' then some 'i'
  else none

def normalizeRecoveryCode (code : String) : String :=
  String.ofList (code.toList.filterMap normalizeChar)

def hashRecoveryCode (crypto : Crypto) (code : String) : String :=
  crypto.sha256 ("ashbi-mfa-recovery:" ++ normalizeRecoveryCode code)

/-- The stored hash of a code of four groups of four. -/
def findRecoveryCodeHash (crypto : Crypto) (storedHashes : List String) (code : String) :
    Option String :=
  let normalized := normalizeRecoveryCode code
  if normalized.length ≠ 16 then none
  else
    let submitted := hashRecoveryCode crypto normalized
    storedHashes.find? (· = submitted)

/-! ### The account -/

open Interleaving

structure User where
  sessionVersion : ℕ
  mfaEnabled : Bool
  mfaSecret : Option String
  mfaLastUsedStep : Option ℤ
  mfaRecoveryCodes : List String
  mfaFailedAttempts : ℕ
  mfaLockedUntil : Option Time
  deriving DecidableEq

/-- `MFA_MAX_FAILED_ATTEMPTS`. -/
def maxFailedAttempts : ℕ := 5

/-- `MFA_LOCKOUT_MS`. -/
def lockoutMs : ℤ := 15 * 60 * 1000

/-- The condition `mfaLockedUntil: null or lte nowMs`. -/
def User.unlocked (u : User) (nowMs : Time) : Bool := u.mfaLockedUntil.all (· ≤ nowMs)

/-- The condition `mfaLastUsedStep: null or lt step`. -/
def User.newer (u : User) (step : ℤ) : Bool := u.mfaLastUsedStep.all (· < step)

/-- The database statements; `findUser` is the read of the route before the call. -/
inductive Stmt : Type → Type
  | now : Stmt Time
  | findUser : Stmt User
  | newRecoveryCodes : Stmt (List String)
  | reserveAttempt (nowMs : Time) : Stmt (Option ℕ)
  | lockAccount (nowMs : Time) : Stmt Unit
  | claimStep (step : ℤ) : Stmt ℕ
  | consumeCode (sessionVersion : ℕ) (hash : String) (remaining : List String) : Stmt ℕ
  | resetAttempts : Stmt Unit
  | enable (hashes : List String) : Stmt Unit

structure Choice where
  time : Time
  hashes : List String

def exec {β : Type} (st : Stmt β) (ch : Choice) (u : User) : β × User :=
  match st with
  | .now => (ch.time, u)
  | .findUser => (u, u)
  | .newRecoveryCodes => (ch.hashes, u)
  | .reserveAttempt nowMs =>
    if u.unlocked nowMs then
      (some (u.mfaFailedAttempts + 1), { u with mfaFailedAttempts := u.mfaFailedAttempts + 1 })
    else (none, u)
  | .lockAccount nowMs =>
    if u.unlocked nowMs then
      ((), { u with mfaFailedAttempts := 0, mfaLockedUntil := some (nowMs + lockoutMs) })
    else ((), u)
  | .claimStep step =>
    if u.newer step then (1, { u with mfaLastUsedStep := some step }) else (0, u)
  | .consumeCode sessionVersion hash remaining =>
    if u.sessionVersion = sessionVersion && u.mfaRecoveryCodes.contains hash then
      (1, { u with
        mfaRecoveryCodes := remaining, sessionVersion := u.sessionVersion + 1
        mfaFailedAttempts := 0 })
    else (0, u)
  | .resetAttempts => ((), { u with mfaFailedAttempts := 0 })
  | .enable hashes =>
    ((), { u with
      mfaEnabled := true, mfaRecoveryCodes := hashes, mfaFailedAttempts := 0
      mfaLockedUntil := none, sessionVersion := u.sessionVersion + 1 })

abbrev machine : Machine where
  Stmt := Stmt
  Choice := Choice
  State := User
  enabled := fun _ _ _ => true
  exec := fun _ st ch u => exec st ch u

/-! ### Programs -/

inductive FailReason
  | locked | invalid | replayed
  deriving DecidableEq

/-- What a caller gets; `thrown` is a stored secret that cannot be decrypted. -/
inductive Result
  | ok (recoveryCodesRemaining sessionVersion : ℕ)
  | failed (reason : FailReason)
  | thrown
  deriving DecidableEq

/-- Reserves one attempt before a code is evaluated; `none` is a locked account. -/
def reserveCodeAttempt (nowMs : Time) : Prog Stmt (Option ℕ) := do
  match ← .stmt (.reserveAttempt nowMs) with
  | none => pure none
  | some attempt =>
    if maxFailedAttempts < attempt then
      .stmt (.lockAccount nowMs)
      pure none
    else pure (some attempt)

/-- The `fail` of a reservation: the last permitted attempt locks the account. -/
def fail (attempt : ℕ) (nowMs : Time) (reason : FailReason) : Prog Stmt Result :=
  if maxFailedAttempts ≤ attempt then do
    .stmt (.lockAccount nowMs)
    pure (.failed .locked)
  else pure (.failed reason)

inductive Claim
  | ok | invalid | replayed | thrown
  deriving DecidableEq

def claimTotpCode (crypto : Crypto) (user : User) (code : String) (nowMs : Time) :
    Prog Stmt Claim :=
  match Js.truthy user.mfaSecret with
  | none => pure .invalid
  | some encryptedSecret =>
    match crypto.decrypt encryptedSecret with
    | none => pure .thrown
    | some secret =>
      match verifyTotp crypto secret code nowMs with
      | none => pure .invalid
      | some step => do
        let count ← .stmt (.claimStep step)
        if count = 1 then pure .ok else pure .replayed

structure Factor where
  code : Option String
  recoveryCode : Option String

def verifyRecoveryCode (crypto : Crypto) (user : User) (recoveryCode : String) (attempt : ℕ)
    (nowMs : Time) : Prog Stmt Result :=
  match findRecoveryCodeHash crypto user.mfaRecoveryCodes recoveryCode with
  | none => fail attempt nowMs .invalid
  | some hash => do
    let remaining := user.mfaRecoveryCodes.filter (· ≠ hash)
    let count ← .stmt (.consumeCode user.sessionVersion hash remaining)
    if count = 1 then pure (.ok remaining.length (user.sessionVersion + 1))
    else fail attempt nowMs .invalid

def verifyCode (crypto : Crypto) (user : User) (code : String) (attempt : ℕ) (nowMs : Time) :
    Prog Stmt Result := do
  match ← claimTotpCode crypto user code nowMs with
  | .ok =>
    .stmt .resetAttempts
    pure (.ok user.mfaRecoveryCodes.length user.sessionVersion)
  | .invalid => fail attempt nowMs .invalid
  | .replayed => fail attempt nowMs .replayed
  | .thrown => pure .thrown

def verifySecondFactor (crypto : Crypto) (user : User) (factor : Factor) (nowMs : Time) :
    Prog Stmt Result := do
  match ← reserveCodeAttempt nowMs with
  | none => pure (.failed .locked)
  | some attempt =>
    match Js.truthy factor.recoveryCode, Js.truthy factor.code with
    | some recoveryCode, _ => verifyRecoveryCode crypto user recoveryCode attempt nowMs
    | none, some code => verifyCode crypto user code attempt nowMs
    | none, none => fail attempt nowMs .invalid

/-- A request that checks a second factor: sign-in, step-up, disable, admin reset. -/
def verifyRequest (crypto : Crypto) (factor : Factor) : Prog Stmt Result := do
  let user ← .stmt .findUser
  let nowMs ← .stmt .now
  verifySecondFactor crypto user factor nowMs

/-- A bare `claimTotpCode` of the user read before. -/
def claimRequest (crypto : Crypto) (code : String) : Prog Stmt Claim := do
  let user ← .stmt .findUser
  let nowMs ← .stmt .now
  claimTotpCode crypto user code nowMs

/-- `POST /mfa/confirm`; `none` is a request refused before a code is evaluated. -/
def confirmRequest (crypto : Crypto) (code : String) : Prog Stmt (Option Result) := do
  let user ← .stmt .findUser
  if user.mfaEnabled || (Js.truthy user.mfaSecret).isNone then pure none
  else
    let reservedAt ← .stmt .now
    match ← reserveCodeAttempt reservedAt with
    | none => pure (some (.failed .locked))
    | some attempt =>
      let claimedAt ← .stmt .now
      match ← claimTotpCode crypto user code claimedAt with
      | .ok =>
        let hashes ← .stmt .newRecoveryCodes
        .stmt (.enable hashes)
        pure (some (.ok hashes.length (user.sessionVersion + 1)))
      | .thrown => pure (some .thrown)
      | .invalid | .replayed =>
        let result ← fail attempt reservedAt .invalid
        pure (some result)

/-- The requests of one account; `enrolls` says whether an enrollment is confirmed. -/
inductive Deployed (crypto : Crypto) (enrolls : Prop) : Prog Stmt Unit → Prop
  | verify (factor) : Deployed crypto enrolls ((verifyRequest crypto factor).bind fun _ => .ret ())
  | claim (code) : Deployed crypto enrolls ((claimRequest crypto code).bind fun _ => .ret ())
  | confirm (h : enrolls) (code) :
      Deployed crypto enrolls ((confirmRequest crypto code).bind fun _ => .ret ())

/-! ### A sample account -/

def sampleCrypto : Crypto where
  decrypt := some
  hotp := fun _ step => if step = 10 then "123456" else "000000"
  sha256 := id

def sampleHash : String := hashRecoveryCode sampleCrypto "abcd-efgh-jkmn-pqrs"

def sampleUser : User where
  sessionVersion := 0
  mfaEnabled := true
  mfaSecret := some "secret"
  mfaLastUsedStep := none
  mfaRecoveryCodes := [sampleHash, "other"]
  mfaFailedAttempts := 0
  mfaLockedUntil := none

def sampleChoice (now : Time) : Choice := ⟨now, []⟩

def sampleRecovery : Factor := ⟨none, some "ABCD-EFGH-JKMN-PQRS"⟩

def sampleCode : Factor := ⟨some "123 456", none⟩

def samplePrograms (factors : List Factor) : List (Prog Stmt Unit) :=
  factors.map fun factor => (verifyRequest sampleCrypto factor).bind fun _ => .ret ()

theorem samplePrograms_deployed {factors : List Factor} {enrolls : Prop} :
    ∀ p ∈ samplePrograms factors, Deployed sampleCrypto enrolls p := by
  intro p hp
  obtain ⟨factor, -, rfl⟩ := List.mem_map.mp hp
  exact .verify factor

end Ashbi.Mfa
