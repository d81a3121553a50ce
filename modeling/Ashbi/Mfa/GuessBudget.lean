import Mathlib.Tactic.Linarith
import Ashbi.Mfa.SingleUse

/-! How many wrong codes are evaluated before the account locks. -/

namespace Ashbi.Mfa

open Interleaving

/-! ### Evaluated codes and locks -/

/-- The request time of a reservation. -/
def Stmt.reserves {β : Type} : Stmt β → Option Time
  | .reserveAttempt nowMs => some nowMs
  | _ => none

/-- The request time of a code that is evaluated: a granted attempt is evaluated at once. -/
def Stmt.evaluates {β : Type} (st : Stmt β) (u : User) : Option Time :=
  match st with
  | .reserveAttempt nowMs =>
    if u.unlocked nowMs && u.mfaFailedAttempts + 1 ≤ maxFailedAttempts then some nowMs else none
  | _ => none

/-- The request time of a lock that takes effect. -/
def Stmt.locks {β : Type} (st : Stmt β) (u : User) : Option Time :=
  match st with
  | .lockAccount nowMs => if u.unlocked nowMs then some nowMs else none
  | _ => none

/-- The statement accepts a code. -/
def Stmt.accepts {β : Type} (st : Stmt β) (u : User) : Bool :=
  (Stmt.claims st u).isSome || (Stmt.consumes st u).isSome

/-- The statement clears the counter after an accepted code. -/
def Stmt.clears {β : Type} : Stmt β → Bool
  | .resetAttempts | .enable _ => true
  | _ => false

def reservedAt (o : Occurrence machine) : Option Time := Stmt.reserves o.stmt

def evaluatedAt (o : Occurrence machine) : Option Time := Stmt.evaluates o.stmt o.pre

def lockedAt (o : Occurrence machine) : Option Time := Stmt.locks o.stmt o.pre

def inWindow (a b t : Time) : Bool := a ≤ t && t ≤ b

theorem inWindow_iff {a b t : Time} : inWindow a b t = true ↔ a ≤ t ∧ t ≤ b := by
  simp [inWindow]

/-- The evaluated codes of a window of request times. -/
def evaluatedWithin (tr : List (Occurrence machine)) (a b : Time) : ℕ :=
  (tr.filterMap evaluatedAt).countP (inWindow a b)

/-- The codes that have been evaluated since the last lock. -/
def sinceLock (since : List Time) (o : Occurrence machine) : List Time :=
  if (lockedAt o).isSome then [] else since ++ (evaluatedAt o).toList

/-- Every lock that takes effect belongs to a request that is no older than the codes
that have been evaluated since the lock before it. -/
def locksCover (since : List Time) : List (Occurrence machine) → Bool
  | [] => true
  | o :: rest =>
    (lockedAt o).all (fun t => since.all (· ≤ t)) && locksCover (sinceLock since o) rest

/-! ### The budget of one lock period -/

/-- The codes of earlier lock periods and of the current one, against the account. -/
structure Guessed (past since : List Time) (u : User) : Prop where
  counted : since.length ≤ u.mfaFailedAttempts
  limited : since.length ≤ maxFailedAttempts
  after : ∀ t ∈ since, u.unlocked t = true
  before : ∀ t ∈ past, ∃ unlocksAt, u.mfaLockedUntil = some unlocksAt ∧ t + lockoutMs ≤ unlocksAt
  window : ∀ a b, b - a < lockoutMs → past.countP (inWindow a b) ≤ maxFailedAttempts

/-- A window shorter than the lockout does not reach into two lock periods. -/
theorem Guessed.within {past since : List Time} {u : User} (h : Guessed past since u) {a b : Time}
    (hab : b - a < lockoutMs) :
    (past ++ since).countP (inWindow a b) ≤ maxFailedAttempts := by
  rw [List.countP_append]
  by_cases hs : ∃ t ∈ since, inWindow a b t = true
  · obtain ⟨t, ht, hin⟩ := hs
    obtain ⟨-, htb⟩ := inWindow_iff.mp hin
    have hnone : past.countP (inWindow a b) = 0 := by
      rw [List.countP_eq_zero]
      intro p hp hpin
      obtain ⟨hap, -⟩ := inWindow_iff.mp hpin
      obtain ⟨unlocksAt, hu, hle⟩ := h.before p hp
      have hunlocked : unlocksAt ≤ t := by simpa [User.unlocked, hu] using h.after t ht
      linarith
    have hcount := List.countP_le_length (p := inWindow a b) (l := since)
    have hlimited := h.limited
    omega
  · have hnone : since.countP (inWindow a b) = 0 := by
      rw [List.countP_eq_zero]
      exact fun t ht hin => hs ⟨t, ht, hin⟩
    have hwindow := h.window a b hab
    omega

/-- A granted attempt is one more code of the current period. -/
theorem Guessed.evaluate {past since : List Time} {u : User} (h : Guessed past since u) {t : Time}
    (ht : u.unlocked t = true) (hcount : u.mfaFailedAttempts + 1 ≤ maxFailedAttempts) :
    Guessed past (since ++ [t]) { u with mfaFailedAttempts := u.mfaFailedAttempts + 1 } where
  counted := by
    have hc := h.counted
    simp only [List.length_append, List.length_singleton]
    omega
  limited := by
    have hc := h.counted
    simp only [List.length_append, List.length_singleton]
    omega
  after := List.forall_mem_append.mpr ⟨h.after, List.forall_mem_singleton.mpr ht⟩
  before := h.before
  window := h.window

/-- A lock starts the next period, one lockout after every code before it. -/
theorem Guessed.lock {past since : List Time} {u : User} (h : Guessed past since u) {t : Time}
    (ht : u.unlocked t = true) (hcover : ∀ s ∈ since, s ≤ t) :
    Guessed (past ++ since) []
      { u with mfaFailedAttempts := 0, mfaLockedUntil := some (t + lockoutMs) } where
  counted := Nat.zero_le _
  limited := Nat.zero_le _
  after := by simp
  before := by
    intro s hs
    refine ⟨t + lockoutMs, rfl, ?_⟩
    rcases List.mem_append.mp hs with hp | hs
    · obtain ⟨unlocksAt, hu, hle⟩ := h.before s hp
      have hunlocked : unlocksAt ≤ t := by simpa [User.unlocked, hu] using ht
      have hpos : 0 ≤ lockoutMs := by decide
      linarith
    · have hle := hcover s hs
      linarith
  window := fun _ _ hab => h.within hab

/-- What one statement that accepts nothing does to the counted codes. -/
theorem Guessed.step {past since : List Time} {o : Occurrence machine}
    (h : Guessed past since o.pre) (haccept : Stmt.accepts o.stmt o.pre = false)
    (hclear : Stmt.clears o.stmt = false)
    (hcover : (lockedAt o).all (fun t => since.all (· ≤ t)) = true) :
    ∃ past', past' ++ sinceLock since o = past ++ since ++ (evaluatedAt o).toList ∧
      Guessed past' (sinceLock since o) o.post := by
  obtain ⟨i, st, ch, u⟩ := o
  simp only [Stmt.accepts, Bool.or_eq_false_iff, Option.isSome_eq_false_iff,
    Option.isNone_iff_eq_none]
    at haccept
  obtain ⟨hclaims, hconsumes⟩ := haccept
  have same : ∀ hpost : exec st ch u = ((exec st ch u).1, u), lockedAt ⟨i, st, ch, u⟩ = none →
      evaluatedAt ⟨i, st, ch, u⟩ = none → ∃ past', past' ++ sinceLock since ⟨i, st, ch, u⟩ =
        past ++ since ++ (evaluatedAt ⟨i, st, ch, u⟩).toList ∧
        Guessed past' (sinceLock since ⟨i, st, ch, u⟩) (exec st ch u).2 := by
    intro hpost hlock heval
    refine ⟨past, ?_, ?_⟩
    · simp [sinceLock, hlock, heval]
    · rw [hpost]
      simpa [sinceLock, hlock, heval] using h
  cases st with
  | now => exact same rfl rfl rfl
  | findUser => exact same rfl rfl rfl
  | newRecoveryCodes => exact same rfl rfl rfl
  | reserveAttempt nowMs =>
    by_cases hu : u.unlocked nowMs = true
    · by_cases hc : u.mfaFailedAttempts + 1 ≤ maxFailedAttempts
      · refine ⟨past, ?_, ?_⟩
        · simp [sinceLock, lockedAt, evaluatedAt, Stmt.locks, Stmt.evaluates, hu, hc]
        · have hnext := h.evaluate hu hc
          simpa [sinceLock, lockedAt, evaluatedAt, Stmt.locks, Stmt.evaluates, hu, hc,
            Occurrence.post, exec] using hnext
      · refine ⟨past, ?_, ?_⟩
        · simp [sinceLock, lockedAt, evaluatedAt, Stmt.locks, Stmt.evaluates, hc]
        · have hnext : Guessed past since
              { u with mfaFailedAttempts := u.mfaFailedAttempts + 1 } :=
            ⟨Nat.le_succ_of_le h.counted, h.limited, h.after, h.before, h.window⟩
          simpa [sinceLock, lockedAt, evaluatedAt, Stmt.locks, Stmt.evaluates, hc,
            Occurrence.post, exec, hu] using hnext
    · exact same (by simp [exec, hu]) rfl (by simp [evaluatedAt, Stmt.evaluates, hu])
  | lockAccount nowMs =>
    by_cases hu : u.unlocked nowMs = true
    · have hall : ∀ s ∈ since, s ≤ nowMs := by
        simpa [lockedAt, Stmt.locks, hu] using hcover
      refine ⟨past ++ since, ?_, ?_⟩
      · simp [sinceLock, lockedAt, evaluatedAt, Stmt.locks, Stmt.evaluates, hu]
      · have hnext := h.lock hu hall
        simpa [sinceLock, lockedAt, Stmt.locks, hu, Occurrence.post, exec] using hnext
    · exact same (by simp [exec, hu]) (by simp [lockedAt, Stmt.locks, hu]) rfl
  | claimStep step =>
    have hnew : ¬ u.newer step = true := fun hn => by simp [Stmt.claims, hn] at hclaims
    exact same (by simp [exec, hnew]) rfl rfl
  | consumeCode sessionVersion hash remaining =>
    have hno : ¬ (u.sessionVersion = sessionVersion && u.mfaRecoveryCodes.contains hash) = true :=
      fun hn => by simp only [Stmt.consumes, hn, ↓reduceIte, reduceCtorEq] at hconsumes
    exact same (by simp only [exec, hno]; rfl) rfl rfl
  | resetAttempts => cases hclear
  | enable hashes => cases hclear

/-- Along a chain of statements that accept nothing, while every lock covers its period. -/
theorem Guessed.chain {past since : List Time} {u v : User} {tr : List (Occurrence machine)}
    (h : Guessed past since u) (hchain : Chained (M := machine) u tr v)
    (haccept : ∀ o ∈ tr, Stmt.accepts o.stmt o.pre = false)
    (hclear : ∀ o ∈ tr, Stmt.clears o.stmt = false) (hcover : locksCover since tr = true) :
    ∃ past' since', past' ++ since' = past ++ since ++ tr.filterMap evaluatedAt ∧
      Guessed past' since' v := by
  induction tr generalizing past since u with
  | nil =>
    obtain rfl := hchain
    exact ⟨past, since, by simp, h⟩
  | cons o rest ih =>
    obtain ⟨rfl, hrest⟩ := hchain
    simp only [locksCover, Bool.and_eq_true] at hcover
    simp only [List.forall_mem_cons] at haccept hclear
    obtain ⟨past₁, heq₁, h₁⟩ := h.step haccept.1 hclear.1 hcover.1
    obtain ⟨past₂, since₂, heq₂, h₂⟩ := ih h₁ hrest haccept.2 hclear.2 hcover.2
    refine ⟨past₂, since₂, ?_, h₂⟩
    rw [heq₂, heq₁, List.filterMap_cons]
    cases evaluatedAt o <;> simp

/-- The requests that submit a code, each with a reservation. -/
inductive Guesser (crypto : Crypto) : Prog Stmt Unit → Prop
  | verify (factor) : Guesser crypto ((verifyRequest crypto factor).bind fun _ => .ret ())
  | confirm (code) : Guesser crypto ((confirmRequest crypto code).bind fun _ => .ret ())

/-! ### The requests clear the counter only after an accepted code -/

/-- In runs that accept nothing, nothing is cleared. -/
def guessing : Contract machine where
  inv := fun _ => True
  rely := fun _ _ _ => True
  assumed := fun o => Stmt.accepts o.stmt o.pre = false
  guar := fun o => Stmt.clears o.stmt = false
  refl := fun _ _ => trivial
  trans := fun _ _ _ _ _ _ => trivial

section Programs

variable {α β : Type} {i : ℕ} {Q : α → User → Prop} {s : User} {crypto : Crypto}

theorem guess_call {st : Stmt β} {next : β → Prog Stmt α} (hst : Stmt.clears st = false)
    (hn : ∀ b t, (next b).Safe guessing i Q t) : (Prog.call st next).Safe guessing i Q s :=
  fun _ _ _ _ _ _ => ⟨⟨hst, trivial, fun _ _ => trivial⟩, hn _ _⟩

theorem reserveCodeAttempt_guess (nowMs : Time) :
    (reserveCodeAttempt nowMs).Safe guessing i (fun _ _ => True) s := by
  apply guess_call rfl
  intro reserved t
  cases reserved with
  | none => trivial
  | some attempt =>
    simp only [Prog.ret_bind]
    split
    · exact guess_call rfl fun _ _ => trivial
    · trivial

theorem fail_guess (attempt : ℕ) (nowMs : Time) (reason : FailReason) :
    (fail attempt nowMs reason).Safe guessing i (fun _ _ => True) s := by
  unfold fail
  split
  · exact guess_call rfl fun _ _ => trivial
  · trivial

/-- A step that is not accepted was not claimed. -/
theorem claimTotpCode_guess (user : User) (code : String) (nowMs : Time) :
    (claimTotpCode crypto user code nowMs).Safe guessing i (fun claim _ => claim ≠ .ok) s := by
  unfold claimTotpCode
  split
  · exact fun h => by cases h
  split
  · exact fun h => by cases h
  split
  · exact fun h => by cases h
  rename_i step _
  intro t ch _ _ _ ha
  refine ⟨⟨rfl, trivial, fun _ _ => trivial⟩, ?_⟩
  have hnew : ¬ t.newer step = true :=
    fun hn => by simp [guessing, Stmt.accepts, Stmt.claims, hn] at ha
  simp only [Prog.ret_bind, exec, hnew, Bool.false_eq_true, ↓reduceIte, zero_ne_one]
  exact fun h => by cases h

theorem verifyRecoveryCode_guess (user : User) (recoveryCode : String) (attempt : ℕ)
    (nowMs : Time) : (verifyRecoveryCode crypto user recoveryCode attempt nowMs).Safe guessing i
      (fun _ _ => True) s := by
  unfold verifyRecoveryCode
  split
  · exact fail_guess _ _ _
  apply guess_call rfl
  intro count t
  simp only [Prog.ret_bind]
  split
  · trivial
  · exact fail_guess _ _ _

theorem verifyCode_guess (user : User) (code : String) (attempt : ℕ) (nowMs : Time) :
    (verifyCode crypto user code attempt nowMs).Safe guessing i (fun _ _ => True) s := by
  apply Prog.Safe.bind
  apply (claimTotpCode_guess user code nowMs).mono
  intro claim t hclaim
  cases claim with
  | ok => exact absurd rfl hclaim
  | invalid => exact fail_guess _ _ _
  | replayed => exact fail_guess _ _ _
  | thrown => trivial

theorem verifySecondFactor_guess (user : User) (factor : Factor) (nowMs : Time) :
    (verifySecondFactor crypto user factor nowMs).Safe guessing i (fun _ _ => True) s := by
  apply Prog.Safe.bind
  apply (reserveCodeAttempt_guess nowMs).mono
  intro reserved t _
  cases reserved with
  | none => trivial
  | some attempt =>
    dsimp only
    split
    · exact verifyRecoveryCode_guess _ _ _ _
    · exact verifyCode_guess _ _ _ _
    · exact fail_guess _ _ _

theorem confirmRequest_guess (code : String) :
    (confirmRequest crypto code).Safe guessing i (fun _ _ => True) s := by
  apply guess_call rfl
  intro user t
  simp only [Prog.ret_bind]
  split
  · trivial
  apply guess_call rfl
  intro reservedAt t
  simp only [Prog.ret_bind]
  apply Prog.Safe.bind
  apply (reserveCodeAttempt_guess reservedAt).mono
  intro reserved t _
  cases reserved with
  | none => trivial
  | some attempt =>
    apply guess_call rfl
    intro claimedAt t
    simp only [Prog.ret_bind]
    apply Prog.Safe.bind
    apply (claimTotpCode_guess user code claimedAt).mono
    intro claim t hclaim
    cases claim with
    | ok => exact absurd rfl hclaim
    | thrown => trivial
    | invalid =>
      apply Prog.Safe.bind
      exact (fail_guess _ _ _).mono fun _ _ _ => trivial
    | replayed =>
      apply Prog.Safe.bind
      exact (fail_guess _ _ _).mono fun _ _ _ => trivial

theorem Guesser.safe {p : Prog Stmt Unit} (h : Guesser crypto p) :
    p.Safe guessing i (fun _ _ => True) s := by
  cases h with
  | verify factor =>
    apply Prog.Safe.bind
    apply guess_call rfl
    intro user t
    apply guess_call rfl
    intro nowMs t
    exact (verifySecondFactor_guess _ _ _).mono fun _ _ _ => trivial
  | confirm code =>
    apply Prog.Safe.bind
    exact (confirmRequest_guess code).mono fun _ _ _ => trivial

end Programs

/-- While no code is accepted and every lock covers the codes of its period, less than a
lockout contains at most the permitted number of evaluated codes; and a locked account
counts and evaluates nothing. -/
theorem guess_budget {crypto : Crypto} {s₀ : User} {tr : List (Occurrence machine)}
    {c : Config machine} (h : Run (Guesser crypto) s₀ tr c)
    (hnone : ∀ o ∈ tr, Stmt.accepts o.stmt o.pre = false) (hcover : locksCover [] tr = true) :
    (∀ a b, b - a < lockoutMs → evaluatedWithin tr a b ≤ maxFailedAttempts) ∧
    ∀ o ∈ tr, ∀ t, reservedAt o = some t → o.pre.unlocked t = false →
      evaluatedAt o = none ∧ o.post = o.pre := by
  obtain ⟨-, hkeeps⟩ := h.holds (K := guessing) (fun p hp i s _ _ => hp.safe) trivial
    (fun _ => trivial) hnone
  have hstart : Guessed [] [] s₀ :=
    ⟨Nat.zero_le _, Nat.zero_le _, by simp, by simp, fun _ _ _ => Nat.zero_le _⟩
  obtain ⟨past, since, heq, hguessed⟩ := hstart.chain h.chained hnone
    (fun o ho => (hkeeps o ho).2.guar) hcover
  refine ⟨fun a b hab => ?_, ?_⟩
  · have hwithin := hguessed.within hab
    rw [heq] at hwithin
    simpa [evaluatedWithin] using hwithin
  · rintro ⟨i, st, ch, u⟩ - t hr hlocked
    cases st with
    | reserveAttempt nowMs =>
      cases hr
      simp [evaluatedAt, Stmt.evaluates, Occurrence.post, exec, hlocked]
    | _ => cases hr

/-! ### Samples -/

def sampleWrong : Factor := ⟨some "999999", none⟩

def sampleGuessers (n : ℕ) : List (Prog Stmt Unit) := samplePrograms (List.replicate n sampleWrong)

theorem sampleGuessers_guesser {n : ℕ} : ∀ p ∈ sampleGuessers n, Guesser sampleCrypto p := by
  intro p hp
  obtain ⟨factor, -, rfl⟩ := List.mem_map.mp hp
  exact .verify factor

/-- Thread `i` reads the account and its clock and reserves an attempt. -/
def sampleAttempt (i : ℕ) (now : Time) : List (ℕ × Choice) :=
  List.replicate 3 (i, sampleChoice now)

/-- The fifth wrong code locks the account, and a sixth is refused a minute later. -/
theorem guess_budget_sample : ∃ (tr : List (Occurrence machine)) (c : Config machine),
    Run (Guesser sampleCrypto) sampleUser tr c ∧ c.state.mfaLockedUntil = some lockoutMs ∧
    (∀ a b, b - a < lockoutMs → evaluatedWithin tr a b ≤ maxFailedAttempts) ∧
    ∀ o ∈ tr, ∀ t, reservedAt o = some t → o.pre.unlocked t = false →
      evaluatedAt o = none ∧ o.post = o.pre := by
  have hrun : Run (M := machine) (Guesser sampleCrypto) sampleUser _ _ :=
    Run.of_schedule (M := machine) (sampleGuessers 6) sampleGuessers_guesser
      ((List.range 5).flatMap (sampleAttempt · 0) ++ [(4, sampleChoice 0)] ++ sampleAttempt 5 60000)
  have hbudget := guess_budget hrun (by decide +kernel) (by decide +kernel)
  exact ⟨_, _, hrun, by decide +kernel, hbudget⟩

/-- Two requests lock late: the second one carries the time at which the first lock ends, and
clears a counter to which a later request has already added. Six codes are then evaluated
within two milliseconds. -/
theorem guess_budget_late_lock : ∃ (tr : List (Occurrence machine)) (c : Config machine),
    Run (Guesser sampleCrypto) sampleUser tr c ∧
    (∀ o ∈ tr, Stmt.accepts o.stmt o.pre = false) ∧
    (tr.filterMap reservedAt).Pairwise (· ≤ ·) ∧
    ∃ a b, b - a < lockoutMs ∧ maxFailedAttempts < evaluatedWithin tr a b := by
  have hrun : Run (M := machine) (Guesser sampleCrypto) sampleUser _ _ :=
    Run.of_schedule (M := machine) (sampleGuessers 12) sampleGuessers_guesser
      ((List.range 5).flatMap (sampleAttempt · 0) ++ sampleAttempt 5 900000 ++
        [(4, sampleChoice 900000)] ++ sampleAttempt 6 1799999 ++ [(5, sampleChoice 1799999)] ++
        [7, 8, 9, 10, 11].flatMap (sampleAttempt · 1800000))
  exact ⟨_, _, hrun, by decide +kernel, by decide +kernel, 1799999, 1800000, by decide +kernel,
    by decide +kernel⟩

end Ashbi.Mfa
