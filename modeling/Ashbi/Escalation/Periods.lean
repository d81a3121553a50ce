import Ashbi.Escalation.Claims
import Ashbi.Interleaving.Budget

/-! What each statement does to a thread, and what the checks promise: between two activities of
a thread each level is sent once. -/

namespace Ashbi.Escalation

open Interleaving

section Steps

variable {ThreadId : Type} [DecidableEq ThreadId] {slaDefaults : Priority → ℕ}
  {s s' : State ThreadId} {thread cur : Thread ThreadId} {now : Time} {x : ThreadId}

/-- Nothing of the cycle has changed. -/
structure Thread.Same (row row' : Thread ThreadId) : Prop where
  activity : row'.lastActivityAt = row.lastActivityAt
  level : row'.lastEscalationLevel = row.lastEscalationLevel
  marker : row'.lastEscalatedAt = row.lastEscalatedAt
  breached : row'.slaBreached = row.slaBreached

/-- The statement sets or moves the activity of `x`. -/
def Stmt.moves {β : Type} (st : Stmt ThreadId β) (s : State ThreadId) (x : ThreadId) : Bool :=
  match st with
  | .message id _ _ => id = x
  | .respond id _ _ => id = x
  | .ingest id receivedAt _ => id = x && (s.thread x).any (·.lastActivityAt < receivedAt)
  | _ => false

theorem update_thread {write : Thread ThreadId → Thread ThreadId}
    (hid : ∀ row, (write row).id = row.id) (hx : s.thread x = some cur) (id : ThreadId) :
    (s.update id write).thread x = some (if x = id then write cur else cur) := by
  rw [thread_update hid, hx]
  rfl

/-! ### New threads -/

theorem insert_thread (hx : s.thread x = some cur) : (s.insert thread).thread x = some cur := by
  unfold State.insert
  split
  · exact hx
  · simp only [State.thread, Keyed.find] at hx ⊢
    rw [List.find?_append, hx]
    rfl

theorem Kept.insert (h : Kept s) : Kept (s.insert thread) := by
  unfold State.insert
  split
  · exact h
  rename_i hnew
  refine ⟨?_, fun row hrow => ?_⟩
  · simp only [List.map_append, List.map_cons, List.map_nil]
    apply List.nodup_append.mpr
    refine ⟨h.unique, by simp, fun a ha b hb heq => ?_⟩
    obtain rfl := List.mem_singleton.mp hb
    rw [heq] at ha
    exact hnew (Keyed.find_isSome.mpr ha)
  · rcases List.mem_append.mp hrow with hrow | hrow
    · exact h.leveled row hrow
    · obtain rfl := List.mem_singleton.mp hrow
      exact fun hmarked => (by cases hmarked)

/-! ### Statements -/

theorem Outcome.kept {admins : List String} {sent : List (Notification ThreadId)} {level : Option ℕ}
    {breached : Bool}
    (h : Outcome slaDefaults s s' thread admins now sent level breached) (hkept : Kept s) :
    Kept s' := by
  have hclaimed : Kept (s.update thread.id (·.claimed level breached now)) := by
    refine Kept.update (by exact fun _ => rfl) hkept thread.id ?_
    intro row hrow hmarked
    cases hlevel : level with
    | none =>
      rw [hlevel] at hmarked
      exact hkept.leveled row hrow hmarked
    | some k =>
      rcases (h.wanted k hlevel).1 with ⟨rfl, -⟩ | ⟨rfl, -⟩
      · exact Nat.le_refl 1
      · exact Nat.le_succ 1
  exact ⟨h.threads ▸ hclaimed.unique, h.threads ▸ hclaimed.leveled⟩

theorem Outcome.thread_eq {admins : List String} {sent : List (Notification ThreadId)}
    {level : Option ℕ}
    {breached : Bool} (h : Outcome slaDefaults s s' thread admins now sent level breached)
    (hx : s.thread x = some cur) : s'.thread x =
      some (if x = thread.id then cur.claimed level breached now else cur) := by
  rw [State.thread, h.threads]
  exact update_thread (by exact fun _ => rfl) hx thread.id

/-- The thread that a fan-out is about, as it was read, those whom it tells, and the reading of the
clock. -/
def Stmt.checks {β : Type} (st : Stmt ThreadId β) :
    Option (Thread ThreadId × List String × Time) :=
  match st with
  | .fanOut thread admins now => some (thread, admins, now)
  | _ => none

/-- What a statement sends, unless it is rolled back. -/
def Stmt.sends {β : Type} (slaDefaults : Priority → ℕ) (st : Stmt ThreadId β) (fails : Bool)
    (s : State ThreadId) : List (Notification ThreadId) :=
  match st with
  | .fanOut thread admins now =>
    match Escalation.fanOut slaDefaults s thread admins now fails with
    | .error _ => []
    | .ok (sent, _) => sent
  | _ => []

variable (slaDefaults) in
theorem checks_cases {β : Type} (st : Stmt ThreadId β) (fails : Bool) (h : Kept s)
    {admins : List String} (hchecks : st.checks = some (thread, admins, now)) :
    ((execAt slaDefaults st fails s).2 = s ∧ st.sends slaDefaults fails s = []) ∨
    ∃ level breached, Outcome slaDefaults s (execAt slaDefaults st fails s).2 thread admins now
      (st.sends slaDefaults fails s) level breached := by
  cases st with
  | fanOut thread' admins' now' =>
    cases hchecks
    cases hbody : fanOut slaDefaults s thread admins now fails with
    | error failure =>
      left
      simp only [execAt, transaction, Stmt.sends, hbody, and_self]
    | ok result =>
      obtain ⟨sent, s'⟩ := result
      obtain ⟨level, breached, houtcome⟩ := fanOut_ok h.unique hbody
      right
      refine ⟨level, breached, ?_⟩
      simpa only [execAt, transaction, Stmt.sends, hbody] using houtcome
  | _ => cases hchecks

variable (slaDefaults) in
/-- Every statement keeps the table, and takes no time of its own. -/
theorem execAt_kept {β : Type} (st : Stmt ThreadId β) (fails : Bool) (h : Kept s) :
    Kept (execAt slaDefaults st fails s).2 ∧ (execAt slaDefaults st fails s).2.clock = s.clock := by
  cases st with
  | now => exact ⟨h, rfl⟩
  | findThread id => exact ⟨h, rfl⟩
  | findOverdue => exact ⟨h, rfl⟩
  | activeAdmins => exact ⟨h, rfl⟩
  | fanOut thread admins now =>
    rcases checks_cases slaDefaults (.fanOut thread admins now) fails h rfl with
      ⟨hsame, -⟩ | ⟨level, breached, houtcome⟩
    · rw [hsame]
      exact ⟨h, rfl⟩
    · exact ⟨houtcome.kept h, houtcome.clock⟩
  | message id now status =>
    refine ⟨Kept.update (by exact fun _ => rfl) h id ?_, rfl⟩
    exact h.leveled
  | ingest id receivedAt urgent =>
    refine ⟨Kept.update (by exact fun _ => rfl) h id ?_, rfl⟩
    exact h.leveled
  | respond id now status =>
    refine ⟨Kept.update (by exact fun _ => rfl) h id ?_, rfl⟩
    exact fun _ _ hmarked => absurd hmarked Bool.false_ne_true
  | edit id status priority assignedToId =>
    refine ⟨Kept.update (by exact fun _ => rfl) h id ?_, rfl⟩
    exact h.leveled
  | create thread =>
    refine ⟨h.insert, ?_⟩
    simp only [execAt, State.insert]
    split <;> rfl
  | setAdmins admins => exact ⟨⟨h.unique, h.leveled⟩, rfl⟩

variable (slaDefaults) in
/-- A statement that is no fan-out leaves the cycle of a thread whose activity it does not move. -/
theorem other_cases {β : Type} (st : Stmt ThreadId β) (fails : Bool) (hchecks : st.checks = none)
    (hx : s.thread x = some cur) : st.sends slaDefaults fails s = [] ∧
      ∃ cur', (execAt slaDefaults st fails s).2.thread x = some cur' ∧
        cur'.slaBreached = cur.slaBreached ∧ (st.moves s x = false → cur.Same cur') := by
  have same : cur.Same cur := ⟨rfl, rfl, rfl, rfl⟩
  cases st with
  | now => exact ⟨rfl, cur, hx, rfl, fun _ => same⟩
  | findThread id => exact ⟨rfl, cur, hx, rfl, fun _ => same⟩
  | findOverdue => exact ⟨rfl, cur, hx, rfl, fun _ => same⟩
  | activeAdmins => exact ⟨rfl, cur, hx, rfl, fun _ => same⟩
  | setAdmins admins => exact ⟨rfl, cur, hx, rfl, fun _ => same⟩
  | fanOut thread admins now => cases hchecks
  | create thread => exact ⟨rfl, cur, insert_thread hx, rfl, fun _ => same⟩
  | message id now status =>
    refine ⟨rfl, _, update_thread (by exact fun _ => rfl) hx id, ?_, ?_⟩
    · split <;> rfl
    · intro hmoves
      simp only [Stmt.moves, decide_eq_false_iff_not] at hmoves
      rw [if_neg (Ne.symm hmoves)]
      exact same
  | respond id now status =>
    refine ⟨rfl, _, update_thread (by exact fun _ => rfl) hx id, ?_, ?_⟩
    · split <;> rfl
    · intro hmoves
      simp only [Stmt.moves, decide_eq_false_iff_not] at hmoves
      rw [if_neg (Ne.symm hmoves)]
      exact same
  | ingest id receivedAt urgent =>
    refine ⟨rfl, _, update_thread (by exact fun _ => rfl) hx id, ?_, ?_⟩
    · split <;> rfl
    · intro hmoves
      split
      · rename_i heq
        simp only [Stmt.moves, heq.symm, hx, decide_true, Bool.true_and, Option.any_some,
          decide_eq_false_iff_not, Int.not_lt] at hmoves
        exact ⟨Int.max_eq_left hmoves, rfl, rfl, rfl⟩
      · exact same
  | edit id status priority assignedToId =>
    refine ⟨rfl, _, update_thread (by exact fun _ => rfl) hx id, ?_, ?_⟩
    · split <;> rfl
    · intro _
      split
      · exact ⟨rfl, rfl, rfl, rfl⟩
      · exact same

end Steps

section Levels

variable {ThreadId : Type} [DecidableEq ThreadId] {slaDefaults : Priority → ℕ}
  {s s' : State ThreadId} {thread cur : Thread ThreadId} {now : Time} {x : ThreadId} {level : ℕ}

/-- The level was claimed in the cycle of the last activity. -/
def Thread.Reached (thread : Thread ThreadId) (level : ℕ) : Prop :=
  ∃ escalatedAt, thread.lastEscalatedAt = some escalatedAt ∧
    thread.lastActivityAt ≤ escalatedAt ∧ level ≤ thread.lastEscalationLevel

/-- What a check needs of the row that it claims: the activity that it has read, and for a breach
the priority. -/
structure Thread.Settled (slaDefaults : Priority → ℕ) (thread cur : Thread ThreadId)
    (admins : List String) (now : Time) : Prop where
  level : ∀ level, Wants thread (!admins.isEmpty) now level → Claimable cur thread level →
    cur.lastActivityAt = thread.lastActivityAt
  breach : (wantsBreach slaDefaults thread now && !admins.isEmpty) = true →
    cur.slaBreached = false →
      cur.lastActivityAt = thread.lastActivityAt ∧ cur.priority = thread.priority

theorem hours_nonneg (count : ℕ) : 0 ≤ hours count :=
  Int.mul_nonneg (Int.natCast_nonneg count) (by decide)

omit [DecidableEq ThreadId] in
/-- The thread is in the cycle that was read, so a level that was reached is not claimed again. -/
theorem Claimable.not_reached (h : Claimable cur thread level) (hleveled : thread.Leveled)
    (hahead : thread.lastActivityAt ≤ cur.lastActivityAt) : ¬ cur.Reached level := by
  rintro ⟨escalatedAt, hmarker, hafter, hlevel⟩
  have hread : thread.lastEscalatedAt = some escalatedAt := h.marker ▸ hmarker
  have hcurrent : currentEscalationLevel thread = thread.lastEscalationLevel := by
    simp only [currentEscalationLevel, hread]
    exact if_neg (Int.not_lt.mpr (Int.le_trans hahead hafter))
  have hpos : 1 ≤ thread.lastEscalationLevel := hleveled (by rw [hread]; rfl)
  rcases h.below with hzero | hbelow
  · rw [hcurrent] at hzero
    omega
  · omega

omit [DecidableEq ThreadId] in
theorem Thread.Reached.le {k : ℕ} (h : cur.Reached level) (hk : k ≤ level) : cur.Reached k := by
  obtain ⟨escalatedAt, hmarker, hafter, hlevel⟩ := h
  exact ⟨escalatedAt, hmarker, hafter, Nat.le_trans hk hlevel⟩

omit [DecidableEq ThreadId] in
theorem Thread.Reached.same {row : Thread ThreadId} (h : cur.Reached level) (hsame : cur.Same row) :
    row.Reached level := by
  obtain ⟨escalatedAt, hmarker, hafter, hlevel⟩ := h
  exact ⟨escalatedAt, hsame.marker.trans hmarker, hsame.activity ▸ hafter, hsame.level ▸ hlevel⟩

omit [DecidableEq ThreadId] in
/-- How long the thread has been inactive where a check tries to claim a level. -/
theorem Wants.due {canNotifyAdmins : Bool} (h : Wants thread canNotifyAdmins now level) :
    (level = slaWarningLevel → hours 4 ≤ sinceActivity thread now) ∧
      (level = escalationLevel → hours 8 ≤ sinceActivity thread now) ∧
      thread.lastActivityAt ≤ now := by
  have hpast {count : ℕ} (hdue : hours count ≤ sinceActivity thread now) :
      thread.lastActivityAt ≤ now := Int.sub_nonneg.mp (Int.le_trans (hours_nonneg _) hdue)
  rcases h with ⟨rfl, hwants⟩ | ⟨rfl, hwants⟩
  · simp only [wantsWarning, Bool.and_eq_true, decide_eq_true_eq] at hwants
    exact ⟨fun _ => hwants.1, fun heq => (by cases heq), hpast hwants.1⟩
  · simp only [wantsEscalation, Bool.and_eq_true, decide_eq_true_eq] at hwants
    exact ⟨fun heq => (by cases heq), fun _ => hwants.1.1, hpast hwants.1.1⟩

omit [DecidableEq ThreadId] in
/-- The level that a check claims is due for the row, and was not reached before. -/
theorem Wants.settled {admins : List String} (h : Wants thread (!admins.isEmpty) now level)
    (hclaimable : Claimable cur thread level)
    (hsettled : thread.Settled slaDefaults cur admins now) (hleveled : thread.Leveled) :
    ¬ cur.Reached level ∧ cur.lastActivityAt ≤ now ∧
      (level = slaWarningLevel → hours 4 ≤ sinceActivity cur now) ∧
      (level = escalationLevel → hours 8 ≤ sinceActivity cur now) := by
  have hsame := hsettled.level level h hclaimable
  obtain ⟨hfour, height, hpast⟩ := h.due
  rw [sinceActivity, hsame]
  exact ⟨hclaimable.not_reached hleveled (Int.le_of_eq hsame.symm), hpast, hfour, height⟩

omit [DecidableEq ThreadId] in
theorem Thread.Settled.overdue {admins : List String}
    (h : thread.Settled slaDefaults cur admins now)
    (hwants : (wantsBreach slaDefaults thread now && !admins.isEmpty) = true)
    (hopen : cur.slaBreached = false) :
    hours (slaHours slaDefaults cur.priority) ≤ sinceActivity cur now := by
  obtain ⟨hsame, hpriority⟩ := h.breach hwants hopen
  simp only [wantsBreach, Bool.and_eq_true, decide_eq_true_eq] at hwants
  rw [sinceActivity, hsame, hpriority]
  exact hwants.1.1

/-- Statements of checks that read the thread as it was once stored, and the clock before. -/
def Stmt.Promised {β : Type} (st : Stmt ThreadId β) (s : State ThreadId) : Prop :=
  ∀ thread admins now, st.checks = some (thread, admins, now) → thread.Leveled ∧ now ≤ s.clock

/-- A fan-out is settled where the row that it claims is of the activity that its check has read. -/
def Stmt.Settled {β : Type} (slaDefaults : Priority → ℕ) (st : Stmt ThreadId β)
    (s : State ThreadId) : Prop :=
  ∀ thread admins now, st.checks = some (thread, admins, now) →
    ∀ cur, s.thread thread.id = some cur → thread.Settled slaDefaults cur admins now

section Statements

omit [DecidableEq ThreadId] in
theorem claimed_reached (cur : Thread ThreadId) (breached : Bool) (h : cur.lastActivityAt ≤ now) :
    (cur.claimed (some level) breached now).Reached level :=
  ⟨now, rfl, h, Nat.le_refl _⟩

variable {β : Type} {st : Stmt ThreadId β} {fails : Bool}

/-- A level stays reached as long as no activity moves. -/
theorem execAt_reached (h : Kept s) (hpromised : st.Promised s)
    (hsettled : st.Settled slaDefaults s) (hmoves : st.moves s x = false)
    (hx : s.thread x = some cur) (hreached : cur.Reached level) :
    ∃ cur', (execAt slaDefaults st fails s).2.thread x = some cur' ∧ cur'.Reached level := by
  cases hchecks : st.checks with
  | none =>
    obtain ⟨-, cur', hcur', -, hsame⟩ :=
      other_cases slaDefaults st fails hchecks hx
    exact ⟨cur', hcur', hreached.same (hsame hmoves)⟩
  | some check =>
    obtain ⟨thread, admins, now⟩ := check
    rcases checks_cases slaDefaults st fails h hchecks with
      ⟨hsame, -⟩ | ⟨claimed, breached, houtcome⟩
    · rw [hsame]
      exact ⟨cur, hx, hreached⟩
    refine ⟨_, houtcome.thread_eq hx, ?_⟩
    split
    case isFalse => exact hreached
    rename_i hid
    cases hclaimed : claimed with
    | none => exact hreached
    | some k =>
      obtain ⟨hwants, cur', hcur', hclaimable⟩ := houtcome.wanted k hclaimed
      obtain rfl := Option.some.inj (hx.symm.trans (hid ▸ hcur'))
      obtain ⟨hnew, hdue, -⟩ := hwants.settled hclaimable
        (hsettled thread admins now hchecks cur hcur') (hpromised thread admins now hchecks).1
      have hlt : level < k := by
        by_contra hle
        exact hnew (hreached.le (Nat.not_lt.mp hle))
      exact (claimed_reached cur breached hdue).le (Nat.le_of_lt hlt)

/-- A breach stays. -/
theorem execAt_breached (h : Kept s) (hx : s.thread x = some cur)
    (hbreached : cur.slaBreached = true) :
    ∃ cur', (execAt slaDefaults st fails s).2.thread x = some cur' ∧ cur'.slaBreached = true := by
  cases hchecks : st.checks with
  | none =>
    obtain ⟨-, cur', hcur', hsame, -⟩ :=
      other_cases slaDefaults st fails hchecks hx
    exact ⟨cur', hcur', hsame.trans hbreached⟩
  | some check =>
    obtain ⟨thread, admins, now⟩ := check
    rcases checks_cases slaDefaults st fails h hchecks with
      ⟨hsame, -⟩ | ⟨claimed, breached, houtcome⟩
    · rw [hsame]
      exact ⟨cur, hx, hbreached⟩
    refine ⟨_, houtcome.thread_eq hx, ?_⟩
    split
    · simp [Thread.claimed, hbreached]
    · exact hbreached

/-- The notification of a type for a thread. -/
def sendsType (type : NotificationType) (x : ThreadId) (sent : List (Notification ThreadId)) :
    Bool := sent.any fun n => n.type = type && n.threadId = x

theorem sends_checks (hsends : ∃ n, n ∈ st.sends slaDefaults fails s) :
    ∃ thread admins now, st.checks = some (thread, admins, now) := by
  obtain ⟨n, hn⟩ := hsends
  cases st with
  | fanOut thread admins now => exact ⟨thread, admins, now, rfl⟩
  | _ => cases hn

/-- What is sent to a thread was claimed on its row. -/
theorem sends_claims (h : Kept s) {type : NotificationType}
    (hsends : sendsType type x (st.sends slaDefaults fails s) = true) :
    ∃ thread admins now claimed breached cur, st.checks = some (thread, admins, now) ∧
      thread.id = x ∧ s.thread x = some cur ∧
      Outcome slaDefaults s (execAt slaDefaults st fails s).2 thread admins now
        (st.sends slaDefaults fails s) claimed breached ∧
      (type = .slaWarning → claimed = some slaWarningLevel) ∧
      (type = .escalation → claimed = some escalationLevel) ∧
      (type = .slaBreach → breached = true) := by
  obtain ⟨n, hn, htype⟩ := List.any_eq_true.mp hsends
  simp only [Bool.and_eq_true, decide_eq_true_eq] at htype
  obtain ⟨rfl, rfl⟩ := htype
  obtain ⟨thread, admins, now, hchecks⟩ := sends_checks ⟨n, hn⟩
  rcases checks_cases slaDefaults st fails h hchecks with
    ⟨-, hnone⟩ | ⟨claimed, breached, houtcome⟩
  · rw [hnone] at hn
    cases hn
  · have hid := houtcome.of n hn
    have hcur : ∃ cur, s.thread thread.id = some cur := by
      cases htype : n.type with
      | slaWarning =>
        obtain ⟨-, cur, hcur, -⟩ := houtcome.wanted _ (houtcome.warning n hn htype)
        exact ⟨cur, hcur⟩
      | escalation =>
        obtain ⟨-, cur, hcur, -⟩ := houtcome.wanted _ (houtcome.escalation n hn htype)
        exact ⟨cur, hcur⟩
      | slaBreach =>
        obtain ⟨-, cur, hcur, -⟩ := houtcome.overdue (houtcome.breach n hn htype)
        exact ⟨cur, hcur⟩
    obtain ⟨cur, hcur⟩ := hcur
    exact ⟨thread, admins, now, claimed, breached, cur, hchecks, hid.symm, hid ▸ hcur, houtcome,
      houtcome.warning n hn, houtcome.escalation n hn, houtcome.breach n hn⟩

end Statements

end Levels

end Ashbi.Escalation
