import Ashbi.Escalation.Thread

/-! What a check claims, and what its transaction sends. -/

namespace Ashbi.Escalation

open Interleaving

section Claims

variable {ThreadId : Type} [DecidableEq ThreadId] {s s' : State ThreadId}
  {thread cur : Thread ThreadId} {level : ℕ} {now : Time}

/-- A marker has a level. -/
def Thread.Leveled (thread : Thread ThreadId) : Prop :=
  thread.lastEscalatedAt.isSome → 1 ≤ thread.lastEscalationLevel

structure Kept (s : State ThreadId) : Prop where
  unique : (s.threads.map (·.id)).Nodup
  leveled : ∀ thread ∈ s.threads, thread.Leveled

/-- The row that a claim of a level needs. -/
structure Claimable (cur thread : Thread ThreadId) (level : ℕ) : Prop where
  due : currentEscalationLevel thread < level
  marker : cur.lastEscalatedAt = thread.lastEscalatedAt
  below : currentEscalationLevel thread = 0 ∨ cur.lastEscalationLevel < level

theorem thread_mem {id : ThreadId} (h : s.thread id = some cur) : cur ∈ s.threads :=
  List.mem_of_find?_eq_some h

section Update

variable {write : Thread ThreadId → Thread ThreadId} (hid : ∀ row, (write row).id = row.id)
include hid

theorem thread_update (id x : ThreadId) : (s.update id write).thread x =
    (s.thread x).map fun row => if x = id then write row else row :=
  Keyed.find_update hid s.threads id x

theorem unique_update (hunique : (s.threads.map (·.id)).Nodup) (id : ThreadId) :
    ((s.update id write).threads.map (·.id)).Nodup := by
  have hids : (s.update id write).threads.map (·.id) = s.threads.map (·.id) :=
    Keyed.keys_map (fun row => by split <;> simp [hid]) s.threads
  rw [hids]
  exact hunique

theorem Kept.update (h : Kept s) (id : ThreadId)
    (hleveled : ∀ row ∈ s.threads, (write row).Leveled) : Kept (s.update id write) where
  unique := unique_update hid h.unique id
  leveled := by
    intro row hrow
    obtain ⟨old, hold, rfl⟩ := List.mem_map.mp hrow
    split
    · exact hleveled old hold
    · exact h.leveled old hold

end Update

/-- An update of one row under a condition writes the row, or nothing. -/
theorem updateMany_cases (hunique : (s.threads.map (·.id)).Nodup) (id : ThreadId)
    (p : Thread ThreadId → Bool) (write : Thread ThreadId → Thread ThreadId) :
    (∃ cur, s.thread id = some cur ∧ p cur = true ∧
      s.updateMany (fun row => row.id = id && p row) write = (1, s.update id write)) ∨
    s.updateMany (fun row => row.id = id && p row) write = (0, s) := by
  simp only [State.updateMany, Keyed.count_and hunique, Keyed.map_and hunique]
  cases hrow : Keyed.find (fun row : Thread ThreadId => row.id) s.threads id with
  | none => right; rfl
  | some cur =>
    by_cases hp : p cur = true
    · left
      refine ⟨cur, hrow, hp, ?_⟩
      simp [hp, State.update]
    · right
      simp [hp]

variable (thread level now) in
theorem claimEscalationLevel_cases (hunique : (s.threads.map (·.id)).Nodup) :
    (∃ cur, s.thread thread.id = some cur ∧ Claimable cur thread level ∧
      claimEscalationLevel s thread level now =
        (true, s.update thread.id (·.escalated level now))) ∨
    claimEscalationLevel s thread level now = (false, s) := by
  unfold claimEscalationLevel
  dsimp only
  split
  · right
    rfl
  rename_i hlevel
  rcases updateMany_cases hunique thread.id (fun row =>
      row.lastEscalatedAt = thread.lastEscalatedAt &&
        (currentEscalationLevel thread = 0 || row.lastEscalationLevel < level))
      (·.escalated level now) with ⟨cur, hcur, hselected, hwrite⟩ | hnone
  · left
    simp only [Bool.and_eq_true, Bool.or_eq_true, decide_eq_true_eq] at hselected
    refine ⟨cur, hcur, ⟨Nat.not_le.mp hlevel, hselected.1, hselected.2⟩, ?_⟩
    rw [hwrite]
    rfl
  · right
    rw [hnone]
    rfl

variable (thread) in
theorem claimBreach_cases (hunique : (s.threads.map (·.id)).Nodup) :
    (∃ cur, s.thread thread.id = some cur ∧ cur.slaBreached = false ∧
      claimBreach s thread = (true, s.update thread.id (·.breached))) ∨
    claimBreach s thread = (false, s) := by
  unfold claimBreach
  rcases updateMany_cases hunique thread.id (fun row => !row.slaBreached) (·.breached) with
    ⟨cur, hcur, hselected, hwrite⟩ | hnone
  · left
    refine ⟨cur, hcur, by simpa using hselected, ?_⟩
    rw [hwrite]
    rfl
  · right
    rw [hnone]
    rfl

/-! ### The outcome of a transaction -/

/-- The level that a check tries to claim. -/
def Wants (thread : Thread ThreadId) (canNotifyAdmins : Bool) (now : Time) (level : ℕ) : Prop :=
  (level = slaWarningLevel ∧ wantsWarning thread now = true) ∨
    (level = escalationLevel ∧ (wantsEscalation thread now && canNotifyAdmins) = true)

omit [DecidableEq ThreadId] in
/-- A warning and an escalation are not wanted at once. -/
theorem not_wantsEscalation (h : wantsWarning thread now = true) :
    wantsEscalation thread now = false := by
  simp only [wantsWarning, Bool.and_eq_true, decide_eq_true_eq] at h
  simp only [wantsEscalation, Bool.and_eq_false_iff, decide_eq_false_iff_not, Int.not_le]
  exact .inl h.2.1

/-- A row after the claims of a transaction. -/
def Thread.claimed (row : Thread ThreadId) (level : Option ℕ) (breached : Bool) (now : Time) :
    Thread ThreadId :=
  { row with
    lastEscalationLevel := level.getD row.lastEscalationLevel
    lastEscalatedAt := if level.isSome then some now else row.lastEscalatedAt
    slaBreached := breached || row.slaBreached }

/-- What a transaction that was not rolled back has claimed and sent. -/
structure Outcome (slaDefaults : Priority → ℕ) (s s' : State ThreadId) (thread : Thread ThreadId)
    (admins : List String) (now : Time) (sent : List (Notification ThreadId)) (level : Option ℕ)
    (breached : Bool) : Prop where
  wanted : ∀ k ∈ level, Wants thread (!admins.isEmpty) now k ∧
    ∃ cur, s.thread thread.id = some cur ∧ Claimable cur thread k
  overdue : breached = true → (wantsBreach slaDefaults thread now && !admins.isEmpty) = true ∧
    ∃ cur, s.thread thread.id = some cur ∧ cur.slaBreached = false
  threads : s'.threads = (s.update thread.id (·.claimed level breached now)).threads
  clock : s'.clock = s.clock
  of : ∀ n ∈ sent, n.threadId = thread.id
  warning : ∀ n ∈ sent, n.type = .slaWarning → level = some slaWarningLevel
  escalation : ∀ n ∈ sent, n.type = .escalation → level = some escalationLevel
  breach : ∀ n ∈ sent, n.type = .slaBreach → breached = true

section Stages

variable (wants : Bool)

variable (thread level now) in
theorem claimEscalationLevel_if (hunique : (s.threads.map (·.id)).Nodup) :
    (wants = true ∧ ∃ cur, s.thread thread.id = some cur ∧ Claimable cur thread level ∧
      (if wants then claimEscalationLevel s thread level now else (false, s)) =
        (true, s.update thread.id (·.escalated level now))) ∨
    (if wants then claimEscalationLevel s thread level now else (false, s)) = (false, s) := by
  cases wants with
  | false => exact .inr rfl
  | true =>
    rcases claimEscalationLevel_cases thread level now hunique with
      hclaimed | hnone
    · exact .inl ⟨rfl, hclaimed⟩
    · exact .inr hnone

variable (thread) in
theorem claimBreach_if (hunique : (s.threads.map (·.id)).Nodup) :
    (wants = true ∧ ∃ cur, s.thread thread.id = some cur ∧ cur.slaBreached = false ∧
      (if wants then claimBreach s thread else (false, s)) =
        (true, s.update thread.id (·.breached))) ∨
    (if wants then claimBreach s thread else (false, s)) = (false, s) := by
  cases wants with
  | false => exact .inr rfl
  | true =>
    rcases claimBreach_cases thread hunique with hclaimed | hnone
    · exact .inl ⟨rfl, hclaimed⟩
    · exact .inr hnone

end Stages

theorem update_same (id : ThreadId) : s.update id (fun row => row) = s := by
  simp [State.update]

variable (thread now) in
/-- The two level claims of a transaction, of which one succeeds at most. -/
theorem levels_cases (hunique : (s.threads.map (·.id)).Nodup) (canNotifyAdmins : Bool) :
    ∃ (warned escalated : Bool) (s₁ s₂ : State ThreadId) (level : Option ℕ),
      (if wantsWarning thread now then claimEscalationLevel s thread slaWarningLevel now
        else (false, s)) = (warned, s₁) ∧
      (if wantsEscalation thread now && canNotifyAdmins then
        claimEscalationLevel s₁ thread escalationLevel now else (false, s₁)) = (escalated, s₂) ∧
      (warned = true → level = some slaWarningLevel) ∧
      (escalated = true → level = some escalationLevel) ∧
      (∀ k ∈ level, Wants thread canNotifyAdmins now k ∧
        ∃ cur, s.thread thread.id = some cur ∧ Claimable cur thread k) ∧
      s₂ = s.update thread.id (·.claimed level false now) := by
  rcases claimEscalationLevel_if thread slaWarningLevel now
    (wantsWarning thread now) hunique with ⟨hwants, cur, hcur, hclaimable, hwarned⟩ | hnone
  · refine ⟨true, false, _, _, some slaWarningLevel, hwarned, ?_, fun _ => rfl,
      fun hfalse => (by cases hfalse), ?_, rfl⟩
    · rw [not_wantsEscalation hwants]
      rfl
    · intro k hk
      obtain rfl := Option.some.inj hk
      exact ⟨.inl ⟨rfl, hwants⟩, cur, hcur, hclaimable⟩
  · rcases claimEscalationLevel_if thread escalationLevel now
      (wantsEscalation thread now && canNotifyAdmins) hunique with
      ⟨hwants, cur, hcur, hclaimable, hescalated⟩ | hneither
    · refine ⟨false, true, s, _, some escalationLevel, hnone, hescalated,
        fun hfalse => (by cases hfalse), fun _ => rfl, ?_, rfl⟩
      intro k hk
      obtain rfl := Option.some.inj hk
      exact ⟨.inr ⟨rfl, hwants⟩, cur, hcur, hclaimable⟩
    · exact ⟨false, false, s, s, none, hnone, hneither, fun hfalse => (by cases hfalse),
        fun hfalse => (by cases hfalse), fun k hk => (by cases hk), (update_same thread.id).symm⟩

omit [DecidableEq ThreadId] in
theorem send_ok {pending sent : List (Notification ThreadId)} {fails : Bool}
    (hok : (if pending.isEmpty then .ok ([], s) else createManyAndReturn s pending fails) =
      Except.ok (sent, s')) :
    sent ⊆ pending ∧ s'.threads = s.threads ∧ s'.clock = s.clock := by
  split at hok
  · obtain ⟨rfl, rfl⟩ := Prod.mk.inj (Except.ok.inj hok)
    exact ⟨List.nil_subset _, rfl, rfl⟩
  · unfold createManyAndReturn at hok
    split at hok
    · cases hok
    · obtain ⟨rfl, rfl⟩ := Prod.mk.inj (Except.ok.inj hok)
      exact ⟨List.Subset.refl _, rfl, rfl⟩

omit [DecidableEq ThreadId] in
/-- Each notification of a check is of what it claimed. -/
theorem mem_pending {admins : List String} {warned escalated breached : Bool}
    {n : Notification ThreadId}
    (h : n ∈ (if warned then thread.assignedToId.toList.map (warning thread now) else []) ++
      (if escalated then admins.map (escalation thread now) else []) ++
      (if breached then admins.map (breach thread now) else [])) :
    n.threadId = thread.id ∧ (n.type = .slaWarning → warned = true) ∧
      (n.type = .escalation → escalated = true) ∧ (n.type = .slaBreach → breached = true) := by
  rcases List.mem_append.mp h with h | h
  · rcases List.mem_append.mp h with h | h
    · cases warned with
      | false => cases h
      | true =>
        obtain ⟨user, -, rfl⟩ := List.mem_map.mp h
        exact ⟨rfl, fun _ => rfl, fun h => (by cases h), fun h => (by cases h)⟩
    · cases escalated with
      | false => cases h
      | true =>
        obtain ⟨user, -, rfl⟩ := List.mem_map.mp h
        exact ⟨rfl, fun h => (by cases h), fun _ => rfl, fun h => (by cases h)⟩
  · cases breached with
    | false => cases h
    | true =>
      obtain ⟨user, -, rfl⟩ := List.mem_map.mp h
      exact ⟨rfl, fun h => (by cases h), fun h => (by cases h), fun _ => rfl⟩

/-- A transaction that was not rolled back. -/
theorem fanOut_ok {slaDefaults : Priority → ℕ} {admins : List String} {fails : Bool}
    {sent : List (Notification ThreadId)} (hunique : (s.threads.map (·.id)).Nodup)
    (hok : fanOut slaDefaults s thread admins now fails = .ok (sent, s')) :
    ∃ level breached, Outcome slaDefaults s s' thread admins now sent level breached := by
  obtain ⟨warned, escalated, s₁, s₂, level, hwarned, hescalated, hwarning, hescalation, hwanted,
    rfl⟩ := levels_cases thread now hunique !admins.isEmpty
  obtain ⟨breached, s₃, hbreached, hoverdue, hthreads, hclock⟩ : ∃ (breached : Bool)
      (s₃ : State ThreadId),
      (if wantsBreach slaDefaults thread now && !admins.isEmpty then
        claimBreach (s.update thread.id (·.claimed level false now)) thread
        else (false, s.update thread.id (·.claimed level false now))) = (breached, s₃) ∧
      (breached = true → (wantsBreach slaDefaults thread now && !admins.isEmpty) = true ∧
        ∃ cur, s.thread thread.id = some cur ∧ cur.slaBreached = false) ∧
      s₃.threads = (s.update thread.id (·.claimed level breached now)).threads ∧
      s₃.clock = s.clock := by
    have hkeeps (row : Thread ThreadId) : (row.claimed level false now).id = row.id := rfl
    rcases claimBreach_if thread (wantsBreach slaDefaults thread now && !admins.isEmpty)
      (unique_update hkeeps hunique thread.id) with
      ⟨hwants, cur, hcur, hopen, hclaimed⟩ | hnone
    · refine ⟨true, _, hclaimed, fun _ => ⟨hwants, ?_⟩, ?_, rfl⟩
      · rw [thread_update hkeeps] at hcur
        obtain ⟨old, hold, rfl⟩ := Option.map_eq_some_iff.mp hcur
        exact ⟨old, hold, by simpa [Thread.claimed] using hopen⟩
      · simp only [State.update, List.map_map]
        apply List.map_congr_left
        intro row _
        by_cases hrow : row.id = thread.id <;> simp [hrow, Thread.claimed, Thread.breached]
    · exact ⟨false, _, hnone, fun hfalse => (by cases hfalse), rfl, rfl⟩
  simp only [fanOut, hwarned, hescalated, hbreached] at hok
  obtain ⟨hsent, hsame, hsameClock⟩ := send_ok hok
  refine ⟨level, breached, hwanted, hoverdue, hsame.trans hthreads, hsameClock.trans hclock,
    fun n hn => (mem_pending (hsent hn)).1, fun n hn htype => ?_, fun n hn htype => ?_,
    fun n hn htype => ?_⟩
  · exact hwarning ((mem_pending (hsent hn)).2.1 htype)
  · exact hescalation ((mem_pending (hsent hn)).2.2.1 htype)
  · exact (mem_pending (hsent hn)).2.2.2 htype

end Claims

end Ashbi.Escalation
