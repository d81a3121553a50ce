import Ashbi.Agents.Statements

/-! What a statement can do to the runs, and what it leaves of their keys. -/

namespace Ashbi.Agents

open Interleaving Sql

section Moves

variable {Context Memory : Type}

/-- How the status of a run may change. -/
inductive Status.Moves : Status → Status → Prop
  | claimed : Moves .queued .running
  | ended (outcome : Outcome) : Moves .running outcome.status
  | cancelled {status : Status} (h : status.active = true) : Moves status .cancelled

/-- What a statement can make of a run. -/
structure AgentRun.Moves (run next : AgentRun Context Memory) : Prop where
  id : next.id = run.id
  intent : next.intent = run.intent
  scope : next.scope = run.scope
  status : next.status = run.status ∨ run.status.Moves next.status
  final : run.status.active = false → next = run

theorem AgentRun.Moves.refl (run : AgentRun Context Memory) : run.Moves run :=
  ⟨rfl, rfl, rfl, .inl rfl, fun _ => rfl⟩

theorem AgentRun.Moves.active {run next : AgentRun Context Memory} (h : run.Moves next)
    (hnext : next.status.active = true) : run.status.active = true := by
  cases hrun : run.status.active with
  | true => rfl
  | false => rw [h.final hrun, hrun] at hnext; exact hnext

/-- Only active runs are cancelled. -/
def Write.Lawful : Write Context Memory → Prop
  | .cancel _ status _ => status.active = true
  | _ => True

/-- The updates that any thread may make. -/
def Write.Silent : Write Context Memory → Prop
  | .expire _ _ => True
  | .cancel _ status _ => status.active = true
  | _ => False

theorem Write.Silent.lawful {write : Write Context Memory} (h : write.Silent) : write.Lawful := by
  cases write with
  | cancel conversationId status now => exact h
  | _ => trivial

/-- An update selects active runs. -/
theorem Write.active {write : Write Context Memory} {run : AgentRun Context Memory}
    (hlawful : write.Lawful) (h : write.selects run = true) : run.status.active = true := by
  cases write with
  | claim token startedAt deadlineAt =>
    rw [of_decide_eq_true h]
    rfl
  | expire claimToken now =>
    simp only [Write.selects, AgentRun.expires, Bool.and_eq_true, decide_eq_true_eq] at h
    rw [h.1.1]
    rfl
  | settle token now outcome =>
    simp only [Write.selects, AgentRun.heldBy, Bool.and_eq_true, decide_eq_true_eq] at h
    rw [h.1.1]
    rfl
  | prepare token now prepared =>
    simp only [Write.selects, AgentRun.heldBy, Bool.and_eq_true, decide_eq_true_eq] at h
    rw [h.1.1.1]
    rfl
  | cancel conversationId status now =>
    simp only [Write.selects, Bool.and_eq_true, decide_eq_true_eq] at h
    rw [h.2]
    exact hlawful

theorem Write.moves_status {write : Write Context Memory} {run : AgentRun Context Memory}
    (hlawful : write.Lawful) (h : write.selects run = true) :
    (write.set run).status = run.status ∨ run.status.Moves (write.set run).status := by
  have hactive := write.active hlawful h
  cases write with
  | claim token startedAt deadlineAt =>
    right
    rw [of_decide_eq_true h]
    exact .claimed
  | expire claimToken now =>
    right
    simp only [Write.selects, AgentRun.expires, Bool.and_eq_true, decide_eq_true_eq] at h
    rw [h.1.1]
    exact .ended (.unknown "RUN_DEADLINE_EXCEEDED")
  | settle token now outcome =>
    right
    simp only [Write.selects, AgentRun.heldBy, Bool.and_eq_true, decide_eq_true_eq] at h
    rw [h.1.1]
    cases outcome with
    | succeeded response => exact .ended (.succeeded response)
    | failed code => exact .ended (.failed code)
    | unknown code => exact .ended (.unknown code)
  | prepare token now prepared => exact .inl rfl
  | cancel conversationId status now => exact .inr (.cancelled hactive)

theorem Write.keeps (write : Write Context Memory) (run : AgentRun Context Memory) :
    (write.set run).id = run.id ∧ (write.set run).intent = run.intent ∧
      (write.set run).scope = run.scope := by
  cases write with
  | settle token now outcome => cases outcome <;> exact ⟨rfl, rfl, rfl⟩
  | _ => exact ⟨rfl, rfl, rfl⟩

theorem Write.moves {write : Write Context Memory} {run : AgentRun Context Memory}
    (hlawful : write.Lawful) (h : write.selects run = true) : run.Moves (write.set run) := by
  obtain ⟨hid, hintent, hscope⟩ := write.keeps run
  refine ⟨hid, hintent, hscope, write.moves_status hlawful h, fun hfinal => ?_⟩
  rw [write.active hlawful h] at hfinal
  cases hfinal

end Moves

section Steps

variable {Context Memory : Type} {s t : State Context Memory}
  {allowed : Write Context Memory → Prop}

theorem Write.at_iff {organizationId : String} {id : ℕ} {write : Write Context Memory}
    {run : AgentRun Context Memory} : write.at organizationId id run = true ↔
      run.id = id ∧ run.organizationId = organizationId ∧ write.selects run = true := by
  simp only [Write.at, Bool.and_eq_true, decide_eq_true_eq, and_assoc]

/-- All that a statement can do whose updates of runs are allowed. -/
inductive State.Step (allowed : Write Context Memory → Prop) (s : State Context Memory) :
    State Context Memory → Prop
  | idle {t : State Context Memory} (runs : t.runs = s.runs) (nextRun : t.nextRun = s.nextRun)
      (issued : s.issued ≤ t.issued)
      (accounts : (t.users = s.users ∧ t.conversations = s.conversations) ∨
        s.referenced t.users t.conversations = true) : Step allowed s t
  | write (organizationId : String) (id : ℕ) (write : Write Context Memory) (h : allowed write) :
      Step allowed s (s.updateRuns organizationId id write)
  | create (row : AgentRun Context Memory) (admitted : s.admits row = true)
      (id : row.id = s.nextRun) (status : row.status = .queued) (token : row.claimToken = none)
      (requester : ∃ user ∈ s.users, user.id = row.requestedById ∧
        user.organizationId = row.organizationId)
      (conversation : ∃ other ∈ s.conversations, other.id = row.conversationId ∧
        other.organizationId = row.organizationId) :
      Step allowed s { s with runs := s.runs ++ [row], nextRun := s.nextRun + 1 }

theorem State.Step.refl (s : State Context Memory) : s.Step allowed s :=
  .idle rfl rfl (Nat.le_refl _) (.inl ⟨rfl, rfl⟩)

theorem State.Step.mono {allowed' : Write Context Memory → Prop} (h : s.Step allowed t)
    (hallowed : ∀ write, allowed write → allowed' write) : s.Step allowed' t := by
  cases h with
  | idle runs nextRun issued accounts => exact .idle runs nextRun issued accounts
  | write organizationId id write h => exact .write organizationId id write (hallowed write h)
  | create row admitted id status token requester conversation =>
    exact .create row admitted id status token requester conversation

/-! ### Requests -/

theorem authorize_ok {user actor : User} {clientId : String}
    (h : authorizeClientAgentStaff user clientId s = .ok (actor, t)) : s = t ∧ actor ∈ s.users := by
  obtain ⟨_, _, hget, h⟩ := bind_eq_ok.mp h
  obtain ⟨rfl, rfl⟩ := get_eq_ok.mp hget
  generalize hfind : s.users.find? _ = found at h
  cases found with
  | none => cases h
  | some found =>
    obtain ⟨_, _, hstaff, h⟩ := bind_eq_ok.mp h
    obtain ⟨-, rfl⟩ := check_eq_ok.mp hstaff
    obtain ⟨_, _, hclient, h⟩ := bind_eq_ok.mp h
    obtain ⟨-, rfl⟩ := check_eq_ok.mp hclient
    obtain ⟨rfl, rfl⟩ := pure_eq_ok.mp h
    exact ⟨rfl, List.mem_of_find?_eq_some hfind⟩

theorem scope_ok {user actor : User} {clientId conversationId : String} {requireActive : Bool}
    (h : scope user clientId conversationId requireActive s = .ok (actor, t)) :
    s = t ∧ actor ∈ s.users ∧ ∃ conversation ∈ s.conversations,
      conversation.id = conversationId ∧ conversation.organizationId = actor.organizationId := by
  obtain ⟨_, _, hactor, h⟩ := bind_eq_ok.mp h
  obtain ⟨rfl, hmem⟩ := authorize_ok hactor
  obtain ⟨_, _, hget, h⟩ := bind_eq_ok.mp h
  obtain ⟨rfl, rfl⟩ := get_eq_ok.mp hget
  generalize hfind : s.conversations.find? _ = found at h
  cases found with
  | none => cases h
  | some found =>
    obtain ⟨_, _, harchived, h⟩ := bind_eq_ok.mp h
    obtain ⟨-, rfl⟩ := check_eq_ok.mp harchived
    obtain ⟨rfl, rfl⟩ := pure_eq_ok.mp h
    have hfound := List.find?_some hfind
    simp only [Bool.and_eq_true, decide_eq_true_eq] at hfound
    exact ⟨rfl, hmem, found, List.mem_of_find?_eq_some hfind, hfound.1.1, hfound.2⟩

theorem findScopedRun_ok {actor : User} {conversationId : String} {runId : ℕ}
    {run : AgentRun Context Memory}
    (h : findScopedRun actor conversationId runId s = .ok (run, t)) : s = t := by
  obtain ⟨_, _, hget, h⟩ := bind_eq_ok.mp h
  obtain ⟨rfl, rfl⟩ := get_eq_ok.mp hget
  generalize s.runs.find? _ = found at h
  cases found with
  | none => cases h
  | some found => exact (pure_eq_ok.mp h).2

theorem queue_ok {setting : Setting} {actor : User} {input : Question} {profileRevision : ℕ}
    {row : AgentRun Context Memory} (hactor : actor ∈ s.users)
    (hconversation : ∃ conversation ∈ s.conversations, conversation.id = input.conversationId ∧
      conversation.organizationId = actor.organizationId)
    (h : queueClientAgentRunInTransaction setting actor input profileRevision s = .ok (row, t)) :
    s.Step allowed t := by
  obtain ⟨_, _, hget, h⟩ := bind_eq_ok.mp h
  obtain ⟨rfl, rfl⟩ := get_eq_ok.mp hget
  obtain ⟨_, _, hcreate, h⟩ := bind_eq_ok.mp h
  obtain ⟨_, _, hrecorded, h⟩ := bind_eq_ok.mp h
  obtain ⟨-, rfl⟩ := check_eq_ok.mp hrecorded
  obtain ⟨_, _, haudited, h⟩ := bind_eq_ok.mp h
  obtain ⟨-, rfl⟩ := check_eq_ok.mp haudited
  obtain ⟨-, rfl⟩ := pure_eq_ok.mp h
  obtain ⟨_, _, hget, hcreate⟩ := bind_eq_ok.mp hcreate
  obtain ⟨rfl, rfl⟩ := get_eq_ok.mp hget
  obtain ⟨_, _, hcheck, hcreate⟩ := bind_eq_ok.mp hcreate
  obtain ⟨hadmits, rfl⟩ := check_eq_ok.mp hcheck
  obtain rfl := set_eq_ok.mp hcreate
  exact .create _ hadmits rfl rfl rfl ⟨actor, hactor, rfl, rfl⟩ hconversation

theorem startRun_ok {setting : Setting} {user : User} {input : Question}
    {row : AgentRun Context Memory} (h : startRun setting user input s = .ok (row, t)) :
    s.Step allowed t := by
  obtain ⟨actor, _, hscope, h⟩ := bind_eq_ok.mp h
  obtain ⟨rfl, hactor, hconversation⟩ := scope_ok hscope
  obtain ⟨_, _, hget, h⟩ := bind_eq_ok.mp h
  obtain ⟨rfl, rfl⟩ := get_eq_ok.mp hget
  generalize s.runs.find? _ = existing at h
  cases existing with
  | some existing =>
    obtain ⟨_, _, hsame, h⟩ := bind_eq_ok.mp h
    obtain ⟨-, rfl⟩ := check_eq_ok.mp hsame
    obtain ⟨-, rfl⟩ := pure_eq_ok.mp h
    exact .refl _
  | none =>
    unfold queueNew at h
    generalize setting.profile.filter _ = profile at h
    cases profile with
    | none => cases h
    | some profile =>
      obtain ⟨_, _, hget, h⟩ := bind_eq_ok.mp h
      obtain ⟨rfl, rfl⟩ := get_eq_ok.mp hget
      obtain ⟨_, _, hpending, h⟩ := bind_eq_ok.mp h
      obtain ⟨-, rfl⟩ := check_eq_ok.mp hpending
      exact queue_ok hactor hconversation h

theorem cancelRun_ok {setting : Setting} {user : User} {clientId conversationId : String}
    {runId : ℕ} {row : AgentRun Context Memory}
    (h : cancelRun setting user clientId conversationId runId s = .ok (row, t)) :
    s.Step Write.Silent t := by
  obtain ⟨actor, _, hscope, h⟩ := bind_eq_ok.mp h
  obtain ⟨rfl, -⟩ := scope_ok hscope
  obtain ⟨current, _, hfind, h⟩ := bind_eq_ok.mp h
  obtain rfl := findScopedRun_ok hfind
  obtain ⟨_, _, hrole, h⟩ := bind_eq_ok.mp h
  obtain ⟨-, rfl⟩ := check_eq_ok.mp hrole
  split at h
  · obtain ⟨-, rfl⟩ := pure_eq_ok.mp h
    exact .refl _
  · obtain ⟨_, _, hcheck, h⟩ := bind_eq_ok.mp h
    obtain ⟨hactive, rfl⟩ := check_eq_ok.mp hcheck
    obtain ⟨_, _, hget, h⟩ := bind_eq_ok.mp h
    obtain ⟨rfl, rfl⟩ := get_eq_ok.mp hget
    obtain ⟨_, _, hset, h⟩ := bind_eq_ok.mp h
    obtain rfl := set_eq_ok.mp hset
    obtain ⟨_, _, hfound, h⟩ := bind_eq_ok.mp h
    obtain rfl := findScopedRun_ok hfound
    obtain ⟨_, _, hcancelled, h⟩ := bind_eq_ok.mp h
    obtain ⟨-, rfl⟩ := check_eq_ok.mp hcancelled
    obtain ⟨_, _, haudited, h⟩ := bind_eq_ok.mp h
    obtain ⟨-, rfl⟩ := check_eq_ok.mp haudited
    obtain ⟨-, rfl⟩ := pure_eq_ok.mp h
    exact .write _ _ _ hactive

theorem reviewRun_ok {setting : Setting} {user : User} {clientId conversationId : String}
    {runId : ℕ} {row : AgentRun Context Memory}
    (h : reviewRun setting user clientId conversationId runId s = .ok (row, t)) :
    s.Step allowed t := by
  obtain ⟨actor, _, hscope, h⟩ := bind_eq_ok.mp h
  obtain ⟨rfl, -⟩ := scope_ok hscope
  obtain ⟨current, _, hfind, h⟩ := bind_eq_ok.mp h
  obtain rfl := findScopedRun_ok hfind
  obtain ⟨_, _, hrequester, h⟩ := bind_eq_ok.mp h
  obtain ⟨-, rfl⟩ := check_eq_ok.mp hrequester
  obtain ⟨_, _, hreviewable, h⟩ := bind_eq_ok.mp h
  obtain ⟨-, rfl⟩ := check_eq_ok.mp hreviewable
  obtain ⟨_, _, hget, h⟩ := bind_eq_ok.mp h
  obtain ⟨rfl, rfl⟩ := get_eq_ok.mp hget
  split at h
  · obtain ⟨-, rfl⟩ := pure_eq_ok.mp h
    exact .refl _
  · obtain ⟨_, _, hset, h⟩ := bind_eq_ok.mp h
    obtain rfl := set_eq_ok.mp hset
    obtain ⟨_, _, haudited, h⟩ := bind_eq_ok.mp h
    obtain ⟨-, rfl⟩ := check_eq_ok.mp haudited
    obtain ⟨-, rfl⟩ := pure_eq_ok.mp h
    exact .idle rfl rfl (Nat.le_refl _) (.inl ⟨rfl, rfl⟩)

theorem transact_step {α : Type} {choice : Choice Context}
    {transaction : Transaction Context Memory α}
    (h : ∀ a t, transaction s = .ok (a, t) → s.Step allowed t) :
    s.Step allowed (choice.transact transaction s).2 := by
  have hcommit : s.Step allowed (commit transaction s).2 := by
    rcases commit_cases transaction s with ⟨e, -, hcommit⟩ | ⟨a, t, hok, hcommit⟩
    · rw [hcommit]
      exact .refl s
    · rw [hcommit]
      exact h a t hok
  unfold Choice.transact
  cases choice.fault with
  | none => exact hcommit
  | before => exact .refl s
  | after => exact hcommit

/-! ### Statements -/

theorem exec_step (sources : Sources Context Memory) {β : Type} (st : Stmt Context Memory β)
    (choice : Choice Context) (s : State Context Memory) :
    s.Step Write.Lawful (exec sources st choice s).2 := by
  cases st with
  | randomUUID => exact .idle rfl rfl (Nat.le_succ _) (.inl ⟨rfl, rfl⟩)
  | claim organizationId id token startedAt deadlineAt => exact .write _ _ _ trivial
  | expire organizationId id claimToken now => exact .write _ _ _ trivial
  | settle organizationId id token now outcome => exact .write _ _ _ trivial
  | prepare organizationId id token now prepared =>
    simp only [exec]
    cases choice.fault with
    | none => exact .write _ _ _ trivial
    | before => exact .refl s
    | after => exact .write _ _ _ trivial
  | start user input => exact transact_step fun _ _ => startRun_ok
  | cancel user clientId conversationId id =>
    exact transact_step fun _ _ h => (cancelRun_ok h).mono fun _ => Write.Silent.lawful
  | review user clientId conversationId id => exact transact_step fun _ _ => reviewRun_ok
  | setAccounts users clients conversations =>
    simp only [exec]
    split
    · rename_i href
      exact .idle rfl rfl (Nat.le_refl _) (.inr href)
    · exact .refl s
  | _ => exact .refl s

end Steps

/-! ### Keys -/

section Keys

variable {Context Memory : Type} {s t : State Context Memory}

/-- The primary, unique and foreign keys of the tables. -/
structure State.Tables (s : State Context Memory) : Prop where
  ids : (s.runs.map (·.id)).Nodup
  below : ∀ run ∈ s.runs, run.id < s.nextRun
  intents : (s.runs.map (·.intent)).Nodup
  oneActive : ((s.runs.filter (·.status.active)).map (·.scope)).Nodup
  referenced : s.referenced s.users s.conversations = true

theorem State.referenced_iff {users : List User} {conversations : List Conversation} :
    s.referenced users conversations = true ↔
      ((users.map (·.id)).Nodup ∧ (conversations.map (·.id)).Nodup) ∧
      ∀ run ∈ s.runs, (∃ user ∈ users, user.id = run.requestedById ∧
        user.organizationId = run.organizationId) ∧
        ∃ conversation ∈ conversations, conversation.id = run.conversationId ∧
          conversation.organizationId = run.organizationId := by
  simp only [State.referenced, Bool.and_eq_true, decide_eq_true_eq, List.all_eq_true,
    List.any_eq_true]

theorem State.Tables.accounts (h : s.Tables) (runs : t.runs = s.runs)
    (nextRun : t.nextRun = s.nextRun)
    (accounts : (t.users = s.users ∧ t.conversations = s.conversations) ∨
      s.referenced t.users t.conversations = true) : t.Tables := by
  refine ⟨runs ▸ h.ids, runs ▸ nextRun ▸ h.below, runs ▸ h.intents, runs ▸ h.oneActive, ?_⟩
  have hsame : t.referenced t.users t.conversations = s.referenced t.users t.conversations := by
    simp only [State.referenced, runs]
  rw [hsame]
  rcases accounts with ⟨husers, hconversations⟩ | href
  · rw [husers, hconversations]
    exact h.referenced
  · exact href

/-- A write moves a run on and leaves its id, its intent and its scope. -/
theorem State.Tables.updateRuns (h : s.Tables) {organizationId : String} {id : ℕ}
    {write : Write Context Memory} (hlawful : write.Lawful) :
    (s.updateRuns organizationId id write).Tables := by
  obtain ⟨hkeys, hrefs⟩ := State.referenced_iff.mp h.referenced
  have hkept : ∀ run ∈ s.runs, write.at organizationId id run = true →
      run.Moves (write.set run) := fun run _ hat =>
    write.moves hlawful (Write.at_iff.mp hat).2.2
  refine ⟨?_, ?_, ?_, ?_, ?_⟩
  · rw [State.updateRuns, map_update fun run hrun hat => (hkept run hrun hat).id]
    exact h.ids
  · intro run hrun
    rcases mem_update.mp hrun with ⟨old, hold, hat, rfl⟩ | ⟨hold, -⟩
    · rw [(hkept old hold hat).id]
      exact h.below old hold
    · exact h.below run hold
  · rw [State.updateRuns, map_update fun run hrun hat => (hkept run hrun hat).intent]
    exact h.intents
  · refine h.oneActive.sublist (filter_update_sublist ?_ ?_)
    · exact fun run hrun hat => (hkept run hrun hat).scope
    · exact fun run hrun hat => (hkept run hrun hat).active
  · refine State.referenced_iff.mpr ⟨hkeys, fun run hrun => ?_⟩
    rcases mem_update.mp hrun with ⟨old, hold, hat, rfl⟩ | ⟨hold, -⟩
    · have hintent := (hkept old hold hat).intent
      have hscope := (hkept old hold hat).scope
      simp only [AgentRun.intent, AgentRun.scope, Prod.mk.injEq] at hintent hscope
      rw [hintent.2.1, hintent.1, hscope.2]
      exact hrefs old hold
    · exact hrefs run hold

theorem State.Tables.create (h : s.Tables) {row : AgentRun Context Memory}
    (admitted : s.admits row = true) (id : row.id = s.nextRun) (status : row.status = .queued)
    (requester : ∃ user ∈ s.users, user.id = row.requestedById ∧
      user.organizationId = row.organizationId)
    (conversation : ∃ other ∈ s.conversations, other.id = row.conversationId ∧
      other.organizationId = row.organizationId) :
    State.Tables { s with runs := s.runs ++ [row], nextRun := s.nextRun + 1 } := by
  obtain ⟨hkeys, hrefs⟩ := State.referenced_iff.mp h.referenced
  have hadmits : ∀ run ∈ s.runs, run.intent ≠ row.intent ∧
      (run.status.active = false ∨ run.scope ≠ row.scope) := by
    intro run hrun
    have hrow := List.all_eq_true.mp admitted run hrun
    have hactive : row.status.active = true := by
      rw [status]
      rfl
    simpa [hactive] using hrow
  refine ⟨?_, ?_, ?_, ?_, ?_⟩
  · refine nodup_map_concat h.ids fun run hrun => ?_
    rw [id]
    exact (h.below run hrun).ne
  · intro run hrun
    rcases List.mem_append.mp hrun with hrun | hrun
    · exact Nat.lt_succ_of_lt (h.below run hrun)
    · rw [List.mem_singleton.mp hrun, id]
      exact Nat.lt_succ_self _
  · exact nodup_map_concat h.intents fun run hrun => (hadmits run hrun).1
  · rw [List.filter_append, List.filter_singleton, status]
    refine nodup_map_concat h.oneActive fun run hrun => ?_
    obtain ⟨hrun, hactive⟩ := List.mem_filter.mp hrun
    exact (hadmits run hrun).2.resolve_left (by rw [hactive]; nofun)
  · refine State.referenced_iff.mpr ⟨hkeys, fun run hrun => ?_⟩
    rcases List.mem_append.mp hrun with hrun | hrun
    · exact hrefs run hrun
    · obtain rfl := List.mem_singleton.mp hrun
      exact ⟨requester, conversation⟩

theorem State.Tables.step (h : s.Tables) (hstep : s.Step Write.Lawful t) : t.Tables := by
  cases hstep with
  | idle runs nextRun issued accounts => exact h.accounts runs nextRun accounts
  | write organizationId id write hlawful => exact h.updateRuns hlawful
  | create row admitted id status token requester conversation =>
    exact h.create admitted id status requester conversation

/-- A run of the table is still there after a step, moved on or as it was. -/
theorem State.Step.moves (hstep : s.Step Write.Lawful t) {run : AgentRun Context Memory}
    (hrun : run ∈ s.runs) : ∃ next ∈ t.runs, run.Moves next := by
  cases hstep with
  | idle runs nextRun issued accounts => exact ⟨run, runs ▸ hrun, .refl run⟩
  | write organizationId id write hlawful =>
    cases hat : write.at organizationId id run with
    | true =>
      exact ⟨_, mem_update.mpr (.inl ⟨run, hrun, hat, rfl⟩),
        write.moves hlawful (Write.at_iff.mp hat).2.2⟩
    | false => exact ⟨run, mem_update.mpr (.inr ⟨hrun, hat⟩), .refl run⟩
  | create => exact ⟨run, List.mem_append_left _ hrun, .refl run⟩

/-- A requester's key names one run, and a conversation has one run that is active. -/
theorem State.Tables.unique (h : s.Tables) :
    (s.runs.map fun run => (run.requestedById, run.idempotencyKey)).Nodup ∧
      ((s.runs.filter (·.status.active)).map (·.conversationId)).Nodup := by
  obtain ⟨⟨husers, hconversations⟩, hrefs⟩ := State.referenced_iff.mp h.referenced
  constructor
  · refine List.Nodup.map_on (fun run hrun other hother heq => ?_) (List.Nodup.of_map _ h.ids)
    obtain ⟨hrequester, hkey⟩ := Prod.mk.inj heq
    obtain ⟨user, huser, hid, horganization⟩ := (hrefs run hrun).1
    obtain ⟨user', huser', hid', horganization'⟩ := (hrefs other hother).1
    obtain rfl := row_eq husers huser huser' (hid.trans (hrequester.trans hid'.symm))
    refine row_eq h.intents hrun hother ?_
    rw [AgentRun.intent, AgentRun.intent, hrequester, hkey, ← horganization, ← horganization']
  · refine List.Nodup.map_on (fun run hrun other hother heq => ?_)
      ((List.Nodup.of_map _ h.ids).filter _)
    obtain ⟨conversation, hmem, hid, horganization⟩ := (hrefs run (List.mem_of_mem_filter hrun)).2
    obtain ⟨conversation', hmem', hid', horganization'⟩ :=
      (hrefs other (List.mem_of_mem_filter hother)).2
    obtain rfl := row_eq hconversations hmem hmem' (hid.trans (heq.trans hid'.symm))
    refine row_eq h.oneActive hrun hother ?_
    rw [AgentRun.scope, AgentRun.scope, heq, ← horganization, ← horganization']

end Keys

end Ashbi.Agents
