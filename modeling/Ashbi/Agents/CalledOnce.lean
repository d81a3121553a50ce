import Ashbi.Agents.Dispatch

/-! The provider is called at most once for a run, with what was committed to the run before. -/

namespace Ashbi.Agents

open Interleaving Sql

section Settlement

variable {Context Memory : Type} {sources : Sources Context Memory} {s t : State Context Memory}
  {run next : AgentRun Context Memory}

/-- The status says that the call was answered, or that it was known to fail. -/
def Status.Known (status : Status) : Prop := status = .succeeded ∨ status = .failed

theorem Write.not_known {write : Write Context Memory} (hsilent : write.Silent) :
    ¬ (write.set run).status.Known := by
  cases write with
  | expire claimToken now => rintro (h | h) <;> cases h
  | cancel conversationId status now => rintro (h | h) <;> cases h
  | _ => cases hsilent

/-- What a run is after an update, where its status has changed. -/
theorem updated (htables : s.Tables) {organizationId : String} {id : ℕ}
    {write : Write Context Memory} (hrun : run ∈ s.runs)
    (hnext : next ∈ (s.updateRuns organizationId id write).runs) (hid : next.id = run.id)
    (hstatus : next.status ≠ run.status) :
    next = write.set run ∧ write.at organizationId id run = true := by
  rcases mem_update.mp hnext with ⟨old, hold, hat, rfl⟩ | ⟨hnext, -⟩
  · obtain rfl := row_eq htables.ids hold hrun ((write.keeps old).1.symm.trans hid)
    exact ⟨rfl, hat⟩
  · rw [row_eq htables.ids hnext hrun hid] at hstatus
    exact absurd rfl hstatus

theorem State.Step.not_known (htables : s.Tables) (hstep : s.Step Write.Silent t)
    (hrun : run ∈ s.runs) (hnext : next ∈ t.runs) (hid : next.id = run.id)
    (hstatus : next.status ≠ run.status) : ¬ next.status.Known := by
  cases hstep with
  | idle runs nextRun issued accounts =>
    rw [row_eq htables.ids (runs ▸ hnext) hrun hid] at hstatus
    exact absurd rfl hstatus
  | write organizationId id write hsilent =>
    rw [(updated htables hrun hnext hid hstatus).1]
    exact write.not_known hsilent
  | create row admitted hrow status token requester conversation =>
    rcases List.mem_append.mp hnext with hnext | hnext
    · rw [row_eq htables.ids hnext hrun hid] at hstatus
      exact absurd rfl hstatus
    · obtain rfl := List.mem_singleton.mp hnext
      rintro (h | h) <;> (rw [status] at h; cases h)

/-- A run that comes to be SUCCEEDED or FAILED was settled by who had its token. -/
theorem settled_known (htables : s.Tables) {β : Type} {st : Stmt Context Memory β}
    {choice : Choice Context} (i : ℕ) (hrun : run ∈ s.runs)
    (hnext : next ∈ (exec sources st choice s).2.runs) (hid : next.id = run.id)
    (hstatus : next.status ≠ run.status) (hknown : next.status.Known) :
    ∃ token now status, run.heldBy token now = true ∧ next.finishedAt = some now ∧
      .settled i run.id status now ∈ st.events i choice s := by
  cases htelling : st.telling with
  | false =>
    have hsilent := silent_step sources htelling choice s
    exact absurd hknown (hsilent.not_known htables hrun hnext hid hstatus)
  | true =>
    cases st with
    | randomUUID | chat =>
      rw [row_eq htables.ids hnext hrun hid] at hstatus
      exact absurd rfl hstatus
    | claim organizationId id token startedAt deadlineAt =>
      rw [(updated htables hrun hnext hid hstatus).1] at hknown
      rcases hknown with h | h <;> cases h
    | prepare organizationId id token now prepared =>
      have hsame (hnext : next ∈ (s.updateRuns organizationId id
          (.prepare token now prepared)).runs) : False := by
        rw [(updated htables hrun hnext hid hstatus).1] at hstatus
        exact hstatus rfl
      simp only [exec] at hnext
      cases hfault : choice.fault with
      | none => rw [hfault] at hnext; exact (hsame hnext).elim
      | after => rw [hfault] at hnext; exact (hsame hnext).elim
      | before =>
        rw [hfault] at hnext
        rw [row_eq htables.ids hnext hrun hid] at hstatus
        exact absurd rfl hstatus
    | settle organizationId id token time outcome =>
      obtain ⟨rfl, hat⟩ := updated htables hrun hnext hid hstatus
      have hheld := (Write.at_iff.mp hat).2.2
      refine ⟨token, time, outcome.status, hheld, by cases outcome <;> rfl, ?_⟩
      rcases written_cases htables i organizationId id (.settle token time outcome) with
        ⟨-, -, hnone⟩ | ⟨row, hrow, hrowId, -, hevents, -⟩
      · rw [hnone run hrun] at hat
        cases hat
      · obtain rfl := row_eq htables.ids hrow hrun (hrowId.trans (Write.at_iff.mp hat).1.symm)
        rw [Stmt.events, hevents]
        exact List.mem_cons_self
    | now | findRun | sourceConversation | expire | activeConversation | activeUser | readProfile
      | buildContext | buildMemory | reply | start | cancel | review | setAccounts => cases htelling

end Settlement

/-! ### Runs -/

section Runs

variable {Context Memory : Type} {sources : Sources Context Memory} {s₀ : State Context Memory}
  {tr : List (Occurrence (machine sources))} {c : Config (machine sources)}

/-- No run has been started, and no two accounts or conversations have one id. -/
structure State.Fresh (s : State Context Memory) : Prop where
  runs : s.runs = []
  users : (s.users.map (·.id)).Nodup
  conversations : (s.conversations.map (·.id)).Nodup

theorem Chronicle.nil : Chronicle ([] : List (Event Context Memory)) where
  drawnOnce := List.nodup_nil
  tokensOnce := List.nodup_nil
  claimedOnce := List.nodup_nil
  claimDrawn _ h := absurd h List.not_mem_nil
  chattedOnce := List.nodup_nil
  chatClaimed _ h := absurd h List.not_mem_nil
  chatted _ _ _ h := absurd h List.not_mem_nil
  settled _ _ _ _ h := absurd h List.not_mem_nil

theorem State.Fresh.ledger (h : s₀.Fresh) : Ledger s₀ [] := by
  have hnone : ∀ run, run ∉ s₀.runs := fun run hrun => by
    rw [h.runs] at hrun
    cases hrun
  have htables : s₀.Tables := by
    refine ⟨?_, fun run hrun => absurd hrun (hnone run), ?_, ?_, ?_⟩
    · rw [h.runs]
      exact List.nodup_nil
    · rw [h.runs]
      exact List.nodup_nil
    · rw [h.runs]
      exact List.nodup_nil
    · exact State.referenced_iff.mpr ⟨⟨h.users, h.conversations⟩,
        fun run hrun => absurd hrun (hnone run)⟩
  exact ⟨.nil, htables, fun _ hd => absurd hd List.not_mem_nil,
    fun _ hc => absurd hc List.not_mem_nil, fun run hrun => absurd hrun (hnone run),
    fun _ _ hp => absurd hp List.not_mem_nil⟩

/-- The call of the provider that a statement is. -/
def Stmt.call? : {β : Type} → Stmt Context Memory β → Option (ℕ × Prompt Context Memory)
  | _, .chat id prompt => some (id, prompt)
  | _, _ => none

/-- The runs for which the provider was called, one for each call. -/
def calls (tr : List (Occurrence (machine sources))) : List ℕ :=
  tr.filterMap fun o => o.stmt.call?.map (·.1)

/-- The claims that took a run. -/
def claimsOf (tr : List (Occurrence (machine sources))) : List Claim :=
  claims (tr.flatMap (events sources))

theorem chats_flatMap : chats (tr.flatMap (events sources)) = calls tr := by
  induction tr with
  | nil => rfl
  | cons o tr ih =>
    have hsplit : calls (o :: tr) = (o.stmt.call?.map (·.1)).toList ++ calls tr := by
      unfold calls
      cases hcall : o.stmt.call? <;> simp [hcall]
    rw [List.flatMap_cons, hsplit, ← ih, chats, List.filterMap_append, ← chats]
    congr 1
    obtain ⟨i, st, choice, s⟩ := o
    have hwritten (organizationId : String) (id : ℕ) (write : Write Context Memory) :
        (s.written i organizationId id write).filterMap (·.chat?) = [] := by
      rw [State.written]
      cases s.runs.find? (write.at organizationId id) with
      | none => rfl
      | some run => cases write <;> rfl
    cases st with
    | claim organizationId id token startedAt deadlineAt => exact hwritten ..
    | settle organizationId id token now outcome => exact hwritten ..
    | prepare organizationId id token now prepared =>
      simp only [events, Stmt.events]
      split
      · rfl
      · exact hwritten ..
    | _ => rfl

theorem events_of_call {o : Occurrence (machine sources)} {id : ℕ} {prompt : Prompt Context Memory}
    (hcall : o.stmt.call? = some (id, prompt)) :
    .chatted id prompt (o.pre.runs.find? (·.id = id)) ∈ events sources o := by
  obtain ⟨i, st, choice, s⟩ := o
  cases st with
  | chat id' prompt' =>
    obtain ⟨rfl, rfl⟩ := Prod.mk.inj (Option.some.inj hcall)
    exact List.mem_cons_self
  | _ => cases hcall

theorem Run.ledger (hfresh : s₀.Fresh)
    (h : Run (M := machine sources) (Deployed sources) s₀ tr c) :
    Ledger c.state (tr.flatMap (events sources)) ∧ ∀ (k : ℕ) o, tr[k]? = some o →
      Ledger o.pre ((tr.take k).flatMap (events sources)) := by
  obtain ⟨hend, hall, -⟩ := (watcher sources).run (fun _ hp _ _ _ => deployed_safe hp)
    hfresh.ledger (fun _ => trivial) h fun _ _ => trivial
  exact ⟨hend, hall⟩

/-- In every run: a requester's key has at most one run, and a conversation at most one that is
active; the provider is called at most once for a run, and then with the context and the memory
that the run already holds; the status of a run moves as listed and an ended run is final; and a
run comes to be SUCCEEDED or FAILED only by the thread that claimed it, before the deadline. -/
theorem provider_called_once (hfresh : s₀.Fresh)
    (h : Run (M := machine sources) (Deployed sources) s₀ tr c) :
    (c.state.runs.map fun run => (run.requestedById, run.idempotencyKey)).Nodup ∧
    ((c.state.runs.filter (·.status.active)).map (·.conversationId)).Nodup ∧
    (calls tr).Nodup ∧ ((claimsOf tr).map (·.runId)).Nodup ∧
    ∀ (k : ℕ) o, tr[k]? = some o →
      (∀ id prompt, o.stmt.call? = some (id, prompt) →
        ∃ run ∈ o.pre.runs, run.id = id ∧ run.Holds prompt) ∧
      (∀ run ∈ o.pre.runs, ∃ next ∈ o.post.runs, run.Moves next) ∧
      ∀ run ∈ o.pre.runs, ∀ next ∈ o.post.runs, next.id = run.id → next.status ≠ run.status →
        next.status.Known → ∃ claim ∈ claimsOf (tr.take k), claim.runId = run.id ∧
          claim.thread = o.thread ∧ run.deadlineAt = some claim.deadlineAt ∧
          ∃ finishedAt, next.finishedAt = some finishedAt ∧ finishedAt < claim.deadlineAt := by
  obtain ⟨hend, hall⟩ := Run.ledger hfresh h
  obtain ⟨hkeys, hactive⟩ := hend.tables.unique
  refine ⟨hkeys, hactive, chats_flatMap ▸ hend.chattedOnce, hend.claimedOnce, fun k o ho => ?_⟩
  have hpre := hall k o ho
  have hmem {e : Event Context Memory} (he : e ∈ events sources o) :
      e ∈ tr.flatMap (events sources) :=
    List.mem_flatMap.mpr ⟨o, List.mem_of_getElem? ho, he⟩
  refine ⟨fun id prompt hcall => ?_, fun run hrun => ?_,
    fun run hrun next hnext hid hne hknown => ?_⟩
  · obtain ⟨run, hfind, hholds⟩ := hend.chatted id prompt _ (hmem (events_of_call hcall))
    have hrun := List.mem_of_find?_eq_some hfind
    exact ⟨run, hrun, key_of_find? hfind, hholds⟩
  · exact (exec_step sources o.stmt o.choice o.pre).moves hrun
  · obtain ⟨token, now, status, hheld, hfinished, hsettled⟩ :=
      settled_known hpre.tables o.thread hrun hnext hid hne hknown
    simp only [AgentRun.heldBy, Bool.and_eq_true, decide_eq_true_eq] at hheld
    obtain ⟨⟨-, htoken⟩, -⟩ := hheld
    obtain ⟨claim, hclaim, -, hclaimRun, hdeadline⟩ := hpre.holder run hrun token htoken
    obtain ⟨claim', hclaim', hthread, hclaimRun', hbefore⟩ :=
      hend.settled o.thread run.id status now (hmem hsettled)
    have hlater : claim ∈ claims (tr.flatMap (events sources)) := by
      obtain ⟨e, he, hsome⟩ := List.mem_filterMap.mp hclaim
      refine List.mem_filterMap.mpr ⟨e, ?_, hsome⟩
      obtain ⟨o', ho', heo⟩ := List.mem_flatMap.mp he
      exact List.mem_flatMap.mpr ⟨o', List.mem_of_mem_take ho', heo⟩
    obtain rfl := row_eq hend.claimedOnce hlater hclaim' (hclaimRun.trans hclaimRun'.symm)
    exact ⟨claim, hclaim, hclaimRun, hthread, hdeadline, now, hfinished, hbefore⟩

end Runs

/-! ### Two deliveries of one run -/

def sampleSources : Sources String ℕ where
  contextBytes _ := 4
  promptBytes _ := 90
  buildMemory runs _ := runs.length

def sampleUser : User := ⟨"ann", "org", "ADMIN", true⟩

def sampleState : State String ℕ where
  users := [sampleUser]
  clients := [⟨"acme", "org", false⟩]
  conversations := [⟨"talk", "org", "acme", none⟩]
  runs := []
  reviews := []
  issued := 0
  nextRun := 0

def sampleQuestion : Question := ⟨"acme", "talk", "What is next?", "key", "hash"⟩

def samplePrograms : List (Prog (Stmt String ℕ) Unit) :=
  [(startClientAgentRun sampleUser sampleQuestion).alone,
    (processClientAgentRun sampleSources "org" 0).alone,
    (processClientAgentRun sampleSources "org" 0).alone]

theorem samplePrograms_deployed : ∀ p ∈ samplePrograms, Deployed sampleSources p := by
  intro p hp
  simp only [samplePrograms, List.mem_cons, List.not_mem_nil, or_false] at hp
  rcases hp with rfl | rfl | rfl
  · exact .start sampleUser sampleQuestion
  · exact .process "org" 0
  · exact .process "org" 0

def sampleChoice : Choice String where
  time := 1000
  fault := .none
  reply := .answered (some "The draft is due.")
  profile := .ok ⟨"acme", "Ash", "", true, 1, ["client-work"]⟩
  context := .ok (some "Acme")
  recorded := true
  audited := true

/-- Both jobs find the run queued; then the first claims it and both run to their end. -/
def sampleSchedule : List (ℕ × Choice String) :=
  ([0, 1, 2] ++ List.replicate 22 1 ++ List.replicate 22 2).map fun i => (i, sampleChoice)

theorem called_once_for_two_jobs :
    calls ((⟨sampleState, samplePrograms⟩ : Config (machine sampleSources)).played
      sampleSchedule) = [0] ∧
    (calls ((⟨sampleState, samplePrograms⟩ : Config (machine sampleSources)).played
      sampleSchedule)).Nodup := by
  have hrun := @Run.of_schedule (machine sampleSources) _ sampleState samplePrograms
    samplePrograms_deployed sampleSchedule
  have hfresh : sampleState.Fresh := ⟨rfl, by decide, by decide⟩
  exact ⟨by decide +kernel, (provider_called_once hfresh hrun).2.2.1⟩

end Ashbi.Agents
