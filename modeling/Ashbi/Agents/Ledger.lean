import Ashbi.Agents.Tables
import Ashbi.Interleaving.Watch

/-! What the jobs do to the runs, event by event. -/

namespace Ashbi.Agents

open Interleaving Sql

/-- A claim that took a run, and the deadline that it stored. -/
structure Claim where
  thread : ℕ
  runId : ℕ
  token : ℕ
  deadlineAt : Time
  deriving DecidableEq

inductive Event (Context Memory : Type)
  | drawn (thread token : ℕ)
  | claimed (claim : Claim)
  | prepared (runId : ℕ) (prepared : Prepared Context Memory)
  /-- The provider was called while the table held the run as it was found. -/
  | chatted (runId : ℕ) (prompt : Prompt Context Memory)
      (found : Option (AgentRun Context Memory))
  | settled (thread runId : ℕ) (status : Status) (now : Time)
  deriving DecidableEq

section Events

variable {Context Memory : Type}

/-- The event of an update that changes a run. -/
def Write.event (i : ℕ) (run : AgentRun Context Memory) :
    Write Context Memory → Option (Event Context Memory)
  | .claim token _ deadlineAt => some (.claimed ⟨i, run.id, token, deadlineAt⟩)
  | .settle _ now outcome => some (.settled i run.id outcome.status now)
  | .prepare _ _ prepared => some (.prepared run.id prepared)
  | .expire _ _ | .cancel _ _ _ => none

def State.written (s : State Context Memory) (i : ℕ) (organizationId : String) (id : ℕ)
    (write : Write Context Memory) : List (Event Context Memory) :=
  ((s.runs.find? (write.at organizationId id)).bind (write.event i)).toList

def Stmt.events (i : ℕ) {β : Type} (st : Stmt Context Memory β) (choice : Choice Context)
    (s : State Context Memory) : List (Event Context Memory) :=
  match st with
  | .randomUUID => [.drawn i s.issued]
  | .claim organizationId id token startedAt deadlineAt =>
    s.written i organizationId id (.claim token startedAt deadlineAt)
  | .settle organizationId id token time outcome =>
    s.written i organizationId id (.settle token time outcome)
  | .prepare organizationId id token time prepared =>
    if choice.fault = .before then []
    else s.written i organizationId id (.prepare token time prepared)
  | .chat id prompt => [.chatted id prompt (s.runs.find? (·.id = id))]
  | _ => []

/-- The events of an executed statement. -/
def events (sources : Sources Context Memory) (o : Occurrence (machine sources)) :
    List (Event Context Memory) := o.stmt.events o.thread o.choice o.pre

/-! ### Parts of a history -/

@[simp] def Event.draw? : Event Context Memory → Option (ℕ × ℕ)
  | .drawn thread token => some (thread, token)
  | _ => none

@[simp] def Event.claim? : Event Context Memory → Option Claim
  | .claimed claim => some claim
  | _ => none

@[simp] def Event.chat? : Event Context Memory → Option ℕ
  | .chatted runId _ _ => some runId
  | _ => none

@[simp] def Event.settled? : Event Context Memory → Option (ℕ × ℕ × Status × Time)
  | .settled thread runId status now => some (thread, runId, status, now)
  | _ => none

def draws (h : List (Event Context Memory)) : List (ℕ × ℕ) := h.filterMap (·.draw?)
def claims (h : List (Event Context Memory)) : List Claim := h.filterMap (·.claim?)

/-- The runs for which the provider was called. -/
def chats (h : List (Event Context Memory)) : List ℕ := h.filterMap (·.chat?)

end Events

section Parts

variable {Context Memory : Type} {h : List (Event Context Memory)} {e : Event Context Memory}

@[simp] theorem draws_concat : draws (h ++ [e]) = draws h ++ e.draw?.toList := by
  rw [draws, List.filterMap_append]
  cases e <;> rfl

@[simp] theorem claims_concat : claims (h ++ [e]) = claims h ++ e.claim?.toList := by
  rw [claims, List.filterMap_append]
  cases e <;> rfl

@[simp] theorem chats_concat : chats (h ++ [e]) = chats h ++ e.chat?.toList := by
  rw [chats, List.filterMap_append]
  cases e <;> rfl

theorem mem_claims {claim : Claim} : claim ∈ claims h ↔ .claimed claim ∈ h := by
  simp only [claims, List.mem_filterMap]
  constructor
  · rintro ⟨e, he, heq⟩
    cases e with
    | claimed claim' =>
      obtain rfl := Option.some.inj heq
      exact he
    | _ => cases heq
  · intro hclaimed
    exact ⟨_, hclaimed, rfl⟩

theorem mem_chats {id : ℕ} : id ∈ chats h ↔ ∃ prompt found, .chatted id prompt found ∈ h := by
  simp only [chats, List.mem_filterMap]
  constructor
  · rintro ⟨e, he, heq⟩
    cases e with
    | chatted id' prompt found =>
      obtain rfl := Option.some.inj heq
      exact ⟨prompt, found, he⟩
    | _ => cases heq
  · rintro ⟨prompt, found, hchatted⟩
    exact ⟨_, hchatted, rfl⟩

end Parts

/-! ### The invariant -/

section Invariant

variable {Context Memory : Type}

/-- The run has what it was prepared with. -/
structure AgentRun.Stores (run : AgentRun Context Memory) (prepared : Prepared Context Memory) :
    Prop where
  observedAt : run.contextObservedAt = some prepared.contextObservedAt
  context : run.contextSnapshot = some prepared.context
  memory : run.memorySnapshot = some prepared.memorySnapshot

/-- The context and the memory of a prompt are those that were committed to the run. -/
structure AgentRun.Holds (run : AgentRun Context Memory) (prompt : Prompt Context Memory) :
    Prop where
  observedAt : run.contextObservedAt = some prompt.observedAt
  context : run.contextSnapshot = some prompt.snapshot
  memory : run.memorySnapshot = some prompt.memorySnapshot

/-- What any history of the jobs satisfies. -/
structure Chronicle (h : List (Event Context Memory)) : Prop where
  drawnOnce : ((draws h).map Prod.snd).Nodup
  tokensOnce : ((claims h).map (·.token)).Nodup
  claimedOnce : ((claims h).map (·.runId)).Nodup
  claimDrawn : ∀ claim ∈ claims h, (claim.thread, claim.token) ∈ draws h
  chattedOnce : (chats h).Nodup
  chatClaimed : ∀ id ∈ chats h, ∃ claim ∈ claims h, claim.runId = id
  chatted : ∀ id prompt found, .chatted id prompt found ∈ h →
    ∃ run : AgentRun Context Memory, found = some run ∧ run.Holds prompt
  settled : ∀ i id status now, .settled i id status now ∈ h →
    ∃ claim ∈ claims h, claim.thread = i ∧ claim.runId = id ∧ now < claim.deadlineAt

/-- The runs are what the history has made of them. -/
structure Ledger (s : State Context Memory) (h : List (Event Context Memory)) : Prop
    extends Chronicle h where
  tables : s.Tables
  drawnBelow : ∀ draw ∈ draws h, draw.2 < s.issued
  claimedRow : ∀ claim ∈ claims h, ∃ run ∈ s.runs, run.id = claim.runId ∧ run.status ≠ .queued
  holder : ∀ run ∈ s.runs, ∀ token, run.claimToken = some token → ∃ claim ∈ claims h,
    claim.token = token ∧ claim.runId = run.id ∧ run.deadlineAt = some claim.deadlineAt
  preparedRow : ∀ id prepared, .prepared id prepared ∈ h →
    ∃ run ∈ s.runs, run.id = id ∧ run.Stores prepared

end Invariant

/-! ### Histories grow -/

section Growth

variable {Context Memory : Type} {h : List (Event Context Memory)} {e : Event Context Memory}

theorem Chronicle.chatted_concat (hc : Chronicle h)
    (he : e.chat? = none) (id : ℕ) (prompt : Prompt Context Memory)
    (found : Option (AgentRun Context Memory))
    (hmem : .chatted id prompt found ∈ h ++ [e]) :
    ∃ run : AgentRun Context Memory, found = some run ∧ run.Holds prompt := by
  rcases List.mem_append.mp hmem with hmem | hmem
  · exact hc.chatted id prompt found hmem
  · obtain rfl := List.mem_singleton.mp hmem
    exact absurd he (Option.some_ne_none id)

theorem Chronicle.settled_concat (hc : Chronicle h)
    (he : e.settled? = none) (i id : ℕ) (status : Status)
    (now : Time) (hmem : .settled i id status now ∈ h ++ [e]) :
    ∃ claim ∈ claims (h ++ [e]), claim.thread = i ∧ claim.runId = id ∧ now < claim.deadlineAt := by
  rcases List.mem_append.mp hmem with hmem | hmem
  · obtain ⟨claim, hclaim, hrest⟩ := hc.settled i id status now hmem
    rw [claims_concat]
    exact ⟨claim, List.mem_append_left _ hclaim, hrest⟩
  · obtain rfl := List.mem_singleton.mp hmem
    exact absurd he (Option.some_ne_none _)

theorem Chronicle.drawn (hc : Chronicle h) {i token : ℕ}
    (hnew : ∀ draw ∈ draws h, draw.2 ≠ token) : Chronicle (h ++ [.drawn i token]) := by
  refine ⟨?_, by simpa using hc.tokensOnce, by simpa using hc.claimedOnce, ?_,
    by simpa using hc.chattedOnce, by simpa using hc.chatClaimed, hc.chatted_concat rfl,
    hc.settled_concat rfl⟩
  · rw [draws_concat]
    exact nodup_map_concat hc.drawnOnce hnew
  · intro claim hclaim
    rw [draws_concat]
    apply List.mem_append_left
    exact hc.claimDrawn claim (by simpa using hclaim)

theorem Chronicle.claimed (hc : Chronicle h) {claim : Claim}
    (hdrawn : (claim.thread, claim.token) ∈ draws h)
    (htoken : ∀ other ∈ claims h, other.token ≠ claim.token)
    (hrun : ∀ other ∈ claims h, other.runId ≠ claim.runId) : Chronicle (h ++ [.claimed claim]) := by
  refine ⟨by simpa using hc.drawnOnce, ?_, ?_, ?_, by simpa using hc.chattedOnce, ?_,
    hc.chatted_concat rfl, hc.settled_concat rfl⟩
  · rw [claims_concat]
    exact nodup_map_concat hc.tokensOnce htoken
  · rw [claims_concat]
    exact nodup_map_concat hc.claimedOnce hrun
  · intro other hother
    rw [claims_concat] at hother
    rw [draws_concat]
    apply List.mem_append_left
    rcases List.mem_append.mp hother with hother | hother
    · exact hc.claimDrawn other hother
    · obtain rfl := List.mem_singleton.mp hother
      exact hdrawn
  · intro id hid
    obtain ⟨other, hother, heq⟩ := hc.chatClaimed id (by simpa using hid)
    rw [claims_concat]
    exact ⟨other, List.mem_append_left _ hother, heq⟩

theorem Chronicle.prepared (hc : Chronicle h) {id : ℕ} {prepared : Prepared Context Memory} :
    Chronicle (h ++ [.prepared id prepared]) :=
  ⟨by simpa using hc.drawnOnce, by simpa using hc.tokensOnce, by simpa using hc.claimedOnce,
    by simpa using hc.claimDrawn, by simpa using hc.chattedOnce, by simpa using hc.chatClaimed,
    hc.chatted_concat rfl, hc.settled_concat rfl⟩

theorem Chronicle.settles (hc : Chronicle h) {i id : ℕ} {status : Status} {now : Time}
    (hclaim : ∃ claim ∈ claims h, claim.thread = i ∧ claim.runId = id ∧ now < claim.deadlineAt) :
    Chronicle (h ++ [.settled i id status now]) := by
  refine ⟨by simpa using hc.drawnOnce, by simpa using hc.tokensOnce, by simpa using hc.claimedOnce,
    by simpa using hc.claimDrawn, by simpa using hc.chattedOnce, by simpa using hc.chatClaimed,
    hc.chatted_concat rfl, fun i' id' status' now' hmem => ?_⟩
  have hsame : claims (h ++ [.settled i id status now]) = claims h := by simp
  rw [hsame]
  rcases List.mem_append.mp hmem with hmem | hmem
  · exact hc.settled i' id' status' now' hmem
  · obtain ⟨rfl, rfl, rfl, rfl⟩ := Event.settled.inj (List.mem_singleton.mp hmem)
    exact hclaim

theorem Chronicle.chats (hc : Chronicle h) {id : ℕ} {prompt : Prompt Context Memory}
    {run : AgentRun Context Memory} (hclaim : ∃ claim ∈ claims h, claim.runId = id)
    (hnew : id ∉ chats h) (hholds : run.Holds prompt) :
    Chronicle (h ++ [.chatted id prompt (some run)]) := by
  refine ⟨by simpa using hc.drawnOnce, by simpa using hc.tokensOnce, by simpa using hc.claimedOnce,
    by simpa using hc.claimDrawn, ?_, ?_, fun id' prompt' found hmem => ?_,
    hc.settled_concat rfl⟩
  · rw [chats_concat, Event.chat?, Option.toList_some, ← List.concat_eq_append]
    exact hc.chattedOnce.concat hnew
  · intro id' hid
    have hsame : claims (h ++ [.chatted id prompt (some run)]) = claims h := by simp
    rw [hsame]
    rw [chats_concat] at hid
    rcases List.mem_append.mp hid with hid | hid
    · exact hc.chatClaimed id' hid
    · obtain rfl := List.mem_singleton.mp hid
      exact hclaim
  · rcases List.mem_append.mp hmem with hmem | hmem
    · exact hc.chatted id' prompt' found hmem
    · obtain ⟨rfl, rfl, rfl⟩ := Event.chatted.inj (List.mem_singleton.mp hmem)
      exact ⟨run, rfl, hholds⟩

end Growth

end Ashbi.Agents
