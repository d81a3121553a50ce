import Ashbi.Agents.Ledger

/-! What each statement makes of the runs and of their history. -/

namespace Ashbi.Agents

open Interleaving Sql

/-! ### Updates -/

section Writes

variable {Context Memory : Type} {write : Write Context Memory} {run : AgentRun Context Memory}

/-- What a run was prepared with is never replaced. -/
theorem AgentRun.Stores.set {prepared : Prepared Context Memory} (hstores : run.Stores prepared)
    (hselects : write.selects run = true) : (write.set run).Stores prepared := by
  obtain ⟨hobserved, hcontext, hmemory⟩ := hstores
  cases write with
  | prepare token now other =>
    simp only [Write.selects, hobserved, Option.isNone_some, Bool.and_false,
      Bool.false_eq_true] at hselects
  | settle token now outcome => cases outcome <;> exact ⟨hobserved, hcontext, hmemory⟩
  | _ => exact ⟨hobserved, hcontext, hmemory⟩

/-- A run that has been updated is not queued. -/
theorem Write.not_queued (hlawful : write.Lawful) (hselects : write.selects run = true) :
    (write.set run).status ≠ .queued := by
  cases write with
  | prepare token now prepared =>
    simp only [Write.selects, AgentRun.heldBy, Bool.and_eq_true, decide_eq_true_eq] at hselects
    intro hqueued
    have hrunning : run.status = .queued := hqueued
    rw [hselects.1.1.1] at hrunning
    cases hrunning
  | settle token now outcome =>
    intro hqueued
    cases outcome <;> cases hqueued
  | _ =>
    intro hqueued
    cases hqueued

/-- The token of a run is that of its claim, with the deadline that was stored. -/
theorem Write.token {i token : ℕ} (htoken : (write.set run).claimToken = some token) :
    (∃ claim, write.event i run = some (.claimed claim) ∧ claim.token = token ∧
        claim.runId = run.id ∧ (write.set run).deadlineAt = some claim.deadlineAt) ∨
      run.claimToken = some token ∧ (write.set run).deadlineAt = run.deadlineAt := by
  cases write with
  | claim token' startedAt deadlineAt =>
    exact .inl ⟨_, rfl, Option.some.inj htoken, rfl, rfl⟩
  | settle token now outcome => cases outcome <;> exact .inr ⟨htoken, rfl⟩
  | cancel conversationId status now => cases htoken
  | _ => exact .inr ⟨htoken, rfl⟩

/-- Who claims a run leaves it claimed. -/
theorem Write.event_claimed {i : ℕ} {claim : Claim}
    (h : write.event i run = some (.claimed claim)) : claim.thread = i ∧ claim.runId = run.id := by
  cases write with
  | claim token startedAt deadlineAt =>
    obtain rfl := Event.claimed.inj (Option.some.inj h)
    exact ⟨rfl, rfl⟩
  | _ => cases h

theorem Write.event_prepared {i id : ℕ} {prepared : Prepared Context Memory}
    (h : write.event i run = some (.prepared id prepared)) :
    id = run.id ∧ (write.set run).Stores prepared := by
  cases write with
  | prepare token now other =>
    obtain ⟨rfl, rfl⟩ := Event.prepared.inj (Option.some.inj h)
    exact ⟨rfl, rfl, rfl, rfl⟩
  | _ => cases h

theorem Write.event_draw {i : ℕ} {e : Event Context Memory} (h : write.event i run = some e) :
    e.draw? = none := by
  cases write with
  | expire claimToken now => cases h
  | cancel conversationId status now => cases h
  | _ =>
    obtain rfl := Option.some.inj h
    rfl

theorem Write.Silent.event {i : ℕ} (h : write.Silent) : write.event i run = none := by
  cases write with
  | expire claimToken now => rfl
  | cancel conversationId status now => rfl
  | _ => cases h

end Writes

section Steps

variable {Context Memory : Type} {s t : State Context Memory} {h : List (Event Context Memory)}
  {organizationId : String} {i id : ℕ} {write : Write Context Memory}

/-- An update changes the run with its id, or nothing. -/
theorem written_cases (htables : s.Tables) (i : ℕ) (organizationId : String) (id : ℕ)
    (write : Write Context Memory) :
    s.updateRuns organizationId id write = s ∧ s.written i organizationId id write = [] ∧
        (∀ run ∈ s.runs, write.at organizationId id run = false) ∨
      ∃ run ∈ s.runs, run.id = id ∧ write.selects run = true ∧
        s.written i organizationId id write = (write.event i run).toList ∧
        ∀ next, next ∈ (s.updateRuns organizationId id write).runs ↔
          next = write.set run ∨ (next ∈ s.runs ∧ next.id ≠ id) := by
  cases hfind : s.runs.find? (write.at organizationId id) with
  | none =>
    left
    have hnone : ∀ run ∈ s.runs, write.at organizationId id run = false := fun run hrun => by
      simpa using List.find?_eq_none.mp hfind run hrun
    refine ⟨?_, ?_, hnone⟩
    · rw [State.updateRuns, update_of_none hnone]
    · rw [State.written, hfind]
      rfl
  | some run =>
    right
    have hrun := List.mem_of_find?_eq_some hfind
    have hat := List.find?_some hfind
    obtain ⟨rfl, horganization, hselects⟩ := Write.at_iff.mp hat
    have honly : ∀ other ∈ s.runs, write.at organizationId run.id other = true → other = run :=
      fun other hother hat => row_eq htables.ids hother hrun (Write.at_iff.mp hat).1
    refine ⟨run, hrun, rfl, hselects, ?_, fun next => ?_⟩
    · rw [State.written, hfind]
      rfl
    · rw [State.updateRuns]
      constructor
      · intro hnext
        rcases mem_update.mp hnext with ⟨old, hold, hat, rfl⟩ | ⟨hnext, hnot⟩
        · rw [honly old hold hat]
          exact .inl rfl
        · refine .inr ⟨hnext, fun hid => ?_⟩
          rw [row_eq htables.ids hnext hrun hid, hat] at hnot
          cases hnot
      · rintro (rfl | ⟨hnext, hid⟩)
        · exact mem_update.mpr (.inl ⟨run, hrun, hat, rfl⟩)
        · refine mem_update.mpr (.inr ⟨hnext, ?_⟩)
          cases hother : write.at organizationId run.id next with
          | false => rfl
          | true => exact absurd (Write.at_iff.mp hother).1 hid

theorem Ledger.written (hl : Ledger s h) (hlawful : write.Lawful)
    (hchronicle : ∀ run ∈ s.runs, run.id = id → write.selects run = true →
      Chronicle (h ++ (write.event i run).toList)) :
    Ledger (s.updateRuns organizationId id write) (h ++ s.written i organizationId id write) := by
  rcases written_cases hl.tables i organizationId id write with
    ⟨hstate, hevents, -⟩ | ⟨run, hrun, rfl, hselects, hevents, hmem⟩
  · rw [hstate, hevents, List.append_nil]
    exact hl
  rw [hevents]
  have hmoves := write.moves hlawful hselects
  have hclaims {claim : Claim} : claim ∈ claims (h ++ (write.event i run).toList) ↔
      claim ∈ claims h ∨ write.event i run = some (.claimed claim) := by
    simp [mem_claims]
  constructor
  case toChronicle => exact hchronicle run hrun rfl hselects
  case tables => exact hl.tables.step (.write organizationId run.id write hlawful)
  case drawnBelow =>
    intro draw hdraw
    refine hl.drawnBelow draw ?_
    cases hevent : write.event i run with
    | none => simpa [hevent] using hdraw
    | some e =>
      rw [hevent, Option.toList_some, draws_concat, Write.event_draw hevent, Option.toList_none,
        List.append_nil] at hdraw
      exact hdraw
  case claimedRow =>
    intro claim hclaim
    rcases hclaims.mp hclaim with hclaim | hevent
    · obtain ⟨old, hold, hid, hstatus⟩ := hl.claimedRow claim hclaim
      by_cases hsame : old.id = run.id
      · exact ⟨_, (hmem _).mpr (.inl rfl), hmoves.id.trans (hsame.symm.trans hid),
          write.not_queued hlawful hselects⟩
      · exact ⟨old, (hmem _).mpr (.inr ⟨hold, hsame⟩), hid, hstatus⟩
    · obtain ⟨-, hid⟩ := Write.event_claimed hevent
      exact ⟨_, (hmem _).mpr (.inl rfl), hmoves.id.trans hid.symm,
        write.not_queued hlawful hselects⟩
  case holder =>
    intro next hnext token htoken
    rcases (hmem next).mp hnext with rfl | ⟨hnext, -⟩
    · rw [hmoves.id]
      rcases Write.token (i := i) htoken with ⟨claim, hevent, hrest⟩ | ⟨hold, hdeadline⟩
      · exact ⟨claim, hclaims.mpr (.inr hevent), hrest⟩
      · obtain ⟨claim, hclaim, htoken, hid, hstored⟩ := hl.holder run hrun token hold
        exact ⟨claim, hclaims.mpr (.inl hclaim), htoken, hid, hdeadline.trans hstored⟩
    · obtain ⟨claim, hclaim, hrest⟩ := hl.holder next hnext token htoken
      exact ⟨claim, hclaims.mpr (.inl hclaim), hrest⟩
  case preparedRow =>
    intro id prepared hprepared
    rcases List.mem_append.mp hprepared with hprepared | hprepared
    · obtain ⟨old, hold, hid, hstores⟩ := hl.preparedRow id prepared hprepared
      by_cases hsame : old.id = run.id
      · obtain rfl := row_eq hl.tables.ids hold hrun hsame
        exact ⟨_, (hmem _).mpr (.inl rfl), hmoves.id.trans hid, hstores.set hselects⟩
      · exact ⟨old, (hmem _).mpr (.inr ⟨hold, hsame⟩), hid, hstores⟩
    · obtain ⟨rfl, hstores⟩ := Write.event_prepared (Option.mem_toList.mp hprepared)
      exact ⟨_, (hmem _).mpr (.inl rfl), hmoves.id, hstores⟩

/-- Steps that any thread may make at any time. -/
theorem Ledger.silent (hl : Ledger s h) (hstep : s.Step Write.Silent t) : Ledger t h := by
  have htables := hl.tables.step (hstep.mono fun _ => Write.Silent.lawful)
  cases hstep with
  | idle runs nextRun issued accounts =>
    exact ⟨hl.toChronicle, htables, fun draw hdraw => Nat.lt_of_lt_of_le (hl.drawnBelow draw hdraw)
      issued, runs ▸ hl.claimedRow, runs ▸ hl.holder, runs ▸ hl.preparedRow⟩
  | write organizationId id write hsilent =>
    have hwrite := @Ledger.written _ _ _ _ organizationId 0 id _ hl hsilent.lawful
      fun run _ _ _ => by
        rw [hsilent.event, Option.toList_none, List.append_nil]
        exact hl.toChronicle
    have hevents : s.written 0 organizationId id write = [] := by
      rcases written_cases hl.tables 0 organizationId id write with
        ⟨-, hevents, -⟩ | ⟨run, -, -, -, hevents, -⟩
      · exact hevents
      · rw [hevents, hsilent.event, Option.toList_none]
    rw [hevents, List.append_nil] at hwrite
    exact hwrite
  | create row admitted id status token requester conversation =>
    refine ⟨hl.toChronicle, htables, hl.drawnBelow, ?_, ?_, ?_⟩
    · intro claim hclaim
      obtain ⟨run, hrun, hrest⟩ := hl.claimedRow claim hclaim
      exact ⟨run, List.mem_append_left _ hrun, hrest⟩
    · intro run hrun
      rcases List.mem_append.mp hrun with hrun | hrun
      · exact hl.holder run hrun
      · obtain rfl := List.mem_singleton.mp hrun
        intro token' htoken
        rw [token] at htoken
        cases htoken
    · intro id prepared hprepared
      obtain ⟨run, hrun, hrest⟩ := hl.preparedRow id prepared hprepared
      exact ⟨run, List.mem_append_left _ hrun, hrest⟩

/-- An event that the rows say nothing of. -/
theorem Ledger.log {e : Event Context Memory} (hl : Ledger s h) (hchronicle : Chronicle (h ++ [e]))
    (hdraws : ∀ draw ∈ e.draw?, draw.2 < s.issued) (hclaim : e.claim? = none)
    (hprepared : ∀ id prepared, e ≠ .prepared id prepared) : Ledger s (h ++ [e]) := by
  have hclaims : claims (h ++ [e]) = claims h := by rw [claims_concat, hclaim]; simp
  refine ⟨hchronicle, hl.tables, ?_, hclaims ▸ hl.claimedRow, hclaims ▸ hl.holder, ?_⟩
  · intro draw hdraw
    rw [draws_concat] at hdraw
    rcases List.mem_append.mp hdraw with hdraw | hdraw
    · exact hl.drawnBelow draw hdraw
    · exact hdraws draw (Option.mem_toList.mp hdraw)
  · intro id prepared hmem
    rcases List.mem_append.mp hmem with hmem | hmem
    · exact hl.preparedRow id prepared hmem
    · exact absurd (List.mem_singleton.mp hmem).symm (hprepared id prepared)

end Steps

end Ashbi.Agents
