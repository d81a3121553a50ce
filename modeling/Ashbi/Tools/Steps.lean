import Ashbi.Tools.Sound

/-! What the programs promise of their statements, and what the statements then do. -/

namespace Ashbi.Tools

open Checked Interleaving

variable {reg : Registry} {s t : State} {ch : Choice} {mine : List Id}

/-- The claim of a statement that claims for a delivery. -/
def Stmt.claim? {β : Type} : Stmt β → Option Claim
  | .claimTarget claim => some claim
  | _ => none

/-- The action that a statement claims for a delivery. -/
def Stmt.claims {β : Type} (st : Stmt β) (ch : Choice) (s : State) : Option Id :=
  st.claim?.bind fun claim =>
    match claim.claimTarget s ch, ch.fault with
    | .ok _, .none | .ok _, .after _ => some claim.initial.id
    | _, _ => none

/-- The action that a statement delivers. -/
def Stmt.delivers {β : Type} : Stmt β → Option Id
  | .deliver id => some id
  | _ => none

/-- What `invoke` answered, by whom it was called and how. -/
def Stmt.answered {β : Type} : Stmt β → Option (Ctx × Call × Except Failure Invoked)
  | .answer ctx call result => some (ctx, call, result)
  | _ => none

/-- The action has been decided. -/
def Final (s : State) (id : Id) : Prop := ∃ row, s.action id = some row ∧ row.status.terminal = true

def Executing (s : State) (id : Id) : Prop :=
  ∃ row, s.action id = some row ∧ row.status = .executing

/-- The approver of a claim may approve the action with its tool. -/
def Claim.Approves (reg : Registry) (claim : Claim) (s : State) : Prop :=
  ∀ row, s.action claim.initial.id = some row →
    reg.get row.action = some claim.tool ∧ approverAllowed claim.ctx claim.tool row.toRequest = true

/-- A stored action that the call asked for: its tool, its key and its input. -/
structure Answers (reg : Registry) (ctx : Ctx) (call : Call) (tool : Tool) (action : Action)
    (s : State) : Prop where
  registered : reg.get call.tool = some tool
  user : action.userId = ctx.userId
  key : call.idempotencyKey = some action.idempotencyKey
  name : action.action = tool.name
  hash : ∃ input, tool.safeParse call.input = some input ∧
    action.inputHash = reg.toolInputHash tool.name input
  stored : ∃ row, s.action action.id = some row ∧ row.toRequest = action.toRequest

/-- A pending answer is the action that was asked for; other results come from tools that need
no approval. -/
def Honest (reg : Registry) (ctx : Ctx) (call : Call) (result : Except Failure Invoked)
    (s : State) : Prop :=
  match result with
  | .error _ => True
  | .ok (.result _ _) =>
    ∃ tool, reg.get call.tool = some tool ∧ tool.toolClass.needsApproval = false
  | .ok (.pending action _) => ∃ tool, Answers reg ctx call tool action s

/-- What a thread that has claimed `mine` promises of a statement. -/
def Stmt.Promised {β : Type} (reg : Registry) (st : Stmt β) (mine : List Id) (s : State) : Prop :=
  match st with
  | .update id expected write =>
    match expected, write with
    | .pending, .succeeded _ => False
    | .pending, _ => True
    | .executing, .succeeded _ => Final s id ∨ (id ∈ mine ∧ s.executions id = 1)
    | .executing, _ => Final s id ∨ id ∈ mine
    | _, _ => False
  | .execute claim | .claimTarget claim => claim.Approves reg s
  | .deliver id => id ∈ mine ∧ Executing s id ∧ id ∉ s.deliveries.map (·.1)
  | .answer ctx call result => Honest reg ctx call result s
  | _ => True

/-! ### Writes -/

theorem commit_cases {β : Type} (fault : Fault) (body : Except Failure (β × State)) (s : State) :
    (commit fault body s).2 = s ∨ ∃ b s', body = .ok (b, s') ∧ (commit fault body s).2 = s' := by
  cases body with
  | error failure => exact .inl rfl
  | ok r =>
    obtain ⟨b, s'⟩ := r
    cases fault with
    | before failure => exact .inl rfl
    | none => exact .inr ⟨b, s', rfl, rfl⟩
    | after failure => exact .inr ⟨b, s', rfl, rfl⟩

theorem commit_ok {β : Type} {fault : Fault} {body : Except Failure (β × State)} {b : β}
    (h : (commit fault body s).1 = .ok b) :
    ∃ s', body = .ok (b, s') ∧ (commit fault body s).2 = s' := by
  cases body with
  | error failure => cases h
  | ok r =>
    obtain ⟨b', s'⟩ := r
    cases fault with
    | before failure => cases h
    | after failure => cases h
    | none =>
      obtain rfl := Except.ok.inj h
      exact ⟨s', rfl, rfl⟩

theorem apply_same (write : Write) (row : Action) :
    (write.apply row).toRequest = row.toRequest ∧ (write.apply row).id = row.id ∧
      (write.apply row).status.terminal = true := by
  cases write <;> exact ⟨rfl, rfl, rfl⟩

theorem pendingIn_some {id : Id} {scope : Option Id} {row : Action}
    (h : s.pendingIn id scope = some row) : s.action id = some row ∧ row.status = .pending := by
  simp only [State.pendingIn, Option.filter_eq_some_iff, Bool.and_eq_true, decide_eq_true_eq] at h
  exact ⟨h.1, h.2.2⟩

theorem claim_ok {claim : Claim} {row : Action} (h : claim.claim s ch = .ok row) :
    s.action claim.initial.id = some row ∧ row.status = .pending ∧
      claim.decision.decidedAt < row.expiresAt := by
  simp only [Claim.claim, bind_ok, found_ok, Option.filter_eq_some_iff, decide_eq_true_eq] at h
  obtain ⟨_, -, hrow, hfresh⟩ := h
  exact ⟨(pendingIn_some hrow).1, (pendingIn_some hrow).2, hfresh⟩

theorem claimTarget_ok {claim : Claim} {r : Unit × State} (h : claim.claimTarget s ch = .ok r) :
    ∃ row, claim.claim s ch = .ok row ∧
      r.2 = s.put { row with status := .executing, decision := some claim.decision } := by
  simp only [Claim.claimTarget, bind_ok, pure_ok] at h
  obtain ⟨row, hrow, _, -, _, -, rfl⟩ := h
  exact ⟨row, hrow, rfl⟩

/-- A write that fails by itself either did nothing or committed. -/
theorem Step.commit {β : Type} {fault : Fault} {body : Except Failure (β × State)}
    (h : ∀ b s', body = .ok (b, s') → Step mine s none s') :
    Step mine s none (commit fault body s).2 := by
  rcases commit_cases fault body s with hsame | ⟨b, s', hbody, hdone⟩
  · rw [hsame]
    exact .quiet
  · rw [hdone]
    exact h b s' hbody

theorem createAction_step {ctx : Ctx} {request : Request} {r : Action × State}
    (h : createAction s ctx request ch = .ok r) : Step mine s none r.2 := by
  simp only [createAction, bind_ok, refuse_ok, pure_ok, Bool.or_eq_false_iff,
    Option.isSome_eq_false_iff, Option.isNone_iff_eq_none] at h
  obtain ⟨_, -, _, ⟨hid, hkey⟩, rfl⟩ := h
  refine .create (request.toAction ch.newId) hid ?_ rfl
  intro hmem
  obtain ⟨other, hother, heq⟩ := List.mem_map.mp hmem
  have hno := List.any_eq_false.mp hkey other hother
  obtain ⟨huser, hkeys⟩ := Prod.mk.inj heq
  simp [huser, hkeys, Request.toAction] at hno

theorem updateAction_ok {id : Id} {expected : Status} {write : Write} {r : Action × State}
    (h : updateAction s id expected write = .ok r) :
    ∃ row, s.action id = some row ∧ row.status = expected ∧
      r = (write.apply row, s.put (write.apply row)) := by
  simp only [updateAction, bind_ok, found_ok, pure_ok, Option.filter_eq_some_iff,
    decide_eq_true_eq] at h
  obtain ⟨row, ⟨hrow, hst⟩, rfl⟩ := h
  exact ⟨row, hrow, hst, rfl⟩

theorem updateAction_step {id : Id} {expected : Status} {write : Write} {r : Action × State}
    (hp : (Stmt.update id expected write).Promised reg mine s)
    (h : updateAction s id expected write = .ok r) : Step mine s none r.2 := by
  obtain ⟨row, hrow, rfl, rfl⟩ := updateAction_ok h
  obtain ⟨hsame, hid, hterminal⟩ := apply_same write row
  have hput : s.action (write.apply row).id = some row := by rw [hid, action_id hrow, hrow]
  have hnotfinal : row.status = .executing → ¬ Final s id := by
    rintro hst ⟨other, hother, hfinal⟩
    obtain rfl := Option.some.inj (hrow.symm.trans hother)
    simp [hst, Status.terminal] at hfinal
  have hmine : row.status = .executing → id ∈ mine → (write.apply row).id ∈ mine := by
    intro _ hmem
    rw [hid, action_id hrow]
    exact hmem
  cases hst : row.status with
  | pending =>
    rw [hst] at hp
    apply Step.decide row _ hput hsame hst hterminal
    cases write with
    | succeeded executedAt => exact hp.elim
    | expired => simp [Write.apply]
    | failed errorCode outcome decision => simp [Write.apply]
  | executing =>
    rw [hst] at hp
    cases write with
    | succeeded executedAt =>
      obtain ⟨hown, hone⟩ := hp.resolve_left (hnotfinal hst)
      apply Step.complete row _ (hmine hst hown) hput hsame hst hterminal
      intro _
      rw [hid, action_id hrow]
      exact hone
    | expired =>
      apply Step.complete row _ (hmine hst (hp.resolve_left (hnotfinal hst))) hput hsame
        hst hterminal
      simp [Write.apply]
    | failed errorCode outcome decision =>
      apply Step.complete row _ (hmine hst (hp.resolve_left (hnotfinal hst))) hput hsame
        hst hterminal
      simp [Write.apply]
  | _ =>
    rw [hst] at hp
    exact hp.elim

theorem execute_step {claim : Claim} {r : Action × State} (h : claim.execute s ch = .ok r) :
    Step mine s none r.2 := by
  simp only [Claim.execute, bind_ok, pure_ok] at h
  obtain ⟨row, hclaim, _, -, _, -, rfl⟩ := h
  obtain ⟨hrow, hpending, -⟩ := claim_ok hclaim
  have hput : s.action row.id = some row := by rw [action_id hrow, hrow]
  exact .execute row (claim.receipt row ch.now) hput rfl hpending rfl

theorem reject_step {ctx : Ctx} {initial : Action} {scope : Option Id} {decision : Decision}
    {r : ℕ × State} (h : rejectAction s ctx initial scope decision ch = .ok r) :
    Step mine s none r.2 := by
  simp only [rejectAction, bind_ok] at h
  obtain ⟨_, -, h⟩ := h
  split at h
  · obtain rfl := pure_ok.mp h
    exact .quiet
  · rename_i row hfound
    obtain rfl := pure_ok.mp h
    obtain ⟨hrow, hpending⟩ := pendingIn_some hfound
    have hput : s.action row.id = some row := by rw [action_id hrow, hrow]
    exact .decide row _ hput rfl hpending rfl (by simp)

theorem claimTarget_step (claim : Claim) :
    Step mine s ((Stmt.claimTarget claim).claims ch s) (exec (.claimTarget claim) ch s).2 := by
  simp only [Stmt.claims, Stmt.claim?, Option.bind_some, exec]
  cases hbody : claim.claimTarget s ch with
  | error failure => exact .quiet
  | ok r =>
    obtain ⟨row, hclaim, hput⟩ := claimTarget_ok hbody
    obtain ⟨hrow, hpending, -⟩ := claim_ok hclaim
    have hclaimed : Step mine s (some claim.initial.id) r.2 := by
      rw [hput, ← action_id hrow]
      exact .claim row { row with status := .executing, decision := some claim.decision }
        (by rw [action_id hrow, hrow]) rfl hpending rfl
    cases ch.fault with
    | none => exact hclaimed
    | before failure => exact .quiet
    | after failure => exact hclaimed

/-- What a promised statement does. -/
theorem exec_step {β : Type} (st : Stmt β) (ch : Choice) (hp : st.Promised reg mine s) :
    Step mine s (st.claims ch s) (exec st ch s).2 := by
  cases st with
  | create ctx request => exact Step.commit fun _ _ h => createAction_step h
  | update id expected write => exact Step.commit fun _ _ h => updateAction_step hp h
  | execute claim => exact Step.commit fun _ _ h => execute_step h
  | reject ctx initial scope decision => exact Step.commit fun _ _ h => reject_step h
  | claimTarget claim => exact claimTarget_step claim
  | deliver id =>
    obtain ⟨hown, ⟨row, hrow, hst⟩, hnew⟩ := hp
    obtain rfl := action_id hrow
    exact .deliver row _ hown hrow hst hnew
  | _ => exact .quiet

end Ashbi.Tools
