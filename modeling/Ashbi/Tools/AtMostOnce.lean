import Ashbi.Tools.Once

/-! Every run of calls, approvals and rejections runs an action at most once. -/

namespace Ashbi.Tools

open Checked Interleaving

variable {reg : Registry} {tr : List (Occurrence machine)} {c : Config machine} {id : Id}

/-- A committed claim of a pending row that has not expired, by an approver whom its tool allows. -/
structure ClaimOf (reg : Registry) (id : Id) (o : Occurrence machine) (claim : Claim)
    (row : Action) : Prop where
  stmt : o.stmt.claim? = some claim
  same : claim.initial.id = id
  stored : o.pre.action id = some row
  pending : row.status = .pending
  unexpired : claim.decision.decidedAt < row.expiresAt
  registered : reg.get row.action = some claim.tool
  allowed : approverAllowed claim.ctx claim.tool row.toRequest = true
  committed : Executing o.post id

/-- What holds of the receipts behind every run. -/
structure Governed (reg : Registry) (tr : List (Occurrence machine)) (c : Config machine) :
    Prop where
  unique : (c.state.actions.map fun row => (row.userId, row.idempotencyKey)).Nodup
  /-- An answered call has the input of the row that its user and key are stored with. -/
  answered : ∀ o ∈ tr, ∀ ctx call invoked tool, o.stmt.answered = some (ctx, call, .ok invoked) →
    reg.get call.tool = some tool → tool.toolClass.needsApproval = true →
    ∃ input, tool.safeParse call.input = some input ∧
      ∀ row ∈ o.pre.actions, row.userId = ctx.userId →
        call.idempotencyKey = some row.idempotencyKey →
        row.action = tool.name ∧ row.inputHash = reg.toolInputHash tool.name input
  once : ∀ id, c.state.effects.count id ≤ 1 ∧ (c.state.delivered id).length ≤ 1
  claimed : ∀ (k : ℕ) o id, tr[k]? = some o → o.stmt.delivers = some id →
    ∃ l < k, ∃ o', tr[l]? = some o' ∧ o'.thread = o.thread ∧
      ∃ claim row, ClaimOf reg id o' claim row
  final : ∀ o ∈ tr, ∀ row ∈ o.pre.actions, row.status.terminal = true → row ∈ c.state.actions
  executed : ∀ row ∈ c.state.actions, row.status = .executed → c.state.executions row.id = 1

theorem claimOf {o : Occurrence machine} {mine : List Id} (hp : o.stmt.Promised reg mine o.pre)
    (hid : id ∈ claimed o) : ∃ claim row, ClaimOf reg id o claim row := by
  obtain ⟨i, st, ch, s⟩ := o
  have hclaims : st.claims ch s = some id := by simpa [claimed] using hid
  have hstep := exec_step st ch hp
  cases st with
  | claimTarget claim =>
    obtain ⟨-, hexecuting, -⟩ := hstep.claimed_row hclaims
    have hbody := hclaims
    simp only [Stmt.claims, Stmt.claim?, Option.bind_some] at hbody
    cases hr : claim.claimTarget s ch with
    | error failure => simp [hr] at hbody
    | ok r =>
      obtain ⟨row, hclaim, -⟩ := claimTarget_ok hr
      obtain ⟨hrow, hpending, hfresh⟩ := claim_ok hclaim
      have hsame : claim.initial.id = id := by
        rw [hr] at hbody
        cases hfault : ch.fault <;> simp only [hfault, Option.some.injEq, reduceCtorEq] at hbody
        all_goals exact hbody
      obtain ⟨hregistered, hallowed⟩ := hp row hrow
      exact ⟨claim, row, rfl, hsame, hsame ▸ hrow, hpending, hfresh, hregistered, hallowed,
        hexecuting⟩
  | _ => cases hclaims

theorem Sound.delivered_once {s : State} (h : Sound s) (id : Id) : (s.delivered id).length ≤ 1 := by
  have hcount := List.nodup_iff_count_le_one.mp h.deliveries id
  rw [List.count_eq_countP, List.countP_map, List.countP_eq_length_filter] at hcount
  have hsame : s.deliveries.filter ((· == id) ∘ Prod.fst) = s.delivered id := by
    unfold State.delivered
    congr 1
  rwa [hsame] at hcount

theorem answers_of {s : State} (hs : Sound s) {ctx : Ctx} {call : Call} {tool : Tool}
    {invoked : Invoked} (h : Honest reg ctx call (.ok invoked) s)
    (hregistered : reg.get call.tool = some tool) (hclass : tool.toolClass.needsApproval = true) :
    ∃ input, tool.safeParse call.input = some input ∧
      ∀ row ∈ s.actions, row.userId = ctx.userId → call.idempotencyKey = some row.idempotencyKey →
        row.action = tool.name ∧ row.inputHash = reg.toolInputHash tool.name input := by
  cases invoked with
  | result name toolClass =>
    obtain ⟨other, hother, hread⟩ := h
    obtain rfl := Option.some.inj (hother.symm.trans hregistered)
    rw [hread] at hclass
    cases hclass
  | pending action idempotent =>
    obtain ⟨other, hanswers⟩ := h
    obtain rfl := Option.some.inj (hanswers.registered.symm.trans hregistered)
    obtain ⟨input, hinput, hhash⟩ := hanswers.hash
    obtain ⟨stored, hstored, hsame⟩ := hanswers.stored
    refine ⟨input, hinput, fun row hrow huser hkey => ?_⟩
    -- one row for a user and a key
    have huser' : row.userId = stored.userId := by rw [huser, hsame, hanswers.user]
    have hkey' : row.idempotencyKey = stored.idempotencyKey := by
      have hcall := hanswers.key.symm.trans hkey
      rw [hsame, ← Option.some.inj hcall]
    have heq : row = stored := List.inj_on_of_nodup_map hs.keys hrow (action_mem hstored)
      (Prod.ext huser' hkey')
    rw [heq, hsame]
    exact ⟨hanswers.name, hhash⟩

/-- In every run one row stands for a user and a key, a call with another input is refused, effects
and deliveries happen at most once and behind a claim, and decided rows stay as they are. -/
theorem action_once (h : Run (Deployed reg) State.empty tr c) : Governed reg tr c := by
  obtain ⟨tr', rfl, hrun⟩ := h.logged claimed
  have hstart : (contract reg).inv (State.empty, fun _ => []) :=
    ⟨⟨by simp [State.empty], by simp [State.empty], by simp [State.empty], by simp [State.empty],
      by simp [State.empty], by simp [State.empty], by simp [State.empty, State.action]⟩,
      by simp, by simp⟩
  obtain ⟨hend, hkeeps⟩ := hrun.holds (K := contract reg) (fun p hp i s _ _ => hp.safe) hstart
    (fun _ => trivial) fun _ _ => trivial
  have hsound : Sound c.state := hend.inv.sound
  refine ⟨hsound.keys, ?_, fun id => ⟨?_, hsound.delivered_once id⟩, ?_, ?_, ?_⟩
  · intro o ho ctx call invoked tool hanswered hregistered hclass
    obtain ⟨o', ho', rfl⟩ := List.mem_map.mp ho
    obtain ⟨hinv, hkept⟩ := hkeeps o' ho'
    have hhonest : Honest reg ctx call (.ok invoked) o'.pre.1 := by
      have hguar : Stmt.Promised reg o'.stmt _ o'.pre.1 := hkept.guar
      obtain ⟨i, st, ch, s⟩ := o'
      cases st with
      | answer ctx' call' result =>
        simp only [Occurrence.plain, Stmt.answered, Option.some.injEq, Prod.mk.injEq] at hanswered
        obtain ⟨rfl, rfl, rfl⟩ := hanswered
        exact hguar
      | _ => cases hanswered
    exact answers_of hinv.sound hhonest hregistered hclass
  · exact List.nodup_iff_count_le_one.mp hsound.effects id
  · intro k o id hk hdelivers
    rw [List.getElem?_map, Option.map_eq_some_iff] at hk
    obtain ⟨o', hk, rfl⟩ := hk
    have hmarks := (hrun.marks_eq).2 k o' hk
    have hmine : id ∈ o'.pre.2 o'.thread := by
      have hguar : Stmt.Promised reg o'.stmt _ o'.pre.1 :=
        (hkeeps o' (List.mem_of_getElem? hk)).2.guar
      obtain ⟨i, st, ch, s⟩ := o'
      cases st with
      | deliver id' =>
        obtain rfl := Option.some.inj hdelivers
        exact hguar.1
      | _ => cases hdelivers
    rw [hmarks, mem_marksOf] at hmine
    obtain ⟨o₁, ho₁, hthread, hclaimed⟩ := hmine
    obtain ⟨l, hl, hget⟩ := List.mem_take_iff_getElem.mp ho₁
    obtain ⟨o₂, ho₂, rfl⟩ := List.mem_map.mp (List.mem_of_mem_take ho₁)
    refine ⟨l, by omega, o₂.plain, by rw [← hget, List.getElem?_eq_getElem], hthread, ?_⟩
    exact claimOf (hkeeps o₂ ho₂).2.guar hclaimed
  · intro o ho row hrow hst
    obtain ⟨o', ho', rfl⟩ := List.mem_map.mp ho
    obtain ⟨hinv, hkept⟩ := hkeeps o' ho'
    have honward : ∀ o ∈ tr', Onward o.pre.1 o.post.1 := fun o ho =>
      ((hkeeps o ho).2.others (o.thread + 1) (Nat.succ_ne_self _)).onward
    have hlater := (Run.preserves (M := machine.logged claimed) (fun s t => Onward s.1 t.1)
      (fun _ => .refl _) (fun _ _ _ => .trans) hrun honward).2 o' ho'
    have hstored := action_of_mem hinv.sound.ids hrow
    exact action_mem (((honward o' ho').trans hlater).final _ _ hstored hst)
  · intro row hrow hst
    exact hsound.executed row.id row (action_of_mem hsound.ids hrow) hst

/-! ### Racing approvers -/

def sampleTool (name : String) (mode : Mode) : Tool where
  name := name
  toolClass := .execute
  roles := [.admin, .team]
  safeParse := some
  mode := mode
  approverRoles := [.admin, .team]
  requesterMayApprove := false

def sampleRegistry : Registry where
  get name := if name = "create_task" ∨ name = "send_slack_message" then
      some (sampleTool name (if name = "create_task" then .transaction else .external))
    else none
  toolInputHash _ input := input
  fits _ _ := true
  get_name name tool h := by
    split at h
    · rw [← Option.some.inj h]
      rfl
    · cases h

def sampleCtx (userId : Id) : Ctx := ⟨userId, .admin, none, []⟩

def sampleCall (tool input key : String) : Call := ⟨tool, input, some key, .aiBridge⟩

def sampleApproval : Approval := ⟨.sessionStepUp, true, false⟩

def samplePrograms : List (Prog Stmt Unit) :=
  ([("create_task", "a", "key-0001"), ("send_slack_message", "b", "key-0002"),
      ("create_task", "c", "key-0001")].map fun (tool, input, key) =>
    (invoke sampleRegistry (sampleCtx "requester") (sampleCall tool input key)).run.bind
    fun result =>
      .stmt (.answer (sampleCtx "requester") (sampleCall tool input key) result)) ++
  ([("admin", "t"), ("other", "t"), ("admin", "d"), ("other", "d")].map fun (user, id) =>
    (approve sampleRegistry (sampleCtx user) id sampleApproval).run.bind fun _ => .ret ())

theorem samplePrograms_deployed : ∀ p ∈ samplePrograms, Deployed sampleRegistry p := by
  intro p hp
  rcases List.mem_append.mp hp with hp | hp
  all_goals obtain ⟨_, -, rfl⟩ := List.mem_map.mp hp
  · exact .invoke _ _
  · exact .approve _ _ _

def sampleChoice (id : Id) : Choice := ⟨id, 1000, true, none, .none⟩

/-- Two actions are prepared, a third call repeats a key, and each action has two approvers. -/
theorem action_once_sample : ∃ (tr : List (Occurrence machine)) (c : Config machine),
    Run (Deployed sampleRegistry) State.empty tr c ∧ Governed sampleRegistry tr c ∧
    c.state.effects = ["t"] ∧ c.state.deliveries = [("d", true)] ∧
    c.state.actions.map (·.status) = [.executed, .executed] := by
  have hrun : Run (M := machine) (Deployed sampleRegistry) State.empty _ _ :=
    Run.of_schedule (M := machine) samplePrograms samplePrograms_deployed
      ((List.replicate 9 (0, sampleChoice "t")) ++ (List.replicate 9 (1, sampleChoice "d")) ++
        (List.replicate 9 (2, sampleChoice "u")) ++
        (List.replicate 12 [3, 4, 5, 6]).flatten.map (·, sampleChoice ""))
  exact ⟨_, _, hrun, action_once hrun, by decide +kernel, by decide +kernel, by decide +kernel⟩

end Ashbi.Tools
