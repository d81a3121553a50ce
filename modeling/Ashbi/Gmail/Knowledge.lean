import Mathlib.Data.List.Induction
import Ashbi.Gmail.Service
import Ashbi.Interleaving.Learned

/-! What a call on receipts knows when it writes one, and when it hands a message to Gmail. -/

namespace Ashbi.Gmail

open Interleaving

/-! ### Facts -/

/-- What a thread learns by a statement. -/
inductive Fact
  /-- There was no receipt of the scope. -/
  | looked (scope : Scope)
  | response (id : String) (threadId : Option String) (response : Response)
  | prepared (snapshot : Snapshot) (transport : Transport)
  | created (transport : Transport) (receipt : Receipt)
  | moved
  | locked (id : ℕ)
  | recorded (id : ℕ)
  | completed (id : ℕ)
  /-- Gmail was called, and has refused the message for certain or not. -/
  | sent (id : ℕ) (refused : Bool)
  /-- What became of a write is not known. -/
  | failed
  | committed
  | undone

/-- How far a transaction has come with its receipt. -/
inductive Stage
  | idle
  | claimed (transport : Transport) (receipt : Receipt)
  | moved
  | locked (id : ℕ)
  | recorded (id : ℕ)
  | completed (id : ℕ)
  | failed

/-- A transaction may be committed here. -/
def Stage.closes : Stage → Bool
  | .idle => true
  | .claimed _ _ => true
  | .moved => true
  | .completed _ => true
  | _ => false

/-- The stage, the receipts that the thread has claimed and committed, and whether it has called
Gmail. -/
structure Progress where
  stage : Stage
  claims : List (Transport × Receipt)
  sent : Bool

def Progress.commit (p : Progress) : Progress :=
  match p.stage with
  | .claimed transport receipt => ⟨.idle, p.claims ++ [(transport, receipt)], p.sent⟩
  | _ => ⟨.idle, p.claims, p.sent⟩

def Progress.learn (p : Progress) : Fact → Progress
  | .created transport receipt => { p with stage := .claimed transport receipt }
  | .moved => { p with stage := .moved }
  | .locked id => { p with stage := .locked id }
  | .recorded id => { p with stage := .recorded id }
  | .completed id => { p with stage := .completed id }
  | .failed => { p with stage := .failed }
  | .committed => p.commit
  | .undone => { p with stage := .idle }
  | .sent _ _ => { p with sent := true }
  | _ => p

/-- What the facts come to. -/
def progress (facts : List Fact) : Progress := facts.foldl Progress.learn ⟨.idle, [], false⟩

theorem progress_append (facts more : List Fact) :
    progress (facts ++ more) = more.foldl Progress.learn (progress facts) := List.foldl_append

theorem progress_concat (facts : List Fact) (fact : Fact) :
    progress (facts ++ [fact]) = (progress facts).learn fact := List.foldl_append

theorem Progress.learn_grows (p : Progress) (fact : Fact) :
    p.claims ⊆ (p.learn fact).claims ∧ (p.sent = true → (p.learn fact).sent = true) := by
  cases fact with
  | sent id refused => exact ⟨List.Subset.refl _, fun _ => rfl⟩
  | committed =>
    change p.claims ⊆ p.commit.claims ∧ (p.sent = true → p.commit.sent = true)
    unfold Progress.commit
    cases p.stage with
    | claimed transport receipt => exact ⟨List.subset_append_left .., fun h => h⟩
    | _ => exact ⟨List.Subset.refl _, fun h => h⟩
  | _ => exact ⟨List.Subset.refl _, fun h => h⟩

/-- Claims are not lost, nor that Gmail was called. -/
theorem progress_grows (facts more : List Fact) :
    (progress facts).claims ⊆ (progress (facts ++ more)).claims ∧
      ((progress facts).sent = true → (progress (facts ++ more)).sent = true) := by
  induction more using List.reverseRecOn with
  | nil =>
    rw [List.append_nil]
    exact ⟨List.Subset.refl _, fun h => h⟩
  | append_singleton more fact ih =>
    rw [← List.append_assoc, progress_concat]
    obtain ⟨hclaims, hsent⟩ := Progress.learn_grows (progress (facts ++ more)) fact
    exact ⟨List.Subset.trans ih.1 hclaims, fun h => hsent (ih.2 h)⟩

/-- A claim, committed or not, was told of. -/
theorem created_of_progress {facts : List Fact} {transport : Transport} {receipt : Receipt}
    (h : (progress facts).stage = .claimed transport receipt ∨
      (transport, receipt) ∈ (progress facts).claims) : .created transport receipt ∈ facts := by
  induction facts using List.reverseRecOn with
  | nil =>
    rcases h with h | h
    · cases h
    · cases h
  | append_singleton facts fact ih =>
    rw [progress_concat] at h
    have hold : (progress facts).stage = .claimed transport receipt ∨
        (transport, receipt) ∈ (progress facts).claims →
          .created transport receipt ∈ facts ++ [fact] :=
      fun h => List.mem_append_left _ (ih h)
    cases fact with
    | created transport' receipt' =>
      rcases h with h | h
      · obtain ⟨rfl, rfl⟩ := Stage.claimed.inj h
        exact List.mem_append_right _ List.mem_cons_self
      · exact hold (.inr h)
    | committed =>
      have h : (progress facts).commit.stage = .claimed transport receipt ∨
        (transport, receipt) ∈ (progress facts).commit.claims := h
      unfold Progress.commit at h
      split at h
      · rename_i transport' receipt' hstage
        rcases h with h | h
        · cases h
        · rcases List.mem_append.mp h with h | h
          · exact hold (.inr h)
          · obtain ⟨rfl, rfl⟩ := Prod.mk.inj (List.mem_singleton.mp h)
            exact hold (.inl hstage)
      · rcases h with h | h
        · cases h
        · exact hold (.inr h)
    | looked => exact hold h
    | response => exact hold h
    | prepared => exact hold h
    | sent => exact hold h
    | _ =>
      rcases h with h | h
      · cases h
      · exact hold (.inr h)

/-- Gmail has refused the message for certain. -/
def refusal (answer : Except Failure Sent) : Bool :=
  match answer with
  | .error error => error = .provider true
  | .ok _ => false

/-- The fact that an outcome was stored. -/
def Outcome.fact (outcome : Outcome) (id : ℕ) : Fact :=
  match outcome with
  | .locked => .locked id
  | .completed _ => .completed id
  | _ => .moved

/-- What is learned from a statement and its answer. -/
def learn {β : Type} (st : Stmt β) (b : β) : List Fact :=
  match st, b with
  | .findReceipt scope, .ok none => [.looked scope]
  | .findResponse id threadId, .ok (some response) => [.response id threadId response]
  | .prepare _ snapshot, .ok (some transport, _) => [.prepared snapshot transport]
  | .createReceipt _ mailbox _ snapshot, .ok receipt => [.created ⟨mailbox, snapshot⟩ receipt]
  | .createReceipt .., .error _ => [.failed]
  | .updateReceipt id _ _ outcome, .ok changed => if changed = 1 then [outcome.fact id] else []
  | .updateReceipt .., .error _ => [.failed]
  | .createMessage receipt _, .ok _ => [.recorded receipt.id]
  | .createMessage .., .error _ => [.failed]
  | .send _ receipt, answer => [.sent receipt.id (refusal answer)]
  | .commit, .ok _ => [.committed]
  | .commit, .error _ => [.undone]
  | .rollback, _ => [.undone]
  | _, _ => []

/-! ### What a statement needs -/

/-- The response that the payload names was read as approved, saying what the payload says. -/
def Backed (payload : Payload) (facts : List Fact) : Prop :=
  ∀ id, payload.responseId = some id → ∃ response,
    .response id payload.hubThreadId response ∈ facts ∧ response.matches payload = true

/-- An outcome is stored where it is due. -/
def Outcome.due (outcome : Outcome) (id : ℕ) (status : ReceiptStatus) (facts : List Fact) : Prop :=
  match outcome with
  | .locked => (progress facts).stage = .idle ∧ status = .acceptedPendingRecord
  | .completed _ => ((progress facts).stage = .locked id ∨ (progress facts).stage = .recorded id) ∧
      status = .acceptedPendingRecord
  | .rejected => (progress facts).stage = .idle ∧ status = .dispatching ∧ .sent id true ∈ facts
  | _ => (progress facts).stage = .idle ∧ status = .dispatching

/-- What a thread has learned before it runs a statement. -/
def need {β : Type} (st : Stmt β) (facts : List Fact) : Prop :=
  match st with
  | .createReceipt scope _ _ snapshot =>
    (progress facts).stage = .idle ∧ .looked scope ∈ facts ∧ Backed snapshot.payload facts
  | .updateReceipt id _ status outcome => outcome.due id status facts
  | .createMessage receipt _ => (progress facts).stage = .locked receipt.id
  | .commit => (progress facts).stage.closes = true
  | .send transport receipt => (progress facts).sent = false ∧ ∃ snapshot,
      (⟨transport.mailbox, snapshot⟩, receipt) ∈ (progress facts).claims ∧
        .prepared snapshot transport ∈ facts
  | _ => True

/-! ### Calm statements -/

/-- What was known is known still, and the progress is the same. -/
structure Since (facts facts' : List Fact) : Prop where
  progress : progress facts' = progress facts
  known : facts ⊆ facts'

theorem Since.refl (facts : List Fact) : Since facts facts := ⟨rfl, List.Subset.refl _⟩

theorem Since.trans {facts facts' facts'' : List Fact} (h : Since facts facts')
    (h' : Since facts' facts'') : Since facts facts'' :=
  ⟨h'.progress.trans h.progress, List.Subset.trans h.known h'.known⟩

/-- A statement that moves no receipt, as the routes on responses run it too. -/
def Stmt.still {β : Type} (st : Stmt β) : Bool :=
  match st with
  | .update _ _ => true
  | st => st.calm

theorem need_of_still {β : Type} {st : Stmt β} (h : st.still = true) (facts : List Fact) :
    need st facts := by
  cases st with
  | send => cases h
  | createReceipt => cases h
  | updateReceipt => cases h
  | createMessage => cases h
  | commit => cases h
  | _ => trivial

theorem learn_still {β : Type} {st : Stmt β} (h : st.still = true) (b : β) (facts : List Fact) :
    progress (facts ++ learn st b) = progress facts := by
  rw [progress_append]
  cases st with
  | findReceipt scope =>
    rcases b with _ | (_ | _)
    · rfl
    · rfl
    · rfl
  | findResponse id threadId =>
    rcases b with _ | (_ | _)
    · rfl
    · rfl
    · rfl
  | prepare actor snapshot =>
    rcases b with _ | ⟨_ | _, _⟩
    · rfl
    · rfl
    · rfl
  | send => cases h
  | createReceipt => cases h
  | updateReceipt => cases h
  | createMessage => cases h
  | commit => cases h
  | rollback => cases h
  | _ => rfl

theorem since_of_still {β : Type} (st : Stmt β) (h : st.still = true) (b : β) (facts : List Fact) :
    Since facts (facts ++ learn st b) :=
  ⟨learn_still h b facts, List.subset_append_left ..⟩

theorem Stmt.still_of_calm {β : Type} {st : Stmt β} (h : st.calm = true) : st.still = true := by
  cases st with
  | update => rfl
  | _ => exact h

/-- A statement that is not still. -/
def Stmt.stirs {β : Type} (st : Stmt β) : Bool := !st.still

theorem still_of_stirs {β : Type} {st : Stmt β} (h : st.stirs = false) : st.still = true := by
  unfold Stmt.stirs at h
  simpa using h

theorem stirs_of_calm {β : Type} (st : Stmt β) (h : st.calm = true) : st.stirs = false := by
  unfold Stmt.stirs
  rw [Stmt.still_of_calm h]
  rfl

/-! ### Programs -/

variable {service : Service} {user : User} {actor : Actor} {receipt : Receipt}
  {snapshot : Snapshot} {transport : Transport} {scope : Scope} {key mailbox : String}
  {facts : List Fact}

/-- What a program of still statements leaves, however it ends. -/
theorem still_run {α : Type} {p : Throws Stmt Failure α} (h : Free Stmt.stirs p) :
    p.run.Learned learn need (fun _ facts' => Since facts facts') facts :=
  Prog.Without.learned_keeping h (fun _ facts hst => need_of_still (still_of_stirs hst) facts)
    (fun _ b facts' hst hsince => hsince.trans (since_of_still _ (still_of_stirs hst) b facts'))
    (Since.refl facts)

theorem still_bind {α β : Type} {p : Throws Stmt Failure α} {f : α → Throws Stmt Failure β}
    {Q : β → List Fact → Prop} (h : Free Stmt.stirs p)
    (hf : ∀ a facts', Since facts facts' → (f a).Learned learn need Q facts') :
    (p >>= f).Learned learn need Q facts :=
  Throws.Learned.bind (Prog.Learned.mono (still_run h) fun _ facts' hsince a _ =>
    hf a facts' hsince)

/-- A transport that was prepared is one for the snapshot. -/
theorem prepared_bind {β : Type} {existing : Option Receipt}
    {f : Transport × Bool → Throws Stmt Failure β} {Q : β → List Fact → Prop}
    (hf : ∀ made facts', Since facts facts' → .prepared snapshot made.1 ∈ facts' →
      (f made).Learned learn need Q facts') :
    (prepared actor snapshot existing >>= f).Learned learn need Q facts := by
  refine Throws.Learned.bind (Throws.learned_stmt_bind trivial fun made => ?_)
  refine Throws.learned_found_bind fun transport hmade => ?_
  refine Throws.learned_require_bind fun _ => Throws.learned_pure ?_
  have hsince := since_of_still (.prepare actor snapshot) rfl (.ok made) facts
  obtain ⟨made, sendable⟩ := made
  obtain rfl : made = some transport := hmade
  exact hf (transport, sendable) _ hsince (List.mem_append_right _ List.mem_cons_self)

/-- A draft that has to be approved was read as approved. -/
theorem authorizeSnapshot_backed {β : Type} {f : Unit → Throws Stmt Failure β}
    {Q : β → List Fact → Prop}
    (hf : ∀ facts', Since facts facts' → Backed snapshot.payload facts' →
      (f ()).Learned learn need Q facts') :
    (authorizeSnapshot actor snapshot true >>= f).Learned learn need Q facts := by
  refine Throws.Learned.bind (Throws.learned_require_bind fun _ => ?_)
  refine still_bind (authorizeThread_free stirs_of_calm _) fun _ facts' hsince => ?_
  unfold authorizeResponse
  cases hid : snapshot.payload.responseId with
  | none =>
    refine Throws.learned_pure (hf facts' hsince fun id h => ?_)
    cases hid.symm.trans h
  | some id =>
    refine Throws.learned_stmt_bind trivial fun found => ?_
    refine Throws.learned_found_bind fun response hresponse => ?_
    refine Throws.learned_require fun hmatches => ?_
    subst hresponse
    refine hf _ (hsince.trans (since_of_still _ rfl _ facts')) fun id' h => ?_
    obtain rfl := Option.some.inj (hid.symm.trans h)
    exact ⟨response, List.mem_append_right _ List.mem_cons_self, by simpa using hmatches⟩

/-- A same-key call that has won leaves its receipt. -/
theorem winner_found {error : Failure} : (service.winner user key snapshot error).Learned learn need
    (fun found facts' => Since facts facts' ∧ found.2.isSome = true) facts := by
  refine Throws.learned_require_bind fun _ => ?_
  refine still_bind (actorScope_free stirs_of_calm) fun actor facts₁ h₁ => ?_
  refine Throws.learned_stmt_bind trivial fun found => ?_
  have h₂ := h₁.trans
    (since_of_still (.findReceipt (scopeWhere actor key)) rfl (.ok found) facts₁)
  refine Throws.learned_found_bind fun existing _ => ?_
  refine still_bind verifyReceipt_free fun stored facts₃ h₃ => ?_
  refine Throws.learned_require_bind fun _ => ?_
  refine still_bind (authorizeSnapshot_free stirs_of_calm _) fun _ facts₄ h₄ => ?_
  exact Throws.learned_pure ⟨h₂.trans (h₃.trans h₄), rfl⟩

/-- A call that starts from no receipt has looked for one. -/
theorem lookup_learned {payload : Payload} : (service.lookup user key payload).Learned learn need
    (fun found facts' => Since facts facts' ∧
      (found.2.1 = none → .looked (scopeWhere found.1 key) ∈ facts')) facts := by
  refine still_bind (actorScope_free stirs_of_calm) fun actor facts₁ h₁ => ?_
  refine Throws.learned_stmt_bind trivial fun found => ?_
  have h₂ := h₁.trans
    (since_of_still (.findReceipt (scopeWhere actor key)) rfl (.ok found) facts₁)
  cases found with
  | some receipt =>
    refine still_bind verifyReceipt_free fun stored facts₃ h₃ => ?_
    refine Throws.learned_require_bind fun _ => ?_
    refine still_bind (authorizeSnapshot_free stirs_of_calm _) fun _ facts₄ h₄ => ?_
    exact Throws.learned_pure ⟨h₂.trans (h₃.trans h₄), fun h => by cases h⟩
  | none =>
    have hlooked : Fact.looked (scopeWhere actor key) ∈
        facts₁ ++ learn (.findReceipt (scopeWhere actor key)) (.ok none) :=
      List.mem_append_right _ List.mem_cons_self
    generalize facts₁ ++ learn (.findReceipt (scopeWhere actor key)) (.ok none) = facts₂
      at h₂ hlooked
    refine Throws.Learned.bind (Throws.learned_tryCatch
      (T := fun r facts' => Since facts₂ facts' ∧ ∀ found, r = .ok found → found.1 = actor) ?_
      (fun found facts₃ h₃ => ?_) fun error facts₃ h₃ => ?_)
    · refine Throws.run_learned_bind (Prog.Learned.mono
        (still_run (authorizeSnapshot_free stirs_of_calm _)) fun r facts₃ h₃ => ?_)
      cases r with
      | ok _ => exact ⟨h₃, fun found h => Except.ok.inj h ▸ rfl⟩
      | error error => exact ⟨h₃, fun found h => by cases h⟩
    · obtain ⟨h₃, hactor⟩ := h₃
      refine Throws.learned_pure ⟨h₂.trans h₃, fun _ => ?_⟩
      rw [hactor found rfl]
      exact h₃.known hlooked
    · refine Prog.Learned.mono winner_found fun r facts₄ h₄ found hr => ?_
      obtain ⟨h₄, hsome⟩ := h₄ found hr
      refine Throws.learned_pure ⟨h₂.trans (h₃.1.trans h₄), fun hnone => ?_⟩
      have hnone : found.2 = none := hnone
      rw [hnone] at hsome
      cases hsome

/-- What a transaction leaves: nothing is written and not committed. -/
def Ended {α : Type} (_ : α) (facts : List Fact) : Prop := (progress facts).stage = .idle

theorem stage_undone (facts : List Fact) : (progress (facts ++ [.undone])).stage = .idle := by
  rw [progress_concat]
  rfl

theorem stage_committed (facts : List Fact) : (progress (facts ++ [.committed])).stage = .idle := by
  rw [progress_concat]
  change (progress facts).commit.stage = .idle
  unfold Progress.commit
  cases (progress facts).stage <;> rfl

/-- A transaction that is undone, or committed where it may be. -/
theorem inTransaction_ended {α : Type} {body : Throws Stmt Failure α}
    (h : body.Learned learn need (fun _ facts' => (progress facts').stage.closes = true) facts) :
    (inTransaction body).run.Learned learn need Ended facts := by
  refine Throws.run_learned_transaction h (fun a facts' hcloses => ⟨hcloses, fun b => ?_⟩)
    fun e facts' => ⟨trivial, stage_undone facts'⟩
  cases b with
  | ok _ => exact stage_committed facts'
  | error _ => exact stage_undone facts'

theorem receiptTransition_ended {data : Outcome} {action : String}
    (h : data.due receipt.id .dispatching facts) :
    (receiptTransition actor receipt data action).run.Learned learn need Ended facts := by
  refine inTransaction_ended (Throws.learned_stmt_bind h fun changed => ?_)
  refine Throws.learned_require_bind fun hchanged => ?_
  obtain rfl : changed = 1 := by simpa using hchanged
  have hmoved : (progress (facts ++ learn (.updateReceipt receipt.id
      (scopeWhere actor receipt.scope.idempotencyKey) .dispatching data) (.ok 1))).stage =
      .moved := by
    rw [progress_append]
    cases data with
    | locked => cases h.2
    | completed hubMessageId => cases h.2
    | _ => rfl
  refine Throws.learned_stmt_bind trivial fun found => ?_
  refine Throws.learned_found_bind fun updated _ => ?_
  refine still_bind (audit_free stirs_of_calm _) fun _ facts' hsince => Throws.learned_pure ?_
  rw [hsince.progress, learn_still rfl, hmoved]
  rfl

/-- The message is recorded, or there is none. -/
theorem finalizeMessage_bind {β : Type} {f : Option ℕ → Throws Stmt Failure β}
    {Q : β → List Fact → Prop} (h : (progress facts).stage = .locked receipt.id)
    (hf : ∀ hubMessageId facts', (progress facts').stage = .locked receipt.id ∨
      (progress facts').stage = .recorded receipt.id →
        (f hubMessageId).Learned learn need Q facts') :
    (finalizeMessage receipt >>= f).Learned learn need Q facts := by
  refine Throws.Learned.bind ?_
  unfold finalizeMessage
  cases receipt.snapshot.payload.hubThreadId with
  | none => exact Throws.learned_pure (hf none facts (.inl h))
  | some threadId =>
    refine Throws.learned_stmt_bind h fun message => ?_
    have hrecorded : (progress (facts ++ learn (.createMessage receipt threadId)
        (.ok message))).stage = .recorded receipt.id := by
      rw [progress_append]
      rfl
    refine Throws.learned_stmt_bind trivial fun changed => ?_
    refine Throws.learned_require_bind fun _ => Throws.learned_pure (hf _ _ (.inr ?_))
    rw [learn_still rfl, hrecorded]

theorem project_closes (h : (progress facts).stage = .locked receipt.id) :
    (project receipt scope).Learned learn need
      (fun _ facts' => (progress facts').stage.closes = true) facts := by
  refine still_bind (finalizeResponse_free stirs_of_calm _) fun _ facts₁ h₁ => ?_
  refine finalizeMessage_bind (by rw [h₁.progress, h]) fun hubMessageId facts₂ h₂ => ?_
  refine Throws.learned_stmt_bind ⟨h₂, rfl⟩ fun changed => ?_
  refine Throws.learned_require_bind fun hchanged => ?_
  obtain rfl : changed = 1 := by simpa using hchanged
  have hcompleted : (progress (facts₂ ++ learn (.updateReceipt receipt.id scope
      .acceptedPendingRecord (.completed hubMessageId)) (.ok 1))).stage =
      .completed receipt.id := by
    rw [progress_append]
    rfl
  refine Throws.learned_stmt_bind trivial fun found => ?_
  refine Throws.learned_found_bind fun completed _ => ?_
  refine still_bind (audit_free stirs_of_calm _) fun _ facts₃ h₃ => Throws.learned_pure ?_
  rw [h₃.progress, learn_still rfl, hcompleted]
  rfl

theorem finalize_ended (h : (progress facts).stage = .idle) :
    (service.finalize user receipt).run.Learned learn need Ended facts := by
  refine inTransaction_ended (still_bind (actorScope_free stirs_of_calm) fun actor facts₁ h₁ => ?_)
  refine still_bind verifyReceipt_free fun snapshot facts₂ h₂ => ?_
  refine still_bind (authorizeSnapshot_free stirs_of_calm _) fun _ facts₃ h₃ => ?_
  have hidle : (progress facts₃).stage = .idle := by
    rw [h₃.progress, h₂.progress, h₁.progress, h]
  refine Throws.learned_stmt_bind ⟨hidle, rfl⟩ fun lock => ?_
  split
  · subst lock
    refine project_closes ?_
    rw [progress_append]
    rfl
  · rename_i hlock
    have hkept : facts₃ ++ learn (.updateReceipt receipt.id (scopeWhere actor
        receipt.scope.idempotencyKey) .acceptedPendingRecord .locked) (.ok lock) = facts₃ := by
      change facts₃ ++ (if lock = 1 then _ else []) = facts₃
      rw [if_neg hlock, List.append_nil]
    rw [hkept]
    refine Prog.Learned.mono (still_run (taken_free stirs_of_calm)) fun r facts₄ h₄ a _ => ?_
    change (progress facts₄).stage.closes = true
    rw [h₄.progress, hidle]
    rfl

theorem repair_learned (h : (progress facts).stage = .idle) :
    (service.repair user receipt).Learned learn need (fun _ _ => True) facts := by
  unfold Service.repair
  have hout (receipt : Receipt) (facts : List Fact) :
      (outcome receipt false).Learned learn need (fun _ _ => True) facts :=
    Prog.Learned.mono (still_run (outcome_free _)) fun _ _ _ _ _ => trivial
  split
  · exact hout receipt facts
  · refine Throws.learned_tryCatch (T := fun _ _ => True) ?_ (fun _ _ _ => trivial)
      fun _ facts' _ => hout receipt facts'
    refine Throws.run_learned_bind (Prog.Learned.mono (finalize_ended h) fun r facts' _ => ?_)
    cases r with
    | ok stored => exact Prog.Learned.mono (still_run (outcome_free _)) fun _ _ _ => trivial
    | error error => trivial

/-- A call has a new receipt in its transaction, or runs on with another. -/
def Claims (mailbox : String) (snapshot : Snapshot) (facts : List Fact) (claim : Service.Claim)
    (facts' : List Fact) : Prop :=
  match claim with
  | .claimed created => facts ⊆ facts' ∧
      progress facts' = { progress facts with stage := .claimed ⟨mailbox, snapshot⟩ created }
  | .existing _ => (progress facts').stage = .idle

/-- A call has committed its new receipt, or runs on with another. -/
def Claimed (mailbox : String) (snapshot : Snapshot) (facts : List Fact) (claim : Service.Claim)
    (facts' : List Fact) : Prop :=
  match claim with
  | .claimed created => facts ⊆ facts' ∧ (progress facts').sent = (progress facts).sent ∧
      (⟨mailbox, snapshot⟩, created) ∈ (progress facts').claims ∧ (progress facts').stage = .idle
  | .existing _ => (progress facts').stage = .idle

theorem claimBody_learned (hidle : (progress facts).stage = .idle)
    (hlooked : .looked (scopeWhere actor key) ∈ facts) :
    (service.claimBody user actor key snapshot mailbox).Learned learn need
      (Claims mailbox snapshot facts) facts := by
  refine still_bind (actorScope_free stirs_of_calm) fun fresh facts₁ h₁ => ?_
  refine Throws.learned_stmt_bind trivial fun found => ?_
  have h₂ := h₁.trans
    (since_of_still (.findReceipt (scopeWhere fresh key)) rfl (.ok found) facts₁)
  generalize facts₁ ++ learn (.findReceipt (scopeWhere fresh key)) (.ok found) = facts₂ at h₂
  cases found with
  | some existing =>
    refine still_bind verifyReceipt_free fun stored facts₃ h₃ => ?_
    refine Throws.learned_require_bind fun _ => ?_
    refine still_bind (authorizeSnapshot_free stirs_of_calm _) fun _ facts₄ h₄ => ?_
    refine Throws.learned_pure ?_
    change (progress facts₄).stage = .idle
    rw [(h₂.trans (h₃.trans h₄)).progress, hidle]
  | none =>
    refine authorizeSnapshot_backed fun facts₃ h₃ hbacked => ?_
    have hsince := h₂.trans h₃
    refine Throws.learned_stmt_bind ⟨by rw [hsince.progress, hidle], hsince.known hlooked, hbacked⟩
      fun created => ?_
    refine still_bind (audit_free stirs_of_calm _) fun _ facts₄ h₄ => ?_
    refine Throws.learned_pure ⟨fun fact hfact => ?_, ?_⟩
    · exact h₄.known (List.mem_append_left _ (hsince.known hfact))
    · rw [h₄.progress, progress_append, hsince.progress]
      rfl

theorem claim_learned (hidle : (progress facts).stage = .idle)
    (hlooked : .looked (scopeWhere actor key) ∈ facts) :
    (service.claim user actor key snapshot mailbox).Learned learn need
      (Claimed mailbox snapshot facts) facts := by
  refine Throws.learned_tryCatch (T := fun r facts' => (progress facts').stage = .idle ∧
    ∀ claim, r = .ok claim → Claimed mailbox snapshot facts claim facts') ?_ ?_ ?_
  · refine Throws.run_learned_transaction (claimBody_learned hidle hlooked)
      (fun claim facts₁ h₁ => ?_) fun error facts₁ =>
        ⟨trivial, stage_undone facts₁, fun _ h => by cases h⟩
    cases claim with
    | existing existing =>
      have h₁ : (progress facts₁).stage = .idle := h₁
      refine ⟨?_, fun b => ?_⟩
      · change (progress facts₁).stage.closes = true
        rw [h₁]
        rfl
      · cases b with
        | ok _ =>
          refine ⟨stage_committed facts₁, fun claim hclaim => ?_⟩
          obtain rfl := Except.ok.inj hclaim
          exact stage_committed facts₁
        | error _ => exact ⟨stage_undone facts₁, fun claim hclaim => by cases hclaim⟩
    | claimed created =>
      obtain ⟨hknown, h₁⟩ := h₁
      refine ⟨?_, fun b => ?_⟩
      · change (progress facts₁).stage.closes = true
        rw [h₁]
        rfl
      · cases b with
        | ok _ =>
          refine ⟨stage_committed facts₁, fun claim hclaim => ?_⟩
          obtain rfl := Except.ok.inj hclaim
          have hcommit : progress (facts₁ ++ learn .commit (.ok ())) = ⟨.idle,
              (progress facts).claims ++ [(⟨mailbox, snapshot⟩, created)],
                (progress facts).sent⟩ := by
            rw [progress_append, h₁]
            rfl
          refine ⟨fun fact hfact => List.mem_append_left _ (hknown hfact), ?_, ?_, ?_⟩
          · rw [hcommit]
          · rw [hcommit]
            exact List.mem_append_right _ List.mem_cons_self
          · rw [hcommit]
        | error _ => exact ⟨stage_undone facts₁, fun claim hclaim => by cases hclaim⟩
  · rintro claim facts' ⟨-, hclaimed⟩
    exact hclaimed claim rfl
  · rintro error facts' ⟨hidle', -⟩
    refine Throws.learned_require_bind fun _ => ?_
    refine Throws.learned_stmt_bind trivial fun found => ?_
    have h₁ := since_of_still (.findReceipt (scopeWhere actor key)) rfl (.ok found) facts'
    refine Throws.learned_found_bind fun receipt _ => ?_
    refine still_bind verifyReceipt_free fun _ facts₂ h₂ => ?_
    refine Throws.learned_require_bind fun _ => Throws.learned_pure ?_
    change (progress facts₂).stage = .idle
    rw [(h₁.trans h₂).progress, hidle']

theorem outcome_learned (read : Bool) :
    (outcome receipt read).Learned learn need (fun _ _ => True) facts :=
  Prog.Learned.mono (still_run (outcome_free _)) fun _ _ _ _ _ => trivial

theorem dispatch_learned {made : Transport} (hidle : (progress facts).stage = .idle)
    (hsent : (progress facts).sent = false)
    (hclaimed : (⟨made.mailbox, snapshot⟩, receipt) ∈ (progress facts).claims)
    (hprepared : .prepared snapshot made ∈ facts) :
    (service.dispatch user actor made receipt).Learned learn need (fun _ _ => True) facts := by
  refine Throws.Learned.bind (Throws.learned_caught ⟨⟨hsent, snapshot, hclaimed, hprepared⟩,
    fun answer => ?_⟩)
  have hidle' (answer : Except Failure Sent) :
      (progress (facts ++ learn (.send made receipt) answer)).stage = .idle := by
    rw [progress_append]
    exact hidle
  cases answer with
  | error error =>
    have hdue : (if error = .provider true then Outcome.rejected else .unknown).due receipt.id
        .dispatching (facts ++ learn (.send made receipt) (.error error)) := by
      split
      · rename_i hrefused
        subst hrefused
        exact ⟨hidle' _, rfl, List.mem_append_right _ List.mem_cons_self⟩
      · exact ⟨hidle' _, rfl⟩
    refine Throws.Learned.bind (Throws.learned_tryCatch (T := fun _ _ => True) ?_
      (fun stored facts' _ => outcome_learned _) fun _ facts' _ => ?_)
    · exact Prog.Learned.mono (receiptTransition_ended hdue) fun _ _ _ => trivial
    · exact Throws.learned_pure (outcome_learned _)
  | ok sent =>
    refine Throws.Learned.bind (Throws.learned_caught (Prog.Learned.mono
      (receiptTransition_ended ⟨hidle' _, rfl⟩) fun stored facts' hended => ?_))
    cases stored with
    | error error => exact outcome_learned _
    | ok stored => exact repair_learned hended

theorem sendGmailWithReceipt_learned (input : Input) :
    (service.sendGmailWithReceipt user input).Learned learn need (fun _ _ => True) [] := by
  refine Throws.Learned.bind (Prog.Learned.mono lookup_learned fun r facts₁ h₁ found hr => ?_)
  obtain ⟨actor, existing, snapshot⟩ := found
  obtain ⟨hsince, hlooked⟩ := h₁ _ hr
  have hstart : progress facts₁ = ⟨.idle, [], false⟩ := hsince.progress
  refine prepared_bind fun made facts₂ h₂ hprepared => ?_
  have hidle : (progress facts₂).stage = .idle := by rw [h₂.progress, hstart]
  cases existing with
  | some receipt => exact repair_learned hidle
  | none =>
    refine Throws.learned_require_bind fun _ => ?_
    refine Throws.Learned.bind (Prog.Learned.mono (claim_learned hidle (h₂.known (hlooked rfl)))
      fun r facts₃ h₃ claim hr => ?_)
    have h₃ := h₃ claim hr
    cases claim with
    | existing existing => exact repair_learned h₃
    | claimed created =>
      obtain ⟨hknown, hsent, hclaimed, hidle⟩ := h₃
      refine dispatch_learned hidle ?_ hclaimed (hknown hprepared)
      rw [hsent, h₂.progress, hstart]

theorem sends_learned (request : SendRequest) :
    (request.program service).Learned learn need (fun _ _ => True) [] := by
  have hload (user : User) (key : String) :
    Free Stmt.stirs (service.loadAuthorizedReceipt user key) :=
    loadAuthorizedReceipt_free stirs_of_calm
  cases request with
  | send user input => exact sendGmailWithReceipt_learned input
  | read user key => exact still_bind (hload user key) fun _ _ _ => outcome_learned _
  | reconcile user key =>
    exact still_bind (hload user key) fun _ _ hsince => repair_learned
      (by rw [hsince.progress]; rfl)

theorem routes_free (request : RouteRequest) : Free Stmt.stirs request.program := by
  have hwrite (id : String) (accepts : ResponseStatus → Bool) (refusal : String) (write : Write) :
      Free Stmt.stirs (writeResponse id accepts refusal write) := by
    refine free_bind (Throws.without_stmt rfl) fun found => ?_
    refine free_bind Throws.without_found fun existing => ?_
    exact free_bind Throws.without_require fun _ => Throws.without_stmt rfl
  cases request with
  | update id input => exact hwrite ..
  | submit id => exact hwrite ..
  | approve userId id => exact free_bind (Throws.without_read rfl) fun _ => hwrite ..
  | reject id reason =>
    unfold RouteRequest.program rejectResponse
    exact hwrite ..
  | sent id => exact free_bind (Throws.without_read rfl) fun _ => hwrite ..

/-- Every request learns what its statements need. -/
theorem Requested.knows {p : Prog Stmt Unit} (h : Requested service p) :
    p.Learned learn need (fun _ _ => True) [] := by
  obtain ⟨request, rfl⟩ | ⟨request, rfl⟩ := h
  · exact Prog.Learned.bind (Prog.Learned.mono (sends_learned request) fun _ _ _ => trivial)
  · exact Prog.Learned.bind (Prog.Learned.mono (still_run (routes_free request))
      fun _ _ _ => trivial)

end Ashbi.Gmail
