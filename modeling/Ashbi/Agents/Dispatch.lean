import Ashbi.Agents.Steps
import Ashbi.Interleaving.Transaction

/-! What a job knows of the run that it has claimed. -/

namespace Ashbi.Agents

open Interleaving Sql

section Contract

variable {Context Memory : Type}

/-- What only thread `i` brings about: the claims with its tokens, the calls for its runs. -/
def Event.isOf (e : Event Context Memory) (i : ℕ) (h : List (Event Context Memory)) : Prop :=
  (∃ claim ∈ e.claim?, (i, claim.token) ∈ draws h) ∨
    ∃ claim ∈ claims h, claim.thread = i ∧ e.chat? = some claim.runId

theorem Event.isOf_append (e : Event Context Memory) (i : ℕ) (h later : List (Event Context Memory))
    (he : e.isOf i h) : e.isOf i (h ++ later) := by
  rcases he with ⟨claim, hclaim, hdrawn⟩ | ⟨claim, hclaim, hrest⟩
  · refine .inl ⟨claim, hclaim, ?_⟩
    rw [draws, List.filterMap_append]
    exact List.mem_append_left _ hdrawn
  · refine .inr ⟨claim, ?_, hrest⟩
    rw [claims, List.filterMap_append]
    exact List.mem_append_left _ hclaim

/-- An event that is no claim and no call is no other thread's. -/
theorem not_isOf {h : List (Event Context Memory)} {e : Event Context Memory} {j : ℕ}
    (hclaim : e.claim? = none) (hchat : e.chat? = none) : ¬ e.isOf j h := by
  rintro (⟨claim, hmem, -⟩ | ⟨claim, -, -, heq⟩)
  · rw [hclaim] at hmem
    cases hmem
  · rw [hchat] at heq
    cases heq

variable (sources : Sources Context Memory)

/-- What is kept of the jobs. -/
abbrev watcher : Watcher (machine sources) (Event Context Memory) where
  event := events sources
  owns := Event.isOf
  mono := Event.isOf_append
  inv := Ledger

/-- The contract of the jobs. -/
abbrev contract : Contract ((machine sources).watched (events sources)) :=
  (watcher sources).contract

/-- The statements that the history tells of. -/
def Stmt.telling : {β : Type} → Stmt Context Memory β → Bool
  | _, .randomUUID | _, .claim .. | _, .settle .. | _, .prepare .. | _, .chat .. => true
  | _, _ => false

theorem silent_step {β : Type} {st : Stmt Context Memory β} (hst : st.telling = false)
    (choice : Choice Context) (s : State Context Memory) :
    s.Step Write.Silent (exec sources st choice s).2 := by
  cases st with
  | randomUUID | claim | settle | prepare | chat => cases hst
  | expire organizationId id claimToken now => exact .write _ _ _ trivial
  | start user input => exact transact_step fun _ _ => startRun_ok
  | cancel user clientId conversationId id => exact transact_step fun _ _ => cancelRun_ok
  | review user clientId conversationId id => exact transact_step fun _ _ => reviewRun_ok
  | setAccounts users clients conversations =>
    simp only [exec]
    split
    · rename_i href
      exact .idle rfl rfl (Nat.le_refl _) (.inr href)
    · exact .refl s
  | _ => exact .refl s

theorem silent : (watcher sources).Silent Stmt.telling where
  inv st hst _ choice s _ hl := hl.silent (silent_step sources hst choice s)
  event st hst i choice s := by
    cases st with
    | randomUUID | claim | settle | prepare | chat => cases hst
    | _ => rfl
  guar _ _ _ _ _ _ := trivial

end Contract

/-! ### What a job knows -/

section Knowledge

variable {Context Memory : Type} {i token : ℕ} {run : AgentRun Context Memory} {claimed : Claimed}
  {prepared : Prepared Context Memory} {h later : List (Event Context Memory)}

/-- Thread `i` has drawn the token and not used it. -/
def Drawn (i token : ℕ) (h : List (Event Context Memory)) : Prop :=
  (i, token) ∈ draws h ∧ ∀ claim ∈ claims h, claim.token ≠ token

theorem stable_drawn (i token : ℕ) :
    Stable Event.isOf i (@Drawn Context Memory i token) := by
  rintro h later hlater ⟨hdrawn, hunused⟩
  constructor
  · rw [draws, List.filterMap_append]
    exact List.mem_append_left _ hdrawn
  · intro claim hclaim
    rcases List.mem_append.mp (mem_claims.mp hclaim) with hclaim | hclaim
    · exact hunused claim (mem_claims.mpr hclaim)
    · rintro rfl
      exact hlater _ hclaim (.inl ⟨claim, rfl, hdrawn⟩)

/-- The claim of thread `i`. -/
def claimOf (i : ℕ) (run : AgentRun Context Memory) (claimed : Claimed) : Claim :=
  ⟨i, run.id, claimed.token, claimed.deadlineAt⟩

/-- Thread `i` has claimed the run. -/
def Held (i : ℕ) (run : AgentRun Context Memory) (claimed : Claimed)
    (h : List (Event Context Memory)) : Prop := claimOf i run claimed ∈ claims h

theorem stable_held (i : ℕ) (run : AgentRun Context Memory) (claimed : Claimed) :
    Stable Event.isOf i (Held i run claimed) := by
  intro h later _ hheld
  rw [Held, claims, List.filterMap_append]
  exact List.mem_append_left _ hheld

/-- It has not called the provider for it. -/
def Uncalled (i : ℕ) (run : AgentRun Context Memory) (claimed : Claimed)
    (h : List (Event Context Memory)) : Prop := Held i run claimed h ∧ run.id ∉ chats h

theorem stable_uncalled (i : ℕ) (run : AgentRun Context Memory) (claimed : Claimed) :
    Stable Event.isOf i (Uncalled i run claimed) := by
  rintro h later hlater ⟨hheld, hnew⟩
  refine ⟨stable_held i run claimed h later hlater hheld, fun hmem => ?_⟩
  obtain ⟨prompt, found, hchatted⟩ := mem_chats.mp hmem
  rcases List.mem_append.mp hchatted with hchatted | hchatted
  · exact hnew (mem_chats.mpr ⟨prompt, found, hchatted⟩)
  · exact hlater _ hchatted (.inr ⟨_, hheld, rfl, rfl⟩)

/-- What the provider is to be given has been committed. -/
def Ready (i : ℕ) (run : AgentRun Context Memory) (claimed : Claimed)
    (prepared : Prepared Context Memory) (h : List (Event Context Memory)) : Prop :=
  Uncalled i run claimed h ∧ .prepared run.id prepared ∈ h

theorem stable_ready (i : ℕ) (run : AgentRun Context Memory) (claimed : Claimed)
    (prepared : Prepared Context Memory) : Stable Event.isOf i (Ready i run claimed prepared) :=
  fun h later hlater hready => ⟨stable_uncalled i run claimed h later hlater hready.1,
    List.mem_append_left _ hready.2⟩

/-- A token is drawn by one thread. -/
theorem claimed_not_isOf (hc : Chronicle h) {claim : Claim} (hdrawn : (i, claim.token) ∈ draws h)
    {j : ℕ} (hj : j ≠ i) : ¬ (Event.claimed claim).isOf j h := by
  rintro (⟨other, hother, hdraw⟩ | ⟨other, -, -, heq⟩)
  · obtain rfl := Option.some.inj hother
    have hsame := row_eq hc.drawnOnce hdraw hdrawn rfl
    exact hj (Prod.mk.inj hsame).1
  · cases heq

/-- A run is claimed by one thread. -/
theorem chatted_not_isOf (hc : Chronicle h) (hheld : Held i run claimed h)
    {prompt : Prompt Context Memory} {found : Option (AgentRun Context Memory)} {j : ℕ}
    (hj : j ≠ i) : ¬ (Event.chatted run.id prompt found).isOf j h := by
  rintro (⟨other, hother, -⟩ | ⟨other, hother, rfl, heq⟩)
  · cases hother
  · have hsame := row_eq hc.claimedOnce hother hheld (Option.some.inj heq).symm
    exact hj (congrArg Claim.thread hsame)

/-- The row that has the token of a claim is the one that was claimed. -/
theorem Held.row {s : State Context Memory} (hl : Ledger s h) (hheld : Held i run claimed h)
    {row : AgentRun Context Memory} (hrow : row ∈ s.runs)
    (htoken : row.claimToken = some claimed.token) :
    row.id = run.id ∧ row.deadlineAt = some claimed.deadlineAt := by
  obtain ⟨claim, hclaim, hsame, hid, hdeadline⟩ := hl.holder row hrow _ htoken
  obtain rfl := row_eq hl.tokensOnce hclaim hheld hsame
  exact ⟨hid.symm, hdeadline⟩

end Knowledge

/-! ### Jobs under the contract -/

section Jobs

variable {Context Memory : Type} {sources : Sources Context Memory} {α β : Type} {i : ℕ}
  {s : State Context Memory × List (Event Context Memory)} {run : AgentRun Context Memory}
  {claimed : Claimed} {prepared : Prepared Context Memory} {P : List (Event Context Memory) → Prop}

theorem keeps {st : Stmt Context Memory β} {choice : Choice Context}
    (hl : Ledger (exec sources st choice s.1).2 (s.2 ++ st.events i choice s.1))
    (hothers : ∀ j, j ≠ i → ∀ e ∈ st.events i choice s.1, ¬ e.isOf j s.2) :
    (contract sources).Keeps ⟨i, st, choice, s⟩ :=
  Watcher.keeps (W := watcher sources) hl hothers trivial

theorem read_safe {st : Stmt Context Memory β} {f : β → Job Context Memory α}
    {Q : α → State Context Memory × List (Event Context Memory) → Prop} (hst : st.telling = false)
    (hstable : Stable Event.isOf i P) (hP : P s.2)
    (hnext : ∀ (t : State Context Memory × List (Event Context Memory)) (choice : Choice Context),
      P t.2 → Prog.Safe (contract sources) i (f (exec sources st choice t.1).1) Q
        ((exec sources st choice t.1).2, t.2)) :
    Prog.Safe (contract sources) i (Prog.stmt st >>= f) Q s :=
  (silent sources).call hst hstable hP fun t choice _ => hnext t choice

/-- A job of silent statements. -/
theorem quiet_safe {job : Job Context Memory α} (h : job.Without Stmt.telling fun _ => True) :
    Prog.Safe (contract sources) i job (fun _ _ => True) s :=
  ((silent sources).safe h stable_true trivial).mono fun _ _ _ => trivial

theorem result_quiet : (result run).Without Stmt.telling fun _ => True := ⟨rfl, fun _ => trivial⟩

theorem expire_quiet {claimToken : Option ℕ} {now : Time} :
    (expire run claimToken now).Without Stmt.telling fun _ => True :=
  ⟨rfl, fun _ => ⟨rfl, fun _ => result_quiet⟩⟩

theorem preflight_quiet : (preflight sources run).run.Without Stmt.telling fun _ => True := by
  refine Throws.without_bind Throws.without_require fun _ => ?_
  refine Throws.without_bind (Throws.without_stmt rfl) fun found => ?_
  refine Throws.without_bind trivial fun conversation => ?_
  refine Throws.without_bind (Throws.without_stmt rfl) fun user => ?_
  refine Throws.without_bind trivial fun actor => ?_
  refine Throws.without_bind (Throws.without_stmt rfl) fun profile => ?_
  refine Throws.without_bind trivial fun _ => ?_
  refine Throws.without_bind (Throws.without_stmt rfl) fun built => ?_
  refine Throws.without_bind trivial fun context => ?_
  refine Throws.without_bind (Throws.without_stmt rfl) fun memorySnapshot => ?_
  refine Throws.without_bind (Throws.without_read rfl) fun contextObservedAt => ?_
  exact Throws.without_bind Throws.without_require fun _ => trivial

/-- Only the claimant settles a run, before the deadline. -/
theorem settle_keeps {now : Time} {outcome : Outcome} {choice : Choice Context}
    (hl : Ledger s.1 s.2) (hheld : Held i run claimed s.2) : (contract sources).Keeps
      ⟨i, .settle run.organizationId run.id claimed.token now outcome, choice, s⟩ := by
  apply keeps
  · refine @Ledger.written _ _ _ _ _ _ _ (.settle claimed.token now outcome) hl trivial ?_
    intro row hrow hid hselects
    apply hl.toChronicle.settles
    simp only [Write.selects, AgentRun.heldBy, Bool.and_eq_true, decide_eq_true_eq] at hselects
    obtain ⟨⟨-, htoken⟩, hbefore⟩ := hselects
    obtain ⟨-, hdeadline⟩ := hheld.row hl hrow htoken
    rw [hdeadline, Option.any_some, decide_eq_true_eq] at hbefore
    exact ⟨_, hheld, rfl, hid.symm, hbefore⟩
  · intro j _ e he
    rcases written_cases hl.tables i run.organizationId run.id (.settle claimed.token now outcome)
      with ⟨-, hevents, -⟩ | ⟨row, -, -, -, hevents, -⟩
    · rw [Stmt.events, hevents] at he
      cases he
    · rw [Stmt.events, hevents] at he
      obtain rfl := List.mem_singleton.mp he
      exact not_isOf rfl rfl

theorem settle_safe {outcome : Outcome} (hheld : Held i run claimed s.2) :
    Prog.Safe (contract sources) i (settle run claimed outcome) (fun _ _ => True) s := by
  have hstable := stable_held i run claimed
  refine read_safe rfl hstable hheld fun t choice ht => ?_
  refine read_safe rfl hstable ht fun u choice' hu => ?_
  dsimp only
  split
  · exact quiet_safe expire_quiet
  · intro v choice'' hr hl _ _
    exact ⟨settle_keeps hl (hstable.onward hr hu), quiet_safe result_quiet⟩

theorem callChat_safe (hready : Ready i run claimed prepared s.2) :
    Prog.Safe (contract sources) i (callChat run claimed prepared) (fun _ _ => True) s := by
  intro t choice hr hl _ _
  have hl : Ledger t.1 t.2 := hl
  obtain ⟨⟨hheld, hnew⟩, hprepared⟩ := (stable_ready i run claimed prepared).onward hr hready
  obtain ⟨row, hrow, hid, hstores⟩ := hl.preparedRow run.id prepared hprepared
  have hfind : t.1.runs.find? (·.id = run.id) = some row :=
    (find?_eq_some hl.tables.ids).mpr ⟨hrow, hid⟩
  have hevents : (Stmt.chat run.id (promptOf run prepared)).events i choice t.1 =
      [.chatted run.id (promptOf run prepared) (some row)] := by simp only [Stmt.events, hfind]
  have hholds : row.Holds (promptOf run prepared) :=
    ⟨hstores.observedAt, hstores.context, hstores.memory⟩
  constructor
  · apply keeps
    · rw [hevents]
      refine hl.log (hl.toChronicle.chats ⟨_, hheld, rfl⟩ hnew hholds) ?_ rfl ?_
      · exact fun draw hdraw => absurd hdraw (Option.not_mem_none draw)
      · exact fun _ _ heq => by cases heq
    · rw [hevents]
      intro j hj e he
      obtain rfl := List.mem_singleton.mp he
      exact chatted_not_isOf hl.toChronicle hheld hj
  · refine read_safe rfl (stable_held i run claimed) ?_ fun u choice' hu => settle_safe hu
    change Held i run claimed (t.2 ++ (Stmt.chat run.id (promptOf run prepared)).events i
      choice t.1)
    rw [hevents, Held, claims_concat]
    exact List.mem_append_left _ hheld

theorem dispatch_safe (hready : Ready i run claimed prepared s.2) :
    Prog.Safe (contract sources) i (dispatch run claimed prepared) (fun _ _ => True) s := by
  have hstable := stable_ready i run claimed prepared
  refine read_safe rfl hstable hready fun t choice ht => ?_
  refine read_safe rfl hstable ht fun u choice' hu => ?_
  dsimp only
  split
  · exact quiet_safe ⟨rfl, fun _ => expire_quiet⟩
  · exact callChat_safe hu

/-- An update that was counted left its event. -/
theorem counted {s : State Context Memory} (htables : s.Tables) {organizationId : String} {id : ℕ}
    {write : Write Context Memory} (hcount : (s.updateMany organizationId id write).1 = 1) :
    ∃ row ∈ s.runs, row.id = id ∧ write.selects row = true ∧
      s.written i organizationId id write = (write.event i row).toList := by
  rcases written_cases htables i organizationId id write with
    ⟨-, -, hnone⟩ | ⟨row, hrow, hid, hselects, hevents, -⟩
  · have hempty : s.runs.filter (write.at organizationId id) = [] :=
      List.filter_eq_nil_iff.mpr fun row hrow => by rw [hnone row hrow]; nofun
    rw [State.updateMany, hempty] at hcount
    cases hcount
  · exact ⟨row, hrow, hid, hselects, hevents⟩

theorem prepare_keeps {now : Time} {choice : Choice Context} (hl : Ledger s.1 s.2) :
    (contract sources).Keeps
      ⟨i, .prepare run.organizationId run.id claimed.token now prepared, choice, s⟩ := by
  have hwritten := @Ledger.written _ _ _ _ run.organizationId i run.id
    (.prepare claimed.token now prepared) hl trivial fun _ _ _ _ => hl.toChronicle.prepared
  apply keeps
  · simp only [exec, Stmt.events]
    cases choice.fault with
    | before =>
      rw [if_pos rfl, List.append_nil]
      exact hl
    | none => exact hwritten
    | after => exact hwritten
  · intro j _ e he
    rw [Stmt.events] at he
    split at he
    · cases he
    · rcases written_cases hl.tables i run.organizationId run.id
        (.prepare claimed.token now prepared) with ⟨-, hevents, -⟩ | ⟨row, -, -, -, hevents, -⟩
      · rw [hevents] at he
        cases he
      · rw [hevents] at he
        obtain rfl := List.mem_singleton.mp he
        exact not_isOf rfl rfl

/-- The update of the preflight leaves the claim and the calls as they were. -/
theorem Uncalled.prepare {now : Time} {choice : Choice Context} {t : State Context Memory}
    {h : List (Event Context Memory)} (htables : t.Tables) (huncalled : Uncalled i run claimed h) :
    Uncalled i run claimed (h ++ (Stmt.prepare run.organizationId run.id claimed.token now
      prepared).events i choice t) := by
  rw [Stmt.events]
  split
  · rw [List.append_nil]
    exact huncalled
  · rcases written_cases htables i run.organizationId run.id (.prepare claimed.token now prepared)
      with ⟨-, hevents, -⟩ | ⟨row, -, -, -, hevents, -⟩
    · rw [hevents, List.append_nil]
      exact huncalled
    · rw [hevents, Write.event, Option.toList_some, Uncalled, Held, claims_concat, chats_concat]
      simpa [Uncalled, Held] using huncalled

theorem prepare_safe (huncalled : Uncalled i run claimed s.2) :
    Prog.Safe (contract sources) i (prepare run claimed prepared) (fun _ _ => True) s := by
  have hstable := stable_uncalled i run claimed
  refine read_safe rfl hstable huncalled fun t choice ht => ?_
  intro u choice' hr hl _ _
  have hl : Ledger u.1 u.2 := hl
  have hu := hstable.onward hr ht
  refine ⟨prepare_keeps hl, ?_⟩
  have hpost := @Uncalled.prepare _ _ _ _ _ prepared choice.time choice' _ _ hl.tables hu
  change Prog.Safe (contract sources) i (dispatchPrepared run claimed prepared
    (exec sources (.prepare run.organizationId run.id claimed.token choice.time prepared) choice'
      u.1).1) _ (_, u.2 ++ (Stmt.prepare run.organizationId run.id claimed.token choice.time
        prepared).events i choice' u.1)
  unfold dispatchPrepared
  split
  · exact settle_safe hpost.1
  · rename_i count hsaved
    split
    · exact quiet_safe result_quiet
    · rename_i hcount
      refine dispatch_safe ⟨hpost, List.mem_append_right _ ?_⟩
      simp only [exec] at hsaved
      cases hfault : choice'.fault with
      | before => rw [hfault] at hsaved; cases hsaved
      | after => rw [hfault] at hsaved; cases hsaved
      | none =>
        rw [hfault] at hsaved
        obtain rfl := Except.ok.inj hsaved
        obtain ⟨row, -, hid, -, hevents⟩ := counted (i := i) hl.tables (not_not.mp hcount)
        simp only [Stmt.events, hfault, reduceCtorEq, ↓reduceIte]
        rw [hevents, ← hid]
        exact List.mem_cons_self

theorem checkClaim_safe (huncalled : Uncalled i run claimed s.2) :
    Prog.Safe (contract sources) i (checkClaim run claimed prepared) (fun _ _ => True) s := by
  have hstable := stable_uncalled i run claimed
  refine read_safe rfl hstable huncalled fun t choice ht => ?_
  dsimp only
  split
  · exact quiet_safe result_quiet
  · refine read_safe rfl hstable ht fun u choice' hu => ?_
    dsimp only
    split
    · exact quiet_safe ⟨rfl, fun _ => expire_quiet⟩
    · exact prepare_safe hu

theorem preflight_safe (huncalled : Uncalled i run claimed s.2) :
    Prog.Safe (contract sources) i ((preflight sources run).run.bind (afterPreflight run claimed))
      (fun _ _ => True) s := by
  apply Prog.Safe.bind
  refine ((silent sources).safe preflight_quiet (stable_uncalled i run claimed) huncalled).mono ?_
  rintro result t ⟨-, ht⟩
  cases result with
  | ok prepared => exact checkClaim_safe ht
  | error failure => exact settle_safe ht.1

end Jobs

/-! ### Claims -/

section Claims

variable {Context Memory : Type} {sources : Sources Context Memory} {i token : ℕ}
  {s : State Context Memory × List (Event Context Memory)} {run : AgentRun Context Memory}
  {startedAt deadlineAt : Time}

/-- A queued run has not been claimed. -/
theorem Ledger.unclaimed {s : State Context Memory} {h : List (Event Context Memory)}
    (hl : Ledger s h) {row : AgentRun Context Memory} (hrow : row ∈ s.runs)
    (hqueued : row.status = .queued) : ∀ claim ∈ claims h, claim.runId ≠ row.id := by
  intro claim hclaim hid
  obtain ⟨other, hother, hsame, hstatus⟩ := hl.claimedRow claim hclaim
  obtain rfl := row_eq hl.tables.ids hother hrow (hsame.trans hid)
  exact hstatus hqueued

theorem claim_keeps {choice : Choice Context} (hl : Ledger s.1 s.2) (hdrawn : Drawn i token s.2) :
    (contract sources).Keeps
      ⟨i, .claim run.organizationId run.id token startedAt deadlineAt, choice, s⟩ := by
  apply keeps
  · refine @Ledger.written _ _ _ _ _ _ _ (.claim token startedAt deadlineAt) hl trivial ?_
    intro row hrow _ hselects
    exact hl.toChronicle.claimed hdrawn.1 hdrawn.2 (hl.unclaimed hrow (of_decide_eq_true hselects))
  · intro j hj e he
    rcases written_cases hl.tables i run.organizationId run.id (.claim token startedAt deadlineAt)
      with ⟨-, hevents, -⟩ | ⟨row, -, -, -, hevents, -⟩
    · rw [Stmt.events, hevents] at he
      cases he
    · rw [Stmt.events, hevents] at he
      obtain rfl := List.mem_singleton.mp he
      exact claimed_not_isOf hl.toChronicle hdrawn.1 hj

/-- Where an update was not counted, the job only reads the run. -/
theorem counted_safe {count : ℕ} {job : Job Context Memory (Option Status)}
    (h : count = 1 → Prog.Safe (contract sources) i job (fun _ _ => True) s) :
    Prog.Safe (contract sources) i
      (if count ≠ 1 then result run else job : Job Context Memory (Option Status))
      (fun _ _ => True) s := by
  split
  · exact quiet_safe result_quiet
  · rename_i hcount
    exact h (not_not.mp hcount)

/-- What follows a claim with a token that the thread has drawn. -/
theorem claimed_safe (hdrawn : Drawn i token s.2) :
    Prog.Safe (contract sources) i
      (Prog.stmt (.claim run.organizationId run.id token startedAt deadlineAt) >>= fun count =>
        if count ≠ 1 then result run
        else (preflight sources run).run.bind (afterPreflight run ⟨token, deadlineAt⟩) :
        Job Context Memory (Option Status))
      (fun _ _ => True) s := by
  intro t choice hr hl _ _
  have hl : Ledger t.1 t.2 := hl
  refine ⟨claim_keeps hl ((stable_drawn i token).onward hr hdrawn), ?_⟩
  refine counted_safe fun hcount => ?_
  obtain ⟨row, hrow, hid, hselects, hevents⟩ := counted (i := i) hl.tables hcount
  apply preflight_safe
  have hnew := hl.unclaimed hrow (of_decide_eq_true hselects)
  change Uncalled i run ⟨token, deadlineAt⟩ (t.2 ++ t.1.written i run.organizationId run.id
    (.claim token startedAt deadlineAt))
  rw [hevents, Write.event, Option.toList_some, hid]
  constructor
  · rw [Held, claims_concat]
    exact List.mem_append_right _ List.mem_cons_self
  · intro hchat
    have hold : run.id ∈ chats t.2 := by simpa using hchat
    obtain ⟨claim, hclaim, hsame⟩ := hl.chatClaimed _ hold
    exact hnew claim hclaim (hsame.trans hid.symm)

theorem claimRun_safe :
    Prog.Safe (contract sources) i (claimRun sources run) (fun _ _ => True) s := by
  intro t choice _ hl _ _
  have hl : Ledger t.1 t.2 := hl
  have hdrawn : Drawn i t.1.issued (t.2 ++ [.drawn i t.1.issued]) := by
    constructor
    · rw [draws_concat]
      exact List.mem_append_right _ List.mem_cons_self
    · intro claim hclaim
      have hold := hl.claimDrawn claim (by simpa using hclaim)
      exact Nat.ne_of_lt (hl.drawnBelow _ hold)
  constructor
  · apply keeps
    · have hissued : Ledger { t.1 with issued := t.1.issued + 1 } t.2 :=
        hl.silent (.idle rfl rfl (Nat.le_succ _) (.inl ⟨rfl, rfl⟩))
      refine hissued.log (hl.toChronicle.drawn fun draw hdraw => ?_) ?_ rfl ?_
      · exact Nat.ne_of_lt (hl.drawnBelow draw hdraw)
      · intro draw hdraw
        obtain rfl := Option.some.inj hdraw
        exact Nat.lt_succ_self _
      · exact fun _ _ heq => by cases heq
    · intro j _ e he
      obtain rfl := List.mem_singleton.mp he
      exact not_isOf rfl rfl
  · have hstable := @stable_drawn Context Memory i t.1.issued
    refine read_safe rfl hstable hdrawn fun u choice' hu => ?_
    exact read_safe rfl hstable hu fun v choice'' hv => claimed_safe hv

theorem processClientAgentRun_safe (organizationId : String) (runId : ℕ) :
    Prog.Safe (contract sources) i (processClientAgentRun sources organizationId runId)
      (fun _ _ => True) s := by
  refine read_safe rfl stable_true trivial fun t choice _ => ?_
  dsimp only
  split
  · trivial
  · unfold processFound
    split
    · refine quiet_safe ⟨rfl, fun now => ?_⟩
      simp only [Prog.ret_bind]
      split
      · exact ⟨rfl, fun _ => expire_quiet⟩
      · trivial
    · trivial
    · exact claimRun_safe
    · trivial

theorem review_quiet (user : User) (clientId conversationId : String) (id attempts : ℕ) :
    (@reviewClientAgentRun Context Memory user clientId conversationId id attempts).Without
    Stmt.telling fun _ => True := by
  induction attempts with
  | zero => trivial
  | succ attempts ih =>
    refine ⟨rfl, fun answer => ?_⟩
    simp only [Prog.ret_bind]
    split
    · exact ih
    · exact ih
    · trivial

theorem deployed_safe {p : Prog (Stmt Context Memory) Unit} (hp : Deployed sources p) :
    Prog.Safe (contract sources) i p (fun _ _ => True) s := by
  cases hp with
  | process organizationId runId =>
    exact Prog.Safe.bind ((processClientAgentRun_safe organizationId runId).mono
      fun _ _ _ => trivial)
  | start user input =>
    refine quiet_safe ⟨rfl, fun first => ?_⟩
    simp only [Prog.ret_bind]
    split
    · exact ⟨rfl, fun _ => trivial⟩
    · trivial
  | cancel user clientId conversationId id => exact quiet_safe ⟨rfl, fun _ => trivial⟩
  | review user clientId conversationId id =>
    exact quiet_safe ((review_quiet user clientId conversationId id 3).bind fun _ _ => trivial)
  | setAccounts users clients conversations => exact quiet_safe ⟨rfl, fun _ => trivial⟩

end Claims

end Ashbi.Agents
