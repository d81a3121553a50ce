import Ashbi.BreakGlass.Safety
import Ashbi.Interleaving.Budget

/-! Who a grant recovers, in every run of issues, revocations and redemptions. -/

namespace Ashbi.BreakGlass

open Interleaving

variable {db : Db} {i id : ℕ} {organizationId userId : String}

/-! ### What a statement commits -/

theorem run_rows {β : Type} (st : Stmt β) (token : String) (db : Db) :
    ((run i st token db).2.grants.rows = db.grants.rows ∧
      (run i st token db).2.users.rows = db.users.rows) ∨
    (run i st token db).2 = db.commit i := by
  cases st with
  | revoke id organizationId now =>
    left
    rcases revoke_cases i id organizationId now db with ⟨hrun, -⟩ | ⟨grant, -, -, hrun⟩
    · rw [run, hrun]
      exact ⟨rfl, rfl⟩
    · rw [run, hrun]
      exact ⟨rfl, rfl⟩
  | claim id now =>
    left
    rcases claim_cases i id now db with hrun | ⟨grant, -, -, -, hrun⟩
    · rw [run, hrun]
      exact ⟨rfl, rfl⟩
    · rw [run, hrun]
      exact ⟨rfl, rfl⟩
  | create data =>
    left
    rcases create_cases i data db with ⟨failure, hrun⟩ | hrun
    · rw [run, hrun]
      exact ⟨rfl, rfl⟩
    · rw [run, hrun]
      exact ⟨rfl, rfl⟩
  | restore userId promoted =>
    left
    rcases restore_cases i userId promoted db with hrun | ⟨user, -, hrun⟩
    · rw [run, hrun]
      exact ⟨rfl, rfl⟩
    · rw [run, hrun]
      exact ⟨rfl, rfl⟩
  | commit => exact .inr rfl
  | _ => exact .inl ⟨rfl, rfl⟩

/-- Only a commit changes committed rows. -/
theorem exec_rows {β : Type} (i : ℕ) (st : Stmt β) (ch : Choice) (db : Db) :
    ((exec i st ch db).2.grants.rows = db.grants.rows ∧
      (exec i st ch db).2.users.rows = db.users.rows) ∨
    (exec i st ch db).2 = (db.later ch.elapsed).commit i := by
  unfold exec
  split
  · cases st <;> exact .inl ⟨rfl, rfl⟩
  · exact run_rows st ch.token (db.later ch.elapsed)

variable {o : Occurrence machine}

/-- A grant stays as it was, or gets its one outcome. -/
theorem grants_post (h : o.pre.Inv) {grant : Grant} (hrow : o.pre.grants.rows id = some grant) :
    o.post.grants.rows id = some grant ∨
      ∃ closed, o.post.grants.rows id = some closed ∧ o.pre.Closes o.thread grant closed := by
  rcases exec_rows o.thread o.stmt o.choice o.pre with ⟨hgrants, -⟩ | hcommit
  · left
    exact (congrFun hgrants id).trans hrow
  · have hpost : o.post.grants.rows id = (o.pre.grants.commit o.thread).rows id :=
      congrArg (fun s : Db => s.grants.rows id) hcommit
    rw [hpost]
    cases hmine : o.pre.grants.mine o.thread id with
    | none => exact .inl (Versions.rows_commit_eq_some.mpr (.inr ⟨hmine, hrow⟩))
    | some closed =>
      exact .inr ⟨closed, Versions.rows_commit_eq_some.mpr (.inl hmine),
        h.closes _ id closed grant hmine hrow⟩

/-- A grant that comes to be is open. -/
theorem grants_new (h : o.pre.Inv) {grant : Grant} (hnone : o.pre.grants.rows id = none)
    (hrow : o.post.grants.rows id = some grant) : grant.isOpen = true := by
  rcases exec_rows o.thread o.stmt o.choice o.pre with ⟨hgrants, -⟩ | hcommit
  · cases (((congrFun hgrants id).trans hnone).symm.trans hrow)
  · have hpost : o.post.grants.rows id = (o.pre.grants.commit o.thread).rows id :=
      congrArg (fun s : Db => s.grants.rows id) hcommit
    rw [hpost] at hrow
    rcases Versions.rows_commit_eq_some.mp hrow with hmine | ⟨-, hrow⟩
    · exact (h.creates _ id grant hmine hnone).isOpen
    · cases hnone.symm.trans hrow

/-- An account stays as it was, or is restored. -/
theorem users_post (h : o.pre.Inv) {user : User} (hrow : o.pre.users.rows userId = some user) :
    o.post.users.rows userId = some user ∨
      ∃ restored, o.post.users.rows userId = some restored ∧
        o.pre.Restores o.thread user restored := by
  rcases exec_rows o.thread o.stmt o.choice o.pre with ⟨-, husers⟩ | hcommit
  · left
    exact (congrFun husers userId).trans hrow
  · have hpost : o.post.users.rows userId = (o.pre.users.commit o.thread).rows userId :=
      congrArg (fun s : Db => s.users.rows userId) hcommit
    rw [hpost]
    cases hmine : o.pre.users.mine o.thread userId with
    | none => exact .inl (Versions.rows_commit_eq_some.mpr (.inr ⟨hmine, hrow⟩))
    | some restored =>
      obtain ⟨old, hold, hrestores⟩ := h.restores _ userId restored hmine
      obtain rfl := Option.some.inj (hrow.symm.trans hold)
      exact .inr ⟨restored, Versions.rows_commit_eq_some.mpr (.inl hmine), hrestores⟩

/-! ### Redemptions and promotions -/

def Db.isRedeemed (db : Db) (id : ℕ) : Bool := (db.grants.rows id).any (·.redeemedAt.isSome)

/-- The statement commits the redemption of a grant. -/
def redeems (id : ℕ) (o : Occurrence machine) : Bool := !o.pre.isRedeemed id && o.post.isRedeemed id

/-- The statement commits a change of an account that is no ADMIN into one. -/
def promotes (userId : String) (o : Occurrence machine) : Bool :=
  (o.pre.users.rows userId).any (!·.isAdmin) && (o.post.users.rows userId).any (·.isAdmin)

/-- The statement promotes an account of the organization. -/
def promotesIn (organizationId : String) (o : Occurrence machine) : Bool :=
  o.pre.accounts.any fun userId =>
    o.pre.organizationOf userId = some organizationId && promotes userId o

theorem redeems_cases (h : o.pre.Inv) (hredeems : redeems id o = true) :
    ∃ grant requestedAt, o.pre.grants.rows id = some grant ∧ grant.isOpen = true ∧
      o.post.grants.rows id = some (grant.redeemed requestedAt) ∧ requestedAt < grant.expiresAt ∧
      o.pre.requestedAt o.thread = some requestedAt := by
  simp only [redeems, Bool.and_eq_true, Bool.not_eq_true'] at hredeems
  obtain ⟨hbefore, hafter⟩ := hredeems
  obtain ⟨closed, hrow', hclosed⟩ : ∃ closed, o.post.grants.rows id = some closed ∧
      closed.redeemedAt.isSome = true := by
    cases hrow' : o.post.grants.rows id with
    | none => simp [Db.isRedeemed, hrow'] at hafter
    | some closed => exact ⟨closed, rfl, by simpa [Db.isRedeemed, hrow'] using hafter⟩
  cases hrow : o.pre.grants.rows id with
  | none =>
    have hopen := Grant.isOpen_iff.mp (grants_new h hrow hrow')
    rw [hopen.1] at hclosed
    cases hclosed
  | some grant =>
    have hnot : grant.redeemedAt.isSome = false := by simpa [Db.isRedeemed, hrow] using hbefore
    rcases grants_post h hrow with hsame | ⟨closed', hpost, hcloses⟩
    · obtain rfl := Option.some.inj (hsame.symm.trans hrow')
      cases hnot.symm.trans hclosed
    · obtain rfl := Option.some.inj (hpost.symm.trans hrow')
      rcases hcloses.outcome with ⟨now, heq⟩ | ⟨now, heq, hlt, hrequested⟩
      · rw [heq] at hclosed
        cases hnot.symm.trans hclosed
      · exact ⟨grant, now, rfl, hcloses.isOpen, heq ▸ hrow', hlt, hrequested⟩

theorem isRedeemed_post (h : o.pre.Inv) (hredeemed : o.pre.isRedeemed id = true) :
    o.post.isRedeemed id = true := by
  cases hrow : o.pre.grants.rows id with
  | none => simp [Db.isRedeemed, hrow] at hredeemed
  | some grant =>
    have hsome : grant.redeemedAt.isSome = true := by simpa [Db.isRedeemed, hrow] using hredeemed
    rcases grants_post h hrow with hsame | ⟨closed, -, hcloses⟩
    · simpa [Db.isRedeemed, hsame] using hsome
    · rw [(Grant.isOpen_iff.mp hcloses.isOpen).1] at hsome
      cases hsome

theorem promotes_cases (h : o.pre.Inv) (hpromotes : promotes userId o = true) :
    ∃ user, o.pre.users.rows userId = some user ∧ o.pre.Adminless user.organizationId ∧
      ¬ o.post.Adminless user.organizationId := by
  simp only [promotes, Bool.and_eq_true] at hpromotes
  obtain ⟨hbefore, hafter⟩ := hpromotes
  cases hrow : o.pre.users.rows userId with
  | none => simp [hrow] at hbefore
  | some user =>
    have hnot : user.isAdmin = false := by simpa [hrow] using hbefore
    refine ⟨user, rfl, ?_⟩
    rcases users_post h hrow with hsame | ⟨restored, hpost, hrestores⟩
    · simp [hsame, hnot] at hafter
    · have hadmin : restored.isAdmin = true := by simpa [hpost] using hafter
      rcases hrestores.role with hrole | ⟨-, hless⟩
      · simp only [User.isAdmin, hrole] at hadmin hnot
        cases hnot.symm.trans hadmin
      · refine ⟨hless, fun hless' => ?_⟩
        have hactive := hless' userId restored hpost hrestores.organizationId
        simp [User.isActiveAdmin, hadmin, hrestores.isActive] at hactive

/-- An active administrator stays one. -/
theorem adminless_pre (h : o.pre.Inv) (hless : o.post.Adminless organizationId) :
    o.pre.Adminless organizationId := by
  intro userId user hrow horg
  rcases users_post h hrow with hsame | ⟨restored, hpost, hrestores⟩
  · exact hless userId user hsame horg
  · have hnot := hless userId restored hpost (hrestores.organizationId.trans horg)
    by_contra hactive
    have hadmin : user.isAdmin = true := by
      simp only [User.isActiveAdmin, Bool.not_eq_false, Bool.and_eq_true] at hactive
      exact hactive.1
    have hadmin' : restored.isAdmin = true := by
      rcases hrestores.role with hrole | ⟨hrestored, -⟩
      · simpa [User.isAdmin, hrole] using hadmin
      · exact hrestored
    simp [User.isActiveAdmin, hadmin', hrestores.isActive] at hnot

theorem promotesIn_cases (h : o.pre.Inv) (hpromotes : promotesIn organizationId o = true) :
    o.pre.Adminless organizationId ∧ ¬ o.post.Adminless organizationId := by
  obtain ⟨userId, -, hselected⟩ := List.any_eq_true.mp hpromotes
  simp only [Bool.and_eq_true, decide_eq_true_eq] at hselected
  obtain ⟨user, hrow, hless⟩ := promotes_cases h hselected.2
  have horg : user.organizationId = organizationId := by
    simpa [Db.organizationOf, hrow] using hselected.1
  exact horg ▸ hless

/-! ### Runs -/

/-- What a run makes of its grants. -/
structure Recovers (tr : List (Occurrence machine)) (db : Db) : Prop where
  one : ∀ id id' grant grant', db.grants.rows id = some grant → db.grants.rows id' = some grant' →
    grant.Live db.clock → grant'.Live db.clock → grant.targetUserId = grant'.targetUserId → id = id'
  redeemed_once : ∀ id, (tr.filter (redeems id)).length ≤ 1
  redeemed_open : ∀ o ∈ tr, ∀ id, redeems id o = true → ∃ grant requestedAt,
    o.pre.grants.rows id = some grant ∧ grant.isOpen = true ∧
    o.post.grants.rows id = some (grant.redeemed requestedAt) ∧ requestedAt < grant.expiresAt ∧
    o.pre.requestedAt o.thread = some requestedAt
  single_outcome : ∀ id grant, db.grants.rows id = some grant →
    grant.redeemedAt = none ∨ grant.revokedAt = none
  promoted_alone : ∀ o ∈ tr, ∀ userId, promotes userId o = true →
    ∃ user, o.pre.users.rows userId = some user ∧ o.pre.Adminless user.organizationId
  promoted_once : ∀ organizationId, (tr.filter (promotesIn organizationId)).length ≤ 1

variable {ilike : String → String → Bool} {sha256 : String → String} {clock : Time}
  {organizations : List String} {users : List User} {tr : List (Occurrence machine)}
  {c : Config machine}

theorem Run.inv (h : Run (M := machine) (Requested ilike sha256)
      (Db.initial clock organizations users) tr c) :
    c.state.Inv ∧ ∀ o ∈ tr, o.pre.Inv := by
  obtain ⟨hholds, hkeeps⟩ := Run.holds (K := contract)
    (fun p hp i s _ hidle => requested_safe hp hidle)
    (initial_inv clock organizations users) (fun i id => rfl) h fun _ _ => trivial
  exact ⟨hholds.inv, fun o ho => (hkeeps o ho).1⟩

theorem grants_recover (h : Run (M := machine) (Requested ilike sha256)
      (Db.initial clock organizations users) tr c) : Recovers tr c.state := by
  obtain ⟨hinv, hpre⟩ := Run.inv h
  refine ⟨hinv.one, fun id => ?_, fun o ho id => redeems_cases (hpre o ho), hinv.outcome,
    fun o ho userId hpromotes => ?_, fun organizationId => ?_⟩
  · refine (h.chained.barred (redeems id) (·.isRedeemed id = true) (fun o _ hredeems => ?_)
      (fun o ho => isRedeemed_post (hpre o ho)) fun o _ hredeemed => ?_).1
    · exact (Bool.and_eq_true _ _ ▸ hredeems).2
    · simp [redeems, hredeemed]
  · obtain ⟨user, hrow, hless, -⟩ := promotes_cases (hpre o ho) hpromotes
    exact ⟨user, hrow, hless⟩
  · refine (h.chained.barred (promotesIn organizationId) (¬ ·.Adminless organizationId)
      (fun o ho hpromotes => (promotesIn_cases (hpre o ho) hpromotes).2)
      (fun o ho hsome hless => hsome (adminless_pre (hpre o ho) hless)) fun o ho hsome => ?_).1
    by_contra hpromotes
    exact hsome (promotesIn_cases (hpre o ho) (by simpa using hpromotes)).1

/-! ### Two grants of one organization -/

def sampleEnvironment : Environment := ⟨"true", "operator"⟩

/-- The organization has two accounts, and no administrator. -/
def sampleUsers : List User :=
  [⟨"operator", "platform", "operator@platform", "ADMIN", true⟩,
    ⟨"ann", "shop", "ann@shop", "STAFF", false⟩, ⟨"bob", "shop", "bob@shop", "TEAM", true⟩]

def sampleInput (targetUserId : String) : IssueInput where
  organizationId := "shop"
  targetEmail := none
  targetUserId := some targetUserId
  operatorId := "operator"
  reason := some "nobody can sign in"
  promoteToAdmin := true

def sampleRequests : List Request :=
  [.issue sampleEnvironment (sampleInput "ann"), .issue sampleEnvironment (sampleInput "bob"),
    .redeem sampleEnvironment "the first token of two",
    .redeem sampleEnvironment "the second token of two"]

def sampleThreads : Config machine where
  state := Db.initial 0 ["platform", "shop"] sampleUsers
  threads := sampleRequests.map (·.program (· = ·) fun token => token)

theorem sampleThreads_run (schedule : List (ℕ × Choice)) :
    Run (M := machine) (Requested (· = ·) fun token => token)
      (Db.initial 0 ["platform", "shop"] sampleUsers)
      (sampleThreads.played schedule) (sampleThreads.play schedule) := by
  refine Run.of_schedule sampleThreads.threads (fun p hp => ?_) schedule
  obtain ⟨request, -, rfl⟩ := List.mem_map.mp hp
  exact ⟨request, rfl⟩

def sampleIssues : List (ℕ × Choice) :=
  List.replicate 10 (0, ⟨1, "the first token of two", false⟩) ++
    List.replicate 10 (1, ⟨1, "the second token of two", false⟩)

/-- Both grants are read before one of them is redeemed, and only that one promotes. -/
def sampleSchedule : List (ℕ × Choice) :=
  sampleIssues ++ (List.replicate 4 2 ++ List.replicate 4 3 ++ List.replicate 5 2 ++
    List.replicate 4 3).map (·, ⟨1, "", false⟩)

theorem grants_recover_sample :
    Recovers (sampleThreads.played sampleSchedule) (sampleThreads.play sampleSchedule).state ∧
    ["ann", "bob"].map (fun userId =>
      ((sampleThreads.play sampleSchedule).state.users.rows userId).map (·.role)) =
        [some "ADMIN", some "TEAM"] :=
  ⟨grants_recover (sampleThreads_run sampleSchedule), by decide +kernel⟩

/-- No grant is redeemed after it expired. -/
def RedeemedInTime (tr : List (Occurrence machine)) : Prop :=
  ∀ o ∈ tr, ∀ id, redeems id o = true → ∀ grant, o.pre.grants.rows id = some grant →
    o.post.clock < grant.expiresAt

/-- A redemption that came in in time commits after its grant expired. -/
theorem redeemed_late : ∃ (tr : List (Occurrence machine)) (c : Config machine),
    Run (Requested (· = ·) fun token => token)
      (Db.initial 0 ["platform", "shop"] sampleUsers) tr c ∧
      ¬ RedeemedInTime tr := by
  refine ⟨_, _, sampleThreads_run (sampleIssues ++ List.replicate 9 (2, ⟨300000, "", false⟩)),
    fun hintime => ?_⟩
  have hlate : ∃ o ∈ sampleThreads.played (sampleIssues ++
      List.replicate 9 (2, ⟨300000, "", false⟩)), redeems 0 o = true ∧
        ((o.pre.grants.rows 0).any fun grant => grant.expiresAt ≤ o.post.clock) = true := by
    simp only [← Bool.and_eq_true, ← List.any_eq_true]
    decide +kernel
  obtain ⟨o, ho, hredeems, hexpired⟩ := hlate
  cases hrow : o.pre.grants.rows 0 with
  | none =>
    rw [hrow] at hexpired
    cases hexpired
  | some grant =>
    rw [hrow, Option.any_some] at hexpired
    exact absurd (hintime o ho 0 hredeems grant hrow) (Int.not_lt.mpr (of_decide_eq_true hexpired))

end Ashbi.BreakGlass
