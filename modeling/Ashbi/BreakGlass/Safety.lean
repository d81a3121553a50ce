import Mathlib.Data.List.Dedup
import Ashbi.BreakGlass.Steps

/-! Every request keeps the invariant of the grants. -/

namespace Ashbi.BreakGlass

open Interleaving

variable {db s t : Db} {i id : ℕ} {grant data : Grant} {now : Time} {organizationId : String}

theorem initial_inv (clock : Time) (organizations : List String) (users : List User) :
    (Db.initial clock organizations users).Inv where
  fresh _ _ := ⟨rfl, rfl⟩
  id_eq _ _ h := by cases h
  directed _ _ h := by cases h
  outcome _ _ h := by cases h
  one _ _ _ _ h := by cases h
  closes _ _ _ _ h := by cases h
  creates _ _ _ h := by cases h
  accounts userId user h := by
    have hid : user.id = userId := by simpa using List.find?_some h
    refine ⟨hid, List.mem_dedup.mpr ?_⟩
    exact hid ▸ List.mem_map_of_mem (List.mem_of_find?_eq_some h)
  restores _ _ _ h := by cases h
  locked _ _ _ h := by cases h

theorem mem_grantsOf (h : db.Inv) (hread : db.grants.read i id = some grant) :
    grant ∈ db.grantsOf i := by
  refine List.mem_filterMap.mpr ⟨id, List.mem_range.mpr ?_, hread⟩
  by_contra hle
  obtain ⟨hrow, hwritten⟩ := h.fresh id (Nat.le_of_not_lt hle)
  rw [Versions.read, Versions.mine_eq_none hwritten, Option.none_or, hrow] at hread
  cases hread

/-- Where a thread sees no active administrator there is none. -/
theorem Db.Inv.adminless (h : db.Inv) (hnone : (db.usersOf i).filter (fun user =>
      user.organizationId = organizationId && user.isActiveAdmin) = []) :
    db.Adminless organizationId := by
  intro userId user hrow horg
  by_contra hactive
  have hactive : user.isActiveAdmin = true := by simpa using hactive
  have hin := (h.accounts userId user hrow).2
  obtain ⟨seen, hread, hseen, hsame⟩ : ∃ seen, db.users.read i userId = some seen ∧
      seen.isActiveAdmin = true ∧ seen.organizationId = user.organizationId := by
    cases hmine : db.users.mine i userId with
    | none => exact ⟨user, Versions.read_eq_some.mpr (.inr ⟨hmine, hrow⟩), hactive, rfl⟩
    | some seen =>
      obtain ⟨old, hold, hrestores⟩ := h.restores i userId seen hmine
      obtain rfl := Option.some.inj (hrow.symm.trans hold)
      refine ⟨seen, Versions.read_eq_some.mpr (.inl hmine), ?_, hrestores.organizationId⟩
      simp only [User.isActiveAdmin, User.isAdmin, Bool.and_eq_true, decide_eq_true_eq] at hactive ⊢
      refine ⟨?_, hrestores.isActive⟩
      rcases hrestores.role with hrole | ⟨hadmin, -⟩
      · exact hrole.trans hactive.1
      · simpa [User.isAdmin] using hadmin
  have hmem : seen ∈ db.usersOf i := List.mem_filterMap.mpr ⟨userId, hin, hread⟩
  simpa [hsame.trans horg, hseen] using List.filter_eq_nil_iff.mp hnone seen hmem

theorem inTransaction_safe {α : Type} {body : Throws Stmt Failure α} {Q : α → Db → Prop}
    (h : body.Safe contract i Q s) :
    (inTransaction body).Safe contract i (fun _ _ => True) s := by
  refine (Throws.safe_transaction (F := fun _ => True) h (fun _ u _ => ?_) fun u => ?_).mono
    fun _ _ _ _ _ => trivial
  · exact fun t ch _ hi he _ => ⟨keeps hi he trivial, trivial⟩
  · exact fun t ch _ hi he _ => ⟨keeps hi he trivial, trivial⟩

/-! ### Reads -/

theorem assertOperator_safe (environment : Environment) (operatorId : String) :
    (assertOperator environment operatorId).Safe contract i (fun _ t => s.Rely i t) s := by
  unfold assertOperator
  split
  · exact Throws.safe_throw
  refine stmt_bind_safe (fun _ _ _ h => by cases h) fun t token hr _ => ⟨trivial, fun found _ => ?_⟩
  cases found with
  | none => exact Throws.safe_throw
  | some operator =>
    dsimp only
    split
    · exact Throws.safe_pure hr
    · exact Throws.safe_throw

theorem adminFound_safe (matters : Bool) (organizationId : String) :
    (adminFound matters organizationId).Safe contract i (fun found t => s.Rely i t ∧
      (matters = true → found = false → t.Adminless organizationId)) s := by
  cases matters with
  | false => exact Throws.safe_pure ⟨.refl i s, fun h => by cases h⟩
  | true =>
    refine stmt_bind_safe (fun _ _ _ h => by cases h) fun t token hr hi =>
      ⟨trivial, fun admins hadmins => Throws.safe_pure ⟨hr, fun _ hfound => ?_⟩⟩
    obtain rfl := Except.ok.inj hadmins
    exact hi.adminless (by simpa using hfound)

/-! ### Issuing -/

/-- What an issue knows in its transaction; `pending` are the grants it has yet to revoke. -/
structure Db.Issuing (i : ℕ) (data : Grant) (now : Time) (pending : ℕ → Prop) (db : Db) : Prop where
  closing : db.Closing i
  directed : db.organizationOf data.targetUserId = some data.organizationId
  holds : db.Holds i (.target data.targetUserId)
  now_le : now ≤ db.clock
  superseded : ∀ id grant, db.grants.rows id = some grant → grant.isOpen = true →
    now < grant.expiresAt → grant.targetUserId = data.targetUserId →
      (∃ closed, db.grants.mine i id = some closed) ∨ pending id

theorem Db.Issuing.rely {pending : ℕ → Prop} (h : s.Issuing i data now pending)
    (hr : s.Rely i t) : t.Issuing i data now pending where
  closing id grant := by
    rw [hr.grants]
    exact h.closing id grant
  directed := (hr.organizationOf _).trans h.directed
  holds := hr.holds _ h.holds
  now_le := Int.le_trans h.now_le hr.clock
  superseded id grant hrow hopen hlt htarget := by
    rw [hr.grants]
    exact h.superseded id grant (hr.opened id grant hrow hopen (htarget ▸ h.holds)) hopen
      hlt htarget

/-- A grant that was to be revoked is closed, by the thread itself or by another. -/
theorem Db.Issuing.revoke {pending : ℕ → Prop} (hi : db.Inv)
    (h : db.Issuing i data now fun id' => id = id' ∨ pending id') :
    (revoke i id data.organizationId now db).2.Issuing i data now pending := by
  rcases revoke_cases i id data.organizationId now db with ⟨hrun, hclosed⟩ | ⟨g, -, -, hrun⟩
  · rw [hrun]
    refine ⟨h.closing, h.directed, h.holds, h.now_le, fun id' g' hrow hopen hlt htarget => ?_⟩
    rcases h.superseded id' g' hrow hopen hlt htarget with hmine | rfl | hpending
    · exact .inl hmine
    · left
      by_contra hnone
      have hmine : db.grants.mine i id = none :=
        Option.eq_none_iff_forall_ne_some.mpr fun closed hc => hnone ⟨closed, hc⟩
      have hdirected := hi.directed id g' hrow
      rw [htarget, h.directed] at hdirected
      cases hopen.symm.trans (hclosed g' (Versions.read_eq_some.mpr (.inr ⟨hmine, hrow⟩))
        (Option.some.inj hdirected).symm)
    · exact .inr hpending
  · rw [hrun]
    refine ⟨fun id' g' hg' => ?_, h.directed, h.holds, h.now_le,
      fun id' g' hrow hopen hlt htarget => ?_⟩
    · rcases Versions.mine_write_eq_some.mp hg' with ⟨-, -, rfl⟩ | ⟨-, hg'⟩
      · simp [Grant.isOpen, Grant.revoked]
      · exact h.closing id' g' hg'
    · by_cases hid : id' = id
      · exact .inl ⟨_, Versions.mine_write_eq_some.mpr (.inl ⟨hid, rfl, rfl⟩)⟩
      · rcases h.superseded id' g' hrow hopen hlt htarget with ⟨closed, hmine⟩ | rfl | hpending
        · exact .inl ⟨closed, Versions.mine_write_eq_some.mpr (.inr ⟨hid, hmine⟩)⟩
        · exact absurd rfl hid
        · exact .inr hpending

theorem revokeGrantRow_safe {Q : Bool → Db → Prop} (h : ∀ t, s.Rely i t → t.Inv →
      t.Closing i ∧ ∀ revoked, Q revoked (revoke i id organizationId now t).2) :
    (revokeGrantRow id organizationId now).Safe contract i Q s :=
  stmt_bind_safe (fun _ _ _ h => by cases h) fun t _ hr hi =>
    ⟨(h t hr hi).1, fun _ _ => Throws.safe_pure ((h t hr hi).2 _)⟩

theorem supersede_safe (rest : List Grant)
    (h : s.Issuing i data now fun id => ∃ old ∈ rest, old.id = id) :
    (rest.foldlM (fun _ old => do
      let _ ← revokeGrantRow old.id data.organizationId now
      pure ()) () : Throws Stmt Failure Unit).Safe contract i
        (fun _ t => t.Issuing i data now fun _ => False) s := by
  induction rest generalizing s with
  | nil =>
    refine Throws.safe_pure ⟨h.closing, h.directed, h.holds, h.now_le, ?_⟩
    simpa using h.superseded
  | cons old rest ih =>
    rw [List.foldlM_cons]
    refine Throws.Safe.bind (Throws.Safe.bind (revokeGrantRow_safe fun t hr hi => ?_))
    have hnext : t.Issuing i data now fun id => old.id = id ∨ ∃ old ∈ rest, old.id = id := by
      simpa using h.rely hr
    exact ⟨hnext.closing, fun _ => Throws.safe_pure (ih (hnext.revoke hi))⟩

/-- Every live grant of the target is found. -/
theorem Db.Issuing.found (hi : db.Inv) (h : db.Issuing i data now fun _ => True) :
    db.Issuing i data now fun id => ∃ old ∈ (db.grantsOf i).filter fun grant =>
      grant.organizationId = data.organizationId && grant.targetUserId = data.targetUserId &&
        grant.isOpen && now < grant.expiresAt, old.id = id := by
  refine ⟨h.closing, h.directed, h.holds, h.now_le, fun id grant hrow hopen hlt htarget => ?_⟩
  cases hmine : db.grants.mine i id with
  | some closed => exact .inl ⟨closed, rfl⟩
  | none =>
    have hdirected := hi.directed id grant hrow
    rw [htarget, h.directed] at hdirected
    have horg := (Option.some.inj hdirected).symm
    have hread := Versions.read_eq_some.mpr (.inr ⟨hmine, hrow⟩)
    refine .inr ⟨grant, List.mem_filter.mpr ⟨mem_grantsOf hi hread, ?_⟩, hi.id_eq id grant hrow⟩
    simp [horg, htarget, hopen, hlt]

theorem issueBody_safe (hidle : s.Idle i) (hopen : data.isOpen = true)
    (hdirected : s.organizationOf data.targetUserId = some data.organizationId)
    (hnow : now ≤ s.clock) : (issueBody data now).Safe contract i (fun _ _ => True) s := by
  refine stmt_bind_safe (fun _ _ _ h => by cases h) fun t token hr hi => ⟨trivial, fun _ _ => ?_⟩
  have hlocked : (run i (.lock (.target data.targetUserId)) token t).2.Issuing i data now
      fun _ => True := by
    refine ⟨fun id grant hmine => ?_, (hr.organizationOf _).trans hdirected, List.mem_cons_self,
      Int.le_trans hnow hr.clock, fun _ _ _ _ _ _ => .inr trivial⟩
    have hmine : t.grants.mine i id = some grant := hmine
    rw [hr.grants, hidle id] at hmine
    cases hmine
  refine stmt_bind_safe (fun _ _ _ h => by cases h) fun u token' hr' hi' =>
    ⟨trivial, fun superseded hsuperseded => ?_⟩
  obtain rfl := Except.ok.inj hsuperseded
  refine Throws.Safe.bind ((supersede_safe _ ((hlocked.rely hr').found hi')).mono fun _ v hv => ?_)
  refine Throws.safe_stmt fun w ch hr'' hi'' he _ => ⟨keeps hi'' he ?_, fun _ _ => trivial⟩
  have hready := hv.rely (hr''.trans (later_rely ch.elapsed))
  refine ⟨hready.closing, hopen, hready.directed, hready.holds,
    fun id grant hrow hlive htarget => ?_⟩
  have hlt := Int.lt_of_le_of_lt hready.now_le hlive.2
  exact (hready.superseded id grant hrow hlive.1 hlt htarget).resolve_right not_false

theorem mem_usersOf (hi : db.Inv) {user : User} (h : user ∈ db.usersOf i) :
    db.organizationOf user.id = some user.organizationId := by
  obtain ⟨userId, -, hread⟩ := List.mem_filterMap.mp h
  unfold Db.organizationOf
  rcases Versions.read_eq_some.mp hread with hmine | ⟨-, hrow⟩
  · obtain ⟨old, hold, hrestores⟩ := hi.restores i userId user hmine
    rw [hrestores.id_eq, (hi.accounts userId old hold).1, hold, hrestores.organizationId]
    rfl
  · rw [(hi.accounts userId user hrow).1, hrow]
    rfl

/-! ### Redeeming -/

/-- What a redemption knows in its transaction. -/
structure Db.Redeeming (i : ℕ) (grant : Grant) (target : User) (promoted : Bool) (now : Time)
    (db : Db) : Prop where
  closing : db.Closing i
  requestedAt : db.requestedAt i = some now
  directed : db.organizationOf target.id = some grant.organizationId
  holds : db.Holds i (.promote grant.organizationId)
  adminless : promoted = true → db.Adminless grant.organizationId

theorem Db.Redeeming.rely {target : User} {promoted : Bool}
    (h : s.Redeeming i grant target promoted now) (hr : s.Rely i t) :
    t.Redeeming i grant target promoted now where
  closing id g := by
    rw [hr.grants]
    exact h.closing id g
  requestedAt := hr.requestedAt.trans h.requestedAt
  directed := (hr.organizationOf _).trans h.directed
  holds := hr.holds _ h.holds
  adminless hpromoted := hr.adminless _ h.holds (h.adminless hpromoted)

theorem Db.Redeeming.claim {target : User} {promoted : Bool}
    (h : db.Redeeming i grant target promoted now) :
    (claim i id now db).2.Redeeming i grant target promoted now := by
  rcases claim_cases i id now db with hrun | ⟨g, -, -, -, hrun⟩
  · rw [hrun]
    exact h
  · rw [hrun]
    refine ⟨fun id' g' hg' => ?_, h.requestedAt, h.directed, h.holds, h.adminless⟩
    rcases Versions.mine_write_eq_some.mp hg' with ⟨-, -, rfl⟩ | ⟨-, hg'⟩
    · simp [Grant.isOpen, Grant.redeemed]
    · exact h.closing id' g' hg'

theorem redeemBody_safe {target : User} {promoted : Bool}
    (hidle : s.Idle i) (hrequested : s.requestedAt i = some now)
    (hdirected : s.organizationOf target.id = some grant.organizationId) :
    (redeemBody grant target promoted now).Safe contract i (fun _ _ => True) s := by
  refine stmt_bind_safe (fun _ _ _ h => by cases h) fun t token hr hi => ⟨trivial, fun _ _ => ?_⟩
  have hlocked : (run i (.lock (.promote grant.organizationId)) token t).2.Redeeming i grant target
      false now := by
    refine ⟨fun id g hmine => ?_, hr.requestedAt.trans hrequested,
      (hr.organizationOf _).trans hdirected, List.mem_cons_self, fun h => by cases h⟩
    have hmine : t.grants.mine i id = some g := hmine
    rw [hr.grants, hidle id] at hmine
    cases hmine
  refine Throws.Safe.bind ((adminFound_safe promoted grant.organizationId).mono
    fun found u ⟨hr', hless⟩ => ?_)
  cases found with
  | true => exact Throws.safe_pure trivial
  | false =>
    have hheld := hlocked.rely hr'
    have hredeeming : u.Redeeming i grant target promoted now :=
      ⟨hheld.closing, hheld.requestedAt, hheld.directed, hheld.holds, fun h => hless h rfl⟩
    refine stmt_bind_safe (fun _ _ _ h => by cases h) fun v token' hr'' hi'' => ?_
    have hclaiming := hredeeming.rely hr''
    refine ⟨⟨hclaiming.closing, hclaiming.requestedAt⟩, fun count _ => ?_⟩
    have hclaimed : (run i (.claim grant.id now) token' v).2.Redeeming i grant target
      promoted now :=
      hclaiming.claim
    dsimp only
    split
    · exact Throws.safe_pure trivial
    refine stmt_bind_safe (fun _ _ _ h => by cases h) fun w _ hrestore _ =>
      ⟨?_, fun _ _ => Throws.safe_pure trivial⟩
    have hready := hclaimed.rely hrestore
    exact ⟨grant.organizationId, hready.directed, hready.holds, hready.adminless⟩

/-! ### Requests -/

/-- What a request knows outside its transaction. -/
structure Db.Requesting (i : ℕ) (now : Time) (db : Db) : Prop where
  idle : db.Idle i
  requestedAt : db.requestedAt i = some now
  now_le : now ≤ db.clock

theorem Db.Requesting.rely (h : s.Requesting i now) (hr : s.Rely i t) : t.Requesting i now where
  idle id := by rw [hr.grants, h.idle id]
  requestedAt := hr.requestedAt.trans h.requestedAt
  now_le := Int.le_trans h.now_le hr.clock

theorem now_bind_safe {α : Type} {f : Time → Throws Stmt Failure α} {Q : α → Db → Prop}
    (hidle : s.Idle i) (h : ∀ now t, t.Requesting i now → (f now).Safe contract i Q t) :
    (Throws.read .now >>= f).Safe contract i Q s := by
  refine Throws.safe_read_bind fun t ch hr hi he _ => ?_
  have hready : t.Idle i := fun id => by rw [hr.grants, hidle id]
  refine ⟨keeps hi he hready, ?_⟩
  have hexec : exec i .now ch t = run i .now ch.token (t.later ch.elapsed) := by
    unfold exec
    split <;> rfl
  change (f (exec i .now ch t).1).Safe contract i Q (exec i .now ch t).2
  rw [hexec]
  exact h _ _ ⟨hready, Function.update_self .., Int.le_refl _⟩

theorem issueTo_safe (sha256 : String → String) (input : IssueInput) (reason : String)
    {target : User} (h : s.Requesting i now)
    (hdirected : s.organizationOf target.id = some input.organizationId) :
    (issueTo sha256 input reason now target).Safe contract i (fun _ _ => True) s := by
  unfold issueTo
  split
  · exact Throws.safe_throw
  split
  · exact Throws.safe_throw
  refine Throws.Safe.bind ((adminFound_safe _ _).mono fun found t ⟨hr, _⟩ => ?_)
  split
  · exact Throws.safe_throw
  refine Throws.safe_read_bind fun u ch hr' hi he _ => ⟨keeps hi he trivial, ?_⟩
  have hexec : exec i .randomToken ch u = (ch.token, u.later ch.elapsed) := by
    unfold exec
    split <;> rfl
  change (_ : Throws Stmt Failure _).Safe contract i _ (exec i .randomToken ch u).2
  rw [hexec]
  have hrely := hr.trans (hr'.trans (later_rely ch.elapsed))
  have hknown := h.rely hrely
  refine Throws.Safe.bind ((inTransaction_safe (issueBody_safe hknown.idle rfl ?_
    hknown.now_le)).mono fun _ _ _ => Throws.safe_pure trivial)
  exact (hrely.organizationOf _).trans hdirected

theorem issueBreakGlassGrant_safe (ilike : String → String → Bool) (sha256 : String → String)
    (environment : Environment) (input : IssueInput) (hidle : s.Idle i) :
    (issueBreakGlassGrant ilike sha256 environment input).Safe contract i (fun _ _ => True) s := by
  refine now_bind_safe hidle fun now t ht => ?_
  cases assertEnabled environment with
  | error failure => exact Throws.safe_throw
  | ok _ =>
  cases normalizeReason input.reason with
  | error failure => exact Throws.safe_throw
  | ok reason =>
  refine Throws.Safe.bind ((assertOperator_safe environment input.operatorId).mono fun _ u hr => ?_)
  refine stmt_bind_safe (fun _ _ _ h => by cases h) fun v token hr' _ =>
    ⟨trivial, fun found _ => ?_⟩
  cases found with
  | none => exact Throws.safe_throw
  | some organization =>
  refine stmt_bind_safe (fun _ _ _ h => by cases h) fun w token' hr'' hi =>
    ⟨trivial, fun users h => ?_⟩
  obtain rfl := Except.ok.inj h
  split
  · rename_i target htargets
    have hin : target ∈ ((w.usersOf i).filter (input.selects ilike)).take 2 := by
      rw [htargets]
      exact List.mem_singleton_self target
    obtain ⟨hin, hselected⟩ := List.mem_filter.mp (List.mem_of_mem_take hin)
    have horg : target.organizationId = input.organizationId :=
      of_decide_eq_true (Bool.and_eq_true _ _ ▸ hselected).2
    exact issueTo_safe sha256 input reason (ht.rely (hr.trans (hr'.trans hr'')))
      (horg ▸ mem_usersOf hi hin)
  · exact Throws.safe_throw

theorem revokeBreakGlassGrant_safe (environment : Environment) (grantId : ℕ) (operatorId : String)
    (hidle : s.Idle i) :
    (revokeBreakGlassGrant environment grantId operatorId).Safe contract i (fun _ _ => True) s := by
  refine now_bind_safe hidle fun now t ht => ?_
  refine Throws.Safe.bind ((assertOperator_safe environment operatorId).mono fun _ u hr => ?_)
  refine stmt_bind_safe (fun _ _ _ h => by cases h) fun v token hr' _ =>
    ⟨trivial, fun found _ => ?_⟩
  cases found with
  | none => exact Throws.safe_throw
  | some grant =>
    have hidle' := (ht.rely (hr.trans hr')).idle
    refine Throws.Safe.bind ((inTransaction_safe (Q := fun _ _ => True) (revokeGrantRow_safe
      fun w hr'' _ => ⟨fun id g hmine => ?_, fun _ => trivial⟩)).mono fun revoked w _ => ?_)
    · rw [hr''.grants] at hmine
      cases (hidle' id).symm.trans hmine
    · split
      · exact Throws.safe_pure trivial
      · exact Throws.safe_throw

theorem redeemTo_safe {target : User} (h : s.Requesting i now)
    (hdirected : s.organizationOf target.id = some grant.organizationId) :
    (redeemTo grant now target).Safe contract i (fun _ _ => True) s := by
  unfold redeemTo
  split
  · exact Throws.safe_throw
  split
  · exact Throws.safe_throw
  refine Throws.Safe.bind ((adminFound_safe _ _).mono fun found t ⟨hr, _⟩ => ?_)
  split
  · exact Throws.safe_throw
  have hknown := h.rely hr
  refine Throws.Safe.bind ((inTransaction_safe (redeemBody_safe hknown.idle hknown.requestedAt
    ((hr.organizationOf _).trans hdirected))).mono fun outcome u _ => ?_)
  split
  · exact Throws.safe_pure trivial
  · exact Throws.safe_throw

theorem redeemBreakGlassGrant_safe (sha256 : String → String) (environment : Environment)
    (token : String) (hidle : s.Idle i) :
    (redeemBreakGlassGrant sha256 environment token).Safe contract i (fun _ _ => True) s := by
  refine now_bind_safe hidle fun now t ht => ?_
  cases assertEnabled environment with
  | error failure => exact Throws.safe_throw
  | ok _ =>
  dsimp only
  split
  · exact Throws.safe_throw
  refine stmt_bind_safe (fun _ _ _ h => by cases h) fun u token hr _ => ⟨trivial, fun found _ => ?_⟩
  cases found with
  | none => exact Throws.safe_throw
  | some grant =>
  dsimp only
  split
  · exact Throws.safe_throw
  refine stmt_bind_safe (fun _ _ _ h => by cases h) fun v token' hr' hi =>
    ⟨trivial, fun found h => ?_⟩
  cases found with
  | none => exact Throws.safe_throw
  | some target =>
    have hfound := Except.ok.inj h
    have hselected := List.find?_some hfound
    simp only [Bool.and_eq_true, decide_eq_true_eq] at hselected
    exact redeemTo_safe (ht.rely (hr.trans hr'))
      (hselected.2 ▸ mem_usersOf hi (List.mem_of_find?_eq_some hfound))

theorem requested_safe {ilike : String → String → Bool} {sha256 : String → String}
    {p : Prog Stmt Unit} (hp : Requested ilike sha256 p) (hidle : s.Idle i) :
    p.Safe contract i (fun _ _ => True) s := by
  obtain ⟨request, rfl⟩ := hp
  cases request with
  | issue environment input =>
    exact Prog.Safe.bind (Prog.Safe.mono
      (issueBreakGlassGrant_safe ilike sha256 environment input hidle)
      fun _ _ _ => trivial)
  | revoke environment grantId operatorId =>
    exact Prog.Safe.bind (Prog.Safe.mono
      (revokeBreakGlassGrant_safe environment grantId operatorId hidle)
      fun _ _ _ => trivial)
  | redeem environment token =>
    exact Prog.Safe.bind (Prog.Safe.mono (redeemBreakGlassGrant_safe sha256 environment token hidle)
      fun _ _ _ => trivial)

end Ashbi.BreakGlass
