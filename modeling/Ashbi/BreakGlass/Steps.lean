import Ashbi.BreakGlass.Invariant

/-! What a statement keeps, and what the other threads find unchanged. -/

namespace Ashbi.BreakGlass

open Interleaving

variable {db s t u : Db} {i j id : ℕ} {grant : Grant} {β : Type} {st : Stmt β} {token : String}

/-- What the others leave alone while thread `i` waits. They open no grant of a target that it has
locked, and leave no administrator in an organization that it has locked. -/
structure Db.Rely (i : ℕ) (s t : Db) : Prop where
  grants : t.grants.mine i = s.grants.mine i
  holds : ∀ key, s.Holds i key → t.Holds i key
  clock : s.clock ≤ t.clock
  requestedAt : t.requestedAt i = s.requestedAt i
  organizationOf : ∀ userId, t.organizationOf userId = s.organizationOf userId
  opened : ∀ id grant, t.grants.rows id = some grant → grant.isOpen = true →
    s.Holds i (.target grant.targetUserId) → s.grants.rows id = some grant
  adminless : ∀ organizationId, s.Holds i (.promote organizationId) →
    s.Adminless organizationId → t.Adminless organizationId

theorem Db.Rely.refl (i : ℕ) (s : Db) : s.Rely i s :=
  ⟨rfl, fun _ h => h, Int.le_refl _, rfl, fun _ => rfl, fun _ _ h _ _ => h, fun _ _ h => h⟩

theorem Db.Rely.trans (h : s.Rely i t) (h' : t.Rely i u) : s.Rely i u where
  grants := h'.grants.trans h.grants
  holds key hkey := h'.holds key (h.holds key hkey)
  clock := Int.le_trans h.clock h'.clock
  requestedAt := h'.requestedAt.trans h.requestedAt
  organizationOf userId := (h'.organizationOf userId).trans (h.organizationOf userId)
  opened id grant hrow hopen hkey :=
    h.opened id grant (h'.opened id grant hrow hopen (h.holds _ hkey)) hopen hkey
  adminless organizationId hkey hless :=
    h'.adminless organizationId (h.holds _ hkey) (h.adminless organizationId hkey hless)

theorem later_rely (elapsed : ℕ) : db.Rely i (db.later elapsed) where
  grants := rfl
  holds _ h := h
  clock := Int.le_add_of_nonneg_right (Int.natCast_nonneg elapsed)
  requestedAt := rfl
  organizationOf _ := rfl
  opened _ _ h _ _ := h
  adminless _ _ h := h

theorem rollback_rely (hj : j ≠ i) : db.Rely j (db.rollback i) where
  grants := Versions.mine_rollback_other hj
  holds _ h := holds_filter.mpr ⟨h, hj⟩
  clock := Int.le_refl _
  requestedAt := rfl
  organizationOf _ := rfl
  opened _ _ h _ _ := h
  adminless _ _ h := h

theorem commit_rely (h : db.Inv) (hj : j ≠ i) : db.Rely j (db.commit i) where
  grants := Versions.mine_rollback_other hj
  holds _ hkey := holds_filter.mpr ⟨hkey, hj⟩
  clock := Int.le_refl _
  requestedAt := rfl
  organizationOf userId := h.organizationOf_commit userId
  opened id g hrow hopen hkey := by
    rcases Versions.rows_commit_eq_some.mp hrow with hmine | ⟨-, hrow⟩
    · cases hold : db.grants.rows id with
      | none => exact absurd (h.locked j i _ hkey (h.creates i id g hmine hold).holds) hj
      | some o => cases (h.closes i id g o hmine hold).isOpen_eq.symm.trans hopen
    · exact hrow
  adminless organizationId hkey hless := h.adminless_commit hj hkey hless

/-- A version of a grant is nothing to the other threads. -/
theorem write_rely {issued : ℕ} (hlock : db.grants.locked i id = false) (hj : j ≠ i) :
    db.Rely j { db with grants := db.grants.write i id grant, issued := issued } where
  grants := Versions.mine_write_other hlock hj
  holds _ h := h
  clock := Int.le_refl _
  requestedAt := rfl
  organizationOf _ := rfl
  opened _ _ h _ _ := h
  adminless _ _ h := h

theorem revoke_cases (i id : ℕ) (organizationId : String) (now : Time) (db : Db) :
    (revoke i id organizationId now db = (.ok 0, db) ∧ ∀ grant, db.grants.read i id = some grant →
      grant.organizationId = organizationId → grant.isOpen = false) ∨
    ∃ grant, db.grants.read i id = some grant ∧ grant.isOpen = true ∧
      revoke i id organizationId now db =
        (.ok 1, { db with grants := db.grants.write i id (grant.revoked now) }) := by
  unfold revoke
  cases hread : (db.grants.read i id).filter fun grant =>
      grant.organizationId = organizationId && grant.isOpen with
  | none =>
    left
    refine ⟨rfl, fun grant hgrant horg => ?_⟩
    simpa [horg] using Option.filter_eq_none_iff.mp hread grant hgrant
  | some grant =>
    right
    obtain ⟨hread, hselected⟩ := Option.filter_eq_some_iff.mp hread
    exact ⟨grant, hread, (Bool.and_eq_true _ _ ▸ hselected).2, rfl⟩

theorem claim_cases (i id : ℕ) (now : Time) (db : Db) :
    claim i id now db = (.ok 0, db) ∨
    ∃ grant, db.grants.read i id = some grant ∧ grant.isOpen = true ∧ now < grant.expiresAt ∧
      claim i id now db =
        (.ok 1, { db with grants := db.grants.write i id (grant.redeemed now) }) := by
  unfold claim
  cases hread : (db.grants.read i id).filter fun grant =>
      grant.isOpen && now < grant.expiresAt with
  | none => exact .inl rfl
  | some grant =>
    right
    obtain ⟨hread, hselected⟩ := Option.filter_eq_some_iff.mp hread
    simp only [Bool.and_eq_true, decide_eq_true_eq] at hselected
    exact ⟨grant, hread, hselected.1, hselected.2, rfl⟩

theorem create_cases (i : ℕ) (data : Grant) (db : Db) :
    (∃ failure, create i data db = (.error failure, db)) ∨
    create i data db = (.ok { data with id := db.issued }, { db with
      grants := db.grants.write i db.issued { data with id := db.issued }
      issued := db.issued + 1 }) := by
  unfold create
  split
  · exact .inl ⟨_, rfl⟩
  split
  · exact .inl ⟨_, rfl⟩
  · exact .inr rfl

theorem restore_cases (i : ℕ) (userId : String) (promoted : Bool) (db : Db) :
    restore i userId promoted db = (.error .recordNotFound, db) ∨
    ∃ user, db.users.read i userId = some user ∧ restore i userId promoted db =
      (.ok (), { db with users := db.users.write i userId (user.restored promoted) }) := by
  unfold restore
  cases hread : db.users.read i userId with
  | none => exact .inl rfl
  | some user => exact .inr ⟨user, rfl, rfl⟩

theorem run_rely (h : db.Inv) (he : enabled i st db = true) (hj : j ≠ i) :
    db.Rely j (run i st token db).2 := by
  cases st with
  | now =>
    refine ⟨rfl, fun _ h => h, Int.le_refl _, ?_, fun _ => rfl, fun _ _ h _ _ => h, fun _ _ h => h⟩
    exact Function.update_of_ne hj ..
  | lock key =>
    exact ⟨rfl, fun _ h => List.mem_cons_of_mem _ h, Int.le_refl _, rfl, fun _ => rfl,
      fun _ _ h _ _ => h, fun _ _ h => h⟩
  | revoke id organizationId now =>
    have hlock : db.grants.locked i id = false := by simpa [enabled] using he
    rcases revoke_cases i id organizationId now db with ⟨hrun, -⟩ | ⟨g, -, -, hrun⟩
    · rw [run, hrun]
      exact .refl j db
    · rw [run, hrun]
      exact write_rely hlock hj
  | claim id now =>
    have hlock : db.grants.locked i id = false := by simpa [enabled] using he
    rcases claim_cases i id now db with hrun | ⟨g, -, -, -, hrun⟩
    · rw [run, hrun]
      exact .refl j db
    · rw [run, hrun]
      exact write_rely hlock hj
  | create data =>
    rcases create_cases i data db with ⟨failure, hrun⟩ | hrun
    · rw [run, hrun]
      exact .refl j db
    · rw [run, hrun]
      have hlock : db.grants.locked i db.issued = false := by
        simp [Versions.locked, (h.fresh db.issued (Nat.le_refl _)).2]
      exact write_rely hlock hj
  | restore userId promoted =>
    rcases restore_cases i userId promoted db with hrun | ⟨user, -, hrun⟩
    · rw [run, hrun]
      exact .refl j db
    · rw [run, hrun]
      exact ⟨rfl, fun _ h => h, Int.le_refl _, rfl, fun _ => rfl, fun _ _ h _ _ => h,
        fun _ _ h => h⟩
  | commit => exact commit_rely h hj
  | rollback => exact rollback_rely hj
  | _ => exact .refl j db

theorem lost_rely (h : db.Inv) (he : enabled i st db = true) (hj : j ≠ i) :
    db.Rely j (lost i st token db).2 := by
  cases st with
  | now => exact (run_rely h he hj : db.Rely j (run i .now token db).2)
  | commit => exact rollback_rely hj
  | rollback => exact rollback_rely hj
  | _ => exact .refl j db

/-- Thread `i` has written no grant. -/
def Db.Idle (db : Db) (i : ℕ) : Prop := ∀ id, db.grants.mine i id = none

/-- What a thread has to know before it runs a statement. -/
def Ready {γ : Type} (i : ℕ) (st : Stmt γ) (db : Db) : Prop :=
  match st with
  | .now => db.Idle i
  | .revoke _ _ _ => db.Closing i
  | .claim _ now => db.Closing i ∧ db.requestedAt i = some now
  | .create data => db.Closing i ∧ data.isOpen = true ∧
      db.organizationOf data.targetUserId = some data.organizationId ∧
      db.Holds i (.target data.targetUserId) ∧
      ∀ id grant, db.grants.rows id = some grant → grant.Live db.clock →
        grant.targetUserId = data.targetUserId → ∃ closed, db.grants.mine i id = some closed
  | .restore userId promoted => ∃ organizationId, db.organizationOf userId = some organizationId ∧
      db.Holds i (.promote organizationId) ∧ (promoted = true → db.Adminless organizationId)
  | _ => True

theorem run_inv (h : db.Inv) (he : enabled i st db = true) (hready : Ready i st db) :
    (run i st token db).2.Inv := by
  cases st with
  | now => exact h.request hready db.clock
  | lock key =>
    refine h.lock fun j hj hholds => ?_
    have hfree : (db.locks.any fun lock => lock.1 ≠ i && lock.2 = key) = false := by
      simpa [enabled] using he
    have hnone := List.any_eq_false.mp hfree (j, key) hholds
    simp [hj] at hnone
  | revoke id organizationId now =>
    have hlock : db.grants.locked i id = false := by simpa [enabled] using he
    rcases revoke_cases i id organizationId now db with ⟨hrun, -⟩ | ⟨g, hread, hopen, hrun⟩
    · rw [run, hrun]
      exact h
    · rw [run, hrun]
      exact h.close hready hlock hread ⟨hopen, .inl ⟨now, rfl⟩⟩
  | claim id now =>
    have hlock : db.grants.locked i id = false := by simpa [enabled] using he
    rcases claim_cases i id now db with hrun | ⟨g, hread, hopen, hlt, hrun⟩
    · rw [run, hrun]
      exact h
    · rw [run, hrun]
      exact h.close hready.1 hlock hread ⟨hopen, .inr ⟨now, rfl, hlt, hready.2⟩⟩
  | create data =>
    rcases create_cases i data db with ⟨failure, hrun⟩ | hrun
    · rw [run, hrun]
      exact h
    · rw [run, hrun]
      obtain ⟨hclosing, hopen, hdirected, hholds, hsupersedes⟩ := hready
      exact h.issue hclosing rfl hopen hdirected hholds hsupersedes
  | restore userId promoted =>
    rcases restore_cases i userId promoted db with hrun | ⟨user, hread, hrun⟩
    · rw [run, hrun]
      exact h
    · rw [run, hrun]
      obtain ⟨organizationId, horg, hholds, hless⟩ := hready
      exact h.restore hread horg hholds hless
  | commit => exact h.commit
  | rollback => exact h.rollback
  | _ => exact h

theorem lost_inv (h : db.Inv) (hready : Ready i st db) : (lost i st token db).2.Inv := by
  cases st with
  | now => exact h.request hready db.clock
  | commit => exact h.rollback
  | rollback => exact h.rollback
  | _ => exact h

/-! ### The contract -/

def contract : Contract machine where
  inv := Db.Inv
  rely := Db.Rely
  assumed _ := True
  guar _ := True
  fresh i s := s.Idle i
  refl := Db.Rely.refl
  trans _ _ _ _ := Db.Rely.trans
  fresh_rely i s t h hs id := by rw [h.grants, hs id]

theorem keeps {ch : Choice} (h : db.Inv) (he : enabled i st db = true)
    (hready : Ready i st (db.later ch.elapsed)) : contract.Keeps ⟨i, st, ch, db⟩ := by
  have hlater := h.later ch.elapsed
  have he' : enabled i st (db.later ch.elapsed) = true := he
  refine ⟨trivial, ?_, fun j hj => (later_rely ch.elapsed).trans ?_⟩
  · unfold Occurrence.post machine exec
    dsimp only
    split
    · exact lost_inv hlater hready
    · exact run_inv hlater he' hready
  · unfold Occurrence.post machine exec
    dsimp only
    split
    · exact lost_rely hlater he' hj
    · exact run_rely hlater he' hj

/-- A statement of a transaction that ends no transaction, and what follows it. -/
theorem stmt_bind_safe {α β : Type} {st : Stmt (Except Failure β)} {f : β → Throws Stmt Failure α}
    {Q : α → Db → Prop} (hlost : ∀ token (t : Db) b, (lost i st token t).1 ≠ .ok b)
    (h : ∀ t token, s.Rely i t → t.Inv → Ready i st t ∧ ∀ b, (run i st token t).1 = .ok b →
      (f b).Safe contract i Q (run i st token t).2) :
    (Throws.stmt st >>= f).Safe contract i Q s := by
  refine Throws.safe_stmt_bind fun t ch hr hi he _ => ?_
  obtain ⟨hready, hnext⟩ := h (t.later ch.elapsed) ch.token (hr.trans (later_rely ch.elapsed))
    (hi.later ch.elapsed)
  refine ⟨keeps hi he hready, fun b hb => ?_⟩
  change (exec i st ch t).1 = .ok b at hb
  change (f b).Safe contract i Q (exec i st ch t).2
  unfold exec at hb ⊢
  split at hb
  · cases hlost _ _ _ hb
  · rename_i hkept
    rw [if_neg hkept]
    exact hnext b hb

end Ashbi.BreakGlass
