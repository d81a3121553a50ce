import Ashbi.BreakGlass.Statements

/-! What holds of the grants and the accounts between statements. -/

namespace Ashbi.BreakGlass

open Interleaving

variable {db : Db} {i j id : ℕ} {grant old : Grant} {key : Lock}

/-- Thread `i` holds a lock. -/
def Db.Holds (db : Db) (i : ℕ) (key : Lock) : Prop := (i, key) ∈ db.locks

def Db.organizationOf (db : Db) (userId : String) : Option String :=
  (db.users.rows userId).map (·.organizationId)

/-- The organization has no active administrator. -/
def Db.Adminless (db : Db) (organizationId : String) : Prop :=
  ∀ userId user, db.users.rows userId = some user → user.organizationId = organizationId →
    user.isActiveAdmin = false

/-- Unredeemed, unrevoked and unexpired. -/
def Grant.Live (grant : Grant) (now : Time) : Prop := grant.isOpen = true ∧ now < grant.expiresAt

/-- The one outcome that the transaction of thread `i` gives to a grant. -/
structure Db.Closes (db : Db) (i : ℕ) (old grant : Grant) : Prop where
  isOpen : old.isOpen = true
  outcome : (∃ now, grant = old.revoked now) ∨
    ∃ now, grant = old.redeemed now ∧ now < old.expiresAt ∧ db.requestedAt i = some now

/-- The new grant of thread `i`, which closes the live ones of its target. -/
structure Db.Creates (db : Db) (i id : ℕ) (grant : Grant) : Prop where
  id_eq : grant.id = id
  isOpen : grant.isOpen = true
  directed : db.organizationOf grant.targetUserId = some grant.organizationId
  holds : db.Holds i (.target grant.targetUserId)
  supersedes : ∀ id' grant', db.grants.rows id' = some grant' → grant'.Live db.clock →
    grant'.targetUserId = grant.targetUserId → ∃ closed, db.grants.mine i id' = some closed
  one : ∀ id' grant', db.grants.mine i id' = some grant' → db.grants.rows id' = none →
    grant'.targetUserId = grant.targetUserId → id' = id

/-- The account that thread `i` restores. -/
structure Db.Restores (db : Db) (i : ℕ) (old user : User) : Prop where
  id_eq : user.id = old.id
  organizationId : user.organizationId = old.organizationId
  isActive : user.isActive = true
  holds : db.Holds i (.promote old.organizationId)
  role : user.role = old.role ∨ user.isAdmin = true ∧ db.Adminless old.organizationId

structure Db.Inv (db : Db) : Prop where
  fresh : ∀ id, db.issued ≤ id → db.grants.rows id = none ∧ db.grants.written id = none
  id_eq : ∀ id grant, db.grants.rows id = some grant → grant.id = id
  directed : ∀ id grant, db.grants.rows id = some grant →
    db.organizationOf grant.targetUserId = some grant.organizationId
  outcome : ∀ id grant, db.grants.rows id = some grant →
    grant.redeemedAt = none ∨ grant.revokedAt = none
  one : ∀ id id' grant grant', db.grants.rows id = some grant → db.grants.rows id' = some grant' →
    grant.Live db.clock → grant'.Live db.clock → grant.targetUserId = grant'.targetUserId → id = id'
  closes : ∀ i id grant old, db.grants.mine i id = some grant → db.grants.rows id = some old →
    db.Closes i old grant
  creates : ∀ i id grant, db.grants.mine i id = some grant → db.grants.rows id = none →
    db.Creates i id grant
  accounts : ∀ userId user, db.users.rows userId = some user →
    user.id = userId ∧ userId ∈ db.accounts
  restores : ∀ i userId user, db.users.mine i userId = some user →
    ∃ old, db.users.rows userId = some old ∧ db.Restores i old user
  locked : ∀ i j key, db.Holds i key → db.Holds j key → i = j

/-! ### Rows -/

theorem Grant.isOpen_iff :
    grant.isOpen = true ↔ grant.redeemedAt = none ∧ grant.revokedAt = none := by
  simp [Grant.isOpen]

theorem Db.Closes.isOpen_eq (h : db.Closes i old grant) : grant.isOpen = false := by
  rcases h.outcome with ⟨now, rfl⟩ | ⟨now, rfl, -⟩
  · simp [Grant.isOpen, Grant.revoked]
  · simp [Grant.isOpen, Grant.redeemed]

theorem Db.Closes.same (h : db.Closes i old grant) : grant.id = old.id ∧
    grant.targetUserId = old.targetUserId ∧ grant.organizationId = old.organizationId := by
  rcases h.outcome with ⟨now, rfl⟩ | ⟨now, rfl, -⟩
  · exact ⟨rfl, rfl, rfl⟩
  · exact ⟨rfl, rfl, rfl⟩

theorem Db.Closes.single (h : db.Closes i old grant) :
    grant.redeemedAt = none ∨ grant.revokedAt = none := by
  obtain ⟨hredeemed, hrevoked⟩ := Grant.isOpen_iff.mp h.isOpen
  rcases h.outcome with ⟨now, rfl⟩ | ⟨now, rfl, -⟩
  · exact .inl hredeemed
  · exact .inr hrevoked

theorem holds_filter : (j, key) ∈ db.locks.filter (·.1 ≠ i) ↔ db.Holds j key ∧ j ≠ i := by
  simp [Db.Holds]

/-! ### The end of a transaction -/

theorem Db.Inv.later (h : db.Inv) (elapsed : ℕ) : (db.later elapsed).Inv := by
  have hlive : ∀ grant : Grant, grant.Live (db.later elapsed).clock → grant.Live db.clock :=
    fun grant hg => ⟨hg.1, Int.lt_of_le_of_lt
      (Int.le_add_of_nonneg_right (Int.natCast_nonneg elapsed)) hg.2⟩
  refine ⟨h.fresh, h.id_eq, h.directed, h.outcome, fun id id' g g' hg hg' hl hl' =>
    h.one id id' g g' hg hg' (hlive g hl) (hlive g' hl'), fun i id g o hg ho => ?_,
    fun i id g hg hn => ?_, h.accounts, fun i userId u hu => ?_, h.locked⟩
  · obtain ⟨hopen, houtcome⟩ := h.closes i id g o hg ho
    exact ⟨hopen, houtcome⟩
  · obtain ⟨hid, hopen, hdirected, hholds, hsupersedes, hone⟩ := h.creates i id g hg hn
    exact ⟨hid, hopen, hdirected, hholds, fun id' g' hg' hl => hsupersedes id' g' hg' (hlive g' hl),
      hone⟩
  · obtain ⟨o, ho, hid, horg, hactive, hholds, hrole⟩ := h.restores i userId u hu
    exact ⟨o, ho, hid, horg, hactive, hholds, hrole⟩

theorem Db.Inv.rollback (h : db.Inv) : (db.rollback i).Inv := by
  refine ⟨fun id hid => ?_, h.id_eq, h.directed, h.outcome, h.one, fun j id g o hg ho => ?_,
    fun j id g hg hn => ?_, h.accounts, fun j userId u hu => ?_, fun j k key hj hk => ?_⟩
  · obtain ⟨hrow, hwritten⟩ := h.fresh id hid
    exact ⟨hrow, by simp [Db.rollback, Versions.rollback, hwritten]⟩
  · obtain ⟨-, hg⟩ := Versions.mine_rollback_eq_some.mp hg
    obtain ⟨hopen, houtcome⟩ := h.closes j id g o hg ho
    exact ⟨hopen, houtcome⟩
  · obtain ⟨hj, hg⟩ := Versions.mine_rollback_eq_some.mp hg
    obtain ⟨hid, hopen, hdirected, hholds, hsupersedes, hone⟩ := h.creates j id g hg hn
    refine ⟨hid, hopen, hdirected, holds_filter.mpr ⟨hholds, hj⟩, fun id' g' hg' hl ht => ?_,
      fun id' g' hg' => hone id' g' (Versions.mine_rollback_eq_some.mp hg').2⟩
    obtain ⟨closed, hclosed⟩ := hsupersedes id' g' hg' hl ht
    exact ⟨closed, Versions.mine_rollback_eq_some.mpr ⟨hj, hclosed⟩⟩
  · obtain ⟨hj, hu⟩ := Versions.mine_rollback_eq_some.mp hu
    obtain ⟨o, ho, hid, horg, hactive, hholds, hrole⟩ := h.restores j userId u hu
    exact ⟨o, ho, hid, horg, hactive, holds_filter.mpr ⟨hholds, hj⟩, hrole⟩
  · exact h.locked j k key (holds_filter.mp hj).1 (holds_filter.mp hk).1

/-- A commit moves no account to another organization. -/
theorem Db.Inv.organizationOf_commit (h : db.Inv) (userId : String) :
    (db.commit i).organizationOf userId = db.organizationOf userId := by
  unfold Db.organizationOf
  cases hmine : db.users.mine i userId with
  | some user =>
    obtain ⟨old, hold, hrestores⟩ := h.restores i userId user hmine
    have hrow : (db.commit i).users.rows userId = some user :=
      Versions.rows_commit_eq_some.mpr (.inl hmine)
    rw [hrow, hold, Option.map_some, Option.map_some, hrestores.organizationId]
  | none => simp [Db.commit, Versions.commit, Versions.read, hmine]

/-- No other transaction leaves an active administrator where a thread holds the lock. -/
theorem Db.Inv.adminless_commit (h : db.Inv) {organizationId : String} (hj : j ≠ i)
    (hholds : db.Holds j (.promote organizationId)) (hless : db.Adminless organizationId) :
    (db.commit i).Adminless organizationId := by
  intro userId user hrow horg
  rcases Versions.rows_commit_eq_some.mp hrow with hmine | ⟨-, hrow⟩
  · obtain ⟨old, hold, hrestores⟩ := h.restores i userId user hmine
    have hheld := hrestores.holds
    rw [← hrestores.organizationId, horg] at hheld
    exact absurd (h.locked j i _ hholds hheld) hj
  · exact hless userId user hrow horg

/-- Where a row of the table after a commit comes from. -/
theorem Db.Inv.grant_commit (h : db.Inv) (hrow : (db.commit i).grants.rows id = some grant) :
    (db.grants.mine i id = some grant ∧ db.grants.rows id = none ∧ db.Creates i id grant) ∨
      (∃ old, db.grants.rows id = some old ∧ db.Closes i old grant) ∨
      db.grants.mine i id = none ∧ db.grants.rows id = some grant := by
  rcases Versions.rows_commit_eq_some.mp hrow with hmine | hkept
  · cases hold : db.grants.rows id with
    | none => exact .inl ⟨hmine, rfl, h.creates i id grant hmine hold⟩
    | some old => exact .inr (.inl ⟨old, rfl, h.closes i id grant old hmine hold⟩)
  · exact .inr (.inr hkept)

/-- A row that is live after the commit is a new one, or was live and not written. -/
theorem Db.Inv.live_commit (h : db.Inv) (hrow : (db.commit i).grants.rows id = some grant)
    (hlive : grant.Live db.clock) :
    (db.grants.mine i id = some grant ∧ db.grants.rows id = none ∧ db.Creates i id grant) ∨
      db.grants.mine i id = none ∧ db.grants.rows id = some grant := by
  rcases h.grant_commit hrow with hnew | ⟨old, -, hcloses⟩ | hkept
  · exact .inl hnew
  · have hclosed := hcloses.isOpen_eq
    rw [hlive.1] at hclosed
    cases hclosed
  · exact .inr hkept

/-- What a commit leaves live for one account is one grant. -/
theorem Db.Inv.one_commit (h : db.Inv) {id' : ℕ} {grant' : Grant}
    (hrow : (db.commit i).grants.rows id = some grant)
    (hrow' : (db.commit i).grants.rows id' = some grant') (hlive : grant.Live db.clock)
    (hlive' : grant'.Live db.clock) (htarget : grant.targetUserId = grant'.targetUserId) :
    id = id' := by
  rcases h.live_commit hrow hlive with ⟨hmine, hnew, hcreates⟩ | ⟨hnone, hkept⟩
  · rcases h.live_commit hrow' hlive' with ⟨-, -, hcreates'⟩ | ⟨hnone', hkept'⟩
    · exact hcreates'.one id grant hmine hnew htarget
    · obtain ⟨closed, hclosed⟩ := hcreates.supersedes id' grant' hkept' hlive' htarget.symm
      rw [hnone'] at hclosed
      cases hclosed
  · rcases h.live_commit hrow' hlive' with ⟨-, -, hcreates'⟩ | ⟨-, hkept'⟩
    · obtain ⟨closed, hclosed⟩ := hcreates'.supersedes id grant hkept hlive htarget
      rw [hnone] at hclosed
      cases hclosed
    · exact h.one id id' grant grant' hkept hkept' hlive hlive' htarget

/-- The new grant of another thread is as new after the commit: the lock of its target keeps the
two apart. -/
theorem Db.Inv.creates_commit (h : db.Inv) (hmine : (db.commit i).grants.mine j id = some grant)
    (hnone : (db.commit i).grants.rows id = none) : (db.commit i).Creates j id grant := by
  have hnew : ∀ id, (db.commit i).grants.rows id = none → db.grants.rows id = none :=
    fun id hn => (Versions.rows_commit_eq_none.mp hn).2
  obtain ⟨hj, hmine⟩ := Versions.mine_commit_eq_some.mp hmine
  obtain ⟨hid, hopen, hdirected, hholds, hsupersedes, hone⟩ :=
    h.creates j id grant hmine (hnew id hnone)
  refine ⟨hid, hopen, ?_, holds_filter.mpr ⟨hholds, hj⟩, fun id' g hg hl ht => ?_,
    fun id' g hg hn => hone id' g (Versions.mine_commit_eq_some.mp hg).2 (hnew id' hn)⟩
  · rw [h.organizationOf_commit]
    exact hdirected
  · rcases h.live_commit hg hl with ⟨-, -, hcreates⟩ | ⟨-, hrow⟩
    · have hheld := hcreates.holds
      rw [ht] at hheld
      exact absurd (h.locked j i _ hholds hheld) hj
    · obtain ⟨closed, hclosed⟩ := hsupersedes id' g hrow hl ht
      exact ⟨closed, Versions.mine_commit_eq_some.mpr ⟨hj, hclosed⟩⟩

theorem Db.Inv.restores_commit (h : db.Inv) {userId : String} {user : User}
    (hmine : (db.commit i).users.mine j userId = some user) :
    ∃ old, (db.commit i).users.rows userId = some old ∧ (db.commit i).Restores j old user := by
  obtain ⟨hj, hu⟩ := Versions.mine_commit_eq_some.mp hmine
  obtain ⟨o, ho, hid, horg, hactive, hholds, hrole⟩ := h.restores j userId user hu
  refine ⟨o, ?_, hid, horg, hactive, holds_filter.mpr ⟨hholds, hj⟩, ?_⟩
  · exact Versions.rows_commit_eq_some.mpr (.inr ⟨Versions.mine_eq_none_of_ne hu hj, ho⟩)
  · exact hrole.imp_right fun hfree => ⟨hfree.1, h.adminless_commit hj hholds hfree.2⟩

theorem Db.Inv.commit (h : db.Inv) : (db.commit i).Inv := by
  refine ⟨fun id hid => ?_, fun id g hg => ?_, fun id g hg => ?_, fun id g hg => ?_,
    fun id id' g g' hg hg' hl hl' ht => h.one_commit hg hg' hl hl' ht, fun j id g o hg ho => ?_,
    fun j id g hg hn => h.creates_commit hg hn, fun userId u hu => ?_,
    fun j userId u hu => h.restores_commit hu, fun j k key hj hk => ?_⟩
  · obtain ⟨hrow, hwritten⟩ := h.fresh id hid
    refine ⟨Versions.rows_commit_eq_none.mpr ⟨Versions.mine_eq_none hwritten, hrow⟩, ?_⟩
    simp [Db.commit, Versions.commit, Versions.rollback, hwritten]
  · rcases h.grant_commit hg with ⟨-, -, hcreates⟩ | ⟨o, hrow, hcloses⟩ | ⟨-, hrow⟩
    · exact hcreates.id_eq
    · exact hcloses.same.1.trans (h.id_eq id o hrow)
    · exact h.id_eq id g hrow
  · rw [h.organizationOf_commit]
    rcases h.grant_commit hg with ⟨-, -, hcreates⟩ | ⟨o, hrow, hcloses⟩ | ⟨-, hrow⟩
    · exact hcreates.directed
    · obtain ⟨-, htarget, horg⟩ := hcloses.same
      rw [htarget, horg]
      exact h.directed id o hrow
    · exact h.directed id g hrow
  · rcases h.grant_commit hg with ⟨-, -, hcreates⟩ | ⟨o, -, hcloses⟩ | ⟨-, hrow⟩
    · exact .inl (Grant.isOpen_iff.mp hcreates.isOpen).1
    · exact hcloses.single
    · exact h.outcome id g hrow
  · obtain ⟨hj, hg⟩ := Versions.mine_commit_eq_some.mp hg
    have ho : (db.commit i).grants.rows id = some o := ho
    rcases Versions.rows_commit_eq_some.mp ho with hmine | ⟨-, hrow⟩
    · exact absurd (Versions.mine_unique hg hmine) hj
    · obtain ⟨hopen, houtcome⟩ := h.closes j id g o hg hrow
      exact ⟨hopen, houtcome⟩
  · rcases Versions.rows_commit_eq_some.mp hu with hmine | ⟨-, hrow⟩
    · obtain ⟨o, ho, hrestores⟩ := h.restores i userId u hmine
      obtain ⟨hid, hin⟩ := h.accounts userId o ho
      exact ⟨hrestores.id_eq.trans hid, hin⟩
    · exact h.accounts userId u hrow
  · exact h.locked j k key (holds_filter.mp hj).1 (holds_filter.mp hk).1

/-! ### The statements of a transaction -/

/-- Every grant that thread `i` has written is closed. -/
def Db.Closing (db : Db) (i : ℕ) : Prop :=
  ∀ id grant, db.grants.mine i id = some grant → grant.isOpen = false

/-- An open grant that a thread sees while it only closes grants is committed. -/
theorem Db.Closing.rows_of_read (h : db.Closing i) (hread : db.grants.read i id = some grant)
    (hopen : grant.isOpen = true) :
    db.grants.rows id = some grant ∧ db.grants.mine i id = none := by
  rcases Versions.read_eq_some.mp hread with hmine | ⟨hnone, hrow⟩
  · rw [h id grant hmine] at hopen
    cases hopen
  · exact ⟨hrow, hnone⟩

/-- The clock is read before anything is written. -/
theorem Db.Inv.request (h : db.Inv) (hnone : ∀ id, db.grants.mine i id = none) (now : Time) :
    Db.Inv { db with requestedAt := Function.update db.requestedAt i (some now) } := by
  refine ⟨h.fresh, h.id_eq, h.directed, h.outcome, h.one, fun j id g o hg ho => ?_,
    fun j id g hg hn => ?_, h.accounts, fun j userId u hu => ?_, h.locked⟩
  · have hj : j ≠ i := by
      rintro rfl
      rw [hnone id] at hg
      cases hg
    obtain ⟨hopen, houtcome⟩ := h.closes j id g o hg ho
    refine ⟨hopen, houtcome.imp_right fun ⟨now', heq, hlt, hrequested⟩ => ⟨now', heq, hlt, ?_⟩⟩
    exact (Function.update_of_ne hj ..).trans hrequested
  · obtain ⟨hid, hopen, hdirected, hholds, hsupersedes, hone⟩ := h.creates j id g hg hn
    exact ⟨hid, hopen, hdirected, hholds, hsupersedes, hone⟩
  · obtain ⟨o, ho, hid, horg, hactive, hholds, hrole⟩ := h.restores j userId u hu
    exact ⟨o, ho, hid, horg, hactive, hholds, hrole⟩

theorem Db.Inv.lock (h : db.Inv) (hfree : ∀ j, j ≠ i → ¬ db.Holds j key) :
    Db.Inv { db with locks := (i, key) :: db.locks } := by
  refine ⟨h.fresh, h.id_eq, h.directed, h.outcome, h.one, fun j id g o hg ho => ?_,
    fun j id g hg hn => ?_, h.accounts, fun j userId u hu => ?_, fun j k key' hj hk => ?_⟩
  · obtain ⟨hopen, houtcome⟩ := h.closes j id g o hg ho
    exact ⟨hopen, houtcome⟩
  · obtain ⟨hid, hopen, hdirected, hholds, hsupersedes, hone⟩ := h.creates j id g hg hn
    exact ⟨hid, hopen, hdirected, List.mem_cons_of_mem _ hholds, hsupersedes, hone⟩
  · obtain ⟨o, ho, hid, horg, hactive, hholds, hrole⟩ := h.restores j userId u hu
    exact ⟨o, ho, hid, horg, hactive, List.mem_cons_of_mem _ hholds, hrole⟩
  · rcases List.mem_cons.mp hj with hnew | hj'
    · obtain ⟨rfl, rfl⟩ := Prod.ext_iff.mp hnew
      rcases List.mem_cons.mp hk with hk | hk'
      · exact (congrArg Prod.fst hk).symm
      · by_contra hne
        exact hfree k (fun e => hne e.symm) hk'
    · rcases List.mem_cons.mp hk with hnew | hk'
      · obtain ⟨rfl, rfl⟩ := Prod.ext_iff.mp hnew
        by_contra hne
        exact hfree j hne hj'
      · exact h.locked j k key' hj' hk'

/-- A grant is closed in the transaction that holds its row. -/
theorem Db.Inv.close (h : db.Inv) (hclosing : db.Closing i)
    (hlock : db.grants.locked i id = false) (hread : db.grants.read i id = some old)
    (hcloses : db.Closes i old grant) :
    Db.Inv { db with grants := db.grants.write i id grant } := by
  obtain ⟨hrow, -⟩ := hclosing.rows_of_read hread hcloses.isOpen
  refine ⟨fun id' hid => ?_, h.id_eq, h.directed, h.outcome, h.one, fun j id' g o hg ho => ?_,
    fun j id' g hg hn => ?_, h.accounts, fun j userId u hu => ?_, h.locked⟩
  · obtain ⟨hrow', hwritten⟩ := h.fresh id' hid
    have hne : id' ≠ id := by
      rintro rfl
      rw [hrow] at hrow'
      cases hrow'
    exact ⟨hrow', (Versions.written_write_of_ne hne).trans hwritten⟩
  · rcases Versions.mine_write_eq_some.mp hg with ⟨rfl, rfl, rfl⟩ | ⟨-, hg⟩
    · obtain rfl := Option.some.inj (hrow.symm.trans ho)
      exact ⟨hcloses.isOpen, hcloses.outcome⟩
    · obtain ⟨hopen, houtcome⟩ := h.closes j id' g o hg ho
      exact ⟨hopen, houtcome⟩
  · rcases Versions.mine_write_eq_some.mp hg with ⟨rfl, rfl, rfl⟩ | ⟨-, hg⟩
    · cases hrow.symm.trans hn
    · obtain ⟨hid, hopen, hdirected, hholds, hsupersedes, hone⟩ := h.creates j id' g hg hn
      refine ⟨hid, hopen, hdirected, hholds, fun id₂ g₂ hg₂ hl ht => ?_, fun id₂ g₂ hg₂ hn₂ => ?_⟩
      · obtain ⟨closed, hclosed⟩ := hsupersedes id₂ g₂ hg₂ hl ht
        by_cases hj : j = i
        · subst hj
          rw [Versions.mine_write]
          by_cases hid₂ : id₂ = id
          · exact ⟨grant, by rw [hid₂, Function.update_self]⟩
          · exact ⟨closed, by rw [Function.update_of_ne hid₂, hclosed]⟩
        · exact ⟨closed, by rw [Versions.mine_write_other hlock hj, hclosed]⟩
      · rcases Versions.mine_write_eq_some.mp hg₂ with ⟨rfl, rfl, rfl⟩ | ⟨-, hg₂⟩
        · cases hrow.symm.trans hn₂
        · exact hone id₂ g₂ hg₂ hn₂
  · obtain ⟨o, ho, hid, horg, hactive, hholds, hrole⟩ := h.restores j userId u hu
    exact ⟨o, ho, hid, horg, hactive, hholds, hrole⟩

/-- A thread issues a grant once it has closed the live ones of the target. -/
theorem Db.Inv.issue (h : db.Inv) (hclosing : db.Closing i) (hid : grant.id = db.issued)
    (hopen : grant.isOpen = true)
    (hdirected : db.organizationOf grant.targetUserId = some grant.organizationId)
    (hholds : db.Holds i (.target grant.targetUserId))
    (hsupersedes : ∀ id g, db.grants.rows id = some g → g.Live db.clock →
      g.targetUserId = grant.targetUserId → ∃ closed, db.grants.mine i id = some closed) :
    Db.Inv { db with
      grants := db.grants.write i db.issued grant
      issued := db.issued + 1 } := by
  obtain ⟨hrow, hwritten⟩ := h.fresh db.issued (Nat.le_refl _)
  have hold : ∀ j id' g, db.grants.mine j id' = some g → id' ≠ db.issued := by
    rintro j id' g hg rfl
    rw [Versions.mine_eq_none hwritten] at hg
    cases hg
  refine ⟨fun id' hid' => ?_, h.id_eq, h.directed, h.outcome, h.one, fun j id' g o hg ho => ?_,
    fun j id' g hg hn => ?_, h.accounts, fun j userId u hu => ?_, h.locked⟩
  · have hid' : db.issued + 1 ≤ id' := hid'
    obtain ⟨hrow', hwritten'⟩ := h.fresh id' (by omega)
    exact ⟨hrow', (Versions.written_write_of_ne (by omega)).trans hwritten'⟩
  · rcases Versions.mine_write_eq_some.mp hg with ⟨rfl, rfl, rfl⟩ | ⟨-, hg⟩
    · cases hrow.symm.trans ho
    · obtain ⟨hopen', houtcome⟩ := h.closes j id' g o hg ho
      exact ⟨hopen', houtcome⟩
  · rcases Versions.mine_write_eq_some.mp hg with ⟨rfl, rfl, rfl⟩ | ⟨-, hg⟩
    · refine ⟨hid, hopen, hdirected, hholds, fun id₂ g₂ hg₂ hl ht => ?_, fun id₂ g₂ hg₂ hn₂ _ => ?_⟩
      · obtain ⟨closed, hclosed⟩ := hsupersedes id₂ g₂ hg₂ hl ht
        exact ⟨closed, Versions.mine_write_eq_some.mpr (.inr ⟨hold _ _ _ hclosed, hclosed⟩)⟩
      · rcases Versions.mine_write_eq_some.mp hg₂ with ⟨rfl, -, -⟩ | ⟨-, hg₂⟩
        · rfl
        · have hnew := (h.creates _ id₂ g₂ hg₂ hn₂).isOpen
          rw [hclosing id₂ g₂ hg₂] at hnew
          cases hnew
    · have hmine : db.grants.mine j id' = some g := hg
      obtain ⟨hid', hopen', hdirected', hholds', hsupersedes', hone⟩ := h.creates j id' g hmine hn
      refine ⟨hid', hopen', hdirected', hholds', fun id₂ g₂ hg₂ hl ht => ?_,
        fun id₂ g₂ hg₂ hn₂ ht => ?_⟩
      · obtain ⟨closed, hclosed⟩ := hsupersedes' id₂ g₂ hg₂ hl ht
        exact ⟨closed, Versions.mine_write_eq_some.mpr (.inr ⟨hold _ _ _ hclosed, hclosed⟩)⟩
      · rcases Versions.mine_write_eq_some.mp hg₂ with ⟨rfl, rfl, rfl⟩ | ⟨-, hg₂⟩
        -- a thread that had issued another grant would have written an open one
        · cases (hclosing id' g hmine).symm.trans hopen'
        · exact hone id₂ g₂ hg₂ hn₂ ht
  · obtain ⟨o, ho, hid', horg, hactive, hholds', hrole⟩ := h.restores j userId u hu
    exact ⟨o, ho, hid', horg, hactive, hholds', hrole⟩

/-- An account is restored in the transaction that holds the lock of its organization. -/
theorem Db.Inv.restore (h : db.Inv) {userId organizationId : String} {user : User} {promoted : Bool}
    (hread : db.users.read i userId = some user)
    (horg : db.organizationOf userId = some organizationId)
    (hholds : db.Holds i (.promote organizationId))
    (hless : promoted = true → db.Adminless organizationId) :
    Db.Inv { db with users := db.users.write i userId (user.restored promoted) } := by
  have hrestores : ∃ o, db.users.rows userId = some o ∧
    db.Restores i o (user.restored promoted) := by
    obtain ⟨o, ho, rfl⟩ := Option.map_eq_some_iff.mp horg
    have hsame : user.id = o.id ∧ user.organizationId = o.organizationId ∧
        (user.role = o.role ∨ user.isAdmin = true ∧ db.Adminless o.organizationId) := by
      rcases Versions.read_eq_some.mp hread with hmine | ⟨-, hrow⟩
      · obtain ⟨o', ho', hr⟩ := h.restores i userId user hmine
        obtain rfl := Option.some.inj (ho.symm.trans ho')
        exact ⟨hr.id_eq, hr.organizationId, hr.role⟩
      · obtain rfl := Option.some.inj (ho.symm.trans hrow)
        exact ⟨rfl, rfl, .inl rfl⟩
    refine ⟨o, ho, hsame.1, hsame.2.1, rfl, hholds, ?_⟩
    cases promoted with
    | true => exact .inr ⟨by simp [User.isAdmin, User.restored], hless rfl⟩
    | false => exact hsame.2.2
  refine ⟨h.fresh, h.id_eq, h.directed, h.outcome, h.one, fun j id g o hg ho => ?_,
    fun j id g hg hn => ?_, h.accounts, fun j userId' u hu => ?_, h.locked⟩
  · obtain ⟨hopen, houtcome⟩ := h.closes j id g o hg ho
    exact ⟨hopen, houtcome⟩
  · obtain ⟨hid, hopen, hdirected, hheld, hsupersedes, hone⟩ := h.creates j id g hg hn
    exact ⟨hid, hopen, hdirected, hheld, hsupersedes, hone⟩
  · rcases Versions.mine_write_eq_some.mp hu with ⟨rfl, rfl, rfl⟩ | ⟨-, hu⟩
    · obtain ⟨o, ho, hid, horg', hactive, hheld, hrole⟩ := hrestores
      exact ⟨o, ho, hid, horg', hactive, hheld, hrole⟩
    · obtain ⟨o, ho, hid, horg', hactive, hheld, hrole⟩ := h.restores j userId' u hu
      exact ⟨o, ho, hid, horg', hactive, hheld, hrole⟩

end Ashbi.BreakGlass
