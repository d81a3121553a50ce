import Mathlib
import Ashbi.Interleaving.Rules
import Ashbi.Mfa.Account

/-! A second-factor code is accepted at most once. -/

namespace Ashbi.Mfa

open Interleaving

/-! ### Accepted codes -/

/-- The time step that the statement claims. -/
def Stmt.claims {β : Type} (st : Stmt β) (u : User) : Option ℤ :=
  match st with
  | .claimStep step => if u.newer step then some step else none
  | _ => none

/-- The hash of the recovery code that the statement consumes. -/
def Stmt.consumes {β : Type} (st : Stmt β) (u : User) : Option String :=
  match st with
  | .consumeCode sessionVersion hash _ =>
    if u.sessionVersion = sessionVersion && u.mfaRecoveryCodes.contains hash then some hash
    else none
  | _ => none

def acceptedStep (o : Occurrence machine) : Option ℤ := Stmt.claims o.stmt o.pre

def acceptedHash (o : Occurrence machine) : Option String := Stmt.consumes o.stmt o.pre

variable {β : Type} {ch : Choice} {u : User}

/-- What one statement does to the claimed step. -/
theorem exec_step (st : Stmt β) :
    match Stmt.claims st u with
    | some step => u.newer step = true ∧ (exec st ch u).2.mfaLastUsedStep = some step
    | none => (exec st ch u).2.mfaLastUsedStep = u.mfaLastUsedStep := by
  cases st with
  | reserveAttempt nowMs => simp only [Stmt.claims, exec]; split <;> rfl
  | lockAccount nowMs => simp only [Stmt.claims, exec]; split <;> rfl
  | claimStep step =>
    by_cases h : u.newer step = true
    · simp [Stmt.claims, exec, h]
    · simp [Stmt.claims, exec, h]
  | consumeCode sessionVersion hash remaining => simp only [Stmt.claims, exec]; split <;> rfl
  | _ => rfl

/-- A code in the future of every claimed step is claimed by `step`. -/
theorem newer_trans {a b : User} {step : ℤ} (h : a.newer step = true)
    (hb : b.mfaLastUsedStep = some step) {later : ℤ} (hl : b.newer later = true) :
    step < later ∧ a.newer later = true := by
  have hlt : step < later := by simpa [User.newer, hb] using hl
  refine ⟨hlt, ?_⟩
  cases ha : a.mfaLastUsedStep with
  | none => simp [User.newer, ha]
  | some last =>
    have hlast : last < step := by simpa [User.newer, ha] using h
    simpa [User.newer, ha] using hlast.trans hlt

/-- Accepted steps only grow, along any chain of statements. -/
theorem steps_increase {u v : User} {tr : List (Occurrence machine)}
    (h : Chained (M := machine) u tr v) :
    (tr.filterMap acceptedStep).Pairwise (· < ·) ∧
      ∀ step ∈ tr.filterMap acceptedStep, u.newer step = true := by
  induction tr generalizing u with
  | nil => simp
  | cons o rest ih =>
    obtain ⟨rfl, hrest⟩ := h
    obtain ⟨hpair, hnewer⟩ := ih hrest
    have hstep := @exec_step _ o.choice o.pre o.stmt
    cases ha : acceptedStep o with
    | none =>
      have hkeep : o.post.mfaLastUsedStep = o.pre.mfaLastUsedStep := by
        have hnone : Stmt.claims o.stmt o.pre = none := ha
        rw [hnone] at hstep
        exact hstep
      rw [List.filterMap_cons_none ha]
      refine ⟨hpair, fun step hs => ?_⟩
      have hnew := hnewer step hs
      rwa [User.newer, hkeep] at hnew
    | some first =>
      have hsome : Stmt.claims o.stmt o.pre = some first := ha
      rw [hsome] at hstep
      obtain ⟨hfirst, hlast⟩ := hstep
      rw [List.filterMap_cons_some ha, List.pairwise_cons]
      refine ⟨⟨fun step hs => (newer_trans hfirst hlast (hnewer step hs)).1, hpair⟩, ?_⟩
      exact List.forall_mem_cons.mpr
        ⟨hfirst, fun step hs => (newer_trans hfirst hlast (hnewer step hs)).2⟩

/-! ### Recovery codes -/

/-- A changed list of recovery codes has a new session version. -/
structure Later (u v : User) : Prop where
  version : u.sessionVersion ≤ v.sessionVersion
  codes : u.sessionVersion = v.sessionVersion → u.mfaRecoveryCodes = v.mfaRecoveryCodes

theorem Later.refl (u : User) : Later u u := ⟨Nat.le_refl _, fun _ => rfl⟩

theorem Later.trans {u v w : User} (huv : Later u v) (hvw : Later v w) : Later u w where
  version := huv.version.trans hvw.version
  codes h := by
    have hu := huv.version
    have hv := hvw.version
    exact (huv.codes (by omega)).trans (hvw.codes (by omega))

theorem exec_later (st : Stmt β) : Later u (exec st ch u).2 := by
  cases st with
  | reserveAttempt nowMs =>
    simp only [exec]
    split
    · exact ⟨Nat.le_refl _, fun _ => rfl⟩
    · exact .refl u
  | lockAccount nowMs =>
    simp only [exec]
    split
    · exact ⟨Nat.le_refl _, fun _ => rfl⟩
    · exact .refl u
  | claimStep step =>
    simp only [exec]
    split
    · exact ⟨Nat.le_refl _, fun _ => rfl⟩
    · exact .refl u
  | consumeCode sessionVersion hash remaining =>
    simp only [exec]
    split
    · exact ⟨Nat.le_succ _, fun h => absurd h (Nat.ne_of_lt (Nat.lt_succ_self _))⟩
    · exact .refl u
  | enable hashes => exact ⟨Nat.le_succ _, fun h => absurd h (Nat.ne_of_lt (Nat.lt_succ_self _))⟩
  | resetAttempts => exact ⟨Nat.le_refl _, fun _ => rfl⟩
  | _ => exact .refl u

/-- A consumed code leaves the list without it; nothing else writes the list. -/
structure Removes (o : Occurrence machine) : Prop where
  consumed : ∀ hash, acceptedHash o = some hash → hash ∈ o.pre.mfaRecoveryCodes ∧
    o.post.mfaRecoveryCodes = o.pre.mfaRecoveryCodes.filter (· ≠ hash)
  kept : acceptedHash o = none → o.post.mfaRecoveryCodes = o.pre.mfaRecoveryCodes

theorem Removes.subset {o : Occurrence machine} (h : Removes o) :
    o.post.mfaRecoveryCodes ⊆ o.pre.mfaRecoveryCodes := by
  cases ha : acceptedHash o with
  | none =>
    rw [h.kept ha]
    exact List.Subset.refl _
  | some hash =>
    rw [(h.consumed hash ha).2]
    exact fun _ hm => List.mem_of_mem_filter hm

/-- Along any chain, a consumed code was stored at the start and is consumed once. -/
theorem hashes_once {u v : User} {tr : List (Occurrence machine)}
    (h : Chained (M := machine) u tr v) (hr : ∀ o ∈ tr, Removes o) :
    (tr.filterMap acceptedHash).Nodup ∧
      ∀ hash ∈ tr.filterMap acceptedHash, hash ∈ u.mfaRecoveryCodes := by
  induction tr generalizing u with
  | nil => simp
  | cons o rest ih =>
    obtain ⟨rfl, hrest⟩ := h
    obtain ⟨hnodup, hmem⟩ := ih hrest fun o' ho' => hr o' (List.mem_cons_of_mem _ ho')
    have ho := hr o List.mem_cons_self
    cases ha : acceptedHash o with
    | none =>
      rw [List.filterMap_cons_none ha]
      exact ⟨hnodup, fun hash hh => ho.subset (hmem hash hh)⟩
    | some hash =>
      obtain ⟨hin, hremoved⟩ := ho.consumed hash ha
      rw [List.filterMap_cons_some ha]
      refine ⟨List.nodup_cons.mpr ⟨fun hagain => ?_, hnodup⟩,
        List.forall_mem_cons.mpr ⟨hin, fun other hh => ho.subset (hmem other hh)⟩⟩
      have hstill := hmem hash hagain
      rw [hremoved] at hstill
      simp at hstill

/-! ### The requests -/

/-- Threads rely on `Later`, and consume a code only from the list that they remove it from. -/
def contract : Contract machine where
  inv := fun _ => True
  rely := fun _ => Later
  assumed := fun _ => True
  guar := Removes
  refl := fun _ => Later.refl
  trans := fun _ _ _ _ => Later.trans

theorem keeps_of {i : ℕ} {st : Stmt β} (h : Removes ⟨i, st, ch, u⟩) :
    contract.Keeps ⟨i, st, ch, u⟩ := ⟨h, trivial, fun _ _ => exec_later st⟩

theorem removes_of_none {i : ℕ} {st : Stmt β} (hc : ∀ u, Stmt.consumes st u = none)
    (hk : ∀ ch u, (exec st ch u).2.mfaRecoveryCodes = u.mfaRecoveryCodes) :
    Removes ⟨i, st, ch, u⟩ where
  consumed hash h := by
    simp only [acceptedHash, hc] at h
    cases h
  kept _ := hk ch u

section Programs

variable {α : Type} {i : ℕ} {Q : α → User → Prop} {s : User} {crypto : Crypto}

/-- A statement that does not write the recovery codes. -/
theorem safe_call {st : Stmt β} {next : β → Prog Stmt α} (hc : ∀ u, Stmt.consumes st u = none)
    (hk : ∀ ch u, (exec st ch u).2.mfaRecoveryCodes = u.mfaRecoveryCodes)
    (hn : ∀ b t, Later s t → (next b).Safe contract i Q t) :
    (Prog.call st next).Safe contract i Q s :=
  fun _ _ hr _ _ _ => ⟨keeps_of (removes_of_none hc hk), hn _ _ (hr.trans (exec_later st))⟩

theorem safe_lock {nowMs : Time} {next : Unit → Prog Stmt α}
    (hn : ∀ t, Later s t → (next ()).Safe contract i Q t) :
    (Prog.call (.lockAccount nowMs) next).Safe contract i Q s := by
  apply safe_call (fun _ => rfl)
  · intro ch u
    simp only [exec]
    split <;> rfl
  · exact fun _ => hn

theorem reserveCodeAttempt_safe (nowMs : Time) :
    (reserveCodeAttempt nowMs).Safe contract i (fun _ t => Later s t) s := by
  apply safe_call (fun _ => rfl)
  · intro ch u
    simp only [exec]
    split <;> rfl
  intro reserved t ht
  cases reserved with
  | none => exact ht
  | some attempt =>
    simp only [Prog.ret_bind]
    split
    · exact safe_lock fun u hu => ht.trans hu
    · exact ht

theorem fail_safe (attempt : ℕ) (nowMs : Time) (reason : FailReason) :
    (fail attempt nowMs reason).Safe contract i (fun _ _ => True) s := by
  unfold fail
  split
  · exact safe_lock fun _ _ => trivial
  · trivial

theorem claimTotpCode_safe (user : User) (code : String) (nowMs : Time) :
    (claimTotpCode crypto user code nowMs).Safe contract i (fun _ _ => True) s := by
  unfold claimTotpCode
  split
  · trivial
  split
  · trivial
  split
  · trivial
  apply safe_call (fun _ => rfl)
  · intro ch u
    simp only [exec]
    split <;> rfl
  intro count t _
  simp only [Prog.ret_bind]
  split <;> trivial

/-- The conditional write only matches while the list is the one that was read. -/
theorem verifyRecoveryCode_safe {user : User} (recoveryCode : String) (attempt : ℕ) (nowMs : Time)
    (hs : Later user s) :
    (verifyRecoveryCode crypto user recoveryCode attempt nowMs).Safe contract i
      (fun _ _ => True) s := by
  unfold verifyRecoveryCode
  split
  · exact fail_safe _ _ _
  rename_i hash hfound
  intro t ch hr _ _ _
  refine ⟨keeps_of ⟨?_, ?_⟩, ?_⟩
  · intro other ha
    simp only [acceptedHash, Stmt.consumes] at ha
    split at ha
    · rename_i hc
      cases ha
      simp only [Bool.and_eq_true, decide_eq_true_eq, List.contains_eq_mem] at hc
      have hcodes := (hs.trans hr).codes hc.1.symm
      refine ⟨hc.2, ?_⟩
      simp [Occurrence.post, exec, hc.1, hc.2, hcodes]
    · cases ha
  · intro ha
    simp only [acceptedHash, Stmt.consumes] at ha
    split at ha
    · cases ha
    · rename_i hc
      simp only [Occurrence.post, exec, hc]
      rfl
  · simp only [Prog.ret_bind]
    split
    · trivial
    · exact fail_safe _ _ _

theorem verifyCode_safe (user : User) (code : String) (attempt : ℕ) (nowMs : Time) :
    (verifyCode crypto user code attempt nowMs).Safe contract i (fun _ _ => True) s := by
  apply Prog.Safe.bind
  apply (claimTotpCode_safe user code nowMs).mono
  intro claim t _
  cases claim with
  | ok => exact safe_call (fun _ => rfl) (fun _ _ => rfl) fun _ _ _ => trivial
  | invalid => exact fail_safe _ _ _
  | replayed => exact fail_safe _ _ _
  | thrown => trivial

theorem verifySecondFactor_safe {user : User} (factor : Factor) (nowMs : Time) (hs : Later user s) :
    (verifySecondFactor crypto user factor nowMs).Safe contract i (fun _ _ => True) s := by
  apply Prog.Safe.bind
  apply (reserveCodeAttempt_safe nowMs).mono
  intro reserved t ht
  cases reserved with
  | none => trivial
  | some attempt =>
    dsimp only
    split
    · exact verifyRecoveryCode_safe _ _ _ (hs.trans ht)
    · exact verifyCode_safe _ _ _ _
    · exact fail_safe _ _ _

theorem Deployed.safe {p : Prog Stmt Unit} (h : Deployed crypto False p) :
    p.Safe contract i (fun _ _ => True) s := by
  cases h with
  | verify factor =>
    apply Prog.Safe.bind
    intro t ch hr _ _ _
    refine ⟨keeps_of (removes_of_none (fun _ => rfl) fun _ _ => rfl), ?_⟩
    apply safe_call (fun _ => rfl) (fun _ _ => rfl)
    intro nowMs v hv
    exact (verifySecondFactor_safe factor nowMs hv).mono fun _ _ _ => trivial
  | claim code =>
    apply Prog.Safe.bind
    apply safe_call (fun _ => rfl) (fun _ _ => rfl)
    intro user t _
    apply safe_call (fun _ => rfl) (fun _ _ => rfl)
    intro nowMs v _
    exact (claimTotpCode_safe user code nowMs).mono fun _ _ _ => trivial
  | confirm h => exact h.elim

end Programs

/-- In every run without an enrollment, accepted time steps increase strictly, a recovery
code is accepted once, and consuming one leaves the stored list without it for good. -/
theorem single_use {crypto : Crypto} {s₀ : User} {tr : List (Occurrence machine)}
    {c : Config machine} (h : Run (Deployed crypto False) s₀ tr c) :
    (tr.filterMap acceptedStep).Pairwise (· < ·) ∧ (tr.filterMap acceptedHash).Nodup ∧
    ∀ o ∈ tr, ∀ hash, acceptedHash o = some hash →
      o.post.mfaRecoveryCodes = o.pre.mfaRecoveryCodes.filter (· ≠ hash) ∧
      hash ∉ c.state.mfaRecoveryCodes := by
  obtain ⟨-, hkeeps⟩ := h.holds (K := contract) (fun p hp i s _ _ => hp.safe) trivial
    (fun _ => trivial) fun _ _ => trivial
  have hremoves : ∀ o ∈ tr, Removes o := fun o ho => (hkeeps o ho).2.guar
  refine ⟨(steps_increase h.chained).1, (hashes_once h.chained hremoves).1, ?_⟩
  intro o ho hash ha
  have hpost := ((hremoves o ho).consumed hash ha).2
  refine ⟨hpost, fun hstill => ?_⟩
  have hkept := h.preserves (fun u v => v.mfaRecoveryCodes ⊆ u.mfaRecoveryCodes)
    (fun _ => List.Subset.refl _) (fun _ _ _ huv hvw => List.Subset.trans hvw huv)
    fun o ho => (hremoves o ho).subset
  have hin := hkept.2 o ho hstill
  rw [hpost] at hin
  simp at hin

/-- Two requests with one recovery code and two with one password, all read first. -/
theorem single_use_sample : ∃ (tr : List (Occurrence machine)) (c : Config machine),
    Run (Deployed sampleCrypto False) sampleUser tr c ∧
    tr.filterMap acceptedHash = [sampleHash] ∧ tr.filterMap acceptedStep = [10] ∧
    ∀ o ∈ tr, ∀ hash, acceptedHash o = some hash →
      o.post.mfaRecoveryCodes = o.pre.mfaRecoveryCodes.filter (· ≠ hash) ∧
      hash ∉ c.state.mfaRecoveryCodes := by
  have hrun : Run (M := machine) (Deployed sampleCrypto False) sampleUser _ _ :=
    Run.of_schedule (M := machine)
      (samplePrograms [sampleRecovery, sampleRecovery, sampleCode, sampleCode])
      samplePrograms_deployed
      ([0, 1, 2, 3, 0, 1, 2, 3, 0, 1, 2, 3, 0, 1, 2, 3, 0, 1, 2, 3].map (·, sampleChoice 300000))
  exact ⟨_, _, hrun, by decide +kernel, by decide +kernel, (single_use hrun).2.2⟩

end Ashbi.Mfa
