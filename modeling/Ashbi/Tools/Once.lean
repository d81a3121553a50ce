import Ashbi.Interleaving.History
import Ashbi.Tools.Steps

/-! Actions run at most once and their receipts are final. -/

namespace Ashbi.Tools

open Checked Interleaving

/-- The action that an occurrence claims for a delivery. -/
def claimed (o : Occurrence machine) : List Id := (o.stmt.claims o.choice o.pre).toList

/-- The receipts with the claims of every thread. -/
abbrev Claimants := State × (ℕ → List Id)

/-- Every action is claimed by one thread at most, and then no longer pending. -/
structure Inv (s : Claimants) : Prop where
  sound : Sound s.1
  past : ∀ i, ∀ id ∈ s.2 i, ∃ row, s.1.action id = some row ∧ row.status ≠ .pending
  owner : ∀ i j id, id ∈ s.2 i → id ∈ s.2 j → i = j

/-- What thread `i` finds when the others have moved. -/
structure Rely (i : ℕ) (s t : Claimants) : Prop where
  mine : t.2 i = s.2 i
  onward : Onward s.1 t.1
  untouched : ∀ id ∈ s.2 i, Untouched id s.1 t.1

variable {reg : Registry} {i : ℕ} {s t u : Claimants} {id : Id} {β : Type}

theorem Rely.refl (i : ℕ) (s : Claimants) : Rely i s s := ⟨rfl, .refl _, fun _ _ => ⟨rfl, rfl⟩⟩

theorem Rely.trans (h : Rely i s t) (h' : Rely i t u) : Rely i s u where
  mine := h'.mine.trans h.mine
  onward := h.onward.trans h'.onward
  untouched id hid := by
    have hfirst := h.untouched id hid
    have hsecond := h'.untouched id (h.mine ▸ hid)
    exact ⟨hsecond.1.trans hfirst.1, hsecond.2.trans hfirst.2⟩

def contract (reg : Registry) : Contract (machine.logged claimed) where
  inv := Inv
  rely := Rely
  assumed := fun _ => True
  guar := fun o => Stmt.Promised reg o.stmt (o.pre.2 o.thread) o.pre.1
  refl := Rely.refl
  trans := fun _ _ _ _ => Rely.trans

/-- The state behind a statement of thread `i`. -/
def after (i : ℕ) (st : Stmt β) (ch : Choice) (s : Claimants) : Claimants :=
  ((exec st ch s.1).2, Function.update s.2 i (s.2 i ++ (st.claims ch s.1).toList))

theorem Step.past {s t : State} {mine : List Id} {claimed : Option Id} {row : Action}
    (h : Step mine s claimed t) (hrow : s.action id = some row) (hst : row.status ≠ .pending) :
    ∃ row', t.action id = some row' ∧ row'.status ≠ .pending := by
  have hput : ∀ {old new : Action}, s.action new.id = some old → new.status ≠ .pending →
      ∃ row', (s.put new).action id = some row' ∧ row'.status ≠ .pending := by
    intro old new hold hnew
    rw [action_put hold]
    by_cases hid : id = new.id
    · exact ⟨new, if_pos hid, hnew⟩
    · exact ⟨row, by rw [if_neg hid, hrow], hst⟩
  have hdecided : ∀ {new : Action}, new.status.terminal = true → new.status ≠ .pending := by
    rintro new hterminal hp
    simp [hp, Status.terminal] at hterminal
  cases h with
  | quiet => exact ⟨row, hrow, hst⟩
  | create other hid _ _ =>
    refine ⟨row, ?_, hst⟩
    rw [action_append hid, if_neg, hrow]
    rintro rfl
    rw [hid] at hrow
    cases hrow
  | decide old new hold _ _ hterminal _ => exact hput hold (hdecided hterminal)
  | claim old new hold _ _ hnew => exact hput hold (by simp [hnew])
  | execute old new hold _ _ hnew => exact hput hold (by simp [hnew])
  | deliver => exact ⟨row, hrow, hst⟩
  | complete old new _ hold _ _ hterminal _ => exact hput hold (hdecided hterminal)

/-- A claimed action was pending before and is executing behind it. -/
theorem Step.claimed_row {s t : State} {mine : List Id} {claimed : Option Id}
    (h : Step mine s claimed t) (hid : id ∈ claimed) :
    (∃ row, s.action id = some row ∧ row.status = .pending) ∧ Executing t id ∧
      t.deliveries = s.deliveries := by
  cases h with
  | claim old new hold _ hpending hnew =>
    obtain rfl := Option.some.inj hid
    exact ⟨⟨old, hold, hpending⟩, ⟨new, by rw [action_put hold, if_pos rfl], hnew⟩, rfl⟩
  | _ => cases hid

theorem Inv.step {st : Stmt β} {ch : Choice} (h : Inv s)
    (hstep : Step (s.2 i) s.1 (st.claims ch s.1) (exec st ch s.1).2) : Inv (after i st ch s) := by
  have hnew : ∀ id ∈ st.claims ch s.1, ∀ j, id ∉ s.2 j := by
    intro id hid j hmem
    obtain ⟨row, hrow, hpast⟩ := h.past j id hmem
    obtain ⟨⟨row', hrow', hpending⟩, -⟩ := hstep.claimed_row hid
    exact hpast (Option.some.inj (hrow'.symm.trans hrow) ▸ hpending)
  have hmem : ∀ j id, id ∈ (after i st ch s).2 j ↔
      id ∈ s.2 j ∨ (j = i ∧ id ∈ st.claims ch s.1) := by
    intro j id
    by_cases hj : j = i
    · subst hj
      simp [after]
    · simp [after, hj]
  refine ⟨hstep.sound h.sound, ?_, ?_⟩
  · intro j id hid
    rcases (hmem j id).mp hid with hid | ⟨-, hid⟩
    · obtain ⟨row, hrow, hpast⟩ := h.past j id hid
      exact hstep.past hrow hpast
    · obtain ⟨-, ⟨row, hrow, hst⟩, -⟩ := hstep.claimed_row hid
      exact ⟨row, hrow, by simp [hst]⟩
  · intro j k id hj hk
    rcases (hmem j id).mp hj with hold | ⟨hji, hclaimed⟩
    · rcases (hmem k id).mp hk with hold' | ⟨-, hclaimed⟩
      · exact h.owner j k id hold hold'
      · exact absurd hold (hnew id hclaimed j)
    · rcases (hmem k id).mp hk with hold | ⟨hki, -⟩
      · exact absurd hold (hnew id hclaimed k)
      · exact hji.trans hki.symm

theorem keeps_of {st : Stmt β} {ch : Choice} (h : Inv s) (hp : st.Promised reg (s.2 i) s.1) :
    (contract reg).Keeps ⟨i, st, ch, s⟩ := by
  have hstep := exec_step st ch hp
  refine ⟨hp, h.step hstep, fun j hj => ?_⟩
  refine ⟨Function.update_of_ne hj _ _, hstep.onward, fun id hid => ?_⟩
  obtain ⟨row, hrow, hpast⟩ := h.past j id hid
  exact hstep.untouched hrow hpast fun hmine => hj (h.owner j i id hid hmine)

/-! ### Statements of a program -/

/-- A statement that only reads. -/
def Stmt.quiet {β : Type} : Stmt β → Bool
  | .now | .assertAiAllowed | .authority _ _ _ | .hook _ | .emit _ | .findKey _ _ | .find _ _ =>
    true
  | _ => false

theorem quiet_after {st : Stmt β} (hq : st.quiet = true) (ch : Choice) : after i st ch s = s := by
  cases st with
  | create _ _ | update _ _ _ | execute _ | claimTarget _ | deliver _ | reject _ _ _ _
  | answer _ _ _ => cases hq
  | _ => simp [after, exec, Stmt.claims, Stmt.claim?]

theorem quiet_promised {st : Stmt β} (hq : st.quiet = true) (mine : List Id) (s : State) :
    st.Promised reg mine s := by
  cases st with
  | create _ _ | update _ _ _ | execute _ | claimTarget _ | deliver _ | reject _ _ _ _
  | answer _ _ _ => cases hq
  | _ => trivial

variable {α : Type}

/-- A promised statement: the program goes on from whatever it comes to. -/
theorem safe_call {st : Stmt β} {next : β → Prog Stmt α} {Q : α → Claimants → Prop}
    (h : ∀ t ch, Rely i s t → Inv t → st.Promised reg (t.2 i) t.1 ∧
      (next (exec st ch t.1).1).Safe (contract reg) i Q (after i st ch t)) :
    (Prog.call st next).Safe (contract reg) i Q s :=
  fun t ch hr hinv _ _ => ⟨keeps_of hinv (h t ch hr hinv).1, (h t ch hr hinv).2⟩

/-- A statement that only reads, whatever it comes to. -/
theorem quiet_run {st : Stmt (Except Failure α)} {R : Except Failure α → Claimants → Prop}
    (hq : st.quiet = true) (h : ∀ ch t, Rely i s t → R (exec st ch t.1).1 t) :
    (Throws.stmt st).run.Safe (contract reg) i R s := by
  apply safe_call
  intro t ch hr _
  refine ⟨quiet_promised hq _ _, ?_⟩
  rw [quiet_after hq]
  exact h ch t hr

theorem quiet_safe {st : Stmt (Except Failure α)} (hq : st.quiet = true) :
    (Throws.stmt st).Safe (contract reg) i (fun _ t => Rely i s t) s :=
  quiet_run hq fun _ _ hr _ _ => hr

theorem read_safe {st : Stmt α} (hq : st.quiet = true) :
    (Throws.read st : Exec α).Safe (contract reg) i (fun _ t => Rely i s t) s := by
  apply safe_call
  intro t ch hr _
  refine ⟨quiet_promised hq _ _, ?_⟩
  rw [quiet_after hq]
  exact fun _ _ => hr

theorem deny_safe {failure : Failure} {Q : α → Claimants → Prop} :
    (deny failure : Exec α).Safe (contract reg) i Q s := by
  apply Throws.Safe.bind
  exact (quiet_safe rfl).mono fun _ _ _ => Throws.safe_throw

theorem denyIf_safe {wrong : Bool} {failure : Failure} :
    (denyIf wrong failure).Safe (contract reg) i (fun _ t => wrong = false ∧ Rely i s t) s := by
  unfold denyIf
  cases wrong with
  | true => exact deny_safe
  | false => exact Throws.safe_pure ⟨rfl, .refl _ _⟩

theorem throwIf_safe {wrong : Bool} {failure : Failure} :
    (throwIf wrong failure).Safe (contract reg) i (fun _ t => Rely i s t) s := by
  unfold throwIf
  cases wrong with
  | true => exact Throws.safe_throw
  | false => exact Throws.safe_pure (.refl _ _)

theorem assertAiAllowed_safe :
    assertAiAllowed.Safe (contract reg) i (fun _ t => Rely i s t) s := by
  apply Throws.safe_tryCatch
  apply quiet_run rfl
  intro ch t hr
  split
  · exact hr
  · exact deny_safe

theorem denyToolError_safe {failure : Failure} {Q : α → Claimants → Prop} :
    (denyToolError failure : Exec α).Safe (contract reg) i Q s := by
  unfold denyToolError
  split
  · exact deny_safe
  · exact Throws.safe_throw

theorem guarded_safe {hook : Hook} :
    (guarded hook).Safe (contract reg) i (fun _ t => Rely i s t) s := by
  apply Throws.safe_tryCatch
  apply quiet_run rfl
  intro ch t hr
  split
  · exact hr
  · exact denyToolError_safe

/-! ### Rows that were read -/

/-- The action is stored, whatever has become of it. -/
def Stored (action : Action) (s : Claimants) : Prop :=
  ∃ row, s.1.action action.id = some row ∧ row.toRequest = action.toRequest

theorem Stored.rely {action : Action} (h : Stored action s) (hr : Rely i s t) :
    Stored action t := by
  obtain ⟨row, hrow, hsame⟩ := h
  obtain ⟨row', hrow', hsame'⟩ := hr.onward.kept _ _ hrow
  exact ⟨row', hrow', hsame'.trans hsame⟩

/-- The action is decided, or this thread has claimed it. -/
def Held (i : ℕ) (id : Id) (s : Claimants) : Prop := Final s.1 id ∨ id ∈ s.2 i

theorem Held.rely (h : Held i id s) (hr : Rely i s t) : Held i id t := by
  rcases h with ⟨row, hrow, hst⟩ | hmine
  · exact .inl ⟨row, hr.onward.final _ _ hrow hst, hst⟩
  · exact .inr (hr.mine ▸ hmine)

theorem load_safe {ctx : Ctx} {id : Id} {scope : Option Id} :
    (load ctx id scope).Safe (contract reg) i (fun a t => Rely i s t ∧ Stored a t) s := by
  apply Throws.Safe.bind
  apply quiet_run rfl
  intro ch t hr found hfound
  cases found with
  | none => exact Throws.safe_throw
  | some record =>
    have hstored : Stored record t := by
      simp only [exec, thrown] at hfound
      cases hthrown : ch.thrown with
      | some failure => simp [hthrown, Except.map] at hfound
      | none =>
        simp only [hthrown, Except.map, Except.ok.injEq, Option.filter_eq_some_iff] at hfound
        exact ⟨record, by rw [action_id hfound.1, hfound.1], rfl⟩
    apply Throws.Safe.bind
    apply (quiet_safe rfl).mono
    intro _ u hu
    exact Throws.safe_pure ⟨hr.trans hu, hstored.rely hu⟩

/-! ### Approvals -/

theorem transition_run {id : Id} {expected : Status} {write : Write}
    (hp : ∀ t, Rely i s t → Inv t → (Stmt.update id expected write).Promised reg (t.2 i) t.1) :
    (transition id expected write).run.Safe (contract reg) i (fun _ t => t.2 i = s.2 i) s := by
  unfold transition
  rw [Throws.run_bind]
  apply safe_call
  intro t ch hr hinv
  refine ⟨hp t hr hinv, ?_⟩
  have hmine : (after i (.update id expected write) ch t).2 i = s.2 i := by
    rw [← hr.mine]
    simp [after, Stmt.claims, Stmt.claim?]
  cases (exec (.update id expected write) ch t.1).1 with
  | ok action => exact hmine
  | error failure => cases failure <;> exact hmine

theorem transition_safe {id : Id} {expected : Status} {write : Write}
    (hp : ∀ t, Rely i s t → Inv t → (Stmt.update id expected write).Promised reg (t.2 i) t.1) :
    (transition id expected write).Safe (contract reg) i (fun _ _ => True) s :=
  Prog.Safe.mono (transition_run hp) fun _ _ _ _ _ => trivial

theorem throwUnavailable_safe {claim : Claim} {failure : Failure} :
    (throwUnavailable claim failure).Safe (contract reg) i (fun _ _ => True) s := by
  unfold throwUnavailable
  split
  · exact Throws.safe_throw
  · apply Throws.Safe.bind
    exact (quiet_safe rfl).mono fun _ _ _ => Throws.safe_throw

theorem approvedEvent_safe {emitted : Bool} :
    (approvedEvent emitted).Safe (contract reg) i (fun _ t => Rely i s t) s := by
  unfold approvedEvent
  split
  · exact Throws.safe_pure (.refl _ _)
  · exact quiet_safe rfl

theorem approvalFailed_safe {claim : Claim} {progress : Progress} {failure : Failure}
    (h : progress.claimCommitted = true → Held i claim.initial.id s) :
    (approvalFailed claim progress failure).Safe (contract reg) i (fun _ _ => True) s := by
  unfold approvalFailed
  split
  · exact Throws.safe_throw
  split
  · exact throwUnavailable_safe
  dsimp only
  apply Throws.Safe.bind
  apply approvedEvent_safe.mono
  intro _ t ht
  apply Throws.Safe.bind
  apply (transition_safe ?_).mono
  · intro failed u _
    apply Throws.Safe.bind
    exact (quiet_safe rfl).mono fun _ _ _ => Throws.safe_throw
  · intro u hu _
    cases hcommitted : progress.claimCommitted with
    | false => trivial
    | true => exact ((h hcommitted).rely ht).rely hu

theorem approvalDone_safe {completed : Action} :
    (approvalDone completed).Safe (contract reg) i (fun _ _ => True) s := by
  apply Throws.Safe.bind
  exact (quiet_safe rfl).mono fun _ _ _ => Throws.safe_pure trivial

/-- An approver who may approve the action that was loaded. -/
structure Ready (reg : Registry) (claim : Claim) (s : Claimants) : Prop where
  stored : Stored claim.initial s
  registered : reg.get claim.initial.action = some claim.tool
  allowed : approverAllowed claim.ctx claim.tool claim.initial.toRequest = true

theorem Ready.rely {claim : Claim} (h : Ready reg claim s) (hr : Rely i s t) : Ready reg claim t :=
  ⟨h.stored.rely hr, h.registered, h.allowed⟩

theorem Ready.approves {claim : Claim} (h : Ready reg claim s) : claim.Approves reg s.1 := by
  intro row hrow
  obtain ⟨row', hrow', hsame⟩ := h.stored
  obtain rfl := Option.some.inj (hrow.symm.trans hrow')
  have haction : row.action = claim.initial.action := by rw [hsame]
  exact ⟨haction ▸ h.registered, hsame ▸ h.allowed⟩

theorem execute_final {claim : Claim} {ch : Choice} {completed : Action}
    (h : (exec (.execute claim) ch s.1).1 = .ok completed) :
    Final (after i (.execute claim) ch s).1 claim.initial.id := by
  obtain ⟨s', hbody, hpost⟩ := commit_ok h
  simp only [Claim.execute, bind_ok, pure_ok, Prod.mk.injEq] at hbody
  obtain ⟨row, hclaim, _, -, _, -, rfl, rfl⟩ := hbody
  obtain ⟨hrow, -⟩ := claim_ok hclaim
  have hrowid := action_id hrow
  have hid : (claim.receipt row ch.now).id = claim.initial.id := hrowid
  have hmoved := action_put (hid ▸ hrow) claim.initial.id
  rw [if_pos hid.symm] at hmoved
  refine ⟨claim.receipt row ch.now, ?_, rfl⟩
  simp only [after, exec, hpost]
  exact hmoved

theorem executeTransaction_safe {claim : Claim} (h : Ready reg claim s) :
    (executeTransaction claim).Safe (contract reg) i (fun _ _ => True) s := by
  apply Throws.Safe.bind
  apply safe_call
  intro t ch hr _
  refine ⟨(h.rely hr).approves, fun r hresult => ?_⟩
  cases r with
  | error failure => exact approvalFailed_safe (by simp)
  | ok completed =>
    have hheld : Held i claim.initial.id (after i (.execute claim) ch t) :=
      .inl (execute_final (Except.ok.inj hresult))
    apply Throws.Safe.bind
    apply (read_safe rfl).mono
    intro emitted u hu
    cases emitted with
    | error failure => exact approvalFailed_safe fun _ => hheld.rely hu
    | ok _ => exact approvalDone_safe

/-- This thread has claimed the action and made these deliveries of it. -/
structure Claiming (i : ℕ) (id : Id) (deliveries : List (Id × Bool)) (s : Claimants) : Prop where
  mine : id ∈ s.2 i
  executing : Executing s.1 id
  delivered : s.1.delivered id = deliveries

theorem Claiming.rely {deliveries : List (Id × Bool)} (h : Claiming i id deliveries s)
    (hr : Rely i s t) : Claiming i id deliveries t := by
  obtain ⟨hrow, hdelivered⟩ := hr.untouched id h.mine
  obtain ⟨row, hs, hst⟩ := h.executing
  exact ⟨hr.mine ▸ h.mine, ⟨row, hrow.trans hs, hst⟩, hdelivered.trans h.delivered⟩

theorem Claiming.held {deliveries : List (Id × Bool)} (h : Claiming i id deliveries s) :
    Held i id s := .inr h.mine

theorem claimTarget_claiming {claim : Claim} {ch : Choice} (hs : Inv s)
    (hp : claim.Approves reg s.1) (h : (exec (.claimTarget claim) ch s.1).1 = .ok ()) :
    Claiming i claim.initial.id [] (after i (.claimTarget claim) ch s) := by
  have hclaims : (Stmt.claimTarget claim).claims ch s.1 = some claim.initial.id := by
    simp only [exec] at h
    simp only [Stmt.claims, Stmt.claim?, Option.bind_some]
    cases hbody : claim.claimTarget s.1 ch with
    | error failure => simp [hbody, commit] at h
    | ok r =>
      obtain ⟨_, s'⟩ := r
      cases hfault : ch.fault with
      | none => rfl
      | before failure => simp [hbody, hfault, commit] at h
      | after failure => rfl
  have hstep := @exec_step reg s.1 (s.2 i) _ (.claimTarget claim) ch hp
  obtain ⟨⟨row, hrow, hpending⟩, hexecuting, hdeliveries⟩ := hstep.claimed_row hclaims
  refine ⟨?_, hexecuting, ?_⟩
  · simp [after, hclaims]
  · have hnone := delivered_nil (hs.sound.delivery_free hrow hpending)
    unfold State.delivered at hnone ⊢
    rw [show (after i (.claimTarget claim) ch s).1.deliveries = s.1.deliveries from hdeliveries]
    exact hnone

theorem deliver_claiming (ch : Choice) (h : Claiming i id [] s) :
    Claiming i id [(id, ch.thrown.isNone)] (after i (.deliver id) ch s) := by
  refine ⟨?_, h.executing, ?_⟩
  · simpa [after, Stmt.claims, Stmt.claim?] using h.mine
  · have hbefore := h.delivered
    unfold State.delivered at hbefore ⊢
    simp [after, exec, List.filter_append, hbefore]

theorem Claiming.complete (h : Claiming i id [(id, true)] s) (reg : Registry) (hs : Inv s)
    (executedAt : Time) :
    (Stmt.update id .executing (.succeeded executedAt)).Promised reg (s.2 i) s.1 := by
  obtain ⟨row, hrow, hst⟩ := h.executing
  have hfree := hs.sound.effect_free hrow (by simp [hst])
  refine .inr ⟨h.mine, ?_⟩
  rw [executions_eq, h.delivered, List.count_eq_zero.mpr hfree]
  simp

theorem executeExternal_safe {claim : Claim} (h : Ready reg claim s) :
    (executeExternal claim).Safe (contract reg) i (fun _ _ => True) s := by
  apply Throws.Safe.bind
  apply safe_call
  intro t ch hr hinv
  have hp := (h.rely hr).approves
  refine ⟨hp, fun r hresult => ?_⟩
  cases r with
  | error failure => exact approvalFailed_safe (by simp)
  | ok _ =>
    have hclaiming := claimTarget_claiming (i := i) hinv hp (Except.ok.inj hresult)
    apply Throws.Safe.bind
    apply (read_safe rfl).mono
    intro emitted u hu
    replace hclaiming := hclaiming.rely hu
    cases emitted with
    | error failure => exact approvalFailed_safe fun _ => hclaiming.held
    | ok _ =>
      apply Throws.Safe.bind
      apply (read_safe rfl).mono
      intro attempted v hv
      replace hclaiming := hclaiming.rely hv
      cases attempted with
      | error failure => exact approvalFailed_safe fun _ => hclaiming.held
      | ok _ =>
        apply Throws.Safe.bind
        apply safe_call
        intro w ch' hw _
        replace hclaiming := hclaiming.rely hw
        have hnew : claim.initial.id ∉ w.1.deliveries.map (·.1) := by
          intro hmem
          obtain ⟨delivery, hin, hid⟩ := List.mem_map.mp hmem
          have hnone := hclaiming.delivered
          simp only [State.delivered, List.filter_eq_nil_iff, decide_eq_true_eq] at hnone
          exact hnone delivery hin hid
        refine ⟨⟨hclaiming.mine, hclaiming.executing, hnew⟩, fun r hback => ?_⟩
        have hdelivered := deliver_claiming ch' hclaiming
        cases r with
        | error failure => exact approvalFailed_safe fun _ => hdelivered.held
        | ok _ =>
          have htrue : ch'.thrown.isNone = true := by
            have hnone := Except.ok.inj hback
            simp only [exec, thrown] at hnone
            cases hthrown : ch'.thrown with
            | none => rfl
            | some failure => simp [hthrown] at hnone
          rw [htrue] at hdelivered
          apply Throws.Safe.bind
          apply (read_safe rfl).mono
          intro executedAt x hx
          replace hdelivered := hdelivered.rely hx
          apply Throws.Safe.bind
          apply Throws.safe_caught
          have hpromised := fun y (hy : Rely i x y) hinv =>
            (hdelivered.rely hy).complete reg hinv executedAt
          apply (transition_run hpromised).mono
          intro completed y hy
          cases completed with
          | error failure =>
            apply approvalFailed_safe
            intro _
            exact .inr (hy ▸ hdelivered.mine)
          | ok action => exact approvalDone_safe

theorem expire_safe {initial : Action} :
    (expire initial).Safe (contract reg) i (fun _ _ => True) s := by
  have hpromised : ∀ t, Rely i s t → Inv t →
      (Stmt.update initial.id .pending .expired).Promised reg (t.2 i) t.1 := fun _ _ _ => trivial
  apply Throws.Safe.bind
  apply (transition_safe hpromised).mono
  intro expired t _
  apply Throws.Safe.bind
  exact (quiet_safe rfl).mono fun _ _ _ => Throws.safe_throw

theorem approvePending_safe {ctx : Ctx} {approval : Approval} {tool : Tool} {initial : Action}
    (hstored : Stored initial s) (htool : reg.get initial.action = some tool) :
    (approvePending ctx approval tool initial).Safe (contract reg) i (fun _ _ => True) s := by
  apply Throws.Safe.bind
  apply denyIf_safe.mono
  rintro _ t ⟨-, ht⟩
  apply Throws.Safe.bind
  apply denyIf_safe.mono
  rintro _ u ⟨hallowed, hu⟩
  apply Throws.Safe.bind
  apply assertAiAllowed_safe.mono
  intro _ v hv
  apply Throws.Safe.bind
  apply (read_safe rfl).mono
  intro checkedAt w hw
  split
  · exact expire_safe
  apply Throws.Safe.bind
  apply (read_safe rfl).mono
  intro approvedAt x hx
  have hready : Ready reg ⟨ctx, tool, initial, ownerWhere ctx approval.ownerOnly,
      decisionOf ctx approval initial approvedAt none⟩ x :=
    ⟨((((hstored.rely ht).rely hu).rely hv).rely hw).rely hx, htool, by simpa using hallowed⟩
  dsimp only
  split
  · exact executeTransaction_safe hready
  · exact executeExternal_safe hready

theorem approve_safe {ctx : Ctx} {id : Id} {asked : Approval} :
    (approve reg ctx id asked).Safe (contract reg) i (fun _ _ => True) s := by
  apply Throws.Safe.bind
  apply load_safe.mono
  rintro initial t ⟨ht, hstored⟩
  split
  · exact Throws.safe_pure trivial
  split
  · exact Throws.safe_throw
  split
  · exact Throws.safe_throw
  · rename_i tool htool
    exact approvePending_safe hstored (Option.filter_eq_some_iff.mp htool).1

theorem reject_safe {ctx : Ctx} {id : Id} {asked : Approval} {reason : String} :
    (reject ctx id asked reason).Safe (contract reg) i (fun _ _ => True) s := by
  apply Throws.Safe.bind
  apply load_safe.mono
  intro initial t _
  apply Throws.Safe.bind
  apply throwIf_safe.mono
  intro _ u _
  apply Throws.Safe.bind
  apply (read_safe rfl).mono
  intro rejectedAt v _
  apply Throws.Safe.bind
  apply safe_call
  intro w ch _ _
  refine ⟨trivial, fun count _ => ?_⟩
  apply Throws.Safe.bind
  apply throwIf_safe.mono
  intro _ x _
  apply Throws.Safe.bind
  apply (quiet_safe rfl).mono
  intro _ y _
  exact load_safe.mono fun _ _ _ => trivial

/-! ### Calls -/

theorem authorityFor_safe {ctx : Ctx} {tool : Tool} :
    (authorityFor ctx tool).Safe (contract reg) i (fun _ t => Rely i s t) s := by
  unfold authorityFor
  split
  · exact quiet_safe rfl
  · exact Throws.safe_pure (.refl _ _)

/-- A stored action of the caller's key. -/
structure Found (ctx : Ctx) (key : String) (action : Action) (s : Claimants) : Prop where
  stored : Stored action s
  user : action.userId = ctx.userId
  key : action.idempotencyKey = key

theorem Found.rely {ctx : Ctx} {key : String} {action : Action} (h : Found ctx key action s)
    (hr : Rely i s t) : Found ctx key action t := ⟨h.stored.rely hr, h.user, h.key⟩

theorem findKey_safe {ctx : Ctx} {key : String} {f : Option Action → Exec α}
    {Q : α → Claimants → Prop} (hnone : ∀ t, (f none).Safe (contract reg) i Q t)
    (hsome : ∀ action t, Found ctx key action t → (f (some action)).Safe (contract reg) i Q t) :
    (Throws.stmt (.findKey ctx.userId key) >>= f).Safe (contract reg) i Q s := by
  apply Throws.Safe.bind
  apply safe_call
  intro t ch hr hinv
  refine ⟨trivial, ?_⟩
  rw [quiet_after rfl]
  intro found hfound
  cases found with
  | none => exact hnone t
  | some action =>
    apply hsome
    simp only [exec, thrown] at hfound
    cases hthrown : ch.thrown with
    | some failure => simp [hthrown, Except.map] at hfound
    | none =>
      simp only [hthrown, Except.map, Except.ok.injEq] at hfound
      have hmem := List.mem_of_find?_eq_some hfound
      have hkey := List.find?_some hfound
      simp only [Bool.and_eq_true, decide_eq_true_eq] at hkey
      exact ⟨⟨action, action_of_mem hinv.sound.ids hmem, rfl⟩, hkey.1, hkey.2⟩

section Invoke

variable {ctx : Ctx} {call : Call} {tool : Tool} {input key : String}

/-- What a call that may answer with a pending action is made of. -/
structure Asked (reg : Registry) (call : Call) (tool : Tool) (input key : String) : Prop where
  registered : reg.get call.tool = some tool
  parsed : tool.safeParse call.input = some input
  key : call.idempotencyKey = some key

theorem Asked.honest (h : Asked reg call tool input key) {action : Action} {idempotent : Bool}
    (hfound : Found ctx key action s) (hname : action.action = tool.name)
    (hhash : action.inputHash = reg.toolInputHash tool.name input) :
    Honest reg ctx call (.ok (.pending action idempotent)) s.1 :=
  ⟨tool, h.registered, hfound.user, by rw [h.key, hfound.key], hname, ⟨input, h.parsed, hhash⟩,
    hfound.stored⟩

/-- Another action or another input under the key is refused. -/
theorem replay_safe (h : Asked reg call tool input key) {action : Action}
    (hfound : Found ctx key action s) :
    (if action.action ≠ tool.name || action.inputHash ≠ reg.toolInputHash tool.name input then
      deny idempotencyConflict else pure (.pending action true) : Exec Invoked).Safe
        (contract reg) i
      (fun r t => Honest reg ctx call (.ok r) t.1) s := by
  split
  · exact deny_safe
  · rename_i hsame
    simp only [ne_eq, Bool.or_eq_true, decide_eq_true_eq, not_or, not_not] at hsame
    exact Throws.safe_pure (h.honest hfound hsame.1 hsame.2)

theorem answerWinner_safe (h : Asked reg call tool input key) :
    (answerWinner ctx tool key (reg.toolInputHash tool.name input)).Safe (contract reg) i
      (fun r t => Honest reg ctx call (.ok r) t.1) s := by
  apply findKey_safe
  · exact fun _ => deny_safe
  intro winner t hfound
  dsimp only
  split
  · exact deny_safe
  · rename_i hsame
    simp only [ne_eq, Bool.or_eq_true, decide_eq_true_eq, not_or, not_not] at hsame
    apply Throws.Safe.bind
    apply (quiet_safe rfl).mono
    intro _ u hu
    exact Throws.safe_pure (h.honest (hfound.rely hu) hsame.1 hsame.2)

theorem createAction_found {request : Request} {ch : Choice} {record : Action}
    (h : (exec (.create ctx request) ch s.1).1 = .ok record) :
    Stored record (after i (.create ctx request) ch s) ∧ record.toRequest = request := by
  obtain ⟨s', hbody, hpost⟩ := commit_ok h
  simp only [createAction, bind_ok, refuse_ok, pure_ok, Bool.or_eq_false_iff,
    Option.isSome_eq_false_iff, Option.isNone_iff_eq_none, Prod.mk.injEq] at hbody
  obtain ⟨_, -, _, ⟨hid, -⟩, rfl, rfl⟩ := hbody
  refine ⟨⟨request.toAction ch.newId, ?_, rfl⟩, rfl⟩
  simp only [after, exec, hpost]
  have happended := @action_append s.1 (request.toAction ch.newId) hid ch.newId
  exact happended.trans (if_pos rfl)

theorem prepare_safe (h : Asked reg call tool input key) {source : Source} :
    (prepare ctx tool input key (reg.toolInputHash tool.name input) source).Safe (contract reg) i
      (fun r t => Honest reg ctx call (.ok r) t.1) s := by
  apply Throws.Safe.bind
  apply guarded_safe.mono
  intro _ t _
  apply Throws.Safe.bind
  apply guarded_safe.mono
  intro _ u _
  apply Throws.Safe.bind
  apply (read_safe rfl).mono
  intro preparedAt v _
  apply Throws.Safe.bind
  apply safe_call
  intro w ch _ _
  refine ⟨trivial, fun r hresult => ?_⟩
  have hresult := Except.ok.inj hresult
  cases r with
  | ok record =>
    obtain ⟨hstored, hrequest⟩ := createAction_found (i := i) hresult
    apply Throws.Safe.bind
    apply (quiet_safe rfl).mono
    intro _ x hx
    apply Throws.safe_pure
    exact h.honest ⟨hstored.rely hx, by rw [hrequest], by rw [hrequest]⟩ (by rw [hrequest])
      (by rw [hrequest])
  | error failure =>
    cases failure with
    | uniqueViolation => exact answerWinner_safe h
    | _ => exact Throws.safe_throw

theorem invokeAction_safe (hregistered : reg.get call.tool = some tool)
    (hparsed : tool.safeParse call.input = some input) :
    (invokeAction reg ctx tool input call).Safe (contract reg) i
      (fun r t => Honest reg ctx call (.ok r) t.1) s := by
  unfold invokeAction
  split
  · exact deny_safe
  · rename_i key hkey
    have hasked : Asked reg call tool input key :=
      ⟨hregistered, hparsed, (Option.filter_eq_some_iff.mp hkey).1⟩
    apply findKey_safe
    · exact fun _ => prepare_safe hasked
    intro existing t hfound
    apply Throws.Safe.bind
    apply (quiet_safe rfl).mono
    intro _ u hu
    exact replay_safe hasked (hfound.rely hu)

theorem runTool_safe (hregistered : reg.get call.tool = some tool)
    (hclass : tool.toolClass.needsApproval = false) :
    (runTool tool).Safe (contract reg) i (fun r t => Honest reg ctx call (.ok r) t.1) s := by
  apply Throws.Safe.bind
  apply guarded_safe.mono
  intro _ t _
  apply Throws.Safe.bind
  apply (read_safe rfl).mono
  intro ran u _
  cases ran with
  | ok _ => exact Throws.safe_pure ⟨tool, hregistered, hclass⟩
  | error failure =>
    dsimp only
    split
    · exact deny_safe
    · exact Throws.safe_throw

theorem invoke_safe :
    (invoke reg ctx call).Safe (contract reg) i (fun r t => Honest reg ctx call (.ok r) t.1) s := by
  unfold invoke
  split
  · exact deny_safe
  rename_i tool htool
  split
  · exact deny_safe
  split
  · exact deny_safe
  rename_i input hparsed
  apply Throws.Safe.bind
  apply authorityFor_safe.mono
  intro _ t _
  apply Throws.Safe.bind
  apply denyIf_safe.mono
  rintro _ u -
  apply Throws.Safe.bind
  apply assertAiAllowed_safe.mono
  intro _ v _
  split
  · exact invokeAction_safe htool hparsed
  · rename_i hclass
    exact runTool_safe htool (by simpa using hclass)

end Invoke

theorem Honest.rely {ctx : Ctx} {call : Call} {result : Except Failure Invoked}
    (h : Honest reg ctx call result s.1) (hr : Rely i s t) : Honest reg ctx call result t.1 := by
  match result, h with
  | .error _, _ => trivial
  | .ok (.result _ _), h => exact h
  | .ok (.pending action _), h =>
    obtain ⟨tool, hanswers⟩ := h
    have hstored : Stored action s := hanswers.stored
    exact ⟨tool, { hanswers with stored := hstored.rely hr }⟩

theorem Deployed.safe {p : Prog Stmt Unit} (h : Deployed reg p) :
    p.Safe (contract reg) i (fun _ _ => True) s := by
  cases h with
  | invoke ctx call =>
    apply Prog.Safe.bind
    apply Prog.Safe.mono invoke_safe
    intro result t hresult
    apply safe_call
    intro u ch hu _
    refine ⟨?_, trivial⟩
    cases result with
    | error failure => trivial
    | ok invoked => exact (hresult invoked rfl).rely hu
  | approve ctx id approval =>
    apply Prog.Safe.bind
    exact Prog.Safe.mono approve_safe fun _ _ _ => trivial
  | reject ctx id approval reason =>
    apply Prog.Safe.bind
    exact Prog.Safe.mono reject_safe fun _ _ _ => trivial

end Ashbi.Tools
