import Ashbi.Estimates.SameCents
import Ashbi.Estimates.Statements
import Ashbi.Interleaving.Budget

/-! The life of an estimate, from its draft to the proposal that it becomes. -/

namespace Ashbi.Estimates

open Interleaving Invoicing

/-! ### What no statement undoes -/

def EstimateStatus.rank : EstimateStatus → ℕ
  | .draft => 0
  | .sent => 1
  | .approved => 2
  | .declined => 2
  | .converted => 3

/-- The status stays, or moves on along DRAFT, SENT, APPROVED or DECLINED, CONVERTED. -/
def EstimateStatus.Forward (s t : EstimateStatus) : Prop := s = t ∨ s.rank < t.rank

theorem EstimateStatus.Forward.trans {s t u : EstimateStatus} (h : s.Forward t)
    (h' : t.Forward u) : s.Forward u := by
  rcases h with rfl | h
  · exact h'
  · rcases h' with rfl | h'
    · exact .inr h
    · exact .inr (h.trans h')

theorem EstimateStatus.Forward.rank_le {s t : EstimateStatus} (h : s.Forward t) :
    s.rank ≤ t.rank := by
  rcases h with rfl | h
  · exact Nat.le_refl _
  · exact h.le

theorem EstimateStatus.not_draft {s t : EstimateStatus} (h : s.Forward t) (hs : s ≠ .draft) :
    t ≠ .draft := by
  rintro rfl
  have hle := h.rank_le
  cases s <;> simp_all [EstimateStatus.rank]

/-- What the estimate bills: its lines, its tax and its totals. -/
structure Bill where
  lineItems : List EstimateLine
  subtotal : ℚ
  tax : ℚ
  taxRate : Option ℚ
  total : ℚ
  deriving DecidableEq

def Estimate.bill (e : Estimate) : Bill := ⟨e.lineItems, e.subtotal, e.tax, e.taxRate, e.total⟩

/-- From `s` to `t` the status only moves on, and what was sent stays as it is. -/
structure Estimate.Onward (s t : Estimate) : Prop where
  status : s.status.Forward t.status
  bill : s.status ≠ .draft → t.bill = s.bill

theorem Estimate.Onward.refl (s : Estimate) : s.Onward s := ⟨.inl rfl, fun _ => rfl⟩

theorem Estimate.Onward.trans {s t u : Estimate} (h : s.Onward t) (h' : t.Onward u) :
    s.Onward u where
  status := h.status.trans h'.status
  bill hs := (h'.bill (EstimateStatus.not_draft h.status hs)).trans (h.bill hs)

variable {α β : Type} {i : ℕ} {st : Stmt β} {ch : Choice} {db : Db}

theorem exec_onward (st : Stmt β) : db.estimate.Onward (exec i st ch db).2.estimate := by
  cases st with
  | writeDraft existing body =>
    simp only [exec]
    split
    · exact ⟨.inl rfl, fun h => absurd ‹_› h⟩
    · exact .refl _
  | claimSend sentAt viewToken expiresAt =>
    simp only [exec]
    split
    · rename_i hdraft
      exact ⟨.inr (by simp [hdraft, EstimateStatus.rank]), fun _ => rfl⟩
    · exact .refl _
  | claimAnswer approve =>
    simp only [exec]
    split
    · rename_i hsent
      refine ⟨.inr ?_, fun _ => rfl⟩
      cases approve <;> simp [hsent, answerStatus, EstimateStatus.rank]
    · exact .refl _
  | createProposal data =>
    simp only [exec]
    split
    · refine ⟨?_, fun _ => rfl⟩
      cases db.estimate.status <;> simp [EstimateStatus.Forward, EstimateStatus.rank]
    · exact .refl _
  | claimConvert => simp only [exec]; split <;> exact .refl _
  | softDelete deletedAt =>
    simp only [exec]
    split
    · exact ⟨.inl rfl, fun _ => rfl⟩
    · exact .refl _
  | restore trashId =>
    simp only [exec]
    split
    · exact .refl _
    split
    · exact .refl _
    split
    · exact ⟨.inl rfl, fun _ => rfl⟩
    · exact .refl _
  | reissueLink viewToken expiresAt => exact ⟨.inl rfl, fun _ => rfl⟩
  | revokeLink revokedAt => exact ⟨.inl rfl, fun _ => rfl⟩
  | _ => exact .refl _

/-! ### The events of a run -/

/-- The statement sends the estimate, and so issues its link. -/
def Stmt.sends {β : Type} (st : Stmt β) (db : Db) : Bool :=
  match st with
  | .claimSend _ _ _ => db.estimate.status = .draft
  | _ => false

/-- The statement records the client's answer. -/
def Stmt.answers {β : Type} (st : Stmt β) (db : Db) : Bool :=
  match st with
  | .claimAnswer _ => db.estimate.status = .sent
  | _ => false

def sent (o : Occurrence machine) : Bool := Stmt.sends o.stmt o.pre

def answered (o : Occurrence machine) : Bool := Stmt.answers o.stmt o.pre

theorem sends_rank (h : st.sends db = true) :
    db.estimate.status.rank ≤ 0 ∧ 0 < (exec i st ch db).2.estimate.status.rank := by
  cases st with
  | claimSend sentAt viewToken expiresAt =>
    simp only [Stmt.sends, decide_eq_true_eq] at h
    simp [exec, h, EstimateStatus.rank]
  | _ => cases h

theorem answers_rank (h : st.answers db = true) :
    db.estimate.status.rank ≤ 1 ∧ 1 < (exec i st ch db).2.estimate.status.rank := by
  cases st with
  | claimAnswer approve =>
    simp only [Stmt.answers, decide_eq_true_eq] at h
    cases approve <;> simp [exec, h, answerStatus, EstimateStatus.rank]
  | _ => cases h

theorem answers_sent (h : st.answers db = true) : db.estimate.status = .sent := by
  cases st with
  | claimAnswer approve => simpa [Stmt.answers] using h
  | _ => cases h

/-! ### The proposal -/

/-- The subtotal that the lines of an estimate come to. -/
def linesSubtotal (lineItems : List EstimateLine) : ℚ :=
  (computeEstimateTotals lineItems none none).subtotal

theorem computeEstimateTotals_subtotal {lineItems : List EstimateLine} {taxRate tax : Option ℚ} :
    (computeEstimateTotals lineItems taxRate tax).subtotal = linesSubtotal lineItems := by
  cases taxRate <;> rfl

/-- The proposal has the lines and the subtotal of the estimate. -/
def Proposal.Bills (p : Proposal) (e : Estimate) : Prop :=
  p.lineItems = e.lineItems.map proposalLine ∧ p.subtotal = e.subtotal

instance (p : Proposal) (e : Estimate) : Decidable (p.Bills e) :=
  inferInstanceAs (Decidable (_ ∧ _))

theorem Proposal.Bills.of_bill {p : Proposal} {e e' : Estimate} (h : p.Bills e)
    (he : e'.bill = e.bill) : p.Bills e' := by
  simp only [Estimate.bill, Bill.mk.injEq] at he
  exact ⟨he.1 ▸ h.1, he.2.1 ▸ h.2⟩

theorem proposalDataFromEstimate_bills {e : Estimate} {createdById : String} {now : Time}
    (h : e.subtotal = linesSubtotal e.lineItems) :
    (proposalDataFromEstimate e createdById now).Bills e := by
  refine ⟨rfl, ?_⟩
  rw [h, proposal_subtotal]
  exact computeEstimateTotals_subtotal

/-- What holds of the estimate and its proposals between statements. -/
structure Consistent (db : Db) : Prop where
  computed : db.estimate.subtotal = linesSubtotal db.estimate.lineItems
  created : db.proposals.length = if db.estimate.status = .converted then 1 else 0
  bills : ∀ p ∈ db.proposals, p.Bills db.estimate

theorem Consistent.unconverted (h : Consistent db) (hs : db.estimate.status ≠ .converted) :
    db.proposals = [] := by
  have hlength := h.created
  rw [if_neg hs] at hlength
  exact List.length_eq_zero_iff.mp hlength

/-- An edit without lines is written while the lines are those that it was computed from. -/
def Stmt.KeepsLines {β : Type} (st : Stmt β) (db : Db) : Prop :=
  match st with
  | .writeDraft existing body =>
    db.estimate.status = .draft → body.lineItems = none →
      existing.lineItems = db.estimate.lineItems
  | _ => True

/-- What a conversion knows when it creates the proposal. -/
def Stmt.Promised {β : Type} (i : ℕ) (st : Stmt β) (db : Db) : Prop :=
  match st with
  | .createProposal data =>
    db.held = some i → db.estimate.status ≠ .converted ∧ data.Bills db.estimate
  | _ => True

theorem write_computed {existing e : Estimate} {body : UpdateBody}
    (h : body.lineItems = none → existing.lineItems = e.lineItems) :
    (e.write (estimateData existing body)).subtotal =
      linesSubtotal (e.write (estimateData existing body)).lineItems := by
  simp only [Estimate.write, estimateData, computeEstimateTotals_subtotal]
  cases hlines : body.lineItems with
  | some lineItems => rfl
  | none => simp [h hlines]

theorem exec_consistent (h : Consistent db) (hlines : st.KeepsLines db)
    (hp : st.Promised i db) : Consistent (exec i st ch db).2 := by
  cases st with
  | writeDraft existing body =>
    simp only [exec]
    split
    · rename_i hdraft
      have hnone := h.unconverted (by simp [hdraft])
      refine ⟨write_computed (hlines hdraft), h.created, ?_⟩
      simp [hnone]
    · exact h
  | claimSend sentAt viewToken expiresAt =>
    simp only [exec]
    split
    · rename_i hdraft
      have hnone := h.unconverted (by simp [hdraft])
      exact ⟨h.computed, by simp [hnone], h.bills⟩
    · exact h
  | claimAnswer approve =>
    simp only [exec]
    split
    · rename_i hsent
      have hnone := h.unconverted (by simp [hsent])
      exact ⟨h.computed, by cases approve <;> simp [hnone, answerStatus], h.bills⟩
    · exact h
  | createProposal data =>
    simp only [exec]
    split
    · rename_i hcommit
      simp only [Bool.and_eq_true, decide_eq_true_eq] at hcommit
      obtain ⟨hstatus, hbills⟩ := hp hcommit.1
      refine ⟨h.computed, by simp [h.unconverted hstatus], ?_⟩
      intro p hmem
      rcases List.mem_append.mp hmem with hmem | hmem
      · exact h.bills p hmem
      · exact List.mem_singleton.mp hmem ▸ hbills
    · exact ⟨h.computed, h.created, h.bills⟩
  | claimConvert => simp only [exec]; split <;> exact ⟨h.computed, h.created, h.bills⟩
  | softDelete deletedAt =>
    simp only [exec]
    split <;> exact ⟨h.computed, h.created, h.bills⟩
  | restore trashId =>
    simp only [exec]
    split
    · exact h
    split
    · exact h
    split <;> exact ⟨h.computed, h.created, h.bills⟩
  | reissueLink viewToken expiresAt => exact ⟨h.computed, h.created, h.bills⟩
  | revokeLink revokedAt => exact ⟨h.computed, h.created, h.bills⟩
  | _ => exact h

/-! ### The routes -/

/-- Threads rely on a status that only moves on, and on a row that they hold. -/
def contract : Contract machine where
  inv := Consistent
  rely i s t := s.estimate.Onward t.estimate ∧ (s.held = some i → t = s)
  assumed o := Stmt.KeepsLines o.stmt o.pre
  guar _ := True
  refl i s := ⟨.refl _, fun _ => rfl⟩
  trans i s t u h h' := ⟨h.1.trans h'.1, fun hs => by
    have ht := h.2 hs
    subst ht
    exact h'.2 hs⟩

theorem exec_read (h : st.writes = false) : (exec i st ch db).2 = db := by
  cases st <;> first | rfl | cases h

theorem keeps_of (h : Consistent db) (he : machine.enabled i st db = true)
    (hlines : st.KeepsLines db) (hp : st.Promised i db) : contract.Keeps ⟨i, st, ch, db⟩ := by
  refine ⟨trivial, exec_consistent h hlines hp, fun j hj => ⟨exec_onward st, fun hheld => ?_⟩⟩
  apply exec_read
  have hother : db.held = some j := hheld
  have hne : ¬ j = i := hj
  simpa [hother, hne] using he

/-- The statement creates the proposal. -/
def Stmt.creates {β : Type} : Stmt β → Bool
  | .createProposal _ => true
  | _ => false

theorem other_safe {p : Prog Stmt α} (hp : p.AtMost Stmt.creates 0) :
    p.Safe contract i (fun _ _ => True) db := by
  refine Prog.AtMost.safe (K := contract) (J := fun _ _ => True) (fun _ _ _ _ _ => trivial)
    (fun _ _ _ => trivial) (fun _ _ _ => trivial) ?_ hp trivial
  intro β i st ch db hst _ hi he hlines
  refine ⟨keeps_of hi he hlines ?_, trivial⟩
  cases st with
  | createProposal data => cases hst
  | _ => trivial

/-- A statement that creates no proposal, and what follows. -/
theorem quiet_call {next : β → Prog Stmt α} (h : st.creates = false)
    (hn : ∀ b, (next b).AtMost Stmt.creates 0) : (Prog.call st next).AtMost Stmt.creates 0 :=
  Prog.atMost_call h hn

theorem putEstimate_quiet (body : UpdateBody) : (putEstimate body).AtMost Stmt.creates 0 := by
  refine quiet_call rfl fun found => ?_
  cases found with
  | none => trivial
  | some existing =>
    simp only [Prog.ret_bind, Prog.bind_def]
    split
    · trivial
    split
    · trivial
    refine quiet_call rfl fun written => ?_
    simp only [Prog.ret_bind]
    split
    · trivial
    · exact quiet_call rfl fun _ => trivial

theorem deleteEstimate_quiet : deleteEstimate.AtMost Stmt.creates 0 := by
  refine quiet_call rfl fun found => ?_
  cases found with
  | none => trivial
  | some _ =>
    refine quiet_call rfl fun deletedAt => quiet_call rfl fun deleted => ?_
    cases deleted <;> trivial

theorem sendEstimate_quiet : sendEstimate.AtMost Stmt.creates 0 := by
  refine quiet_call rfl fun found => ?_
  cases found with
  | none => trivial
  | some estimate =>
    simp only [Prog.ret_bind, Prog.bind_def]
    split
    · trivial
    refine quiet_call rfl fun now => quiet_call rfl fun token => quiet_call rfl fun sentAt =>
      quiet_call rfl fun claimed => ?_
    simp only [Prog.ret_bind]
    split
    · trivial
    · exact quiet_call rfl fun _ => trivial

theorem answerEstimate_quiet (viewToken : String) (approve : Bool) :
    (answerEstimate viewToken approve).AtMost Stmt.creates 0 := by
  refine quiet_call rfl fun found => quiet_call rfl fun openedAt => ?_
  simp only [Prog.ret_bind, Prog.bind_def]
  split
  · trivial
  · trivial
  split
  · trivial
  refine quiet_call rfl fun now => ?_
  simp only [Prog.ret_bind]
  split
  · trivial
  refine quiet_call rfl fun claimed => ?_
  simp only [Prog.ret_bind]
  split <;> trivial

theorem reissueLink_quiet : reissueLink.AtMost Stmt.creates 0 := by
  refine quiet_call rfl fun found => ?_
  cases found with
  | none => trivial
  | some existing =>
    simp only [Prog.ret_bind, Prog.bind_def]
    split
    · trivial
    · exact quiet_call rfl fun now => quiet_call rfl fun token => quiet_call rfl fun _ => trivial

theorem revokeLink_quiet : revokeLink.AtMost Stmt.creates 0 := by
  refine quiet_call rfl fun found => ?_
  cases found with
  | none => trivial
  | some existing => exact quiet_call rfl fun now => quiet_call rfl fun _ => trivial

theorem restoreTrashedItem_quiet (trashId : String) :
    (restoreTrashedItem trashId).AtMost Stmt.creates 0 := by
  refine quiet_call rfl fun found => ?_
  simp only [Prog.ret_bind]
  split
  · trivial
  · exact quiet_call rfl fun _ => trivial

theorem findUnique_some {e : Estimate} (h : (exec i .findUnique ch db).1 = some e) :
    e = db.estimate := by
  simp only [exec, Db.active] at h
  split at h
  · exact (Option.some.inj h).symm
  · cases h

theorem not_draft_of_convertible {status : EstimateStatus}
    (h : estimateConvertibleStatuses.contains status = true) :
    status ≠ .draft ∧ status ≠ .converted := by
  cases status <;> simp_all [estimateConvertibleStatuses]

/-- Once the row is claimed, nobody else writes it before the proposal is created. -/
theorem createProposal_safe {data : Proposal} {next : Option Proposal → Prog Stmt α}
    (hheld : db.held = some i) (hstatus : db.estimate.status ≠ .converted)
    (hbills : data.Bills db.estimate) (hn : ∀ b, (next b).AtMost Stmt.creates 0) :
    (Prog.call (.createProposal data) next).Safe contract i (fun _ _ => True) db := by
  intro t ch hr ht he _
  obtain rfl := hr.2 hheld
  exact ⟨keeps_of ht he trivial fun _ => ⟨hstatus, hbills⟩, other_safe (hn _)⟩

/-- What the conversion has read is the bill of the row that it claims. -/
theorem convertEstimate_safe (userId : String) :
    (convertEstimate userId).Safe contract i (fun _ _ => True) db := by
  intro s ch _ hs he _
  refine ⟨keeps_of hs he trivial trivial, ?_⟩
  cases hfound : (exec i .findUnique ch s).1 with
  | none => trivial
  | some e =>
    obtain rfl := findUnique_some hfound
    simp only [Prog.ret_bind, Prog.bind_def]
    split
    · trivial
    rename_i hconvertible
    have hread : estimateConvertibleStatuses.contains s.estimate.status = true := by
      simpa using hconvertible
    intro t ch hr ht he _
    refine ⟨keeps_of ht he trivial trivial, ?_⟩
    intro u ch hr' hu he' _
    refine ⟨keeps_of hu he' trivial trivial, ?_⟩
    have honward : s.estimate.Onward u.estimate := hr.1.trans hr'.1
    have hbill := honward.bill (not_draft_of_convertible hread).1
    simp only [exec]
    split
    · rename_i hclaim
      have hbills : ∀ now, (proposalDataFromEstimate s.estimate userId now).Bills u.estimate :=
        fun _ => (proposalDataFromEstimate_bills hs.computed).of_bill hbill
      exact createProposal_safe rfl (not_draft_of_convertible hclaim).2 (hbills _)
        fun created => by cases created <;> trivial
    · trivial

theorem Deployed.safe {p : Prog Stmt Unit} (h : Deployed p) :
    p.Safe contract i (fun _ _ => True) db := by
  have quiet : ∀ {α : Type} {p : Prog Stmt α}, p.AtMost Stmt.creates 0 →
      (p.bind fun _ => .ret ()).Safe contract i (fun _ _ => True) db :=
    fun hp => other_safe (Prog.AtMost.bind (n := 0) (m := 0) hp fun _ => trivial)
  cases h with
  | put body => exact quiet (putEstimate_quiet body)
  | delete => exact quiet deleteEstimate_quiet
  | send => exact quiet sendEstimate_quiet
  | answer viewToken approve => exact quiet (answerEstimate_quiet viewToken approve)
  | reissue => exact quiet reissueLink_quiet
  | revoke => exact quiet revokeLink_quiet
  | convert userId => exact Prog.Safe.bind (convertEstimate_safe userId)
  | restore trashId => exact quiet (restoreTrashedItem_quiet trashId)

/-! ### Whole runs -/

/-- A run that has come to `db`. -/
structure Lifecycle (tr : List (Occurrence machine)) (db : Db) : Prop where
  forward : ∀ o ∈ tr, o.pre.estimate.status.Forward db.estimate.status
  frozen : ∀ o ∈ tr, o.pre.estimate.status ≠ .draft → db.estimate.bill = o.pre.estimate.bill
  sentOnce : (tr.filter sent).length ≤ 1
  answeredOnce : (tr.filter answered).length ≤ 1
  answeredBefore : ∀ o ∈ tr, answered o = true →
    o.pre.estimate.status = .sent ∧ o.pre.proposals = []
  created : db.proposals.length = if db.estimate.status = .converted then 1 else 0
  bills : ∀ p ∈ db.proposals, p.Bills db.estimate
  asSent : ∀ o ∈ tr, sent o = true → ∀ p ∈ db.proposals, p.Bills o.post.estimate

theorem created_consistent (body : CreateBody) (id viewToken : String) :
    Consistent (Db.created body id viewToken) :=
  ⟨computeEstimateTotals_subtotal, rfl, by simp [Db.created]⟩

/-- As long as every edit without lines is written over the lines that it was computed from,
the estimate goes through its life once, and becomes the proposal that was sent. -/
theorem lifecycle {body : CreateBody} {id viewToken : String} {tr : List (Occurrence machine)}
    {c : Config machine} (h : Run Deployed (Db.created body id viewToken) tr c)
    (hlines : ∀ o ∈ tr, Stmt.KeepsLines o.stmt o.pre) : Lifecycle tr c.state := by
  obtain ⟨hend, hkeeps⟩ := h.holds (K := contract) (fun p hp i s _ _ => hp.safe)
    (created_consistent body id viewToken) (fun _ => trivial) hlines
  obtain ⟨-, hlater⟩ := h.preserves (fun s t : Db => s.estimate.Onward t.estimate)
    (fun _ => .refl _) (fun _ _ _ => Estimate.Onward.trans) fun o _ => exec_onward o.stmt
  have honward : ∀ o ∈ tr, o.pre.estimate.Onward c.state.estimate :=
    fun o ho => (exec_onward o.stmt).trans (hlater o ho)
  have hrank : ∀ o ∈ tr, o.pre.estimate.status.rank ≤ o.post.estimate.status.rank :=
    fun o _ => (exec_onward o.stmt).status.rank_le
  refine ⟨fun o ho => (honward o ho).status, fun o ho => (honward o ho).bill, ?_, ?_, ?_,
    hend.inv.created, hend.inv.bills, ?_⟩
  · exact (h.chained.once (fun db => db.estimate.status.rank) hrank sent 0
      fun _ _ hsent => sends_rank hsent).1
  · exact (h.chained.once (fun db => db.estimate.status.rank) hrank answered 1
      fun _ _ hanswered => answers_rank hanswered).1
  · intro o ho hanswered
    have hstatus := answers_sent hanswered
    exact ⟨hstatus, (hkeeps o ho).1.unconverted (by simp [hstatus])⟩
  · intro o ho hsent p hp
    have hpost : o.post.estimate.status ≠ .draft := by
      intro hdraft
      have hrank := (@sends_rank _ o.thread o.stmt o.choice o.pre hsent).2
      change 0 < o.post.estimate.status.rank at hrank
      simp [hdraft, EstimateStatus.rank] at hrank
    exact (hend.inv.bills p hp).of_bill ((hlater o ho).bill hpost).symm

/-! ### Two edits at once -/

def sampleCreate : CreateBody :=
  ⟨"c1", "Website", none, [⟨"Design", 1, 100⟩], none, none, none⟩

def sampleUpdate (lineItems : Option (List EstimateInput)) (taxRate : Option ℚ) : UpdateBody :=
  ⟨none, none, lineItems, none, taxRate, none, none⟩

/-- An edit of the rate, one of the lines, a send and a conversion. -/
def samplePrograms : List (Prog Stmt Unit) :=
  [(putEstimate (sampleUpdate none (some 13))).bind fun _ => .ret (),
    (putEstimate (sampleUpdate (some [⟨"Design", 2, 100⟩]) none)).bind fun _ => .ret (),
    sendEstimate.bind fun _ => .ret (), (convertEstimate "u1").bind fun _ => .ret ()]

theorem samplePrograms_deployed : ∀ p ∈ samplePrograms, Deployed p := by
  simp only [samplePrograms, List.forall_mem_cons]
  exact ⟨.put _, .put _, .send, .convert _, by simp⟩

def sampleSchedule (edits : List ℕ) : List (ℕ × Choice) :=
  (edits ++ [2, 2, 2, 2, 2, 2, 3, 3, 3, 3]).map (·, ⟨1000, "t1", true⟩)

def sampleStart : Config machine := ⟨Db.created sampleCreate "e1" "v1", samplePrograms⟩

theorem sample_run (edits : List ℕ) :
    Run Deployed (Db.created sampleCreate "e1" "v1") (sampleStart.played (sampleSchedule edits))
      (sampleStart.play (sampleSchedule edits)) :=
  Run.of_schedule (M := machine) samplePrograms samplePrograms_deployed (sampleSchedule edits)

instance {β : Type} (st : Stmt β) (db : Db) : Decidable (st.KeepsLines db) := by
  cases st <;> unfold Stmt.KeepsLines <;> infer_instance

/-- The edits run one after the other. -/
theorem lifecycle_sample :
    Lifecycle (sampleStart.played (sampleSchedule [0, 0, 0, 1, 1, 1]))
      (sampleStart.play (sampleSchedule [0, 0, 0, 1, 1, 1])).state :=
  lifecycle (sample_run [0, 0, 0, 1, 1, 1]) (by decide +kernel)

/-- The edit of the rate is written over lines that it has not read. -/
theorem subtotal_of_other_lines : ¬ ∀ tr c, Run Deployed (Db.created sampleCreate "e1" "v1") tr c →
    Lifecycle tr c.state := by
  intro h
  have hbills := (h _ _ (sample_run [0, 1, 1, 1, 0, 0])).bills
  revert hbills
  decide +kernel

end Ashbi.Estimates
