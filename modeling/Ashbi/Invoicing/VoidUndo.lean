import Ashbi.Invoicing.Safety

/-! What a void records about the invoice, and what its undo brings back. -/

namespace Ashbi.Invoicing

open Interleaving

/-- The status that the committed invoice has. -/
def Store.status (s : Store) : InvoiceStatus := s.committed.invoice.status

def Voids (o : Occurrence machine) : Prop := o.pre.status ≠ .void ∧ o.post.status = .void

def Reopens (o : Occurrence machine) : Prop := o.pre.status = .void ∧ o.post.status ≠ .void

/-- The void records the status that the invoice had just before. -/
def RecordsStatus (o : Occurrence machine) : Prop :=
  o.post.committed.invoice.voidedFromStatus = some o.pre.status

instance (o : Occurrence machine) : Decidable (Voids o) := inferInstanceAs (Decidable (_ ∧ _))

instance (o : Occurrence machine) : Decidable (Reopens o) := inferInstanceAs (Decidable (_ ∧ _))

instance (o : Occurrence machine) : Decidable (RecordsStatus o) :=
  inferInstanceAs (Decidable (_ = _))

/-- A void commits only while the invoice has the status that its request has read. -/
def VoidsAsRead {β : Type} (i : ℕ) (st : Stmt β) (s : Store) : Prop :=
  match st with
  | .commit (.voidInvoice seen) => s.heldBy i = true → seen.status = s.status
  | _ => True

/-- What one statement does to the status of the committed invoice. -/
inductive StatusChange (i : ℕ) (s t : Store) : {β : Type} → Stmt β → Prop
  /-- The invoice is not void before, and neither void nor a draft after. -/
  | live {β : Type} (st : Stmt β) (hs : s.status ≠ .void)
      (ht : t.status ≠ .void ∧ t.status ≠ .draft) : StatusChange i s t st
  | same {β : Type} (st : Stmt β) (hs : t.status = s.status)
      (hv : t.committed.invoice.voidedFromStatus = s.committed.invoice.voidedFromStatus)
      (hsent : t.committed.invoice.sentAt = s.committed.invoice.sentAt) : StatusChange i s t st
  | void (seen : Invoice) (hl : s.heldBy i = true) (hs : s.status ≠ .void) (ht : t.status = .void)
      (hv : t.committed.invoice.voidedFromStatus = some seen.status)
      (hsent : t.committed.invoice.sentAt = s.committed.invoice.sentAt) :
      StatusChange i s t (.commit (.voidInvoice seen))
  | undo (hs : s.status = .void) (ht : t.status ≠ .void)
      (hv : s.committed.invoice.voidedFromStatus = some t.status)
      (hsent : t.committed.invoice.sentAt = s.committed.invoice.sentAt) :
      StatusChange i s t (.commit .undoVoid)

/-- No invoice that was sent is a draft, nor void with a draft to go back to. -/
structure SentStays (s : Store) : Prop where
  draft : s.status = .draft → s.committed.invoice.sentAt = none
  voided : s.status = .void → s.committed.invoice.voidedFromStatus = some .draft →
    s.committed.invoice.sentAt = none

variable {config : StripeConfig} {sends : Prop} {s₀ : Store} {tr : List (Occurrence machine)}
  {d : Config machine} {β : Type} {i : ℕ} {s t : Store} {st : Stmt β} {o : Occurrence machine}

theorem Moves.statusChange {op : Operation} {l : Ledger} (hm : Moves op s.committed l)
    (hl : s.heldBy i = true) (ht : t.committed = l) : StatusChange i s t (.commit op) := by
  have live : s.committed.invoice.status.payable = true → ∀ fullyPaid : Bool,
      l.invoice.status = (if fullyPaid then .paid else s.committed.invoice.status) →
      StatusChange i s t (.commit op) := by
    intro hopen fullyPaid hst
    obtain ⟨-, hnv, hnd⟩ := payable_not_paid hopen
    apply StatusChange.live _ hnv
    rw [Store.status, ht, hst]
    cases fullyPaid with
    | false => exact ⟨hnv, hnd⟩
    | true => simp
  cases hm with
  | same => exact .same _ (by simp [Store.status, ht]) (by rw [ht]) (by rw [ht])
  | pay hop hopen source method paidAt fullyPaid p outbox =>
    exact live hopen fullyPaid (by cases source <;> cases fullyPaid <;> rfl)
  | payLinked hopen source method paidAt sessionId p outbox =>
    exact live hopen true (by cases source <;> rfl)
  | void seen voidedAt hv =>
    apply StatusChange.void seen hl (voidable_open hv).2
    · simp [Store.status, ht, Write.data]
    · simp [ht, Write.data]
    · simp [ht, Write.data, Invoice.clearCheckout]
  | undo hc =>
    obtain ⟨hvoid, status, hfrom, hv, -⟩ := undoVoidCheck_ok hc
    have hst : t.status = status := by simp [Store.status, ht, Write.data, hfrom]
    apply StatusChange.undo hvoid
    · exact hst ▸ (voidable_open hv).2
    · exact hst ▸ hfrom
    · simp [ht, Write.data]

theorem Write.statusChange {w : Write} (hp : w.Promised sends)
    (hf : w.filter s.committed.invoice = true)
    (ht : t.committed = { s.committed with invoice := w.data s.committed.invoice }) :
    StatusChange i s t (.updateMany false w) := by
  have stored : ∀ data : CheckoutData,
      t.committed.invoice = s.committed.invoice.storeCheckout data →
      StatusChange i s t (.updateMany false w) := by
    intro data he
    apply StatusChange.same <;> simp [Store.status, he, Invoice.storeCheckout]
  cases w with
  | send sentAt viewToken =>
    have hdraft : s.committed.invoice.status = .draft := by simpa [Write.filter] using hf
    apply StatusChange.live
    · simp [Store.status, hdraft]
    · simp [Store.status, ht, Write.data]
  | finishSend checkout =>
    cases checkout with
    | none => apply StatusChange.same <;> simp [Store.status, ht, Write.data]
    | some data => exact stored data (by simp [ht, Write.data])
  | storeCheckout attempt data => exact stored data (by simp [ht, Write.data])
  | markOverdue status =>
    have hst : s.committed.invoice.status = status := by simpa [Write.filter] using hf
    apply StatusChange.live
    · rcases hp with rfl | rfl <;> simp [Store.status, hst]
    · simp [Store.status, ht, Write.data]
  | _ => exact hp.elim

theorem Change.statusChange (h : Change sends i s st t) : StatusChange i s t st := by
  cases h with
  | same _ h => exact .same _ (by simp [Store.status, h]) (by rw [h]) (by rw [h])
  | write w hp hf h => exact Write.statusChange hp hf h
  | commit op hl hm h => exact hm.statusChange (heldBy_of_locked hl) h

/-! ### One step -/

theorem StatusChange.recordsStatus (h : StatusChange i s t st) (hs : s.status ≠ .void)
    (ht : t.status = .void) (hr : VoidsAsRead i st s) :
    t.committed.invoice.voidedFromStatus = some s.status := by
  cases h with
  | live _ _ hlive => exact absurd ht hlive.1
  | same _ hsame => exact absurd (hsame ▸ ht) hs
  | void seen hl _ _ hfrom =>
    rw [hfrom]
    exact congrArg some (hr hl)
  | undo hvoid => exact absurd hvoid hs

/-- A void that commits records what its request has read. -/
theorem Promised.asRead (hp : Promised sends o.thread o.stmt o.pre)
    (hr : Voids o → RecordsStatus o) :
    VoidsAsRead o.thread o.stmt o.pre := by
  obtain ⟨i, st, ch, s⟩ := o
  cases st with
  | commit op =>
    cases op with
    | voidInvoice seen =>
      intro hl
      obtain ⟨l, hlocked⟩ := locked_of_heldBy hl
      have hcommitted : (s.commit i).committed = l := committed_commit hlocked
      cases hp l hlocked with
      | void _ voidedAt hv =>
        have hrecorded := hr ⟨(voidable_open hv).2, by
          simp [Occurrence.post, machine, exec, Store.status, hcommitted, Write.data]⟩
        simpa [RecordsStatus, Occurrence.post, machine, exec, hcommitted, Write.data]
          using hrecorded
      | pay hop => simp at hop
    | _ => trivial
  | _ => trivial

theorem StatusChange.sentStays (h : StatusChange i s t st) (hr : VoidsAsRead i st s)
    (hs : SentStays s) : SentStays t := by
  cases h with
  | live _ _ hlive => exact ⟨fun h => absurd h hlive.2, fun h => absurd h hlive.1⟩
  | same _ hst hv hsent =>
    exact ⟨fun h => hsent ▸ hs.draft (hst ▸ h), fun h hfrom => hsent ▸ hs.voided (hst ▸ h)
      (hv ▸ hfrom)⟩
  | void seen hl _ ht hfrom hsent =>
    refine ⟨fun h => by simp [ht] at h, fun _ hdraft => ?_⟩
    rw [hsent]
    apply hs.draft
    rw [← hr hl]
    simpa [hfrom] using hdraft
  | undo hvoid ht hfrom hsent =>
    refine ⟨fun h => ?_, fun h => absurd h ht⟩
    rw [hsent]
    exact hs.voided hvoid (h ▸ hfrom)

/-- The invoice is void, and an undo brings back this status. -/
structure Recalls (status : InvoiceStatus) (s : Store) : Prop where
  void : s.status = .void
  voidedFrom : s.committed.invoice.voidedFromStatus = some status

theorem StatusChange.recalls {status : InvoiceStatus} (h : StatusChange i s t st)
    (hs : Recalls status s) : Recalls status t ∨ t.status = status ∧ t.status ≠ .void := by
  cases h with
  | live _ hopen => exact absurd hs.void hopen
  | same _ hst hv => exact .inl ⟨hst.trans hs.void, hv.trans hs.voidedFrom⟩
  | void _ _ hopen => exact absurd hs.void hopen
  | undo _ ht hfrom => exact .inr ⟨Option.some.inj (hfrom.symm.trans hs.voidedFrom), ht⟩

/-! ### A run -/

/-- As long as nothing reopens a void invoice, it recalls the same status. -/
theorem recalls_chained {status : InvoiceStatus} (h : Chained s tr t) (hs : Recalls status s)
    (hc : ∀ o ∈ tr, StatusChange o.thread o.pre o.post o.stmt) (hr : ∀ o ∈ tr, ¬ Reopens o) :
    Recalls status t := by
  induction tr generalizing s with
  | nil => exact (show s = t from h) ▸ hs
  | cons o rest ih =>
    obtain ⟨rfl, h⟩ := h
    apply ih h _ (fun o ho => hc o (List.mem_cons_of_mem _ ho))
      fun o ho => hr o (List.mem_cons_of_mem _ ho)
    rcases (hc o List.mem_cons_self).recalls hs with hnext | ⟨-, hne⟩
    · exact hnext
    · exact absurd ⟨hs.void, hne⟩ (hr o List.mem_cons_self)

/-- Every void records the status it replaces exactly when every void commits on
the status that its request has read; then an undo brings back just that status,
and no invoice that was sent is a draft again. -/
theorem void_undo (h : Run (Deployed config sends) s₀ tr d) (h₀ : s₀.locked = none)
    (hs : SentStays s₀) :
    ((∀ o ∈ tr, Voids o → RecordsStatus o) ↔
      ∀ o ∈ tr, VoidsAsRead o.thread o.stmt o.pre) ∧
    ((∀ o ∈ tr, VoidsAsRead o.thread o.stmt o.pre) →
      (∀ t₁ v t₂ u t₃, tr = t₁ ++ v :: (t₂ ++ u :: t₃) → Voids v → (∀ o ∈ t₂, ¬ Reopens o) →
        Reopens u → u.post.status = v.pre.status) ∧
      (∀ o ∈ tr, o.pre.committed.invoice.sentAt ≠ none → o.pre.status ≠ .draft) ∧
      (d.state.committed.invoice.sentAt ≠ none → d.state.status ≠ .draft)) := by
  have hchange : ∀ o ∈ tr, StatusChange o.thread o.pre o.post o.stmt :=
    fun o ho => (run_change h h₀ ho).statusChange
  refine ⟨⟨fun hr o ho => ((run_custody h h₀).1 o ho).asRead (hr o ho),
    fun hr o ho hv => (hchange o ho).recordsStatus hv.1 hv.2 (hr o ho)⟩, fun hr => ⟨?_, ?_⟩⟩
  · intro t₁ v t₂ u t₃ htr hv hopen hu
    subst htr
    obtain ⟨s₁, -, -, hrest⟩ := chained_append.mp h.chained
    obtain ⟨s₂, hbetween, hlast, -⟩ := chained_append.mp hrest
    have hvmem : v ∈ t₁ ++ v :: (t₂ ++ u :: t₃) := by simp
    have humem : u ∈ t₁ ++ v :: (t₂ ++ u :: t₃) := by simp
    have hrecords := (hchange v hvmem).recordsStatus hv.1 hv.2 (hr v hvmem)
    have hrecalls : Recalls v.pre.status s₂ := recalls_chained hbetween ⟨hv.2, hrecords⟩
      (fun o ho => hchange o (by simp [ho])) hopen
    subst hlast
    rcases (hchange u humem).recalls hrecalls with hvoid | ⟨hback, -⟩
    · exact absurd hvoid.void hu.2
    · exact hback
  · obtain ⟨hend, hall⟩ := Run.invariant SentStays h
      (fun o ho hpre => (hchange o ho).sentStays (hr o ho) hpre) hs
    exact ⟨fun o ho hsent hdraft => hsent ((hall o ho).draft hdraft),
      fun hsent hdraft => hsent (hend.draft hdraft)⟩

/-! ### Samples: an archive, a send and an undo request -/

def sampleRequests : List (Prog machine.Stmt Unit) :=
  [archiveInvoice.bind fun _ => .ret (), (sendDraftInvoice sampleConfig).bind fun _ => .ret (),
    undoVoid.bind fun _ => .ret ()]

theorem sampleRequests_deployed : ∀ p ∈ sampleRequests, Deployed sampleConfig True p :=
  List.forall_mem_cons.mpr ⟨.archiveInvoice, List.forall_mem_cons.mpr
    ⟨.sendDraftInvoice trivial, List.forall_mem_singleton.mpr .undoVoid⟩⟩

/-- Thread `i` moves `n` times. -/
def turns (i n : ℕ) : List (ℕ × Choice) := List.replicate n (i, sampleChoice)

/-- Sent, then voided, then undone. -/
def sampleSchedule : List (ℕ × Choice) := turns 1 7 ++ turns 0 5 ++ turns 2 4

theorem void_undo_sample : ∃ tr d, Run (Deployed sampleConfig True) sampleStart tr d ∧
    (∃ o ∈ tr, Voids o) ∧ (∃ o ∈ tr, Reopens o) ∧ d.state.status = .sent ∧
    (∀ o ∈ tr, VoidsAsRead o.thread o.stmt o.pre) ∧
    ∀ o ∈ tr, o.pre.committed.invoice.sentAt ≠ none → o.pre.status ≠ .draft := by
  have hrun : Run (M := machine) (Deployed sampleConfig True) sampleStart _ _ :=
    Run.of_schedule (M := machine) sampleRequests
    sampleRequests_deployed sampleSchedule
  obtain ⟨hiff, hkeeps⟩ := void_undo hrun rfl ⟨fun _ => rfl, fun _ _ => rfl⟩
  have hread := hiff.mp (by decide +kernel)
  exact ⟨_, _, hrun, by decide +kernel, by decide +kernel, by decide +kernel, hread,
    (hkeeps hread).2.1⟩

/-- The archive request reads a draft, which is sent before the void is written. -/
def raceSchedule : List (ℕ × Choice) := turns 0 1 ++ turns 1 7 ++ turns 0 4 ++ turns 2 4

/-- The void records `DRAFT` of a sent invoice, and the undo makes it a draft again. -/
theorem void_undo_race : ∃ tr d, Run (Deployed sampleConfig True) sampleStart tr d ∧
    (∃ o ∈ tr, Voids o ∧ ¬ RecordsStatus o) ∧
    d.state.committed.invoice.sentAt ≠ none ∧ d.state.status = .draft :=
  ⟨_, _, Run.of_schedule (M := machine) sampleRequests sampleRequests_deployed raceSchedule,
    by decide +kernel, by decide +kernel, by decide +kernel⟩

end Ashbi.Invoicing
