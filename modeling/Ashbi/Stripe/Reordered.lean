import Ashbi.Stripe.Images

/-! Answers in another order: the same settlements return, with the same totals. -/

namespace Ashbi.Stripe

open Checked Keyed

variable {provider provider' : Provider} {value : Invoice} {op : Operation} {currency : String}

/-- A note with its allocations in another order. -/
structure SameNote (note note' : CreditNote) : Prop where
  refunds : note.refunds.Perm note'.refunds
  rest : note' = { note with refunds := note'.refunds }

/-- The answers of one provider with the rows of its lists in another order. -/
structure Permuted (provider provider' : Provider) : Prop where
  payments : provider.payments.Perm provider'.payments
  paymentIntent : provider.paymentIntent = provider'.paymentIntent
  charge : provider.charge = provider'.charge
  refundsOf : ∀ type reference,
    (provider.refundsOf type reference).Perm (provider'.refundsOf type reference)
  related : ∀ reference, (provider.related reference).Perm (provider'.related reference)
  creditNotes : ∃ notes, provider.creditNotes.Perm notes ∧
    List.Forall₂ SameNote notes provider'.creditNotes
  refund : provider.refund = provider'.refund
  balanceTransaction : provider.balanceTransaction = provider'.balanceTransaction

/-- Payments of different types never share a reference. -/
def TypesApart (rows : List PaymentRow) : Prop :=
  ∀ a ∈ rows, ∀ b ∈ rows, ∀ reference, a.payment.bind Source.reference = some reference →
    b.payment.bind Source.reference = some reference →
      a.payment.bind Source.type = b.payment.bind Source.type

theorem SameNote.symm {note note' : CreditNote} (h : SameNote note note') :
    SameNote note' note := by
  obtain ⟨hrefunds, heq⟩ := h
  refine ⟨hrefunds.symm, ?_⟩
  rw [heq]

theorem Permuted.symm (h : Permuted provider provider') : Permuted provider' provider := by
  obtain ⟨notes, hperm, hsame⟩ := h.creditNotes
  refine ⟨h.payments.symm, h.paymentIntent.symm, h.charge.symm,
    fun type reference => (h.refundsOf type reference).symm,
    fun reference => (h.related reference).symm, ?_, h.refund.symm, h.balanceTransaction.symm⟩
  have hflip : List.Forall₂ SameNote provider'.creditNotes notes :=
    List.Forall₂.imp (fun _ _ hnote => hnote.symm) hsame.flip
  have hcomp : Relation.Comp (List.Forall₂ SameNote) List.Perm provider'.creditNotes
      provider.creditNotes := ⟨notes, hflip, hperm.symm⟩
  rw [List.forall₂_comp_perm_eq_perm_comp_forall₂] at hcomp
  exact hcomp

theorem TypesApart.perm {rows rows' : List PaymentRow} (h : TypesApart rows)
    (hperm : rows.Perm rows') : TypesApart rows' :=
  fun a ha b hb => h a (hperm.mem_iff.mpr ha) b (hperm.mem_iff.mpr hb)

/-! ### References -/

theorem mem_keysOf {payments : List Payment} {key : Key} (h : key ∈ keysOf payments) :
    ∃ p ∈ payments, p.status = .paid ∧ key = (p.reference, p.type) := by
  induction payments using List.reverseRecOn with
  | nil => cases h
  | append_singleton payments p ih =>
    rw [keysOf_concat] at h
    split at h
    · obtain ⟨q, hq, hpaid, heq⟩ := ih h
      exact ⟨q, List.mem_append_left _ hq, hpaid, heq⟩
    · rename_i hvisit
      rcases List.mem_append.mp h with h | h
      · obtain ⟨q, hq, hpaid, heq⟩ := ih h
        exact ⟨q, List.mem_append_left _ hq, hpaid, heq⟩
      · refine ⟨p, List.mem_append_right _ List.mem_cons_self, ?_, List.mem_singleton.mp h⟩
        exact not_not.mp fun hne => hvisit (.inl hne)

theorem nodup_keysOf (payments : List Payment) : ((keysOf payments).map Prod.fst).Nodup := by
  induction payments using List.reverseRecOn with
  | nil => exact List.nodup_nil
  | append_singleton payments p ih =>
    rw [keysOf_concat]
    split
    · exact ih
    · rename_i hvisit
      rw [List.map_append, List.map_singleton, ← List.concat_eq_append, List.nodup_concat]
      exact ⟨fun hmem => hvisit (.inr (find_isSome.mpr hmem)), ih⟩

theorem keysOf_covers {payments : List Payment} {p : Payment} (hp : p ∈ payments)
    (hpaid : p.status = .paid) : p.reference ∈ (keysOf payments).map Prod.fst := by
  induction payments using List.reverseRecOn with
  | nil => cases hp
  | append_singleton payments q ih =>
    rw [keysOf_concat]
    rcases List.mem_append.mp hp with hp | hp
    · split
      · exact ih hp
      · rw [List.map_append]
        exact List.mem_append_left _ (ih hp)
    · rw [List.mem_singleton.mp hp] at hpaid ⊢
      split
      · rename_i hskip
        exact find_isSome.mp (hskip.resolve_left fun hne => hne hpaid)
      · rw [List.map_append]
        exact List.mem_append_right _ List.mem_cons_self

/-- Where types are apart, the references are those of the paid payments, in any order. -/
theorem mem_keysOf_iff {payments : List Payment}
    (h : ∀ p ∈ payments, ∀ q ∈ payments, p.reference = q.reference → p.type = q.type) {key : Key} :
    key ∈ keysOf payments ↔ ∃ p ∈ payments, p.status = .paid ∧ key = (p.reference, p.type) := by
  constructor
  · exact mem_keysOf
  · rintro ⟨p, hp, hpaid, rfl⟩
    obtain ⟨key, hkey, hfst⟩ := List.mem_map.mp (keysOf_covers hp hpaid)
    obtain ⟨q, hq, -, rfl⟩ := mem_keysOf hkey
    rwa [← h q hq p hp hfst, ← hfst]

theorem apart_of_rows {rows : List PaymentRow} (h : TypesApart rows)
    (hrows : ∀ row ∈ rows, RowOk op currency row) :
    ∀ p ∈ rows.map paymentOf, ∀ q ∈ rows.map paymentOf,
      p.reference = q.reference → p.type = q.type := by
  intro p hp q hq heq
  obtain ⟨a, ha, rfl⟩ := List.mem_map.mp hp
  obtain ⟨b, hb, rfl⟩ := List.mem_map.mp hq
  obtain ⟨-, typeA, referenceA, htypeA, hreferenceA, -⟩ := hrows a ha
  obtain ⟨-, typeB, referenceB, htypeB, hreferenceB, -⟩ := hrows b hb
  simp only [paymentOf, htypeA, htypeB, hreferenceA, hreferenceB, Option.getD_some] at heq ⊢
  subst heq
  have htypes := h a ha b hb referenceA hreferenceA hreferenceB
  rw [htypeA, htypeB] at htypes
  exact Option.some.inj htypes

theorem amountsAt_perm {payments payments' : List Payment} (hperm : payments.Perm payments')
    (reference : String) : (amountsAt payments reference).Perm (amountsAt payments' reference) :=
  (hperm.filter _).map _

section Rows

variable (h : Permuted provider provider')

include h

theorem Permuted.paymentsOf : (paymentsOf provider).Perm (paymentsOf provider') :=
  h.payments.map _

theorem Permuted.referencesOf (hapart : TypesApart provider.payments)
    (hrows : ∀ row ∈ provider.payments, RowOk op currency row) :
    (referencesOf provider).Perm (referencesOf provider') := by
  have hap : ∀ p ∈ Stripe.paymentsOf provider, ∀ q ∈ Stripe.paymentsOf provider,
      p.reference = q.reference → p.type = q.type := apart_of_rows hapart hrows
  have hap' : ∀ p ∈ Stripe.paymentsOf provider', ∀ q ∈ Stripe.paymentsOf provider',
      p.reference = q.reference → p.type = q.type :=
    fun p hp q hq => hap p (h.paymentsOf.mem_iff.mpr hp) q (h.paymentsOf.mem_iff.mpr hq)
  refine (List.perm_ext_iff_of_nodup (nodup_keysOf _).of_map (nodup_keysOf _).of_map).mpr ?_
  intro key
  rw [mem_keysOf_iff hap, mem_keysOf_iff hap']
  simp only [h.paymentsOf.mem_iff]

theorem Permuted.rowsOf (key : Key) : (rowsOf provider key).Perm (rowsOf provider' key) := by
  rw [Stripe.rowsOf, Stripe.rowsOf]
  split
  · exact .refl _
  · exact h.refundsOf key.2 key.1

theorem Permuted.imagesOf (key : Key) : (imagesOf provider key).Perm (imagesOf provider' key) :=
  (h.rowsOf key).map _

theorem Permuted.rowsOf_nil (key : Key) :
    Stripe.rowsOf provider key = [] ↔ Stripe.rowsOf provider' key = [] := by
  rw [← List.length_eq_zero_iff, (h.rowsOf key).length_eq, List.length_eq_zero_iff]

theorem Permuted.completeAt (key : Key) :
    completeAt provider op key = completeAt provider' op key := by
  have hany : (provider.related key.1).any (elsewhere op) =
      (provider'.related key.1).any (elsewhere op) := (h.related key.1).any_eq
  rw [Stripe.completeAt, Stripe.completeAt, hany]
  congr 1
  rw [Bool.eq_iff_iff, List.isEmpty_iff, List.isEmpty_iff, h.rowsOf_nil]

theorem Permuted.costOf (key : Key) : costOf provider key = costOf provider' key := by
  rw [Stripe.costOf, Stripe.costOf, (h.rowsOf key).length_eq, (h.related key.1).length_eq]
  simp only [ne_eq, h.rowsOf_nil]

theorem Permuted.keyOk {payments payments' : List Payment} (hperm : payments.Perm payments')
    {key : Key} (hkey : KeyOk provider op currency payments key) :
    KeyOk provider' op currency payments' key := by
  have hamounts := amountsAt_perm hperm key.1
  have hsucceeded : (succeededAmounts (Stripe.rowsOf provider key)).Perm
      (succeededAmounts (Stripe.rowsOf provider' key)) := ((h.rowsOf key).filter _).map _
  refine hkey.imp_right ?_
  rintro ⟨remote, hremote, hwrong, hmoney, hpaid, hle, hlisted, hrefunds, hsum, hrefunded, hrelated⟩
  refine ⟨remote, ?_, hwrong, hmoney, hpaid.perm hamounts, hamounts.sum_eq ▸ hle,
    hlisted.perm ((h.rowsOf key).map _), fun row hrow => hrefunds row
      ((h.rowsOf key).mem_iff.mpr hrow),
    hsum.perm hsucceeded, hsucceeded.sum_eq ▸ hrefunded, fun hne hintent => ?_⟩
  · rwa [remoteOf, ← h.paymentIntent, ← h.charge]
  · obtain ⟨hids, hsome, hall⟩ := hrelated (fun hnil => hne ((h.rowsOf_nil key).mp hnil)) hintent
    refine ⟨hids.perm ((h.related key.1).map _), fun hnil => ?_,
      fun row hrow => hall row ((h.related key.1).mem_iff.mpr hrow)⟩
    have hperm' := h.related key.1
    rw [hnil] at hperm'
    exact hsome hperm'.eq_nil

end Rows

/-! ### Refunds and shares -/

theorem find_perm {keys keys' : List Key} (hperm : keys.Perm keys')
    (hnodup : (keys.map Prod.fst).Nodup) (reference : String) :
    find Prod.fst keys reference = find Prod.fst keys' reference := by
  have hnodup' : (keys'.map Prod.fst).Nodup := (hperm.map _).nodup_iff.mp hnodup
  apply Option.ext
  intro key
  rw [find_iff hnodup, find_iff hnodup', hperm.mem_iff]

theorem fetchOk_perm {keys keys' : List Key} (hperm : keys.Perm keys')
    (hnodup : (keys.map Prod.fst).Nodup) (hrefund : provider.refund = provider'.refund)
    {id : String} (h : FetchOk provider op currency keys id) :
    FetchOk provider' op currency keys' id := by
  have htype : ∀ ref, typeIn keys ref = typeIn keys' ref := by
    intro ref
    simp only [typeIn, find_perm hperm hnodup]
  obtain ⟨remote, type, hremote, hfound, hrest⟩ := h
  rw [htype, htype] at hfound
  exact ⟨remote, type, hrefund ▸ hremote, hfound, hrest⟩

theorem fetched_perm (hrefund : provider.refund = provider'.refund) (id : String) :
    fetched provider id = fetched provider' id := by
  rw [fetched, fetched, hrefund]

theorem fetchedIds_perm {base base' : List Refund} {shares shares' : List Share}
    (hbase : base.Perm base') (hshares : shares.Perm shares') :
    (fetchedIds base shares).Perm (fetchedIds base' shares') := by
  refine (List.perm_ext_iff_of_nodup nodup_fetchedIds nodup_fetchedIds).mpr fun id => ?_
  rw [mem_fetchedIds, mem_fetchedIds, (hbase.map _).mem_iff, (hshares.map _).mem_iff]

theorem known_perm {base base' : List Refund} {shares shares' : List Share}
    (hrefund : provider.refund = provider'.refund) (hbase : base.Perm base')
    (hshares : shares.Perm shares') :
    (known provider base shares).Perm (known provider' base' shares') := by
  have hfetched : fetched provider = fetched provider' := funext (fetched_perm hrefund)
  rw [known, known, hfetched]
  exact hbase.append ((fetchedIds_perm hbase hshares).map _)

theorem amountTo_perm {shares shares' : List Share} (hshares : shares.Perm shares') (id : String) :
    amountTo shares id = amountTo shares' id :=
  ((hshares.filter _).map _).sum_eq

theorem SharesOk.perm {keys keys' : List Key} {base base' : List Refund}
    {shares shares' : List Share} (hrefund : provider.refund = provider'.refund)
    (hkeys : keys.Perm keys') (hnodup : (keys.map Prod.fst).Nodup) (hbase : base.Perm base')
    (hshares : shares.Perm shares') (h : SharesOk provider op currency keys base shares) :
    SharesOk provider' op currency keys' base' shares' := by
  refine ⟨fun share hshare => ?_, fun share hshare => ?_, fun refund hmem => ?_⟩
  · refine (h.fetch share (hshares.mem_iff.mpr hshare)).imp ?_ ?_
    · exact (hbase.map _).mem_iff.mp
    · exact fetchOk_perm hkeys hnodup hrefund
  · exact h.amount share (hshares.mem_iff.mpr hshare)
  · rw [← amountTo_perm hshares]
    exact h.within refund ((known_perm hrefund hbase hshares).mem_iff.mpr hmem)

/-! ### Notes -/

section Notes

variable {note note' : CreditNote}

theorem SameNote.sharesOf (h : SameNote note note') :
    (sharesOf note.refunds).Perm (sharesOf note'.refunds) :=
  (h.refunds.filter _).map _

theorem SameNote.noteShares (h : SameNote note note') :
    (noteShares note).Perm (noteShares note') := by
  have hstatus : note'.status = note.status := by
    rw [h.rest]
  rw [Stripe.noteShares, Stripe.noteShares, hstatus]
  split
  · exact h.sharesOf
  · exact .refl _

theorem SameNote.creditOf (h : SameNote note note') : creditOf note = creditOf note' := by
  have hshares := (h.sharesOf.map Prod.snd).sum_eq
  have hexternals : (externalsOf note.refunds).sum = (externalsOf note'.refunds).sum :=
    ((h.refunds.filter _).map _).sum_eq
  rw [h.rest] at hshares hexternals ⊢
  simp only [Stripe.creditOf, hshares, hexternals]

theorem SameNote.noteOk (hbalance : provider.balanceTransaction = provider'.balanceTransaction)
    (h : SameNote note note') (hnote : NoteOk provider op currency note) :
    NoteOk provider' op currency note' := by
  have hcredit := h.creditOf
  have hrest := h.rest
  refine ⟨?_, ?_, ?_, ?_, ?_, ?_, ?_⟩
  · rw [hrest]
    exact hnote.checked
  · rw [hrest]
    exact hnote.split
  · rw [← h.refunds.length_eq]
    exact hnote.few
  · rw [hrest]
    exact hnote.outOfBand
  · intro hissued allocation hmem
    rw [hrest] at hissued
    exact hnote.allocations hissued allocation (h.refunds.mem_iff.mpr hmem)
  · intro hissued
    rw [← hcredit]
    rw [hrest] at hissued
    exact hnote.rest hissued
  · have hok := hnote.balance
    rw [BalanceOk, hcredit, hbalance] at hok
    rw [BalanceOk]
    rw [hrest] at hok ⊢
    exact hok

theorem SameNote.balanceReads (h : SameNote note note') :
    balanceReads note = balanceReads note' := by
  rw [Stripe.balanceReads, Stripe.balanceReads, h.creditOf]

theorem flatMap_noteShares {notes notes' : List CreditNote}
    (h : List.Forall₂ SameNote notes notes') :
    (notes.flatMap Stripe.noteShares).Perm (notes'.flatMap Stripe.noteShares) := by
  induction h with
  | nil => exact .refl _
  | cons hnote _ ih =>
    rw [List.flatMap_cons, List.flatMap_cons]
    exact hnote.noteShares.append ih

/-- What is the same of two notes is the same of the notes in two lists. -/
theorem map_sameNote {β : Type} {f : CreditNote → β}
    (hf : ∀ {note note'}, SameNote note note' → f note = f note') {notes notes' : List CreditNote}
    (h : List.Forall₂ SameNote notes notes') : notes.map f = notes'.map f := by
  induction h with
  | nil => rfl
  | cons hnote _ ih => rw [List.map_cons, List.map_cons, hf hnote, ih]

end Notes

section Lists

variable (h : Permuted provider provider')

include h

theorem Permuted.map_notes {β : Type} {f : CreditNote → β}
    (hf : ∀ {note note'}, SameNote note note' → f note = f note') :
    (provider.creditNotes.map f).Perm (provider'.creditNotes.map f) := by
  obtain ⟨notes, hperm, hsame⟩ := h.creditNotes
  rw [← map_sameNote hf hsame]
  exact hperm.map f

theorem Permuted.sharesIn : (sharesIn provider).Perm (sharesIn provider') := by
  obtain ⟨notes, hperm, hsame⟩ := h.creditNotes
  exact (hperm.flatMap_right noteShares).trans (flatMap_noteShares hsame)

theorem Permuted.creditsIn : (creditsIn provider).Perm (creditsIn provider') :=
  h.map_notes SameNote.creditOf

theorem Permuted.noteOk (hnotes : ∀ note ∈ provider.creditNotes, NoteOk provider op currency note) :
    ∀ note ∈ provider'.creditNotes, NoteOk provider' op currency note := by
  obtain ⟨notes, hperm, hsame⟩ := h.creditNotes
  have hmem : ∀ note ∈ notes, NoteOk provider op currency note :=
    fun note hnote => hnotes note (hperm.mem_iff.mpr hnote)
  clear hperm
  generalize provider'.creditNotes = notes' at hsame ⊢
  induction hsame with
  | nil => exact fun note hnote => (List.not_mem_nil hnote).elim
  | cons hfirst _ ih =>
    intro note hnote
    rcases List.mem_cons.mp hnote with rfl | hnote
    · exact hfirst.noteOk h.balanceTransaction (hmem _ List.mem_cons_self)
    · exact ih (fun m hm => hmem m (List.mem_cons_of_mem _ hm)) note hnote

end Lists

/-! ### Totals -/

section Totals

variable {complete : Bool} {credits credits' : List Credit} {refunds refunds' : List Refund}

theorem issuedOf_perm (hcredits : credits.Perm credits') (f : Credit → ℤ) :
    ((issuedOf credits).map f).Perm ((issuedOf credits').map f) :=
  (hcredits.filter _).map f

theorem amountsOf_perm (hrefunds : refunds.Perm refunds') (statuses : List RefundStatus) :
    (amountsOf refunds statuses).Perm (amountsOf refunds' statuses) :=
  (hrefunds.filter _).map _

theorem TotalsOk.perm (hcredits : credits.Perm credits') (hrefunds : refunds.Perm refunds')
    (h : TotalsOk value complete credits refunds) : TotalsOk value complete credits' refunds' where
  pre := h.pre.perm (issuedOf_perm hcredits _)
  post := h.post.perm (issuedOf_perm hcredits _)
  pre_eq := (issuedOf_perm hcredits _).sum_eq ▸ h.pre_eq
  post_eq := (issuedOf_perm hcredits _).sum_eq ▸ h.post_eq
  balance := h.balance.perm (issuedOf_perm hcredits _)
  outOfBand := h.outOfBand.perm (issuedOf_perm hcredits _)
  allocated := h.allocated.perm (issuedOf_perm hcredits _)
  external := h.external.perm (issuedOf_perm hcredits _)
  refunded := fun hcomplete => (h.refunded hcomplete).perm (amountsOf_perm hrefunds _)
  pending := fun hcomplete => (h.pending hcomplete).perm (amountsOf_perm hrefunds _)
  failed := fun hcomplete => (h.failed hcomplete).perm (amountsOf_perm hrefunds _)
  canceled := fun hcomplete => (h.canceled hcomplete).perm (amountsOf_perm hrefunds _)

theorem totalsOf_perm (hcredits : credits.Perm credits') (hrefunds : refunds.Perm refunds')
    (recorded : ℤ) :
    totalsOf value recorded complete credits refunds =
      totalsOf value recorded complete credits' refunds' := by
  have hissued : ∀ f : Credit → ℤ,
    ((issuedOf credits).map f).sum = ((issuedOf credits').map f).sum :=
    fun f => (issuedOf_perm hcredits f).sum_eq
  have hamounts : ∀ statuses, (amountsOf refunds statuses).sum =
    (amountsOf refunds' statuses).sum :=
    fun statuses => (amountsOf_perm hrefunds statuses).sum_eq
  simp only [totalsOf, hissued, hamounts]

end Totals

/-! ### Settlements -/

/-- What is the same of accepted answers and of their order. -/
structure Alike (provider provider' : Provider) (op : Operation) : Prop where
  payments : (paymentsOf provider).Perm (paymentsOf provider')
  references : (referencesOf provider).Perm (referencesOf provider')
  base : (baseOf provider).Perm (baseOf provider')
  refunds : (refundsIn provider).Perm (refundsIn provider')
  credits : (creditsIn provider).Perm (creditsIn provider')
  complete : completeIn provider op = completeIn provider' op

variable (h : Permuted provider provider') (hapart : TypesApart provider.payments)
  (haccepted : Accepted provider value op currency)

include h hapart haccepted

theorem Permuted.alike : Alike provider provider' op := by
  have hreferences := h.referencesOf hapart haccepted.rows
  have hbase : (baseOf provider).Perm (baseOf provider') :=
    hreferences.flatMap fun key _ => h.imagesOf key
  have hknown := known_perm h.refund hbase h.sharesIn
  refine ⟨h.paymentsOf, hreferences, hbase, ?_, h.creditsIn, ?_⟩
  · exact merged_perm (haccepted.notes.2.consistent haccepted.references.2)
      fun refund => hknown.mem_iff
  · rw [completeIn, completeIn, hreferences.all_eq]
    exact List.all_congr rfl fun key => h.completeAt key

theorem Permuted.accepted : Accepted provider' value op currency := by
  have halike := h.alike hapart haccepted
  have hamounts := halike.payments.map (·.amountMinor)
  refine ⟨haccepted.paymentIds.perm (h.payments.map _),
    fun row hrow => haccepted.rows row (h.payments.mem_iff.mpr hrow),
    haccepted.amounts.perm hamounts, ?_, ⟨fun key hkey => ?_, ?_⟩, ?_,
      ⟨h.noteOk haccepted.notes.1, ?_⟩,
    ?_⟩
  · rw [recordedIn, ← hamounts.sum_eq]
    exact haccepted.recorded
  · exact h.keyOk halike.payments
      (haccepted.references.1 key (halike.references.mem_iff.mpr hkey))
  · exact haccepted.references.2.subset halike.base.symm.subset
  · exact haccepted.noteIds.perm (h.map_notes fun hsame => by rw [hsame.rest])
  · exact haccepted.notes.2.perm h.refund halike.references (nodup_keysOf _) halike.base h.sharesIn
  · rw [← halike.complete]
    exact haccepted.totals.perm halike.credits halike.refunds

theorem Permuted.readsOf : readsOf provider = readsOf provider' := by
  have halike := h.alike hapart haccepted
  have hcosts : ((Stripe.referencesOf provider).map (Stripe.costOf provider)).sum =
      ((Stripe.referencesOf provider').map (Stripe.costOf provider')).sum := by
    rw [(halike.references.map _).sum_eq]
    congr 1
    exact List.map_congr_left fun key _ => h.costOf key
  have hnotes := (h.map_notes SameNote.balanceReads).sum_eq
  have hfetched := (fetchedIds_perm halike.base h.sharesIn).length_eq
  have hlength : provider.creditNotes.length = provider'.creditNotes.length := by
    simpa using (h.map_notes (f := fun _ => ()) fun _ => rfl).length_eq
  rw [Stripe.readsOf, Stripe.readsOf, h.payments.length_eq, hcosts, hlength, noteReads, noteReads,
    hnotes]
  rw [Stripe.sharesIn, Stripe.sharesIn] at hfetched
  rw [hfetched]

end Ashbi.Stripe
