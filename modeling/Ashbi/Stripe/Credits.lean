import Ashbi.Stripe.Shares

/-! The loop over the credit notes: what they allocate to refunds, and which answers let it pass. -/

namespace Ashbi.Stripe

open Checked Keyed

variable {n n' : ℕ} {r : Amounts} {provider : Provider} {op : Operation} {currency : String}
  {references : List Key} {base rows : List Refund} {id : String}

/-! ### The loop over the allocations of a note -/

/-- What is checked of an allocation by itself. -/
def AllocationOk (allocation : Allocation) : Prop :=
  money allocation.amountRefunded = true ∧
    if allocation.type = some .paymentRecordRefund then wrongRecordRefund allocation = false
    else allocation.type ≠ some .other ∧ ext allocation.refund "re" = true

def shareOf (allocation : Allocation) : Share := (allocation.refund, allocation.amountRefunded)

/-- The amounts that allocations take from refunds of the provider. -/
def sharesOf (allocations : List Allocation) : List Share :=
  (allocations.filter (·.type ≠ some .paymentRecordRefund)).map shareOf

/-- The amounts that were refunded outside of the provider. -/
def externalsOf (allocations : List Allocation) : List ℤ :=
  (allocations.filter (·.type = some .paymentRecordRefund)).map (·.amountRefunded)

theorem allocate_share {allocation : Allocation} {x y : ℤ} {s' : Allocated}
    (hbase : Consistent Refund.id base)
    (hmoney : ∀ refund ∈ base, money refund.amountMinor = true)
    (h : SharesOk provider op currency references base shares) (hn : n ≤ readLimit)
    (htype : allocation.type ≠ some .paymentRecordRefund) :
    allocate r provider op currency references
        { refunds := merged Refund.id (known provider base shares),
          allocations := allocationsOf shares, refundAllocatedMinor := x,
          reportedExternalRefundMinor := y } allocation n = .ok (s', n') ↔
      AllocationOk allocation ∧
        SharesOk provider op currency references base (shares ++ [shareOf allocation]) ∧
        s' = { refunds := merged Refund.id (known provider base (shares ++ [shareOf allocation])),
               allocations := allocationsOf (shares ++ [shareOf allocation]),
               refundAllocatedMinor := r.plus x allocation.amountRefunded,
               reportedExternalRefundMinor := y } ∧
        n' + (fetchedIds base shares).length =
          n + (fetchedIds base (shares ++ [shareOf allocation])).length ∧ n' ≤ readLimit := by
  have hlocal : AllocationOk allocation ↔ money allocation.amountRefunded = true ∧
      allocation.type ≠ some .other ∧ ext allocation.refund "re" = true := by
    rw [AllocationOk, if_neg htype]
  rw [allocate, hlocal, sharesOk_concat, allocationsOf_concat]
  simp only [htype, if_false, bind_returned, lift_returned, mismatch_ok, found_ok, pure_returned,
    find_allocationsOf, h, true_and, Bool.not_eq_false', Bool.or_eq_false_iff,
    decide_eq_false_iff_not, not_lt]
  have hrefund := @findRefund_share n n' provider op currency references base shares
    (shareOf allocation)
  constructor
  · rintro ⟨_, _, ⟨hamount, rfl⟩, _, _, ⟨hlocal', rfl⟩, refunds, _, hfind, refund, _,
      ⟨hsome, rfl⟩, _, _, ⟨hle, rfl⟩, rfl, rfl⟩
    obtain ⟨hfetch, rfl, hcost, hmem, hid⟩ := (hrefund hbase h hn).mp ⟨hfind, hsome⟩
    obtain ⟨hplus, heq⟩ := plus_within r (amountTo_nonneg h.amount) hamount
      (h.known_money hmoney hfetch refund hmem)
    have hle' := hplus.mp hle
    rw [heq hle', hid]
    refine ⟨⟨hamount, hlocal'⟩, ⟨hfetch, hamount, ?_⟩, rfl, hcost⟩
    intro other hother hkey
    rw [h.known_new hbase hfetch other hother refund hmem (hkey.trans hid.symm), ← hid]
    exact hle'
  · rintro ⟨⟨hamount, hlocal'⟩, ⟨hfetch, -, hwithin⟩, rfl, hcost⟩
    obtain ⟨refund, hmem, hid⟩ := h.exists_known hfetch
    obtain ⟨hplus, heq⟩ := plus_within r (amountTo_nonneg h.amount) hamount
      (h.known_money hmoney hfetch refund hmem)
    have hle : amountTo shares refund.id + allocation.amountRefunded ≤ refund.amountMinor := by
      rw [hid]
      exact hwithin refund hmem hid
    obtain ⟨hfind, hsome⟩ := (hrefund hbase h hn).mpr ⟨hfetch, rfl, hcost, hmem, hid⟩
    refine ⟨(), n, ⟨hamount, rfl⟩, (), n, ⟨hlocal', rfl⟩, _, n', hfind, refund, n', ⟨hsome, rfl⟩,
      (), n', ⟨hplus.mpr hle, rfl⟩, ?_, rfl⟩
    rw [heq hle, hid]
    rfl

theorem allocate_external {allocation : Allocation} {s s' : Allocated} (hn : n ≤ readLimit)
    (htype : allocation.type = some .paymentRecordRefund) :
    allocate r provider op currency references s allocation n = .ok (s', n') ↔
      AllocationOk allocation ∧
        s' = { s with reportedExternalRefundMinor :=
                 r.plus s.reportedExternalRefundMinor allocation.amountRefunded } ∧
        n' = n ∧ n' ≤ readLimit := by
  rw [allocate, AllocationOk, if_pos htype]
  simp only [htype, if_true, bind_returned, lift_returned, mismatch_ok, pure_returned,
    Bool.not_eq_false']
  constructor
  · rintro ⟨_, _, ⟨hamount, rfl⟩, _, _, ⟨hrecord, rfl⟩, rfl, rfl⟩
    exact ⟨⟨hamount, hrecord⟩, rfl, rfl, hn⟩
  · rintro ⟨⟨hamount, hrecord⟩, rfl, rfl, -⟩
    exact ⟨(), _, ⟨hamount, rfl⟩, (), _, ⟨hrecord, rfl⟩, rfl, rfl⟩

theorem sharesOf_concat (allocations : List Allocation) (allocation : Allocation) :
    sharesOf (allocations ++ [allocation]) =
      if allocation.type = some .paymentRecordRefund then sharesOf allocations
      else sharesOf allocations ++ [shareOf allocation] := by
  by_cases h : allocation.type = some .paymentRecordRefund <;> simp [sharesOf, h]

theorem externalsOf_concat (allocations : List Allocation) (allocation : Allocation) :
    externalsOf (allocations ++ [allocation]) =
      if allocation.type = some .paymentRecordRefund then
        externalsOf allocations ++ [allocation.amountRefunded]
      else externalsOf allocations := by
  by_cases h : allocation.type = some .paymentRecordRefund <;> simp [externalsOf, h]

theorem length_fetchedIds_le : (fetchedIds base shares).length ≤
    (fetchedIds base (shares ++ [share])).length := by
  rw [fetchedIds_concat]
  split <;> simp

theorem length_fetchedIds_append {more : List Share} : (fetchedIds base shares).length ≤
    (fetchedIds base (shares ++ more)).length := by
  induction more using List.reverseRecOn with
  | nil => rw [List.append_nil]
  | append_singleton more share ih =>
    rw [← List.append_assoc]
    exact ih.trans length_fetchedIds_le

/-- What the loop over some allocations leaves, after shares of earlier notes. -/
def allocatedAfter (r : Amounts) (provider : Provider) (base : List Refund) (earlier : List Share)
    (allocations : List Allocation) : Allocated :=
  { refunds := merged Refund.id (known provider base (earlier ++ sharesOf allocations)),
    allocations := allocationsOf (earlier ++ sharesOf allocations),
    refundAllocatedMinor := r.accumulate 0 ((sharesOf allocations).map Prod.snd),
    reportedExternalRefundMinor := r.accumulate 0 (externalsOf allocations) }

theorem loop_allocations (hbase : Consistent Refund.id base)
    (hmoney : ∀ refund ∈ base, money refund.amountMinor = true) (earlier : List Share) :
    Loop readLimit (allocate r provider op currency references)
      (fun allocations => (∀ allocation ∈ allocations, AllocationOk allocation) ∧
        SharesOk provider op currency references base (earlier ++ sharesOf allocations))
      (allocatedAfter r provider base earlier)
      (fun allocations => (fetchedIds base (earlier ++ sharesOf allocations)).length) where
  init := by
    intro allocations allocation h
    refine ⟨fun a ha => h.1 a (List.mem_append_left _ ha), ?_⟩
    have hshares := h.2
    rw [sharesOf_concat] at hshares
    split at hshares
    · exact hshares
    · rw [← List.append_assoc] at hshares
      exact (sharesOk_concat.mp hshares).1
  mono := by
    intro allocations allocation _
    rw [sharesOf_concat]
    split
    · exact le_rfl
    · rw [← List.append_assoc]
      exact length_fetchedIds_le
  step := by
    intro allocations allocation s' n n' h hn
    simp only [allocatedAfter, List.mem_append, List.mem_singleton, or_imp, forall_and, forall_eq,
      sharesOf_concat, externalsOf_concat]
    by_cases htype : allocation.type = some .paymentRecordRefund
    · simp only [htype, if_true]
      rw [allocate_external hn htype, Rounding.accumulate_concat]
      constructor
      · rintro ⟨hok, rfl, rfl, hle⟩
        exact ⟨⟨⟨h.1, hok⟩, h.2⟩, rfl, rfl, hle⟩
      · rintro ⟨⟨⟨-, hok⟩, -⟩, rfl, hcost, hle⟩
        exact ⟨hok, rfl, Nat.add_right_cancel hcost, hle⟩
    · simp only [htype, if_false, ← List.append_assoc, List.map_append, List.map_singleton]
      rw [allocate_share hbase hmoney h.2 hn htype, Rounding.accumulate_concat]
      constructor
      · rintro ⟨hok, hshares, rfl, hcost, hle⟩
        exact ⟨⟨⟨h.1, hok⟩, hshares⟩, rfl, hcost, hle⟩
      · rintro ⟨⟨⟨-, hok⟩, hshares⟩, rfl, hcost, hle⟩
        exact ⟨hok, hshares, rfl, hcost, hle⟩

theorem allocations_returned {allocations : List Allocation} {t : Allocated}
    (hbase : Consistent Refund.id base)
    (hmoney : ∀ refund ∈ base, money refund.amountMinor = true)
    (h : SharesOk provider op currency references base shares) (hn : n ≤ readLimit) :
    allocations.foldlM (allocate r provider op currency references)
        { refunds := merged Refund.id (known provider base shares),
          allocations := allocationsOf shares, refundAllocatedMinor := 0,
          reportedExternalRefundMinor := 0 } n = .ok (t, n') ↔
      ((∀ allocation ∈ allocations, AllocationOk allocation) ∧
        SharesOk provider op currency references base (shares ++ sharesOf allocations)) ∧
        t = allocatedAfter r provider base shares allocations ∧
        n' + (fetchedIds base shares).length =
          n + (fetchedIds base (shares ++ sharesOf allocations)).length ∧ n' ≤ readLimit := by
  have hempty : shares ++ sharesOf [] = shares := List.append_nil _
  have hstart : allocatedAfter r provider base shares [] =
      { refunds := merged Refund.id (known provider base shares),
        allocations := allocationsOf shares, refundAllocatedMinor := 0,
        reportedExternalRefundMinor := 0 } := by
    rw [allocatedAfter, hempty]
    rfl
  have hrun : allocations.foldlM (allocate r provider op currency references)
      (allocatedAfter r provider base shares []) n = .ok (t, n') ↔
        ((∀ allocation ∈ allocations, AllocationOk allocation) ∧
          SharesOk provider op currency references base (shares ++ sharesOf allocations)) ∧
        t = allocatedAfter r provider base shares allocations ∧
        n' + (fetchedIds base (shares ++ sharesOf [])).length =
          n + (fetchedIds base (shares ++ sharesOf allocations)).length ∧ n' ≤ readLimit :=
    (loop_allocations hbase hmoney shares).run_all
      ⟨fun a ha => (List.not_mem_nil ha).elim, by rwa [hempty]⟩ hn
  rwa [hstart, hempty] at hrun

/-! ### The loop over the notes -/

/-- The exact image of a credit note. -/
def creditOf (note : CreditNote) : Credit :=
  let outOfBand := note.outOfBandAmount.getD 0
  let allocated := ((sharesOf note.refunds).map Prod.snd).sum
  let external := (externalsOf note.refunds).sum
  { id := note.id, status := note.status, amountMinor := note.amount,
    preMinor := note.prePaymentAmount, postMinor := note.postPaymentAmount,
    refundAllocatedMinor := if note.status = .issued then allocated else 0,
    reportedExternalRefundMinor := if note.status = .issued then external else 0,
    outOfBandMinor := outOfBand,
    balanceCreditMinor := if note.status = .issued then
      note.postPaymentAmount - allocated - external - outOfBand else 0 }

/-- What an issued note takes from refunds. -/
def noteShares (note : CreditNote) : List Share :=
  if note.status = .issued then sharesOf note.refunds else []

def BalanceOk (provider : Provider) (op : Operation) (currency : String) (note : CreditNote) :
    Prop :=
  (creditOf note).balanceCreditMinor ≠ 0 →
    ext note.customerBalanceTransaction "cbtxn" = true ∧
      ∃ balance, provider.balanceTransaction note.customerBalanceTransaction = .ok balance ∧
        wrongBalance op currency note (creditOf note).balanceCreditMinor balance = false

/-- What is checked of a note by itself. -/
structure NoteOk (provider : Provider) (op : Operation) (currency : String) (note : CreditNote) :
    Prop where
  checked : wrongNote op currency note = false
  split : note.amount = note.prePaymentAmount + note.postPaymentAmount
  few : note.refunds.length ≤ 1000
  outOfBand : money (note.outOfBandAmount.getD 0) = true
  allocations : note.status = .issued →
    ∀ allocation ∈ note.refunds, AllocationOk allocation
  rest : note.status = .issued → 0 ≤ (creditOf note).balanceCreditMinor
  balance : BalanceOk provider op currency note

/-- The reads of a note's balance transaction. -/
def balanceReads (note : CreditNote) : ℕ := if (creditOf note).balanceCreditMinor = 0 then 0 else 1

theorem checkBalance_returned {note : CreditNote} {v : ℤ} {u : Unit} (hn : n ≤ readLimit) :
    checkBalance provider op currency note v n = .ok (u, n') ↔
      (v ≠ 0 → ext note.customerBalanceTransaction "cbtxn" = true ∧
        ∃ balance, provider.balanceTransaction note.customerBalanceTransaction = .ok balance ∧
          wrongBalance op currency note v balance = false) ∧
      n' = n + (if v = 0 then 0 else 1) ∧ n' ≤ readLimit := by
  rw [checkBalance]
  by_cases hv : v = 0
  · simp only [hv, if_true, pure_returned, ne_eq, not_true, false_implies, true_and, add_zero]
    constructor
    · rintro rfl
      exact ⟨rfl, hn⟩
    · exact fun h => h.1
  · simp only [hv, if_false, bind_returned, lift_returned, mismatch_ok, get, read_returned, ne_eq,
      not_false_iff, forall_const, Bool.not_eq_false']
    constructor
    · rintro ⟨_, _, ⟨hext, rfl⟩, balance, _, ⟨hbalance, rfl, hle⟩, hwrong, rfl⟩
      exact ⟨⟨hext, balance, hbalance, hwrong⟩, rfl, hle⟩
    · rintro ⟨⟨hext, balance, hbalance, hwrong⟩, rfl, hle⟩
      exact ⟨(), n, ⟨hext, rfl⟩, balance, _, ⟨hbalance, rfl, hle⟩, hwrong, rfl⟩

/-- The rest of a note's amount, as it is computed, is an amount where the exact rest is one. -/
theorem rest_money (r : Amounts) {total z : ℤ} {xs ys : List ℤ} (htotal : money total = true)
    (hz : money z = true) (hxs : ∀ x ∈ xs, money x = true) (hys : ∀ y ∈ ys, money y = true) :
    (money (r.minus (r.minus (r.minus total (r.accumulate 0 xs)) (r.accumulate 0 ys)) z) = true ↔
      0 ≤ total - xs.sum - ys.sum - z) ∧
    (0 ≤ total - xs.sum - ys.sum - z →
      r.minus (r.minus (r.minus total (r.accumulate 0 xs)) (r.accumulate 0 ys)) z =
        total - xs.sum - ys.sum - z ∧ r.accumulate 0 xs = xs.sum ∧ r.accumulate 0 ys = ys.sum) := by
  have hlimit : 0 ≤ maxSafe ∧ maxSafe < 9007199254740992 := by decide
  have hxs0 : ∀ x ∈ xs, 0 ≤ x := fun x hx => (money_iff.mp (hxs x hx)).1
  have hys0 : ∀ y ∈ ys, 0 ≤ y := fun y hy => (money_iff.mp (hys y hy)).1
  have hsumx : 0 ≤ xs.sum := List.sum_nonneg hxs0
  have hsumy : 0 ≤ ys.sum := List.sum_nonneg hys0
  have htotal' := money_iff.mp htotal
  have hz' := money_iff.mp hz
  obtain ⟨hiff, heq⟩ := r.rest_spec hlimit htotal' hxs0 hys0 hz'.1
  constructor
  · rw [money_iff, hiff]
    constructor
    · intro h
      omega
    · intro h
      have hle : xs.sum + ys.sum + z ≤ total := by omega
      rw [heq hle]
      exact ⟨hle, by omega⟩
  · intro h
    exact ⟨heq (by omega), (r.accumulate_spec hlimit hxs0).1 (by omega),
      (r.accumulate_spec hlimit hys0).1 (by omega)⟩

theorem sharesOf_money {allocations : List Allocation}
    (h : ∀ allocation ∈ allocations, AllocationOk allocation) :
    ∀ x ∈ (sharesOf allocations).map Prod.snd, money x = true := by
  intro x hx
  simp only [sharesOf, List.map_map, List.mem_map, List.mem_filter] at hx
  obtain ⟨allocation, ⟨hmem, -⟩, rfl⟩ := hx
  exact (h allocation hmem).1

theorem externalsOf_money {allocations : List Allocation}
    (h : ∀ allocation ∈ allocations, AllocationOk allocation) :
    ∀ x ∈ externalsOf allocations, money x = true := by
  intro x hx
  simp only [externalsOf, List.mem_map, List.mem_filter] at hx
  obtain ⟨allocation, ⟨hmem, -⟩, rfl⟩ := hx
  exact (h allocation hmem).1

theorem wrongNote_money {note : CreditNote} (h : wrongNote op currency note = false) :
    money note.amount = true ∧ money note.prePaymentAmount = true ∧
      money note.postPaymentAmount = true := by
  simp only [wrongNote, Bool.or_eq_false_iff, Bool.not_eq_false'] at h
  exact ⟨h.1.1.2, h.1.2, h.2⟩

theorem addCredit_checks (r : Amounts) {note : CreditNote} :
    (wrongNote op currency note ||
      decide (note.amount ≠ r.plus note.prePaymentAmount note.postPaymentAmount) ||
        decide (1000 < note.refunds.length)) = false ↔
    wrongNote op currency note = false ∧
      note.amount = note.prePaymentAmount + note.postPaymentAmount ∧
        note.refunds.length ≤ 1000 := by
  simp only [Bool.or_eq_false_iff, decide_eq_false_iff_not, not_not, not_lt, and_assoc]
  refine and_congr_right fun hwrong => and_congr_left fun _ => ?_
  obtain ⟨hamount, hpre, hpost⟩ := wrongNote_money hwrong
  have hbound : note.amount < 9007199254740992 :=
    lt_of_le_of_lt (money_iff.mp hamount).2 (by decide)
  have hiff := r.plus_eq_iff hbound (money_iff.mp hpre).1 (money_iff.mp hpost).1
  rw [eq_comm, hiff, eq_comm]

theorem addCredit_returned {note : CreditNote} {credits : List Credit} {s' : Credits}
    (hbase : Consistent Refund.id base)
    (hmoney : ∀ refund ∈ base, money refund.amountMinor = true)
    (h : SharesOk provider op currency references base shares) (hn : n ≤ readLimit) :
    addCredit r provider op currency references
        { refunds := merged Refund.id (known provider base shares),
          allocations := allocationsOf shares, credits } note n = .ok (s', n') ↔
      NoteOk provider op currency note ∧
        SharesOk provider op currency references base (shares ++ noteShares note) ∧
        s' = { refunds := merged Refund.id (known provider base (shares ++ noteShares note)),
               allocations := allocationsOf (shares ++ noteShares note),
               credits := credits ++ [creditOf note] } ∧
        n' + (fetchedIds base shares).length =
          n + (fetchedIds base (shares ++ noteShares note)).length + balanceReads note ∧
        n' ≤ readLimit := by
  rw [addCredit]
  simp only [bind_returned, lift_returned, mismatch_ok, addCredit_checks, Bool.not_eq_false']
  by_cases hissued : note.status = .issued
  · have hcredit : (creditOf note).balanceCreditMinor = note.postPaymentAmount -
        ((sharesOf note.refunds).map Prod.snd).sum - (externalsOf note.refunds).sum -
          note.outOfBandAmount.getD 0 := by
      simp only [creditOf, hissued, if_true]
    have hshares : noteShares note = sharesOf note.refunds := if_pos hissued
    simp only [hissued, if_true, bind_returned, lift_returned, mismatch_ok, Bool.not_eq_false',
      pure_returned]
    constructor
    · rintro ⟨_, _, ⟨⟨hwrong, hsplit, hfew⟩, rfl⟩, _, _, ⟨hband, rfl⟩, t, _, hloop, _, _,
        ⟨hrest, rfl⟩, _, _, hcheck, rfl, rfl⟩
      obtain ⟨⟨hallocations, hok⟩, rfl, hcost, hle⟩ :=
        (allocations_returned hbase hmoney h hn).mp hloop
      obtain ⟨hiff, hexact⟩ := rest_money r (wrongNote_money hwrong).2.2 hband
        (sharesOf_money hallocations) (externalsOf_money hallocations)
      have hpos := hiff.mp hrest
      obtain ⟨hbalance, haccx, haccy⟩ := hexact hpos
      rw [allocatedAfter, hbalance, ← hcredit] at hcheck
      obtain ⟨hbalanceOk, rfl, hle'⟩ := (checkBalance_returned hle).mp hcheck
      refine ⟨⟨hwrong, hsplit, hfew, hband, fun _ => hallocations, fun _ => hcredit ▸ hpos,
        hbalanceOk⟩, hshares ▸ hok, ?_, ?_, hle'⟩
      · rw [hshares]
        simp only [allocatedAfter, hbalance, creditOf, hissued, if_true]
        rw [haccx, haccy]
      · rw [hshares, balanceReads]
        omega
    · rintro ⟨hnote, hok, rfl, hcost, hle⟩
      have hallocations := hnote.allocations hissued
      obtain ⟨hiff, hexact⟩ := rest_money r (wrongNote_money hnote.checked).2.2 hnote.outOfBand
        (sharesOf_money hallocations) (externalsOf_money hallocations)
      have hpos := hcredit ▸ hnote.rest hissued
      obtain ⟨hbalance, haccx, haccy⟩ := hexact hpos
      rw [hshares, balanceReads] at hcost
      rw [hshares] at hok
      have hmono : (fetchedIds base shares).length ≤
          (fetchedIds base (shares ++ sharesOf note.refunds)).length :=
        length_fetchedIds_append
      obtain ⟨k, hk⟩ : ∃ k, k + (fetchedIds base shares).length =
          n + (fetchedIds base (shares ++ sharesOf note.refunds)).length :=
        ⟨n + (fetchedIds base (shares ++ sharesOf note.refunds)).length -
          (fetchedIds base shares).length, by omega⟩
      have hkle : k ≤ readLimit := by omega
      refine ⟨(), n, ⟨⟨hnote.checked, hnote.split, hnote.few⟩, rfl⟩, (), n, ⟨hnote.outOfBand, rfl⟩,
        _, k, (allocations_returned hbase hmoney h hn).mpr ⟨⟨hallocations, hok⟩, rfl, hk, hkle⟩,
        (), k, ⟨hiff.mpr hpos, rfl⟩, (), n', ?_, ?_, rfl⟩
      · rw [allocatedAfter, hbalance, ← hcredit]
        exact (checkBalance_returned hkle).mpr ⟨hnote.balance, by omega, hle⟩
      · rw [hshares]
        simp only [allocatedAfter, hbalance, creditOf, hissued, if_true]
        rw [haccx, haccy]
  · have hcredit : (creditOf note).balanceCreditMinor = 0 := by
      rw [creditOf]
      exact if_neg hissued
    have hshares : noteShares note = [] := if_neg hissued
    have hreads : balanceReads note = 0 := if_pos hcredit
    simp only [hissued, if_false, pure_returned, hshares, List.append_nil, hreads, add_zero]
    constructor
    · rintro ⟨_, _, ⟨⟨hwrong, hsplit, hfew⟩, rfl⟩, _, _, ⟨hband, rfl⟩, rfl, rfl⟩
      refine ⟨⟨hwrong, hsplit, hfew, hband, fun h => absurd h hissued, fun h => absurd h hissued,
        fun hne => absurd hcredit hne⟩, h, ?_, rfl, hn⟩
      simp only [creditOf, hissued, if_false]
    · rintro ⟨hnote, -, rfl, hcost, -⟩
      refine ⟨(), n, ⟨⟨hnote.checked, hnote.split, hnote.few⟩, rfl⟩, (), n, ⟨hnote.outOfBand, rfl⟩,
        ?_, Nat.add_right_cancel hcost⟩
      simp only [creditOf, hissued, if_false]

theorem SharesOk.init_append {more : List Share}
    (h : SharesOk provider op currency references base (shares ++ more)) :
    SharesOk provider op currency references base shares := by
  induction more using List.reverseRecOn with
  | nil => rwa [List.append_nil] at h
  | append_singleton more share ih =>
    rw [← List.append_assoc] at h
    exact ih (sharesOk_concat.mp h).1

/-- What is checked of some of the notes. -/
def NotesOk (provider : Provider) (op : Operation) (currency : String) (references : List Key)
    (base : List Refund) (notes : List CreditNote) : Prop :=
  (∀ note ∈ notes, NoteOk provider op currency note) ∧
    SharesOk provider op currency references base (notes.flatMap noteShares)

/-- What the loop over some of the notes leaves. -/
def creditsAfter (provider : Provider) (base : List Refund) (notes : List CreditNote) : Credits :=
  { refunds := merged Refund.id (known provider base (notes.flatMap noteShares)),
    allocations := allocationsOf (notes.flatMap noteShares), credits := notes.map creditOf }

/-- The reads for some of the notes. -/
def noteReads (base : List Refund) (notes : List CreditNote) : ℕ :=
  (fetchedIds base (notes.flatMap noteShares)).length + (notes.map balanceReads).sum

theorem loop_notes (hbase : Consistent Refund.id base)
    (hmoney : ∀ refund ∈ base, money refund.amountMinor = true) :
    Loop readLimit (addCredit r provider op currency references)
      (NotesOk provider op currency references base) (creditsAfter provider base)
      (noteReads base) where
  init := by
    intro notes note h
    have hshares := h.2
    rw [List.flatMap_append] at hshares
    exact ⟨fun m hm => h.1 m (List.mem_append_left _ hm), hshares.init_append⟩
  mono := by
    intro notes note _
    simp only [noteReads, List.flatMap_append, List.map_append, List.sum_append]
    have hle := @length_fetchedIds_append base (notes.flatMap noteShares)
      ([note].flatMap noteShares)
    omega
  step := by
    intro notes note s' n n' h hn
    rw [creditsAfter, addCredit_returned hbase hmoney h.2 hn]
    simp only [NotesOk, creditsAfter, noteReads, List.flatMap_append, List.flatMap_singleton,
      List.map_append, List.map_singleton, List.sum_append, List.sum_singleton, List.mem_append,
      List.mem_singleton, or_imp, forall_and, forall_eq]
    constructor
    · rintro ⟨hnote, hshares, rfl, hcost, hle⟩
      exact ⟨⟨⟨h.1, hnote⟩, hshares⟩, rfl, by omega, hle⟩
    · rintro ⟨⟨⟨-, hnote⟩, hshares⟩, rfl, hcost, hle⟩
      exact ⟨hnote, hshares, rfl, by omega, hle⟩

theorem notes_returned {notes : List CreditNote} {s : Credits}
    (hbase : Consistent Refund.id base)
    (hmoney : ∀ refund ∈ base, money refund.amountMinor = true) (hn : n ≤ readLimit) :
    notes.foldlM (addCredit r provider op currency references)
        { refunds := merged Refund.id base, allocations := [], credits := [] } n = .ok (s, n') ↔
      NotesOk provider op currency references base notes ∧ s = creditsAfter provider base notes ∧
        n' = n + noteReads base notes ∧ n' ≤ readLimit := by
  have hempty : NotesOk provider op currency references base [] := by
    refine ⟨fun note hnote => (List.not_mem_nil hnote).elim, ?_⟩
    refine ⟨fun share hshare => ?_, fun share hshare => ?_, fun refund hrefund => ?_⟩
    · cases hshare
    · cases hshare
    · have hbase' : refund ∈ base := by
        simpa [known, fetchedIds] using hrefund
      exact (money_iff.mp (hmoney refund hbase')).1
  have hstart : creditsAfter provider base [] =
      { refunds := merged Refund.id base, allocations := [], credits := [] } := by
    simp [creditsAfter, known, fetchedIds, allocationsOf]
  have hrun : notes.foldlM (addCredit r provider op currency references)
      (creditsAfter provider base []) n = .ok (s, n') ↔
        NotesOk provider op currency references base notes ∧ s = creditsAfter provider base notes ∧
          n' + noteReads base [] = n + noteReads base notes ∧ n' ≤ readLimit :=
    (loop_notes hbase hmoney).run_all hempty hn
  rw [hstart] at hrun
  exact hrun

end Ashbi.Stripe
