import Ashbi.Stripe.Settlement

/-! The loop over the payments: which answers let it pass, and what it has read then. -/

namespace Ashbi.Stripe

open Checked Keyed

variable {n n' : ℕ} {op : Operation} {currency : String} {provider : Provider}

/-! ### Checks -/

@[simp] theorem mismatch_ok {wrong : Bool} {u : Unit} : mismatch wrong = .ok u ↔ wrong = false :=
  refuse_ok

theorem money_iff {v : ℤ} : money v = true ↔ 0 ≤ v ∧ v ≤ maxSafe := by
  simp [money]

/-- Amounts with a sum that is an amount. -/
def SumOk (values : List ℤ) : Prop := (∀ v ∈ values, money v = true) ∧ values.sum ≤ maxSafe

theorem checkedSum_ok {values : List ℤ} {t : ℤ} :
    checkedSum values = .ok t ↔ SumOk values ∧ t = values.sum := by
  have hloop : ∀ (values : List ℤ) (x t : ℤ), values.foldlM (fun total value => do
      mismatch (!money value)
      pure (total + value)) x = .ok t ↔ (∀ v ∈ values, money v = true) ∧ t = x + values.sum := by
    intro values
    induction values with
    | nil =>
      intro x t
      rw [List.foldlM_nil, pure_ok, List.sum_nil, add_zero, eq_comm]
      exact ⟨fun h => ⟨fun v hv => (List.not_mem_nil hv).elim, h⟩, fun h => h.2⟩
    | cons v values ih =>
      intro x t
      simp only [List.foldlM_cons, bind_ok, mismatch_ok, pure_ok, ih, List.sum_cons, ← add_assoc,
        List.forall_mem_cons, Bool.not_eq_false']
      constructor
      · rintro ⟨_, ⟨_, hv, rfl⟩, hall, rfl⟩
        exact ⟨⟨hv, hall⟩, rfl⟩
      · rintro ⟨⟨hv, hall⟩, rfl⟩
        exact ⟨_, ⟨(), hv, rfl⟩, hall, rfl⟩
  simp only [checkedSum, bind_ok, hloop, zero_add, mismatch_ok, pure_ok, SumOk,
    decide_eq_false_iff_not, not_lt]
  constructor
  · rintro ⟨_, ⟨hall, rfl⟩, _, hle, rfl⟩
    exact ⟨⟨hall, hle⟩, rfl⟩
  · rintro ⟨⟨hall, hle⟩, rfl⟩
    exact ⟨_, ⟨hall, rfl⟩, (), hle, rfl⟩

theorem SumOk.perm {values values' : List ℤ} (h : SumOk values) (hperm : values.Perm values') :
    SumOk values' :=
  ⟨fun v hv => h.1 v (hperm.mem_iff.mpr hv), hperm.sum_eq ▸ h.2⟩

/-! ### Lists -/

/-- The ids that a list is read with: of one kind, each once, and not too many. -/
def Listed (p : String) (ids : List String) : Prop :=
  (∀ id ∈ ids, ext id p = true) ∧ ids.Nodup ∧ ids.length ≤ 1000

theorem Listed.perm {p : String} {ids ids' : List String} (h : Listed p ids)
    (hperm : ids.Perm ids') : Listed p ids' :=
  ⟨fun id hid => h.1 id (hperm.mem_iff.mpr hid), hperm.nodup_iff.mp h.2.1,
    hperm.length_eq ▸ h.2.2⟩

def pageCount (length : ℕ) : ℕ := (length - 1) / 100 + 1

section Lists

variable {α : Type} {p : String} {idOf : α → String} {rows result result' : List α}

theorem listed_concat {ids : List String} {id : String} : Listed p (ids ++ [id]) ↔
    Listed p ids ∧ ext id p = true ∧ id ∉ ids ∧ ids.length + 1 ≤ 1000 := by
  rw [Listed, Listed, ← List.concat_eq_append, List.nodup_concat, List.length_concat]
  simp only [List.concat_eq_append, List.mem_append, List.mem_singleton]
  constructor
  · rintro ⟨hall, ⟨hnew, hnodup⟩, hlength⟩
    exact ⟨⟨fun id hid => hall id (.inl hid), hnodup, by omega⟩, hall _ (.inr rfl), hnew, hlength⟩
  · rintro ⟨⟨hall, hnodup, -⟩, hext, hnew, hlength⟩
    refine ⟨?_, ⟨hnew, hnodup⟩, hlength⟩
    rintro other (hmem | rfl)
    · exact hall other hmem
    · exact hext

theorem addRow_ok {row : α} (h : Listed p (result.map idOf)) :
    addRow p idOf result row = .ok result' ↔
      Listed p ((result ++ [row]).map idOf) ∧ result' = result ++ [row] := by
  rw [List.map_append, List.map_singleton, listed_concat]
  simp only [addRow, bind_ok, mismatch_ok, refuse_ok, pure_ok, Bool.or_eq_false_iff,
    Bool.not_eq_false', decide_eq_false_iff_not, not_lt, List.length_map, exists_const,
    List.contains_eq_mem, eq_comm (a := result ++ [row])]
  tauto

theorem foldlM_addRow (h : Listed p (result.map idOf)) :
    rows.foldlM (addRow p idOf) result = .ok result' ↔
      Listed p ((result ++ rows).map idOf) ∧ result' = result ++ rows := by
  induction rows generalizing result with
  | nil =>
    rw [List.foldlM_nil, pure_ok, List.append_nil, eq_comm]
    exact ⟨fun heq => ⟨h, heq⟩, fun heq => heq.2⟩
  | cons row rows ih =>
    have happend : result ++ row :: rows = result ++ [row] ++ rows := by simp
    rw [List.foldlM_cons, bind_ok, happend]
    constructor
    · rintro ⟨next, hstep, hrest⟩
      obtain ⟨hlisted, rfl⟩ := (addRow_ok h).mp hstep
      exact (ih hlisted).mp hrest
    · rintro ⟨hlisted, rfl⟩
      have hnext : Listed p ((result ++ [row]).map idOf) := by
        rw [List.map_append] at hlisted
        exact ⟨fun id hid => hlisted.1 id (List.mem_append_left _ hid),
          hlisted.2.1.of_append_left,
          (by simp : _ ≤ _).trans hlisted.2.2⟩
      exact ⟨_, (addRow_ok h).mpr ⟨hnext, rfl⟩, (ih hnext).mpr ⟨hlisted, rfl⟩⟩

/-- The pages hold the list. -/
theorem flatten_pages (rows : List α) : (pages rows).flatten = rows := by
  have htake : ∀ k, ((List.range k).map fun i => (rows.drop (100 * i)).take 100).flatten =
      rows.take (100 * k) := by
    intro k
    induction k with
    | zero => simp
    | succ k ih =>
      rw [List.range_succ, List.map_append, List.flatten_append, ih, Nat.mul_succ, List.take_add]
      simp
  rw [pages, htake]
  apply List.take_of_length_le
  omega

theorem length_pages (rows : List α) : (pages rows).length = pageCount rows.length := by
  simp [pages, pageCount]

/-- A page after others goes on with their list. -/
theorem loop_pages : Loop readLimit (fun (result : List α) page => do
    let data ← get (.ok page)
    liftM (data.foldlM (addRow p idOf) result))
    (fun pages => Listed p (pages.flatten.map idOf)) List.flatten List.length where
  init := by
    intro pages page h
    rw [List.flatten_append, List.map_append] at h
    exact ⟨fun id hid => h.1 id (List.mem_append_left _ hid), h.2.1.of_append_left,
      (by simp : _ ≤ _).trans h.2.2⟩
  mono := by simp
  step := by
    intro pages page result' n n' h _
    have hflatten : (pages ++ [page]).flatten = pages.flatten ++ page := by simp
    simp only [bind_returned, get, read_returned, lift_returned, foldlM_addRow h, hflatten,
      List.length_append, List.length_singleton, Except.ok.injEq]
    constructor
    · rintro ⟨_, k, ⟨rfl, rfl, hle⟩, ⟨hlisted, rfl⟩, rfl⟩
      exact ⟨hlisted, rfl, by omega, hle⟩
    · rintro ⟨hlisted, rfl, hk, hle⟩
      exact ⟨page, n', ⟨rfl, by omega, hle⟩, ⟨hlisted, rfl⟩, rfl⟩

/-- A list is read whole, page by page. -/
theorem list_returned : list p idOf rows n = .ok (result, n') ↔
    Listed p (rows.map idOf) ∧ result = rows ∧ n' = n + pageCount rows.length ∧
      n' ≤ readLimit := by
  have hempty : Listed p (([] : List (List α)).flatten.map idOf) := by
    simp [Listed]
  by_cases hn : n ≤ readLimit
  · have hrun : list p idOf rows n = .ok (result, n') ↔
        Listed p ((pages rows).flatten.map idOf) ∧ result = (pages rows).flatten ∧
          n' + 0 = n + (pages rows).length ∧ n' ≤ readLimit :=
      loop_pages.run_all hempty hn
    rw [flatten_pages, length_pages] at hrun
    exact hrun
  · have hcons : ∃ page rest, pages rows = page :: rest := by
      apply List.exists_cons_of_ne_nil
      intro hnil
      have hlength := length_pages rows
      rw [hnil, List.length_nil, pageCount] at hlength
      omega
    obtain ⟨page, rest, hpages⟩ := hcons
    rw [list, hpages, List.foldlM_cons]
    simp only [bind_returned, get, read_returned, pageCount]
    constructor
    · rintro ⟨_, _, ⟨_, _, ⟨-, rfl, hle⟩, -⟩, -⟩
      omega
    · rintro ⟨-, -, rfl, hle⟩
      omega

end Lists

/-! ### Refunds -/

theorem addRefund_ok {type : PaymentType} {ref : Option String} {rows : List Refund}
    {refunds : List Refund} {row : RefundRow} (h : Consistent Refund.id rows) :
    addRefund op currency type ref (merged Refund.id rows) row = .ok refunds ↔
      wrongRefund op currency type ref row = false ∧ Consistent Refund.id (rows ++ [row.image]) ∧
        refunds = merged Refund.id (rows ++ [row.image]) := by
  have hfind : (find Refund.id (merged Refund.id rows) row.id).any (· ≠ row.image) = false ↔
      ∀ old ∈ rows, old.id = row.image.id → old = row.image := by
    cases hold : find Refund.id (merged Refund.id rows) row.id with
    | none =>
      refine iff_of_true rfl fun old hmem hid => ?_
      have hsome := (find_merged h).mpr ⟨hmem, hid⟩
      rw [show row.image.id = row.id from rfl, hold] at hsome
      cases hsome
    | some found =>
      obtain ⟨hmem, hid⟩ := (find_merged h).mp hold
      simp only [Option.any_some, decide_eq_false_iff_not, not_not]
      constructor
      · rintro rfl old hold' hkey
        exact h old hold' _ hmem hkey
      · exact fun hall => hall found hmem hid
  simp only [addRefund, bind_ok, mismatch_ok, pure_ok, exists_const, hfind, merged_concat,
    consistent_concat, h, true_and, eq_comm (a := refunds)]

theorem foldlM_addRefund {type : PaymentType} {ref : Option String} {before : List Refund}
    {refunds : List Refund} {rows : List RefundRow} (h : Consistent Refund.id before) :
    rows.foldlM (addRefund op currency type ref) (merged Refund.id before) = .ok refunds ↔
      (∀ row ∈ rows, wrongRefund op currency type ref row = false) ∧
        Consistent Refund.id (before ++ rows.map RefundRow.image) ∧
          refunds = merged Refund.id (before ++ rows.map RefundRow.image) := by
  induction rows generalizing before with
  | nil =>
    rw [List.foldlM_nil, pure_ok, List.map_nil, List.append_nil, eq_comm]
    exact ⟨fun heq => ⟨fun row hrow => (List.not_mem_nil hrow).elim, h, heq⟩, fun heq => heq.2.2⟩
  | cons row rows ih =>
    have happend : before ++ (row :: rows).map RefundRow.image =
        before ++ [row.image] ++ rows.map RefundRow.image := by simp
    simp only [List.foldlM_cons, bind_ok, happend, List.forall_mem_cons]
    constructor
    · rintro ⟨next, hstep, hrest⟩
      obtain ⟨hrow, hnext, rfl⟩ := (addRefund_ok h).mp hstep
      obtain ⟨hrows, hall, heq⟩ := (ih hnext).mp hrest
      exact ⟨⟨hrow, hrows⟩, hall, heq⟩
    · rintro ⟨⟨hrow, hrows⟩, hall, heq⟩
      have hnext := hall.subset (List.subset_append_left _ (rows.map RefundRow.image))
      exact ⟨_, (addRefund_ok h).mpr ⟨hrow, hnext, rfl⟩, (ih hnext).mpr ⟨hrows, hall, heq⟩⟩

/-! ### References -/

/-- A reference of a payment, with the type of the payment. -/
abbrev Key := String × PaymentType

/-- The references of paid payments, each with the type of its first payment. -/
def keysOf (payments : List Payment) : List Key :=
  payments.foldl (fun keys p =>
    if p.status ≠ .paid ∨ (find Prod.fst keys p.reference).isSome then keys
    else put Prod.fst keys (p.reference, p.type)) []

def remoteOf (provider : Provider) (key : Key) : Except Fault Remote :=
  if key.2 = .paymentIntent then provider.paymentIntent key.1 else provider.charge key.1

/-- The refunds that are read for a reference. -/
def rowsOf (provider : Provider) (key : Key) : List RefundRow :=
  if key.2 = .paymentRecord then [] else provider.refundsOf key.2 key.1

/-- Whether no refund of a reference may belong to another invoice. -/
def completeAt (provider : Provider) (op : Operation) (key : Key) : Bool :=
  (rowsOf provider key).isEmpty ||
    key.2 = .paymentIntent && !(provider.related key.1).any (elsewhere op)

/-- The reads for a reference. -/
def costOf (provider : Provider) (key : Key) : ℕ :=
  if key.2 = .paymentRecord then 0
  else 1 + pageCount (rowsOf provider key).length +
    if rowsOf provider key ≠ [] ∧ key.2 = .paymentIntent then
      pageCount (provider.related key.1).length
    else 0

/-- What is checked of the answers for a reference by themselves. -/
def KeyOk (provider : Provider) (op : Operation) (currency : String) (payments : List Payment)
    (key : Key) : Prop :=
  key.2 = .paymentRecord ∨ ∃ remote, remoteOf provider key = .ok remote ∧
    wrongRemote op currency key.2 key.1 remote = false ∧ money (received key.2 remote) = true ∧
    SumOk (amountsAt payments key.1) ∧ (amountsAt payments key.1).sum ≤ received key.2 remote ∧
    Listed "re" ((rowsOf provider key).map RefundRow.id) ∧
    (∀ row ∈ rowsOf provider key, wrongRefund op currency key.2 (some key.1) row = false) ∧
    SumOk (succeededAmounts (rowsOf provider key)) ∧
    (succeededAmounts (rowsOf provider key)).sum ≤ received key.2 remote ∧
    (rowsOf provider key ≠ [] → key.2 = .paymentIntent →
      Listed "inpay" ((provider.related key.1).map PaymentRow.id) ∧ provider.related key.1 ≠ [] ∧
        ∀ row ∈ provider.related key.1, wrongRelated currency key.1 row = false)

theorem readRelated_returned {type : PaymentType} {reference : String} {rows : List RefundRow}
    {complete complete' : Bool} (hn : n ≤ readLimit) :
    readRelated provider op currency type reference rows complete n = .ok (complete', n') ↔
      (rows ≠ [] → type = .paymentIntent →
        Listed "inpay" ((provider.related reference).map PaymentRow.id) ∧
          provider.related reference ≠ [] ∧
            ∀ row ∈ provider.related reference, wrongRelated currency reference row = false) ∧
      complete' = (complete && (rows.isEmpty ||
        type = .paymentIntent && !(provider.related reference).any (elsewhere op))) ∧
      n' = n + (if rows ≠ [] ∧ type = .paymentIntent then
        pageCount (provider.related reference).length else 0) ∧ n' ≤ readLimit := by
  unfold readRelated
  by_cases hrows : rows = []
  · subst hrows
    simp only [if_true, pure_returned, ne_eq, not_true, false_implies, false_and, if_false,
      true_and, List.isEmpty_nil, Bool.true_or, Bool.and_true, add_zero]
    constructor
    · rintro ⟨rfl, rfl⟩
      exact ⟨rfl, rfl, hn⟩
    · rintro ⟨rfl, rfl, -⟩
      exact ⟨rfl, rfl⟩
  · have hnonempty : rows.isEmpty = false := by simpa using hrows
    by_cases hintent : type = .paymentIntent
    · simp only [hrows, hintent, if_false, if_true, bind_returned, list_returned, lift_returned,
        mismatch_ok, pure_returned, ne_eq, not_false_iff, forall_const, and_self, hnonempty,
        decide_true, Bool.false_or, Bool.true_and, Bool.or_eq_false_iff, List.isEmpty_eq_false_iff,
        List.any_eq_false, Bool.not_eq_true]
      constructor
      · rintro ⟨_, _, ⟨hlisted, rfl, rfl, hle⟩, _, _, ⟨⟨hsome, hall⟩, rfl⟩, rfl, rfl⟩
        exact ⟨⟨hlisted, hsome, hall⟩, rfl, rfl, hle⟩
      · rintro ⟨⟨hlisted, hsome, hall⟩, rfl, rfl, hle⟩
        exact ⟨_, _, ⟨hlisted, rfl, rfl, hle⟩, (), _, ⟨⟨hsome, hall⟩, rfl⟩, rfl, rfl⟩
    · simp only [hrows, hintent, if_false, pure_returned, ne_eq, not_false_iff, forall_const,
        false_implies, and_false, true_and, hnonempty, decide_false, Bool.false_or, Bool.false_and,
        Bool.and_false, add_zero]
      constructor
      · rintro ⟨rfl, rfl⟩
        exact ⟨rfl, rfl, hn⟩
      · rintro ⟨rfl, rfl, -⟩
        exact ⟨rfl, rfl⟩

def imagesOf (provider : Provider) (key : Key) : List Refund :=
  (rowsOf provider key).map RefundRow.image

theorem readReference_returned {payments : List Payment} {references : List Key}
    {before : List Refund} {complete : Bool} {p : Payment} {books : Books}
    (h : Consistent Refund.id before) (hn : n ≤ readLimit)
    (hpaid : p.status = .paid) (hnew : find Prod.fst references p.reference = none) :
    readReference provider op currency payments
        { references, refunds := merged Refund.id before, allocationComplete := complete } p n =
        .ok (books, n') ↔
      KeyOk provider op currency payments (p.reference, p.type) ∧
        Consistent Refund.id (before ++ imagesOf provider (p.reference, p.type)) ∧
        books = { references := references ++ [(p.reference, p.type)],
                  refunds := merged Refund.id (before ++ imagesOf provider (p.reference, p.type)),
                  allocationComplete := complete &&
                    completeAt provider op (p.reference, p.type) } ∧
        n' = n + costOf provider (p.reference, p.type) ∧ n' ≤ readLimit := by
  have hput : put Prod.fst references (p.reference, p.type) =
      references ++ [(p.reference, p.type)] := by
    rw [put, if_neg]
    simp [hnew]
  rw [readReference, if_neg (by simp [hpaid, hnew])]
  simp only [hput]
  by_cases hrecord : p.type = .paymentRecord
  · rw [if_pos hrecord, pure_returned]
    simp only [KeyOk, hrecord, imagesOf, rowsOf, completeAt, costOf, if_pos, true_or, true_and,
      List.map_nil, List.append_nil, List.isEmpty_nil, Bool.true_or, Bool.and_true, add_zero]
    constructor
    · rintro ⟨rfl, rfl⟩
      exact ⟨h, rfl, rfl, hn⟩
    · rintro ⟨-, rfl, rfl, -⟩
      exact ⟨rfl, rfl⟩
  · have hrows : rowsOf provider (p.reference, p.type) = provider.refundsOf p.type p.reference :=
      if_neg hrecord
    rw [if_neg hrecord]
    simp only [KeyOk, hrecord, imagesOf, completeAt, costOf, hrows, remoteOf, false_or, if_false,
      bind_returned, get, read_returned, lift_returned, mismatch_ok, checkedSum_ok, list_returned,
      foldlM_addRefund h, pure_returned]
    constructor
    · rintro ⟨remote, _, ⟨hremote, rfl, -⟩, _, _, ⟨hwrong, rfl⟩, _, _, ⟨hmoney, rfl⟩, _, _,
        ⟨⟨hpaid, rfl⟩, rfl⟩, _, _, ⟨hle, rfl⟩, _, _, ⟨hlisted, rfl, rfl, hlimit⟩, _, _,
        ⟨⟨hrefunds, hcons, rfl⟩, rfl⟩, _, _, ⟨⟨hsum, rfl⟩, rfl⟩, _, _, ⟨hrefunded, rfl⟩, _, _,
        hrelated, rfl, rfl⟩
      obtain ⟨hok, rfl, rfl, hlimit'⟩ := (readRelated_returned hlimit).mp hrelated
      refine ⟨⟨remote, hremote, hwrong, ?_, hpaid, ?_, hlisted, hrefunds, hsum, ?_, hok⟩,
        hcons, rfl,
        ?_, hlimit'⟩
      · simpa using hmoney
      · simpa using hle
      · simpa using hrefunded
      · omega
    · rintro ⟨⟨remote, hremote, hwrong, hmoney, hpaid, hle, hlisted, hrefunds, hsum, hrefunded,
        hok⟩, hcons, rfl, hn', hlimit⟩
      refine ⟨remote, _, ⟨hremote, rfl, by omega⟩, (), _, ⟨hwrong, rfl⟩, (), _,
        ⟨by simpa using hmoney, rfl⟩,
        _, _, ⟨⟨hpaid, rfl⟩, rfl⟩, (), _, ⟨by simpa using hle, rfl⟩, _, _,
        ⟨hlisted, rfl, rfl, by omega⟩, _, _, ⟨⟨hrefunds, hcons, rfl⟩, rfl⟩, _, _,
        ⟨⟨hsum, rfl⟩, rfl⟩, (), _, ⟨by simpa using hrefunded, rfl⟩, _, _,
        (readRelated_returned (by omega)).mpr ⟨hok, rfl, rfl, by omega⟩, rfl, by omega⟩

/-! ### The loop over the payments -/

theorem keysOf_concat (payments : List Payment) (p : Payment) : keysOf (payments ++ [p]) =
    if p.status ≠ .paid ∨ (find Prod.fst (keysOf payments) p.reference).isSome then keysOf payments
    else keysOf payments ++ [(p.reference, p.type)] := by
  rw [keysOf, List.foldl_append]
  change (if p.status ≠ .paid ∨ (find Prod.fst (keysOf payments) p.reference).isSome then
    keysOf payments else put Prod.fst (keysOf payments) (p.reference, p.type)) = _
  split
  · rfl
  · rename_i hnew
    rw [put, if_neg fun hsome => hnew (.inr hsome)]

/-- What has been read after some of the payments. -/
def booksOf (provider : Provider) (op : Operation) (payments : List Payment) : Books :=
  { references := keysOf payments,
    refunds := merged Refund.id ((keysOf payments).flatMap (imagesOf provider)),
    allocationComplete := (keysOf payments).all (completeAt provider op) }

/-- What is checked of the answers for the references of some of the payments. -/
def ReferencesOk (provider : Provider) (op : Operation) (currency : String)
    (all payments : List Payment) : Prop :=
  (∀ key ∈ keysOf payments, KeyOk provider op currency all key) ∧
    Consistent Refund.id ((keysOf payments).flatMap (imagesOf provider))

theorem loop_payments (payments : List Payment) :
    Loop readLimit (readReference provider op currency payments)
      (ReferencesOk provider op currency payments) (booksOf provider op)
      (fun read => ((keysOf read).map (costOf provider)).sum) where
  init := by
    intro read p h
    have hsub : keysOf read ⊆ keysOf (read ++ [p]) := by
      rw [keysOf_concat]
      split
      · exact fun _ h => h
      · exact List.subset_append_left _ _
    refine ⟨fun key hkey => h.1 key (hsub hkey), h.2.subset fun r hr => ?_⟩
    obtain ⟨key, hkey, hmem⟩ := List.mem_flatMap.mp hr
    exact List.mem_flatMap.mpr ⟨key, hsub hkey, hmem⟩
  mono := by
    intro read p _
    rw [keysOf_concat]
    split
    · exact le_rfl
    · simp
  step := by
    intro read p books n n' h hn
    rw [ReferencesOk, booksOf, booksOf]
    simp only [keysOf_concat]
    by_cases hskip : p.status ≠ .paid ∨ (find Prod.fst (keysOf read) p.reference).isSome
    · rw [readReference, if_pos hskip, pure_returned, if_pos hskip]
      constructor
      · rintro ⟨rfl, rfl⟩
        exact ⟨h, rfl, rfl, hn⟩
      · rintro ⟨-, rfl, hcost, -⟩
        exact ⟨rfl, Nat.add_right_cancel hcost⟩
    · have hpaid : p.status = .paid := not_not.mp fun hne => hskip (.inl hne)
      have hnew : find Prod.fst (keysOf read) p.reference = none :=
        Option.not_isSome_iff_eq_none.mp fun hsome => hskip (.inr hsome)
      rw [readReference_returned h.2 hn hpaid hnew, if_neg hskip]
      simp only [List.flatMap_append, List.flatMap_singleton, List.all_append, List.all_cons,
        List.all_nil, Bool.and_true, List.map_append, List.map_singleton, List.sum_append,
        List.sum_singleton, List.mem_append, List.mem_singleton]
      constructor
      · rintro ⟨hkey, hcons, rfl, rfl, hle⟩
        refine ⟨⟨?_, hcons⟩, rfl, by omega, hle⟩
        rintro key (hmem | rfl)
        · exact h.1 key hmem
        · exact hkey
      · rintro ⟨⟨hall, hcons⟩, rfl, hcost, hle⟩
        exact ⟨hall _ (.inr rfl), hcons, rfl, by omega, hle⟩

theorem payments_returned {payments : List Payment} {books : Books} (hn : n ≤ readLimit) :
    payments.foldlM (readReference provider op currency payments)
        { references := [], refunds := [], allocationComplete := true } n = .ok (books, n') ↔
      ReferencesOk provider op currency payments payments ∧ books = booksOf provider op payments ∧
        n' = n + ((keysOf payments).map (costOf provider)).sum ∧ n' ≤ readLimit := by
  have hempty : ReferencesOk provider op currency payments [] := by
    refine ⟨fun key hkey => ?_, fun a ha => ?_⟩
    · cases hkey
    · cases ha
  exact (loop_payments payments).run_all hempty hn

/-! ### Payments of a row -/

def RowOk (op : Operation) (currency : String) (row : PaymentRow) : Prop :=
  wrongPayment op currency row = false ∧ ∃ type reference,
    row.payment.bind Source.type = some type ∧
      row.payment.bind Source.reference = some reference ∧ wrongReference type reference = false

/-- The payment that a row is read as. -/
def paymentOf (row : PaymentRow) : Payment :=
  { id := row.id, status := row.status,
    amountMinor := if row.status = .paid then row.amountPaid.getD 0 else 0,
    requestedMinor := row.amountRequested,
    type := (row.payment.bind Source.type).getD .paymentRecord,
    reference := (row.payment.bind Source.reference).getD "" }

theorem paymentRow_ok {row : PaymentRow} {p : Payment} :
    paymentRow op currency row = .ok p ↔ RowOk op currency row ∧ p = paymentOf row := by
  simp only [paymentRow, bind_ok, mismatch_ok, found_ok, pure_ok, RowOk]
  constructor
  · rintro ⟨_, hrow, type, htype, reference, hreference, _, hwrong, rfl⟩
    refine ⟨⟨hrow, type, reference, htype, hreference, hwrong⟩, ?_⟩
    simp [paymentOf, htype, hreference]
  · rintro ⟨⟨hrow, type, reference, htype, hreference, hwrong⟩, rfl⟩
    refine ⟨(), hrow, type, htype, reference, hreference, (), hwrong, ?_⟩
    simp [paymentOf, htype, hreference]

theorem mapM_paymentRow {rows : List PaymentRow} {payments : List Payment} :
    rows.mapM (paymentRow op currency) = .ok payments ↔
      (∀ row ∈ rows, RowOk op currency row) ∧ payments = rows.map paymentOf := by
  induction rows generalizing payments with
  | nil =>
    rw [List.mapM_nil, pure_ok, List.map_nil, eq_comm]
    exact ⟨fun h => ⟨fun row hrow => (List.not_mem_nil hrow).elim, h⟩, fun h => h.2⟩
  | cons row rows ih =>
    simp only [List.mapM_cons, bind_ok, pure_ok, paymentRow_ok, ih, List.forall_mem_cons,
      List.map_cons]
    constructor
    · rintro ⟨_, ⟨hrow, rfl⟩, _, ⟨hrows, rfl⟩, rfl⟩
      exact ⟨⟨hrow, hrows⟩, rfl⟩
    · rintro ⟨⟨hrow, hrows⟩, rfl⟩
      exact ⟨_, ⟨hrow, rfl⟩, _, ⟨hrows, rfl⟩, rfl⟩

end Ashbi.Stripe
