import Ashbi.Stripe.References

/-! The shares that credit notes give to refunds, and the refunds that are read for them. -/

namespace Ashbi.Stripe

open Checked Keyed

variable {n n' : ℕ} {r : Amounts} {provider : Provider} {op : Operation} {currency : String}
  {references : List Key} {base rows : List Refund} {id : String}

/-! ### Refunds that no payment lists -/

/-- What is checked of a refund that is read for an allocation. -/
def FetchOk (provider : Provider) (op : Operation) (currency : String) (references : List Key)
    (id : String) : Prop :=
  ∃ remote type, provider.refund id = .ok remote ∧
    (typeIn references remote.paymentIntent).or (typeIn references remote.charge) = some type ∧
    type ≠ .paymentRecord ∧
    wrongRefund op currency type
      (if type = .paymentIntent then remote.paymentIntent else remote.charge) remote = false ∧
    remote.id = id

def fetched (provider : Provider) (id : String) : Refund :=
  match provider.refund id with
  | .ok remote => remote.image
  | .error _ => { id, amountMinor := 0, status := .other }

theorem wrongRefund_money {type : PaymentType} {ref : Option String} {row : RefundRow}
    (h : wrongRefund op currency type ref row = false) : money row.amount = true := by
  simp only [wrongRefund, Bool.or_eq_false_iff, Bool.not_eq_false'] at h
  exact h.1.1.1.1.2

theorem FetchOk.fetched (h : FetchOk provider op currency references id) :
    (Stripe.fetched provider id).id = id ∧
      money (Stripe.fetched provider id).amountMinor = true := by
  obtain ⟨remote, type, hremote, -, -, hwrong, hid⟩ := h
  rw [Stripe.fetched, hremote]
  exact ⟨hid, wrongRefund_money hwrong⟩

theorem find_merged_isSome (h : Consistent Refund.id rows) :
    (find Refund.id (merged Refund.id rows) id).isSome = true ↔ id ∈ rows.map Refund.id := by
  rw [Option.isSome_iff_exists, List.mem_map]
  simp only [find_merged h]

/-- A refund that is known is not read again. -/
theorem findRefund_known {refunds : List Refund} {refund : Refund} (h : Consistent Refund.id rows)
    (hid : id ∈ rows.map Refund.id) :
    (findRefund provider op currency references (merged Refund.id rows) id n = .ok (refunds, n') ∧
      find Refund.id refunds id = some refund) ↔
    refunds = merged Refund.id rows ∧ n' = n ∧ refund ∈ rows ∧ refund.id = id := by
  rw [findRefund, if_pos ((find_merged_isSome h).mpr hid), pure_returned]
  constructor
  · rintro ⟨⟨rfl, rfl⟩, hfind⟩
    exact ⟨rfl, rfl, (find_merged h).mp hfind⟩
  · rintro ⟨rfl, rfl, hrefund⟩
    exact ⟨⟨rfl, rfl⟩, (find_merged h).mpr hrefund⟩

theorem consistent_new {refund : Refund} (h : Consistent Refund.id rows)
    (hid : refund.id ∉ rows.map Refund.id) : Consistent Refund.id (rows ++ [refund]) := by
  refine consistent_concat.mpr ⟨h, fun old hold hkey => ?_⟩
  exact absurd (List.mem_map.mpr ⟨old, hold, hkey⟩) hid

/-- A refund that is not known is read, and must be the one that was asked for. -/
theorem findRefund_new {refunds : List Refund} {refund : Refund} (h : Consistent Refund.id rows)
    (hid : id ∉ rows.map Refund.id) :
    (findRefund provider op currency references (merged Refund.id rows) id n = .ok (refunds, n') ∧
      find Refund.id refunds id = some refund) ↔
    FetchOk provider op currency references id ∧
      refunds = merged Refund.id (rows ++ [fetched provider id]) ∧ n' = n + 1 ∧ n' ≤ readLimit ∧
        refund = fetched provider id := by
  have hnone : ¬ (find Refund.id (merged Refund.id rows) id).isSome = true :=
    fun hsome => hid ((find_merged_isSome h).mp hsome)
  rw [findRefund, if_neg hnone]
  simp only [bind_returned, get, read_returned, lift_returned, found_ok, mismatch_ok,
    addRefund_ok h, decide_eq_false_iff_not]
  constructor
  · rintro ⟨⟨remote, _, ⟨hremote, rfl, hle⟩, type, _, ⟨htype, rfl⟩, _, _, ⟨hrecord, rfl⟩,
      ⟨hwrong, hcons, rfl⟩, rfl⟩, hfind⟩
    obtain ⟨hmem, hkey⟩ := (find_merged hcons).mp hfind
    have heq : refund = remote.image := by
      rcases List.mem_append.mp hmem with hmem | hmem
      · exact absurd (List.mem_map.mpr ⟨refund, hmem, hkey⟩) hid
      · exact List.mem_singleton.mp hmem
    have hfetched : fetched provider id = remote.image := by
      rw [fetched, hremote]
    rw [hfetched]
    exact ⟨⟨remote, type, hremote, htype, hrecord, hwrong, by rw [← hkey, heq]; rfl⟩, rfl, rfl,
      hle, heq⟩
  · rintro ⟨hok, rfl, rfl, hle, rfl⟩
    have hkey := hok.fetched.1
    obtain ⟨remote, type, hremote, htype, hrecord, hwrong, -⟩ := hok
    have hfetched : fetched provider id = remote.image := by
      rw [fetched, hremote]
    have hcons : Consistent Refund.id (rows ++ [fetched provider id]) :=
      consistent_new h (by rwa [hkey])
    refine ⟨⟨remote, _, ⟨hremote, rfl, hle⟩, type, _, ⟨htype, rfl⟩, (), _, ⟨hrecord, rfl⟩,
      ⟨hwrong, ?_, ?_⟩, rfl⟩, ?_⟩
    · rwa [← hfetched]
    · rw [hfetched]
    · exact (find_merged hcons).mpr ⟨List.mem_append_right _ List.mem_cons_self, hkey⟩

/-! ### Amounts by refund -/

/-- An amount that a note allocates to a refund. -/
abbrev Share := String × ℤ

variable {shares : List Share} {share : Share}

def amountTo (shares : List Share) (id : String) : ℤ :=
  ((shares.filter (·.1 = id)).map Prod.snd).sum

theorem amountTo_concat : amountTo (shares ++ [share]) id =
    amountTo shares id + if share.1 = id then share.2 else 0 := by
  rw [amountTo, List.filter_append, List.map_append, List.sum_append]
  by_cases h : share.1 = id <;> simp [h, amountTo]

/-- `allocations` after some shares. -/
def allocationsOf (shares : List Share) : List Share :=
  shares.foldl (fun allocations share => put Prod.fst allocations
    (share.1, ((find Prod.fst allocations share.1).map Prod.snd).getD 0 + share.2)) []

theorem allocationsOf_concat : allocationsOf (shares ++ [share]) =
    put Prod.fst (allocationsOf shares) (share.1,
      ((find Prod.fst (allocationsOf shares) share.1).map Prod.snd).getD 0 + share.2) := by
  rw [allocationsOf, List.foldl_append]
  rfl

theorem find_allocationsOf :
    ((find Prod.fst (allocationsOf shares) id).map Prod.snd).getD 0 = amountTo shares id := by
  induction shares using List.reverseRecOn generalizing id with
  | nil => rfl
  | append_singleton shares share ih =>
    rw [allocationsOf_concat, find_put, amountTo_concat, ih]
    by_cases h : id = share.1
    · subst h
      simp
    · rw [if_neg h, ih, if_neg fun heq => h heq.symm, add_zero]

theorem amountTo_nonneg (h : ∀ share ∈ shares, money share.2 = true) : 0 ≤ amountTo shares id := by
  apply List.sum_nonneg
  intro v hv
  obtain ⟨share, hshare, rfl⟩ := List.mem_map.mp hv
  exact (money_iff.mp (h share (List.mem_filter.mp hshare).1)).1

/-! ### Refunds of the shares -/

/-- The refunds that are read for some shares, in the order of the reads. -/
def fetchedIds (base : List Refund) (shares : List Share) : List String :=
  shares.foldl (fun ids share =>
    if share.1 ∈ base.map Refund.id ∨ share.1 ∈ ids then ids else ids ++ [share.1]) []

theorem fetchedIds_concat : fetchedIds base (shares ++ [share]) =
    if share.1 ∈ base.map Refund.id ∨ share.1 ∈ fetchedIds base shares then fetchedIds base shares
    else fetchedIds base shares ++ [share.1] := by
  rw [fetchedIds, List.foldl_append]
  rfl

theorem mem_fetchedIds : id ∈ fetchedIds base shares ↔
    id ∉ base.map Refund.id ∧ id ∈ shares.map Prod.fst := by
  induction shares using List.reverseRecOn with
  | nil => simp [fetchedIds]
  | append_singleton shares share ih =>
    rw [fetchedIds_concat, List.map_append, List.map_singleton, List.mem_append,
      List.mem_singleton]
    split
    · rename_i hold
      rw [ih]
      constructor
      · exact fun h => ⟨h.1, .inl h.2⟩
      · rintro ⟨hnew, hmem | rfl⟩
        · exact ⟨hnew, hmem⟩
        · exact hold.elim (fun hbase => absurd hbase hnew) ih.mp
    · rename_i hnew
      rw [List.mem_append, List.mem_singleton, ih]
      constructor
      · rintro (h | rfl)
        · exact ⟨h.1, .inl h.2⟩
        · exact ⟨fun hbase => hnew (.inl hbase), .inr rfl⟩
      · rintro ⟨hbase, hmem | rfl⟩
        · exact .inl ⟨hbase, hmem⟩
        · exact .inr rfl

theorem nodup_fetchedIds : (fetchedIds base shares).Nodup := by
  induction shares using List.reverseRecOn with
  | nil => exact List.nodup_nil
  | append_singleton shares share ih =>
    rw [fetchedIds_concat]
    split
    · exact ih
    · rename_i hnew
      rw [← List.concat_eq_append, List.nodup_concat]
      exact ⟨fun hmem => hnew (.inr hmem), ih⟩

/-- The refunds that are known after some shares. -/
def known (provider : Provider) (base : List Refund) (shares : List Share) : List Refund :=
  base ++ (fetchedIds base shares).map (fetched provider)

/-- What is checked of shares: their refunds, their amounts, and that no refund is exceeded. -/
structure SharesOk (provider : Provider) (op : Operation) (currency : String)
    (references : List Key) (base : List Refund) (shares : List Share) : Prop where
  fetch : ∀ share ∈ shares, share.1 ∈ base.map Refund.id ∨
    FetchOk provider op currency references share.1
  amount : ∀ share ∈ shares, money share.2 = true
  within : ∀ refund ∈ known provider base shares, amountTo shares refund.id ≤ refund.amountMinor

theorem known_concat : known provider base (shares ++ [share]) =
    if share.1 ∈ base.map Refund.id ∨ share.1 ∈ fetchedIds base shares then
      known provider base shares
    else known provider base shares ++ [fetched provider share.1] := by
  rw [known, fetchedIds_concat]
  split
  · rfl
  · rw [List.map_append, List.map_singleton, ← List.append_assoc]
    rfl

theorem known_subset : known provider base shares ⊆ known provider base (shares ++ [share]) := by
  rw [known_concat]
  split
  · exact fun _ h => h
  · exact List.subset_append_left _ _

section Shares

variable (hbase : Consistent Refund.id base)
  (hmoney : ∀ refund ∈ base, money refund.amountMinor = true)
  (h : SharesOk provider op currency references base shares)

include h

theorem SharesOk.fetchOk (hid : id ∈ fetchedIds base shares) :
    FetchOk provider op currency references id := by
  obtain ⟨hnew, hmem⟩ := mem_fetchedIds.mp hid
  obtain ⟨share, hshare, rfl⟩ := List.mem_map.mp hmem
  exact (h.fetch share hshare).resolve_left hnew

theorem SharesOk.mem_ids : id ∈ (known provider base shares).map Refund.id ↔
    id ∈ base.map Refund.id ∨ id ∈ fetchedIds base shares := by
  have hids : ((fetchedIds base shares).map (fetched provider)).map Refund.id =
      fetchedIds base shares := by
    rw [List.map_map]
    conv_rhs => rw [← List.map_id (fetchedIds base shares)]
    exact List.map_congr_left fun id hid => (h.fetchOk hid).fetched.1
  rw [known, List.map_append, hids, List.mem_append]

include hmoney in
theorem SharesOk.amounts (refund : Refund) (hmem : refund ∈ known provider base shares) :
    money refund.amountMinor = true := by
  rcases List.mem_append.mp hmem with hmem | hmem
  · exact hmoney refund hmem
  · obtain ⟨id, hid, rfl⟩ := List.mem_map.mp hmem
    exact (h.fetchOk hid).fetched.2

include hbase in
theorem SharesOk.consistent : Consistent Refund.id (known provider base shares) := by
  have hcross : ∀ old ∈ base, ∀ id ∈ fetchedIds base shares, old.id ≠ (fetched provider id).id := by
    intro old hold id hid hkey
    rw [(h.fetchOk hid).fetched.1] at hkey
    exact (mem_fetchedIds.mp hid).1 (List.mem_map.mpr ⟨old, hold, hkey⟩)
  intro a ha b hb hkey
  rcases List.mem_append.mp ha with ha | ha
  · rcases List.mem_append.mp hb with hb | hb
    · exact hbase a ha b hb hkey
    · obtain ⟨id, hid, rfl⟩ := List.mem_map.mp hb
      exact absurd hkey (hcross a ha id hid)
  · obtain ⟨id, hid, rfl⟩ := List.mem_map.mp ha
    rcases List.mem_append.mp hb with hb | hb
    · exact absurd hkey.symm (hcross b hb id hid)
    · obtain ⟨id', hid', rfl⟩ := List.mem_map.mp hb
      rw [(h.fetchOk hid).fetched.1, (h.fetchOk hid').fetched.1] at hkey
      rw [hkey]

end Shares

theorem sharesOk_concat : SharesOk provider op currency references base (shares ++ [share]) ↔
    SharesOk provider op currency references base shares ∧
      (share.1 ∈ base.map Refund.id ∨ FetchOk provider op currency references share.1) ∧
      money share.2 = true ∧
      ∀ refund ∈ known provider base (shares ++ [share]), refund.id = share.1 →
        amountTo shares share.1 + share.2 ≤ refund.amountMinor := by
  have hlast : share ∈ shares ++ [share] := List.mem_append_right _ List.mem_cons_self
  constructor
  · intro h
    have hamount := h.amount share hlast
    refine ⟨⟨fun s hs => h.fetch s (List.mem_append_left _ hs),
      fun s hs => h.amount s (List.mem_append_left _ hs), ?_⟩, h.fetch share hlast, hamount, ?_⟩
    · intro refund hrefund
      have hwithin := h.within refund (known_subset hrefund)
      have hnonneg := (money_iff.mp hamount).1
      rw [amountTo_concat] at hwithin
      split at hwithin <;> omega
    · intro refund hrefund hid
      have hwithin := h.within refund hrefund
      rwa [amountTo_concat, hid, if_pos rfl] at hwithin
  · rintro ⟨h, hfetch, hamount, hwithin⟩
    refine ⟨?_, ?_, ?_⟩
    · intro s hs
      rcases List.mem_append.mp hs with hs | hs
      · exact h.fetch s hs
      · rw [List.mem_singleton.mp hs]
        exact hfetch
    · intro s hs
      rcases List.mem_append.mp hs with hs | hs
      · exact h.amount s hs
      · rw [List.mem_singleton.mp hs]
        exact hamount
    · intro refund hrefund
      rw [amountTo_concat]
      by_cases hid : refund.id = share.1
      · rw [if_pos hid.symm, hid]
        exact hwithin refund hrefund hid
      · rw [if_neg fun heq => hid heq.symm, add_zero]
        apply h.within
        rw [known_concat] at hrefund
        split at hrefund
        · exact hrefund
        · rename_i hnew
          rcases List.mem_append.mp hrefund with hmem | hmem
          · exact hmem
          · have hok := hfetch.resolve_left fun hb => hnew (.inl hb)
            rw [List.mem_singleton.mp hmem] at hid
            exact absurd hok.fetched.1 hid

theorem SharesOk.known_new (hbase : Consistent Refund.id base)
    (h : SharesOk provider op currency references base shares)
    (hfetch : share.1 ∈ base.map Refund.id ∨ FetchOk provider op currency references share.1) :
    Consistent Refund.id (known provider base (shares ++ [share])) := by
  rw [known_concat]
  split
  · exact h.consistent hbase
  · rename_i hnew
    apply consistent_new (h.consistent hbase)
    rw [(hfetch.resolve_left fun hmem => hnew (.inl hmem)).fetched.1, h.mem_ids]
    exact hnew

theorem SharesOk.known_money (hmoney : ∀ refund ∈ base, money refund.amountMinor = true)
    (h : SharesOk provider op currency references base shares)
    (hfetch : share.1 ∈ base.map Refund.id ∨ FetchOk provider op currency references share.1)
    (refund : Refund) (hmem : refund ∈ known provider base (shares ++ [share])) :
    money refund.amountMinor = true := by
  rw [known_concat] at hmem
  split at hmem
  · exact h.amounts hmoney refund hmem
  · rename_i hnew
    rcases List.mem_append.mp hmem with hmem | hmem
    · exact h.amounts hmoney refund hmem
    · rw [List.mem_singleton.mp hmem]
      exact (hfetch.resolve_left fun hbase => hnew (.inl hbase)).fetched.2

theorem SharesOk.exists_known (h : SharesOk provider op currency references base shares)
    (hfetch : share.1 ∈ base.map Refund.id ∨ FetchOk provider op currency references share.1) :
    ∃ refund ∈ known provider base (shares ++ [share]), refund.id = share.1 := by
  rw [known_concat]
  split
  · rename_i hold
    exact List.mem_map.mp (h.mem_ids.mpr hold)
  · rename_i hnew
    have hok := hfetch.resolve_left fun hbase => hnew (.inl hbase)
    exact ⟨_, List.mem_append_right _ List.mem_cons_self, hok.fetched.1⟩

/-- What fits an amount is added without rounding. -/
theorem plus_within (r : Amounts) {x y limit : ℤ} (hx : 0 ≤ x) (hy : money y = true)
    (hlimit : money limit = true) : (r.plus x y ≤ limit ↔ x + y ≤ limit) ∧
      (x + y ≤ limit → r.plus x y = x + y) := by
  have hy0 := (money_iff.mp hy).1
  have hle := (money_iff.mp hlimit).2
  have hbound : limit < 9007199254740992 := lt_of_le_of_lt hle (by decide)
  refine ⟨not_lt.symm.trans ((r.plus_gt hbound hx hy0).not.trans not_lt), fun h => ?_⟩
  exact r.plus_eq hx hy0 (h.trans hbound.le)

/-- The refund of a share is known after it, read at most once. -/
theorem findRefund_share {refunds : List Refund} {refund : Refund}
    (hbase : Consistent Refund.id base)
    (h : SharesOk provider op currency references base shares) (hn : n ≤ readLimit) :
    (findRefund provider op currency references (merged Refund.id (known provider base shares))
        share.1 n = .ok (refunds, n') ∧ find Refund.id refunds share.1 = some refund) ↔
      (share.1 ∈ base.map Refund.id ∨ FetchOk provider op currency references share.1) ∧
        refunds = merged Refund.id (known provider base (shares ++ [share])) ∧
        (n' + (fetchedIds base shares).length =
          n + (fetchedIds base (shares ++ [share])).length ∧ n' ≤ readLimit) ∧
        refund ∈ known provider base (shares ++ [share]) ∧ refund.id = share.1 := by
  have hcons := h.consistent hbase
  rw [known_concat, fetchedIds_concat]
  by_cases hold : share.1 ∈ base.map Refund.id ∨ share.1 ∈ fetchedIds base shares
  · rw [findRefund_known hcons (h.mem_ids.mpr hold), if_pos hold, if_pos hold]
    constructor
    · rintro ⟨rfl, rfl, hrefund⟩
      exact ⟨hold.imp_right h.fetchOk, rfl, ⟨rfl, hn⟩, hrefund⟩
    · rintro ⟨-, rfl, ⟨hk, -⟩, hrefund⟩
      exact ⟨rfl, Nat.add_right_cancel hk, hrefund⟩
  · have hid : share.1 ∉ (known provider base shares).map Refund.id :=
      fun hmem => hold (h.mem_ids.mp hmem)
    rw [findRefund_new hcons hid, if_neg hold, if_neg hold, List.length_append,
      List.length_singleton, List.mem_append, List.mem_singleton]
    constructor
    · rintro ⟨hok, rfl, rfl, hle, rfl⟩
      exact ⟨.inr hok, rfl, ⟨by omega, hle⟩, .inr rfl, hok.fetched.1⟩
    · rintro ⟨hfetch, rfl, ⟨hk, hle⟩, hmem | rfl, hkey⟩
      · exact absurd (List.mem_map.mpr ⟨refund, hmem, hkey⟩) hid
      · exact ⟨hfetch.resolve_left fun hmem => hold (.inl hmem), rfl, by omega, hle, rfl⟩

end Ashbi.Stripe
