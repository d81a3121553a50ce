import Mathlib.Logic.Relation
import Ashbi.Drafts.Programs

/-! What one statement does to the table of invoices. -/

namespace Ashbi.Drafts

open Interleaving Invoicing

/-- What a client is asked to pay, and for what. -/
structure Amounts where
  currency : String
  subtotal : ℚ
  discountAmount : ℚ
  taxRate : ℚ
  tax : ℚ
  total : ℚ
  lineItems : List LineItem
  deriving DecidableEq

def Draft.amounts (d : Draft) : Amounts :=
  ⟨d.currency, d.subtotal, d.discountAmount, d.taxRate, d.tax, d.total, d.lineItems⟩

theorem Draft.matches_iff {d : Draft} : d.Matches ↔
    d.subtotal = (totalsOf d.lineItems d.taxRate d.discountAmount).subtotal ∧
      d.tax = (totalsOf d.lineItems d.taxRate d.discountAmount).tax ∧
      d.total = (totalsOf d.lineItems d.taxRate d.discountAmount).total := by
  obtain ⟨⟩ := d
  simp [Draft.Matches, Draft.withTotals, eq_comm]

theorem Draft.Matches.congr {d e : Draft} (h : d.Matches) (he : e.amounts = d.amounts) :
    e.Matches := by
  simp only [Draft.amounts, Amounts.mk.injEq] at he
  obtain ⟨-, hsubtotal, hdiscount, hrate, htax, htotal, hlines⟩ := he
  rw [Draft.matches_iff] at h ⊢
  rw [hsubtotal, hdiscount, hrate, htax, htotal, hlines]
  exact h

/-- A later state of a row: a draft that changed is a newer version, and what is no draft keeps
its status and its amounts. -/
structure Onward (r r' : Invoice) : Prop where
  draft : r'.status = .draft → r.status = .draft ∧ (r' = r ∨ r.updatedAt < r'.updatedAt)
  frozen : r.status ≠ .draft → r'.status = r.status ∧ r'.amounts = r.amounts

theorem Onward.refl (r : Invoice) : Onward r r := ⟨fun h => ⟨h, .inl rfl⟩, fun _ => ⟨rfl, rfl⟩⟩

theorem Onward.trans {r r' r'' : Invoice} (h : Onward r r') (h' : Onward r' r'') :
    Onward r r'' where
  draft hd := by
    obtain ⟨hd', hlater⟩ := h'.draft hd
    obtain ⟨hd'', hearlier⟩ := h.draft hd'
    refine ⟨hd'', ?_⟩
    rcases hlater with rfl | hlt
    · exact hearlier
    · rcases hearlier with rfl | hlt'
      · exact .inr hlt
      · exact .inr (hlt'.trans hlt)
  frozen hn := by
    have hn' : r'.status ≠ .draft := fun hd => hn (h.draft hd).1
    obtain ⟨hst, ha⟩ := h.frozen hn
    obtain ⟨hst', ha'⟩ := h'.frozen hn'
    exact ⟨hst'.trans hst, ha'.trans ha⟩

/-- The invoice goes on, with its payments. -/
def Cell.Onward (c c' : Cell) : Prop :=
  Drafts.Onward c.committed c'.committed ∧ c'.payments = c.payments

def Table.Onward (s t : Table) : Prop :=
  ∀ id c, s id = some c → ∃ c', t id = some c' ∧ c.Onward c'

theorem Table.Onward.refl (s : Table) : s.Onward s :=
  fun _ c hc => ⟨c, hc, .refl _, rfl⟩

theorem Table.Onward.trans {s t u : Table} (h : s.Onward t) (h' : t.Onward u) : s.Onward u := by
  intro id c hc
  obtain ⟨c', hc', hon, hpay⟩ := h id c hc
  obtain ⟨c'', hc'', hon', hpay'⟩ := h' id c' hc'
  exact ⟨c'', hc'', hon.trans hon', hpay'.trans hpay⟩

/-- A row that a transaction has locked is a draft, and its own copy a newer one. -/
structure Working (r w : Invoice) : Prop where
  id : w.id = r.id
  committed : r.status = .draft
  draft : w.status = .draft
  newer : r.updatedAt < w.updatedAt

theorem Working.onward {r w : Invoice} (h : Working r w) : Onward r w :=
  ⟨fun _ => ⟨h.committed, .inr h.newer⟩, fun hn => absurd h.committed hn⟩

/-- `headers` says whether the headers are known to match the lines. -/
structure Sound (headers : Prop) (s : Table) : Prop where
  keyed : ∀ id c, s id = some c → c.committed.id = id
  held : ∀ id c i w, s id = some c → c.held = some (i, w) → Working c.committed w
  matching : headers → ∀ id c, s id = some c → c.committed.Matches

/-- A write outside the edits: the row is sent, or it had been issued before. -/
structure Issued (r r' : Invoice) : Prop where
  id : r'.id = r.id
  status : r'.status ≠ .draft ∧ (r.status ≠ .draft → r'.status = r.status)
  amounts : r'.amounts = r.amounts

theorem Issued.onward {r r' : Invoice} (h : Issued r r') : Onward r r' :=
  ⟨fun hd => absurd hd h.status.1, fun hn => ⟨h.status.2 hn, h.amounts⟩⟩

/-- What a statement of thread `i` can do to the table. -/
inductive Step (headers : Prop) (i : ℕ) (s : Table) : Table → Prop
  | hold {id c w} (hc : s id = some c) (hfree : c.held.all (·.1 = i) = true)
      (hw : Working c.committed w) : Step headers i s (s.put id { c with held := some (i, w) })
  | release {id c w} (hc : s id = some c) (hheld : c.held = some (i, w)) :
      Step headers i s (s.put id { c with held := none })
  | commit {id c w} (hc : s id = some c) (hheld : c.held = some (i, w))
      (hm : headers → w.Matches) :
      Step headers i s (s.put id { c with committed := w, held := none })
  | write {id c r} (hc : s id = some c) (hfree : c.held = none) (hr : Issued c.committed r) :
      Step headers i s (s.put id { c with committed := r })
  | insert {row} (hnone : s row.id = none) (hm : headers → row.Matches) :
      Step headers i s (s.put row.id ⟨row, none, []⟩)

abbrev Steps (headers : Prop) (i : ℕ) : Table → Table → Prop :=
  Relation.ReflTransGen (Step headers i)

variable {headers : Prop} {i : ℕ} {s t : Table} {id : String} {c : Cell} {β : Type}

@[simp] theorem put_self : s.put id c id = some c := by simp [Table.put]

theorem put_eq {id' : String} : s.put id c id' = if id' = id then some c else s id' := by
  simp [Table.put, Function.update_apply]

theorem put_onward {c c' : Cell} (hc : s id = some c) (h : c.Onward c') :
    s.Onward (s.put id c') := by
  intro id' d hd
  rw [put_eq]
  split
  · rename_i hid
    subst hid
    obtain rfl := Option.some.inj (hd.symm.trans hc)
    exact ⟨c', rfl, h⟩
  · exact ⟨d, hd, .refl _, rfl⟩

theorem Step.onward (h : Step headers i s t) (hs : Sound headers s) : s.Onward t := by
  cases h with
  | hold hc _ _ => exact put_onward hc ⟨.refl _, rfl⟩
  | release hc _ => exact put_onward hc ⟨.refl _, rfl⟩
  | commit hc hheld _ => exact put_onward hc ⟨(hs.held _ _ _ _ hc hheld).onward, rfl⟩
  | write hc _ hr => exact put_onward hc ⟨hr.onward, rfl⟩
  | @insert row hnone _ =>
    intro id' d hd
    rw [put_eq, if_neg]
    · exact ⟨d, hd, .refl _, rfl⟩
    · rintro rfl
      rw [hnone] at hd
      cases hd

theorem put_sound {c' : Cell} (hs : Sound headers s) (hid : c'.committed.id = id)
    (hheld : ∀ j w, c'.held = some (j, w) → Working c'.committed w)
    (hm : headers → c'.committed.Matches) : Sound headers (s.put id c') := by
  refine ⟨fun id' d hd => ?_, fun id' d j w hd hw => ?_, fun hh id' d hd => ?_⟩
  · rw [put_eq] at hd
    split at hd
    · rename_i hid'
      obtain rfl := Option.some.inj hd
      rw [hid', hid]
    · exact hs.keyed id' d hd
  · rw [put_eq] at hd
    split at hd
    · obtain rfl := Option.some.inj hd
      exact hheld j w hw
    · exact hs.held id' d j w hd hw
  · rw [put_eq] at hd
    split at hd
    · obtain rfl := Option.some.inj hd
      exact hm hh
    · exact hs.matching hh id' d hd

theorem Step.sound (h : Step headers i s t) (hs : Sound headers s) : Sound headers t := by
  cases h with
  | @hold id c w hc _ hw =>
    refine put_sound hs (hs.keyed id c hc) (fun j w' hj => ?_) fun hh => hs.matching hh _ c hc
    obtain ⟨rfl, rfl⟩ := Prod.mk.inj (Option.some.inj hj)
    exact hw
  | @release id c w hc _ =>
    exact put_sound hs (hs.keyed id c hc) (fun j w' hj => by cases hj) fun hh =>
      hs.matching hh _ c hc
  | @commit id c w hc hheld hm =>
    refine put_sound hs ?_ (fun j w' hj => by cases hj) hm
    exact (hs.held id c i w hc hheld).id.trans (hs.keyed id c hc)
  | @write id c r hc hfree hr =>
    refine put_sound hs (hr.id.trans (hs.keyed id c hc)) (fun j w' hj => ?_) fun hh =>
      (hs.matching hh _ _ hc).congr hr.amounts
    rw [hfree] at hj
    cases hj
  | insert _ hm => exact put_sound hs rfl (fun j w' hj => by cases hj) hm

/-- Another thread's locked row stays as it is. -/
theorem Step.locked (h : Step headers i s t) {j : ℕ} (hj : j ≠ i) {w : Invoice}
    (hc : s id = some c) (hheld : c.held = some (j, w)) : t id = some c := by
  have keep : ∀ {id' c' d}, s id' = some c' → (c' = c → False) → (s.put id' d) id = some c := by
    intro id' c' d hc' hne
    rw [put_eq, if_neg, hc]
    rintro rfl
    exact hne (Option.some.inj (hc'.symm.trans hc))
  cases h with
  | hold hc' hfree _ =>
    apply keep hc'
    rintro rfl
    simp [hheld] at hfree
    exact hj hfree
  | release hc' hheld' =>
    apply keep hc'
    rintro rfl
    rw [hheld] at hheld'
    exact hj (Prod.mk.inj (Option.some.inj hheld')).1
  | commit hc' hheld' _ =>
    apply keep hc'
    rintro rfl
    rw [hheld] at hheld'
    exact hj (Prod.mk.inj (Option.some.inj hheld')).1
  | write hc' hfree _ =>
    apply keep hc'
    rintro rfl
    rw [hfree] at hheld
    cases hheld
  | insert hnone _ =>
    rw [put_eq, if_neg, hc]
    rintro rfl
    rw [hnone] at hc
    cases hc

/-- What a run of steps keeps. -/
theorem Steps.keeps (h : Steps headers i s t) (hs : Sound headers s) :
    Sound headers t ∧ s.Onward t ∧ ∀ j, j ≠ i → ∀ id c w, s id = some c →
      c.held = some (j, w) → t id = some c := by
  induction h with
  | refl => exact ⟨hs, .refl s, fun _ _ _ _ _ hc _ => hc⟩
  | tail _ hstep ih =>
    obtain ⟨hsound, hon, hlocked⟩ := ih
    refine ⟨hstep.sound hsound, hon.trans (hstep.onward hsound), fun j hj id c w hc hw => ?_⟩
    exact hstep.locked hj (hlocked j hj id c w hc hw) hw

/-! ### Statements -/

/-- What has to hold where thread `i` runs a statement. -/
def Stmt.Promised (headers : Prop) (i : ℕ) : Stmt β → Table → Prop
  | .claimDraft _ _ observed updatedAt, _ => observed < updatedAt
  | .updateInvoice id _ updatedAt _, s =>
    ∀ c w, s id = some c → c.held = some (i, w) → w.updatedAt = updatedAt
  | .commit id, s => headers → ∀ c w, s id = some c → c.held = some (i, w) → w.Matches
  | .createInvoice _ draft, _ => headers → draft.Matches
  | .copyRecurring _ _ draft, _ => headers → draft.Matches
  | .finishSend id _, s => ∀ c, s id = some c → c.committed.status ≠ .draft
  | _, _ => True

theorem insert_ok {d : Draft} {ch : Choice} {row : Invoice} (h : s.insert d ch = (.ok row, t)) :
    s row.id = none ∧ row.toDraft = d ∧ t = s.put row.id ⟨row, none, []⟩ := by
  unfold Table.insert at h
  split at h
  · cases h
  · cases h
  · rename_i hnone
    obtain ⟨hrow, rfl⟩ := Prod.mk.inj h
    obtain rfl := Except.ok.inj hrow
    exact ⟨hnone, rfl, rfl⟩

theorem insert_steps {d : Draft} {ch : Choice} (hm : headers → d.Matches) :
    Steps headers i s (s.insert d ch).2 := by
  unfold Table.insert
  split
  · exact .refl
  · exact .refl
  · rename_i hnone
    exact .single (@Step.insert headers i s (d.row ch.text ch.text ch.text ch.time) hnone hm)

/-- A statement that commits by itself on an unlocked row. -/
theorem write_steps {f : Invoice → Invoice} (hc : s id = some c) (hfree : c.held = none)
    (hr : Issued c.committed (f c.committed)) : Steps headers i s (s.write id f) := by
  simp only [Table.write, hc]
  exact .single (.write hc hfree hr)

theorem inTransaction_steps {fault : Option Fault} {f : Invoice → β × Invoice}
    (hf : ∀ c w, s id = some c → c.held = some (i, w) → Working c.committed (f w).2) :
    Steps headers i s (s.inTransaction i id fault f).2 := by
  unfold Table.inTransaction
  split
  · exact .refl
  · exact .refl
  rename_i c hc
  split
  · exact .refl
  rename_i j row hheld
  split
  · rename_i hj
    subst hj
    exact .single (.hold hc (by simp [hheld]) (hf c row hc hheld))
  · exact .refl

theorem copyRecurring_steps {seen : Invoice} {nextDate : Time} {draft : Draft} {ch : Choice}
    (he : enabled (.copyRecurring seen nextDate draft) s = true) (hm : headers → draft.Matches) :
    Steps headers i s (s.copyRecurring seen nextDate draft ch).2 := by
  simp only [Table.copyRecurring]
  split
  · exact .refl
  rename_i c hc
  split
  · rename_i hdue
    simp only [enabled, hc, Option.all_some, hdue, Bool.not_true, Bool.or_false] at he
    have hfree : c.held = none := by simpa [Cell.free] using he
    have hissued : c.committed.status ≠ .draft := by
      rintro hd
      simp [Invoice.stillDue, hd, recurringSource] at hdue
    split
    · exact .refl
    · rename_i row s' hins
      obtain ⟨hnone, hrow, rfl⟩ := insert_ok hins
      have hstill : s.put row.id ⟨row, none, []⟩ seen.id = some c := by
        rw [put_eq, if_neg, hc]
        rintro hid
        rw [hid, hnone] at hc
        cases hc
      have hm : headers → row.Matches := fun hh => hrow ▸ hm hh
      refine (Relation.ReflTransGen.single (.insert hnone hm)).trans ?_
      exact write_steps (f := (·.moveOn nextDate ch.time)) hstill hfree
        ⟨rfl, ⟨hissued, fun _ => rfl⟩, rfl⟩
  · exact .refl

theorem claimDraft_steps {organizationId : String} {observed updatedAt : Time}
    (he : enabled (.claimDraft id organizationId observed updatedAt) s = true)
    (hnew : observed < updatedAt) :
    Steps headers i s (s.claimDraft i id organizationId observed updatedAt).2 := by
  simp only [Table.claimDraft]
  split
  · exact .refl
  rename_i c hc
  split
  · rename_i hed
    simp only [enabled, hc, Option.all_some, hed, Bool.not_true, Bool.or_false] at he
    have hfree : c.held = none := by simpa [Cell.free] using he
    simp only [Invoice.editable, Bool.and_eq_true, decide_eq_true_eq] at hed
    have hobs : c.committed.updatedAt < updatedAt := by
      rw [hed.2]
      exact hnew
    exact .single (.hold hc (by simp [hfree]) ⟨rfl, hed.1.2, hed.1.2, hobs⟩)
  · exact .refl

theorem commit_steps
    (hm : headers → ∀ c w, s id = some c → c.held = some (i, w) → w.Matches) :
    Steps headers i s (s.commit i id) := by
  simp only [Table.commit]
  split
  · exact .refl
  rename_i c hc
  split
  · exact .refl
  rename_i j row hheld
  split
  · rename_i hj
    subst hj
    exact .single (.commit hc hheld fun hh => hm hh c row hc hheld)
  · exact .refl

theorem rollback_steps : Steps headers i s (s.rollback i id) := by
  simp only [Table.rollback]
  split
  · exact .refl
  rename_i c hc
  split
  · rename_i hheld
    cases hw : c.held with
    | none => simp [hw] at hheld
    | some held =>
      obtain rfl : held.1 = i := by simpa [hw] using hheld
      exact .single (.release hc hw)
  · exact .refl

theorem claimSend_steps {seen : Invoice} {sentAt now : Time} {viewToken : String}
    {nextDate : Option Time} (he : enabled (.claimSend seen sentAt viewToken nextDate) s = true) :
    Steps headers i s (s.claimSend seen sentAt viewToken nextDate now).2 := by
  simp only [Table.claimSend]
  split
  · exact .refl
  rename_i c hc
  split
  · rename_i hdraft
    simp only [enabled, hc, Option.all_some, hdraft, ne_eq, not_true_eq_false, decide_false,
      Bool.or_false] at he
    have hfree : c.held = none := by simpa [Cell.free] using he
    exact write_steps (f := (·.send sentAt viewToken nextDate now)) hc hfree
      ⟨rfl, ⟨by simp [Invoice.send], fun hn => absurd hdraft hn⟩, rfl⟩
  · exact .refl

theorem finishSend_steps {paymentLink : Option String} {now : Time}
    (he : enabled (.finishSend id paymentLink) s = true)
    (hissued : ∀ c, s id = some c → c.committed.status ≠ .draft) :
    Steps headers i s (s.write id (·.finish paymentLink now)) := by
  cases hc : s id with
  | none =>
    simp only [Table.write, hc]
    exact .refl
  | some c =>
    simp only [enabled, hc, Option.all_some] at he
    have hfree : c.held = none := by simpa [Cell.free] using he
    exact write_steps (f := (·.finish paymentLink now)) hc hfree
      ⟨rfl, ⟨hissued c hc, fun _ => rfl⟩, rfl⟩

theorem exec_steps {st : Stmt β} {ch : Choice} (hs : Sound headers s)
    (he : enabled st s = true) (hp : st.Promised headers i s) :
    Steps headers i s (exec i st ch s).2 := by
  cases st with
  | createInvoice origin draft => exact insert_steps hp
  | copyRecurring seen nextDate draft => exact copyRecurring_steps he hp
  | claimDraft id organizationId observed updatedAt =>
    simp only [exec]
    split
    · exact .refl
    · exact claimDraft_steps he hp
  | findLineItems id => exact inTransaction_steps fun c w hc hw => hs.held id c i w hc hw
  | deleteLineItems id =>
    apply inTransaction_steps
    intro c w hc hw
    obtain ⟨hid, hcom, hdraft, hnew⟩ := hs.held id c i w hc hw
    exact ⟨hid, hcom, hdraft, hnew⟩
  | createLineItems id lineItems =>
    apply inTransaction_steps
    intro c w hc hw
    obtain ⟨hid, hcom, hdraft, hnew⟩ := hs.held id c i w hc hw
    exact ⟨hid, hcom, hdraft, hnew⟩
  | updateInvoice id data updatedAt totals =>
    apply inTransaction_steps
    intro c w hc hw
    obtain ⟨hid, hcom, hdraft, hnew⟩ := hs.held id c i w hc hw
    exact ⟨hid, hcom, hdraft, hp c w hc hw ▸ hnew⟩
  | commit id =>
    simp only [exec]
    split
    · exact .refl
    · exact commit_steps hp
  | rollback id => exact rollback_steps
  | claimSend seen sentAt viewToken nextDate => exact claimSend_steps he
  | finishSend id paymentLink => exact finishSend_steps he hp
  | _ => exact .refl

end Ashbi.Drafts
