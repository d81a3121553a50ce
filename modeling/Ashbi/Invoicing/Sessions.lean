import Ashbi.Invoicing.Pricing

/-! What every payment link does with the sessions that Stripe creates for it. -/

namespace Ashbi.Invoicing

open Interleaving

/-! ### What a thread has done with sessions -/

inductive Note
  /-- Stripe has answered with this session. -/
  | created (key : CheckoutKey) (session : Session)
  /-- The session was stored on the invoice. -/
  | stored (sessionId : String)
  /-- The session was seen on the invoice. -/
  | found (sessionId : String)
  | expired (sessionId : String)
  deriving DecidableEq

/-- The session is taken care of. -/
def Note.settles (x : String) : Note → Prop
  | .created _ _ => False
  | .stored y => y = x
  | .found y => y = x
  | .expired y => y = x

def noteOf {β : Type} (i : ℕ) (st : Stmt β) (ch : Choice) (s : Store) : List Note :=
  match st with
  | .createSession key params =>
    (s.createSession key params ch.session).1.toList.map (.created key)
  | .updateMany false (.storeCheckout attempt data) =>
    if (s.updateMany i false (.storeCheckout attempt data) ch.conflict).1 = 1 then
      [.stored data.checkoutSessionId]
    else []
  | .findInvoice => (s.view i).invoice.stripeCheckoutSessionId.toList.map .found
  | .expireSession sessionId => [.expired sessionId]
  | _ => []

def note (o : Occurrence machine) : List Note := noteOf o.thread o.stmt o.choice o.pre

/-- Every created session is taken care of later on. -/
def Accounted : List Note → Prop
  | [] => True
  | .created _ session :: rest => (∃ m ∈ rest, m.settles session.id) ∧ Accounted rest
  | _ :: rest => Accounted rest

theorem Accounted.append {ms ms' : List Note} (h : Accounted ms) (h' : Accounted ms') :
    Accounted (ms ++ ms') := by
  induction ms with
  | nil => exact h'
  | cons m ms ih =>
    cases m with
    | created key session =>
      obtain ⟨⟨m, hm, hs⟩, hrest⟩ := h
      exact ⟨⟨m, List.mem_append_left _ hm, hs⟩, ih hrest⟩
    | _ => exact ih h

theorem Accounted.settled {a b : List Note} {key : CheckoutKey} {session : Session}
    (h : Accounted (a ++ .created key session :: b)) : ∃ m ∈ b, m.settles session.id := by
  induction a with
  | nil => exact h.1
  | cons m a ih =>
    cases m with
    | created key' session' => exact ih h.2
    | _ => exact ih h

theorem found_accounted (found : Option String) : Accounted (found.toList.map .found) := by
  cases found <;> trivial

/-! ### The contract -/

abbrev Books := Store × (ℕ → List Note)

structure Stays (i : ℕ) (w w' : Books) : Prop where
  price : PriceStep w.1 w'.1
  sessions : w.1.sessions ⊆ w'.1.sessions
  free : w.1.heldBy i = false → w'.1.heldBy i = false
  notes : w'.2 i = w.2 i

theorem Stays.refl (i : ℕ) (w : Books) : Stays i w w := ⟨.refl _, List.Subset.refl _, id, rfl⟩

theorem Stays.trans {i : ℕ} {w w' w'' : Books} (h : Stays i w w') (h' : Stays i w' w'') :
    Stays i w w'' :=
  ⟨h.price.trans h'.price, fun _ hx => h'.sessions (h.sessions hx), fun hf => h'.free (h.free hf),
    h'.notes.trans h.notes⟩

/-- The session to be stored asks for the balance of the rows. -/
def AsksBalance (data : CheckoutData) (s : Store) : Prop :=
  ∃ key session, (key, session) ∈ s.sessions ∧ session.id = data.checkoutSessionId ∧
    session.amountMinor = checkoutAmountMinor s.committed.balanceDue

variable {config : StripeConfig} {terms : Invoice}

/-- What a thread knows when it runs a statement of a payment link. -/
def Fresh (config : StripeConfig) (terms : Invoice) {β : Type} (_ : ℕ) (st : Stmt β) (w : Books) :
    Prop :=
  match st with
  | .createSession key params => ∃ r balanceDue, SameTerms terms r ∧
      params = checkoutParams config.appUrl r balanceDue ∧
      key = checkoutIdempotencyKey config.digest r params
  | .updateMany _ (.storeCheckout attempt data) => w.1.attempt = attempt → AsksBalance data w.1
  | _ => True

/-- Of a deployment that sends no drafts, with invoices on these terms. -/
def freshness (config : StripeConfig) (terms : Invoice) : Contract (machine.logged note) where
  inv w := SameTerms terms w.1.committed.invoice ∧ Priced w.1
  rely := Stays
  assumed o := Promised False o.thread o.stmt o.pre.1
  guar o := Fresh config terms o.thread o.stmt o.pre
  fresh i w := w.1.heldBy i = false ∧ w.2 i = []
  final i w := Accounted (w.2 i)
  refl := Stays.refl
  trans _ _ _ _ := Stays.trans
  fresh_rely _ _ _ hr h := ⟨hr.free h.1, hr.notes.trans h.2⟩
  final_rely _ _ _ hr h := by rw [hr.notes]; exact h

variable {α β : Type} {i j : ℕ} {s : Store} {st : Stmt β} {ch : Choice} {w : Books}

/-- The statements that ask Stripe for a session. -/
def Stmt.creates {β : Type} : Stmt β → Bool
  | .createSession _ _ => true
  | _ => false

theorem exec_sessions_same (hst : st.creates = false) :
    (exec i st ch s).2.sessions = s.sessions := by
  cases st with
  | updateMany tx write =>
    rcases updateMany_cases s i tx write ch.conflict with h | ⟨_, h⟩
    · simp [exec, h]
    · simp [exec, h, write_sessions]
  | createPayment data =>
    simp only [exec, Store.createPayment]
    split
    · rfl
    · simp [write_sessions]
  | recordInvoicePaid payment =>
    simp only [exec]
    split
    · simp [write_sessions]
    · rfl
  | commit op =>
    simp only [exec, Store.commit]
    split
    · split <;> rfl
    · rfl
  | rollback =>
    simp only [exec, Store.rollback]
    split <;> rfl
  | createSession key params => cases hst
  | _ => rfl

/-- The new session, if any, has the amount that was asked for. -/
theorem createSession_sessions (key : CheckoutKey) (params : CheckoutParams)
    (answer : Option Session) :
    (s.createSession key params answer).2.sessions = s.sessions ∨
      ∃ session : Session, session.amountMinor = params.amountMinor ∧
        (s.createSession key params answer).2.sessions = s.sessions ++ [(key, session)] := by
  unfold Store.createSession
  split
  · exact .inl rfl
  · exact .inl rfl
  · split
    · exact .inl rfl
    · exact .inr ⟨_, rfl, rfl⟩

theorem exec_sessions : s.sessions ⊆ (exec i st ch s).2.sessions := by
  cases hst : st.creates with
  | false => rw [exec_sessions_same hst]; exact List.Subset.refl _
  | true =>
    cases st with
    | createSession key params =>
      rcases createSession_sessions (s := s) key params ch.session with h | ⟨session, -, h⟩
      · simp only [exec, h]
        exact List.Subset.refl _
      · simp only [exec, h]
        exact List.subset_append_left _ _
    | _ => cases hst

theorem exec_priced (hs : Priced w.1) (hf : Fresh config terms i st w) :
    Priced (exec i st ch w.1).2 := by
  cases hst : st.creates with
  | false =>
    intro key session hmem
    rw [exec_sessions_same hst] at hmem
    exact hs key session hmem
  | true =>
    cases st with
    | createSession key params =>
      obtain ⟨r, balanceDue, -, -, hkey⟩ := hf
      rcases createSession_sessions (s := w.1) key params ch.session with h | ⟨session, ha, h⟩
      · intro key' session' hmem
        simp only [exec, h] at hmem
        exact hs key' session' hmem
      · intro key' session' hmem
        simp only [exec, h] at hmem
        rcases List.mem_append.mp hmem with hmem | hmem
        · exact hs key' session' hmem
        · obtain ⟨rfl, rfl⟩ := Prod.mk.inj (List.mem_singleton.mp hmem)
          rw [ha, hkey]
          rfl
    | _ => cases hst

/-- The books after a statement of thread `i`. -/
def Books.after (w : Books) (i : ℕ) (st : Stmt β) (ch : Choice) : Books :=
  ((exec i st ch w.1).2, Function.update w.2 i (w.2 i ++ noteOf i st ch w.1))

@[simp] theorem after_notes : (w.after i st ch).2 i = w.2 i ++ noteOf i st ch w.1 := by
  simp [Books.after]

theorem after_price (hp : Promised False i st w.1) (ch : Choice) :
    PriceStep w.1 (w.after i st ch).1 := by
  have hchange : Change False i w.1 st (exec i st ch w.1).2 := exec_change hp
  exact hchange.priceStep

theorem after_stays (hij : j ≠ i) (hp : Promised False i st w.1) : Stays j w (w.after i st ch) := by
  refine ⟨after_price hp ch, exec_sessions, exec_free hij, ?_⟩
  simp [Books.after, Function.update_of_ne hij]

abbrev Prices (config : StripeConfig) (terms : Invoice) (i : ℕ) (p : Prog Stmt α)
    (Q : α → Books → Prop) (w : Books) : Prop :=
  Prog.Safe (M := machine.logged note) (freshness config terms) i p Q w

theorem price_keeps {t : Books} {ch : Choice} (hi : (freshness config terms).inv t)
    (hp : Promised False i st t.1) (hf : Fresh config terms i st t) :
    (freshness config terms).Keeps (M := machine.logged note) ⟨i, st, ch, t⟩ := by
  have hstep : PriceStep t.1 (exec i st ch t.1).2 := (exec_change hp).priceStep
  exact ⟨hf, ⟨hi.1.trans hstep.terms, exec_priced hi.2 hf⟩, fun j hj => after_stays hj hp⟩

/-- The rule for one statement. -/
theorem price_call {next : β → Prog Stmt α} {Q : α → Books → Prop}
    (h : ∀ (t : Books) (ch : Choice), Stays i w t → SameTerms terms t.1.committed.invoice →
      Priced t.1 → Promised False i st t.1 → Fresh config terms i st t ∧
        Prices config terms i (next (exec i st ch t.1).1) Q (t.after i st ch)) :
    Prices config terms i (.call st next) Q w := by
  intro t ch hr hi _ hp
  obtain ⟨hf, hn⟩ := h t ch hr hi.1 hi.2 hp
  exact ⟨price_keeps hi hp hf, hn⟩

/-! ### The other programs -/

theorem fresh_of_other (hst : pricing st = false) : Fresh config terms i st w := by
  cases st with
  | createSession key params => cases hst
  | updateMany tx write =>
    cases write with
    | storeCheckout attempt data => cases hst
    | _ => trivial
  | _ => trivial

theorem notes_of_other (hst : pricing st = false) (ch : Choice) : Accounted (noteOf i st ch s) := by
  cases st with
  | createSession key params => cases hst
  | updateMany tx write =>
    cases tx with
    | true => trivial
    | false =>
      cases write with
      | storeCheckout attempt data => cases hst
      | _ => trivial
  | findInvoice => exact found_accounted _
  | _ => trivial

theorem after_accounted {ch : Choice} (h : Accounted (w.2 i))
    (hn : Accounted (noteOf i st ch w.1)) : Accounted ((w.after i st ch).2 i) := by
  rw [after_notes]
  exact h.append hn

/-- A program that prices nothing keeps the contract. -/
theorem other_prices {p : Prog Stmt α} (hp : p.AtMost pricing 0) (h : Accounted (w.2 i)) :
    Prices config terms i p (fun _ t => Accounted (t.2 i)) w := by
  refine Prog.AtMost.safe (M := machine.logged note) (K := freshness config terms)
    (J := fun i t => Accounted (t.2 i)) ?_ ?_ (fun _ _ h => h) ?_ hp h
  · intro i s t hr hs
    rw [hr.notes]
    exact hs
  · intro i s hf
    rw [hf.2]
    trivial
  · intro β i st ch t hst ht hi _ hpromised
    exact ⟨price_keeps hi hpromised (fresh_of_other hst),
      after_accounted ht (notes_of_other hst ch)⟩

/-! ### The payment link -/

/-- The thread holds no lock, and every session it created is taken care of. -/
structure Tidy (i : ℕ) (w : Books) : Prop where
  free : w.1.heldBy i = false
  notes : Accounted (w.2 i)

/-- What a round knows: the balance goes with the attempt of the invoice it has read. -/
structure Knows (terms r : Invoice) (balanceDue : ℚ) (w : Books) : Prop where
  terms : SameTerms terms r
  attempt : r.stripeCheckoutAttempt ≤ w.1.attempt
  balance : w.1.attempt = r.stripeCheckoutAttempt → balanceDue = w.1.committed.balanceDue

variable {t : Books} {r : Invoice} {balanceDue : ℚ}

theorem Tidy.stays (h : Tidy i w) (hr : Stays i w t) : Tidy i t :=
  ⟨hr.free h.free, by rw [hr.notes]; exact h.notes⟩

/-- A statement that neither locks nor creates leaves the thread tidy. -/
theorem Tidy.after (h : Tidy i w) (st : Stmt β) (ch : Choice) (hl : Light False st)
    (hst : pricing st = false) :
    Tidy i (w.after i st ch) := by
  refine ⟨light_free h.free hl, ?_⟩
  rw [after_notes]
  exact h.notes.append (notes_of_other hst ch)

theorem balanceDue_congr {s t : Store} (h : PriceStep s t) (he : t.attempt = s.attempt) :
    t.committed.balanceDue = s.committed.balanceDue := by
  simp [Ledger.balanceDue, h.terms.total, h.payments he]

theorem Knows.price (h : Knows terms r balanceDue w) (hp : PriceStep w.1 t.1) :
    Knows terms r balanceDue t := by
  have h1 := h.attempt
  have h2 := hp.attempt
  refine ⟨h.terms, by omega, fun he => ?_⟩
  rw [balanceDue_congr hp (by omega)]
  exact h.balance (by omega)

/-- `balanceOf` of an invoice read before: the rest goes on knowing its balance. -/
theorem balanceOf_prices {next : ℚ → Prog Stmt α} {Q : α → Books → Prop} (h : Tidy i w)
    (hterms : SameTerms terms r) (hattempt : r.stripeCheckoutAttempt ≤ w.1.attempt)
    (hn : ∀ balanceDue t, Tidy i t → Knows terms r balanceDue t →
      Prices config terms i (next balanceDue) Q t) :
    Prices config terms i ((balanceOf r).bind next) Q w := by
  apply price_call
  intro t ch hr hsame _ hp
  have ht := h.stays hr
  have hle := hr.price.attempt
  refine ⟨trivial, hn _ _ (ht.after _ _ trivial rfl) ⟨hterms, ?_, fun _ => ?_⟩⟩
  · exact Nat.le_trans hattempt hle
  · simp only [exec, view_idle ht.free, Books.after, Ledger.balanceDue]
    rw [hterms.total, hsame.total]

/-- The thread has just got a session for this round, and not yet taken care of it. -/
structure Bought (config : StripeConfig) (terms r : Invoice) (balanceDue : ℚ)
    (created : CreatedLink)
    (i : ℕ) (w : Books) : Prop where
  free : w.1.heldBy i = false
  knows : Knows terms r balanceDue w
  data : created.data = checkoutPersistenceData r (checkoutParams config.appUrl r balanceDue)
    created.session
  notes : ∃ ms key rest, Accounted ms ∧ Accounted rest ∧
    w.2 i = ms ++ .created key created.session :: rest
  session : ∃ key, (key, created.session) ∈ w.1.sessions ∧
    key.amountMinor = checkoutAmountMinor balanceDue

variable {created : CreatedLink}

theorem Bought.stays (h : Bought config terms r balanceDue created i w) (hr : Stays i w t) :
    Bought config terms r balanceDue created i t := by
  refine ⟨hr.free h.free, h.knows.price hr.price, h.data, by rw [hr.notes]; exact h.notes, ?_⟩
  obtain ⟨key, hmem, ha⟩ := h.session
  exact ⟨key, hr.sessions hmem, ha⟩

/-- The compare-and-set on the attempt: the balance is still the one that was read. -/
theorem Bought.asksBalance (h : Bought config terms r balanceDue created i w) (hs : Priced w.1)
    (he : w.1.attempt = r.stripeCheckoutAttempt) : AsksBalance created.data w.1 := by
  obtain ⟨key, hmem, ha⟩ := h.session
  refine ⟨key, created.session, hmem, by rw [h.data]; rfl, ?_⟩
  rw [hs key _ hmem, ha, h.knows.balance he]

theorem Bought.keep (h : Bought config terms r balanceDue created i w) (st : Stmt β)
    (ch : Choice) (hl : Light False st)
    (hp : Promised False i st w.1) (ha : Accounted (noteOf i st ch w.1)) :
    Bought config terms r balanceDue created i (w.after i st ch) := by
  have hstep : PriceStep w.1 (exec i st ch w.1).2 := (exec_change hp).priceStep
  obtain ⟨ms, key, rest, hms, hrest, hnotes⟩ := h.notes
  obtain ⟨key', hmem, hamount⟩ := h.session
  refine ⟨light_free h.free hl, h.knows.price hstep, h.data,
    ⟨ms, key, rest ++ noteOf i st ch w.1, hms, hrest.append ha, ?_⟩, key',
      exec_sessions hmem, hamount⟩
  rw [after_notes, hnotes, List.append_assoc, List.cons_append]

/-- A statement that takes care of the session. -/
theorem Bought.settle (h : Bought config terms r balanceDue created i w) (st : Stmt β)
    (ch : Choice) (hl : Light False st)
    (ha : Accounted (noteOf i st ch w.1))
    (hs : ∃ m ∈ noteOf i st ch w.1, m.settles created.session.id) :
    Tidy i (w.after i st ch) := by
  obtain ⟨ms, key, rest, hms, hrest, hnotes⟩ := h.notes
  obtain ⟨m, hm, hsettles⟩ := hs
  have hnotes' : (w.after i st ch).2 i =
      ms ++ .created key created.session :: (rest ++ noteOf i st ch w.1) := by
    rw [after_notes, hnotes, List.append_assoc, List.cons_append]
  refine ⟨light_free h.free hl, ?_⟩
  rw [hnotes']
  exact hms.append ⟨⟨m, List.mem_append_right _ hm, hsettles⟩, hrest.append ha⟩

theorem createPaymentLink_prices (h : Tidy i w) (hk : Knows terms r balanceDue w) :
    Prices config terms i (createPaymentLink config r balanceDue) (fun result t =>
      match result with
      | .error _ => Tidy i t
      | .ok created => Bought config terms r balanceDue created i t) w := by
  unfold createPaymentLink
  split
  · exact h
  · apply price_call
    intro t ch hr _ _ _
    have ht := h.stays hr
    refine ⟨⟨r, balanceDue, hk.terms, rfl, rfl⟩, ?_⟩
    generalize hparams : checkoutParams config.appUrl r balanceDue = params
    generalize hkey : checkoutIdempotencyKey config.digest r params = key
    have hlight : Light False (.createSession key params) := trivial
    have hfree : (t.after i (.createSession key params) ch).1.heldBy i = false :=
      light_free ht.free hlight
    have hnotes : (t.after i (.createSession key params) ch).2 i = t.2 i ++
        (t.1.createSession key params ch.session).1.toList.map (.created key) := after_notes
    simp only [exec]
    cases hsession : (t.1.createSession key params ch.session).1 with
    | none =>
      refine ⟨hfree, ?_⟩
      rw [hnotes, hsession]
      simpa using ht.notes
    | some session =>
      have hp : Promised False i (.createSession key params) t.1 := trivial
      have hstep : PriceStep t.1 (exec i (.createSession key params) ch t.1).2 :=
        (exec_change hp).priceStep
      refine ⟨hfree, (hk.price hr.price).price hstep,
        by rw [hparams], ⟨t.2 i, key, [], ht.notes, trivial, ?_⟩,
        key, ?_, by rw [← hkey, ← hparams]; rfl⟩
      · rw [hnotes, hsession]
        rfl
      · obtain ⟨l₁, l₂, hl, -⟩ := List.lookup_eq_some_iff.mp (createSession_lookup hsession)
        rw [Books.after, exec, hl]
        simp

theorem checkoutRounds_prices (now : Time) (rounds : ℕ) (h : Tidy i w)
    (hk : Knows terms r balanceDue w) :
    Prices config terms i (checkoutRounds config now rounds r balanceDue) (fun _ => Tidy i) w := by
  induction rounds generalizing r balanceDue w with
  | zero => exact h
  | succ rounds ih =>
    unfold checkoutRounds
    split
    · exact h
    split
    · exact h
    split
    · exact h
    refine Prog.Safe.bind ((createPaymentLink_prices h hk).mono fun result t ht => ?_)
    cases result with
    | error e => exact ht
    | ok created =>
      have hdata : created.data.checkoutSessionId = created.session.id := by rw [ht.data]; rfl
      have hlight : Light False (.updateMany false
          (.storeCheckout r.stripeCheckoutAttempt created.data)) := ⟨rfl, by rw [ht.data]; rfl⟩
      apply price_call
      intro u ch hr _ hpriced hp
      have hu := Bought.stays ht hr
      refine ⟨fun he => hu.asksBalance hpriced he, ?_⟩
      simp only [exec, Prog.ret_bind, Prog.bind_def, Prog.pure_def]
      split
      · rename_i hcount
        refine hu.settle _ ch hlight ?_ ?_
        · simp [noteOf, hcount, Accounted]
        · simp [noteOf, hcount, Note.settles, hdata]
      rename_i hcount
      have hv := hu.keep _ ch hlight hp (by simp [noteOf, hcount, Accounted])
      apply price_call
      intro v ch' hr' hsame _ hp'
      have hv := hv.stays hr'
      have hview : v.1.view i = v.1.committed := view_idle hv.free
      refine ⟨trivial, ?_⟩
      simp only [exec, Prog.ret_bind, hview]
      split
      · rename_i hfound
        refine hv.settle .findInvoice ch' trivial ?_ ?_
        · exact found_accounted _
        · simp [noteOf, hview, hfound, Note.settles]
      have hx := hv.keep .findInvoice ch' trivial hp' (found_accounted _)
      have hstep := after_price hp' ch'
      apply price_call
      intro x ch'' hr'' _ _ hp''
      have hx := hx.stays hr''
      have hstep' := after_price hp'' ch''
      have hdone := hx.settle (.expireSession created.session.id) ch'' trivial trivial
        (by simp [noteOf, Note.settles])
      refine ⟨trivial, balanceOf_prices hdone hsame ?_ fun _ _ => ih⟩
      · exact ((hstep.trans hr''.price).trans hstep').attempt

theorem paymentLink_prices (h : Tidy i w) :
    Prices config terms i (paymentLink config) (fun _ => Tidy i) w := by
  apply price_call
  intro t ch hr hsame _ hp
  have ht := h.stays hr
  have hstep := after_price hp ch
  refine ⟨trivial, ?_⟩
  simp only [exec, Prog.ret_bind, Prog.pure_def, view_idle ht.free]
  have ht' := ht.after .findInvoice ch trivial rfl
  split
  · exact ht'
  apply price_call
  intro u ch' hr' _ _ hp'
  have hstep' := after_price hp' ch'
  refine ⟨trivial, balanceOf_prices ((ht'.stays hr').after _ _ trivial rfl) hsame ?_
    fun _ _ hv hk =>
    checkoutRounds_prices _ _ hv hk⟩
  exact ((hstep.trans hr'.price).trans hstep').attempt

theorem Deployed.prices {p : Prog Stmt Unit} (h : Deployed config False p)
    (hw : (freshness config terms).fresh i w) :
    Prices config terms i p (fun _ => (freshness config terms).final i) w := by
  have hnotes : Accounted (w.2 i) := by rw [hw.2]; trivial
  rcases h.pricing with hother | rfl
  · exact other_prices hother hnotes
  · refine Prog.Safe.bind ((paymentLink_prices ⟨hw.1, hnotes⟩).mono fun reply t ht => ?_)
    apply price_call
    intro u ch hr _ _ _
    refine ⟨trivial, ?_⟩
    show Accounted ((u.after i (.reply reply) ch).2 i)
    rw [after_notes, hr.notes]
    exact ht.notes.append trivial

/-! ### Runs without sends -/

/-- The session write of the statement, if it is one, with the attempt it compares. -/
def Stmt.storesCheckout {β : Type} : Stmt β → Option (ℕ × CheckoutData)
  | .updateMany _ (.storeCheckout attempt data) => some (attempt, data)
  | _ => none

variable {s₀ : Store} {tr : List (Occurrence machine)} {d : Config machine} {o : Occurrence machine}

/-- The key of a session created on these terms. -/
def KeyOf (config : StripeConfig) (terms : Invoice) (key : CheckoutKey) : Prop :=
  ∃ r balanceDue, SameTerms terms r ∧
    key = checkoutIdempotencyKey config.digest r (checkoutParams config.appUrl r balanceDue)

theorem checkoutParams_terms (h : SameTerms terms r) (appUrl : String) (balanceDue : ℚ) :
    checkoutParams appUrl r balanceDue = checkoutParams appUrl terms balanceDue := by
  simp [checkoutParams, checkoutCurrency, h.currency, h.invoiceNumber, h.notes, h.viewToken]

/-- On fixed terms, attempt and amount determine the key. -/
theorem KeyOf.eq {key₁ key₂ : CheckoutKey} (h₁ : KeyOf config terms key₁)
    (h₂ : KeyOf config terms key₂) (ha : key₁.attempt = key₂.attempt)
    (hm : key₁.amountMinor = key₂.amountMinor) : key₁ = key₂ := by
  obtain ⟨r₁, b₁, ht₁, rfl⟩ := h₁
  obtain ⟨r₂, b₂, ht₂, rfl⟩ := h₂
  have hattempt : r₁.stripeCheckoutAttempt = r₂.stripeCheckoutAttempt := ha
  have hamount : checkoutAmountMinor b₁ = checkoutAmountMinor b₂ := hm
  have hparams : checkoutParams config.appUrl terms b₁ = checkoutParams config.appUrl terms b₂ := by
    simp [checkoutParams, hamount]
  simp only [checkoutParams_terms ht₁, checkoutParams_terms ht₂, hparams, checkoutIdempotencyKey,
    ht₁.id, ht₂.id, hattempt]

/-- A note of a created session: nothing else is noted, Stripe keeps the session
under its key, and the key is one of the terms that the statement knew. -/
theorem created_note {key : CheckoutKey} {session : Session} (h : .created key session ∈ note o) :
    note o = [.created key session] ∧ o.post.sessions.lookup key = some session ∧
      ∀ config terms notes, Fresh config terms o.thread o.stmt (o.pre, notes) →
        KeyOf config terms key := by
  obtain ⟨i, st, ch, s⟩ := o
  cases st with
  | createSession key' params =>
    simp only [note, noteOf, List.mem_map, Option.mem_toList] at h
    obtain ⟨session', hsome, hcreated⟩ := h
    obtain ⟨rfl, rfl⟩ := Note.created.inj hcreated
    refine ⟨by simp [note, noteOf, hsome], createSession_lookup hsome, fun _ _ _ hf => ?_⟩
    obtain ⟨r, balanceDue, hterms, hparams, hkey⟩ := hf
    exact ⟨r, balanceDue, hterms, hparams ▸ hkey⟩
  | updateMany tx write =>
    cases tx with
    | true => cases h
    | false =>
      cases write with
      | storeCheckout attempt data =>
        simp only [note, noteOf] at h
        split at h <;> simp at h
      | _ => cases h
  | findInvoice =>
    simp only [note, noteOf, List.mem_map] at h
    obtain ⟨_, _, h⟩ := h
    cases h
  | expireSession sessionId => simp [note, noteOf] at h
  | _ => cases h

/-- The contract of every run: what each statement knew, and what is left of the sessions. -/
theorem run_freshness (h : Run (Deployed config False) s₀ tr d) (h₀ : s₀.locked = none)
    (hs : Priced s₀) :
    (∀ o ∈ tr, ∃ notes : ℕ → List Note, (∀ i, notes i ⊆ marksOf note tr i) ∧
      Fresh config s₀.committed.invoice o.thread o.stmt (o.pre, notes)) ∧
    ∀ i, d.done i = true → Accounted (marksOf note tr i) := by
  obtain ⟨tr', ht, hr⟩ := h.logged note
  have hpromised := (run_custody h h₀).1
  obtain ⟨hc, ho⟩ := Run.holds (K := freshness config s₀.committed.invoice)
    (fun p hp i s _ hf => hp.prices hf) ⟨.refl _, hs⟩
    (fun i => ⟨by simp [Store.heldBy, h₀], rfl⟩) hr
    fun o ho => hpromised o.plain (by rw [← ht]; exact List.mem_map_of_mem ho)
  refine ⟨fun o hmem => ?_, fun i hi => ?_⟩
  · rw [← ht] at hmem
    obtain ⟨o', ho', rfl⟩ := List.mem_map.mp hmem
    exact ⟨o'.pre.2, fun i => hr.marks_kept ho' i, (ho o' ho').2.guar⟩
  · have hret : d.threads[i]? = some (.ret ()) := Config.done_iff.mp hi
    exact hc.final hret

theorem exec_lookup {key : CheckoutKey} {session : Session}
    (h : s.sessions.lookup key = some session) :
    (exec i st ch s).2.sessions.lookup key = some session := by
  cases hst : st.creates with
  | false => rw [exec_sessions_same hst, h]
  | true =>
    cases st with
    | createSession key' params =>
      rcases createSession_sessions (s := s) key' params ch.session with hs | ⟨session', -, hs⟩
      · simp only [exec, hs, h]
      · simp [exec, hs, List.lookup_append, h]
    | _ => cases hst

theorem fresh_store {attempt : ℕ} {data : CheckoutData} (hf : Fresh config terms i st w)
    (hst : st.storesCheckout = some (attempt, data)) (ha : w.1.attempt = attempt) :
    AsksBalance data w.1 := by
  cases st with
  | updateMany tx write =>
    cases write with
    | storeCheckout attempt' data' =>
      obtain ⟨rfl, rfl⟩ := Prod.mk.inj (Option.some.inj hst)
      exact hf ha
    | _ => cases hst
  | _ => cases hst

/-- Two sessions of the same attempt and amount are one. -/
theorem session_of_key (h : Run (Deployed config False) s₀ tr d) (h₀ : s₀.locked = none)
    (hs : Priced s₀) {o₁ o₂ : Occurrence machine} (ho₁ : o₁ ∈ tr) (ho₂ : o₂ ∈ tr)
    {key₁ key₂ : CheckoutKey} {x₁ x₂ : Session} (hn₁ : .created key₁ x₁ ∈ note o₁)
    (hn₂ : .created key₂ x₂ ∈ note o₂) (ha : key₁.attempt = key₂.attempt)
    (hm : key₁.amountMinor = key₂.amountMinor) : x₁ = x₂ := by
  have hfresh := (run_freshness h h₀ hs).1
  have lookups : ∀ o ∈ tr, ∀ key session, .created key session ∈ note o →
      KeyOf config s₀.committed.invoice key ∧ d.state.sessions.lookup key = some session := by
    intro o ho key session hn
    obtain ⟨-, hl, hkey⟩ := created_note hn
    obtain ⟨notes, -, hf⟩ := hfresh o ho
    obtain ⟨-, hkept⟩ := h.preserves (fun (s t : Store) => ∀ key session,
      s.sessions.lookup key = some session → t.sessions.lookup key = some session)
      (fun _ _ _ hl => hl) (fun _ _ _ hst htu key session hl => htu key session
        (hst key session hl))
      fun o _ _ _ hl => exec_lookup hl
    exact ⟨hkey _ _ _ hf, hkept o ho key session hl⟩
  obtain ⟨hk₁, hl₁⟩ := lookups o₁ ho₁ key₁ x₁ hn₁
  obtain ⟨hk₂, hl₂⟩ := lookups o₂ ho₂ key₂ x₂ hn₂
  obtain rfl := hk₁.eq hk₂ ha hm
  exact Option.some.inj (hl₁.symm.trans hl₂)

end Ashbi.Invoicing
