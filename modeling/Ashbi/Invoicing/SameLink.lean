import Ashbi.Interleaving.Learned
import Ashbi.Invoicing.Sessions

/-! What a payment link has learned before it stores a session and before it replies. -/

namespace Ashbi.Invoicing

open Interleaving

/-! ### What a payment link has learned -/

inductive Fact
  | read (invoice : Invoice)
  | summed (paid : ℚ)
  /-- Stripe has answered with this session. -/
  | answered (key : CheckoutKey) (session : Session)
  | tried (data : CheckoutData) (stored : Bool)
  /-- A statement of a transaction, which may take the row lock. -/
  | locked
  | replied

def learn {β : Type} (st : Stmt β) (answer : β) : List Fact :=
  match st, answer with
  | .findInvoice, invoice => [.read invoice]
  | .invoiceAmountPaid, paid => [.summed paid]
  | .createSession key _, session => session.toList.map (.answered key)
  | .updateMany false (.storeCheckout _ data), count => [.tried data (count = 1)]
  | .updateMany true _, _ => [.locked]
  | .createPayment _, _ => [.locked]
  | .recordInvoicePaid _, _ => [.locked]
  | .reply _, _ => [.replied]
  | _, _ => []

def lastRead (facts : List Fact) : Option Invoice :=
  facts.foldl (fun last fact => match fact with
    | .read invoice => some invoice
    | _ => last) none

def lastSum (facts : List Fact) : Option ℚ :=
  facts.foldl (fun last fact => match fact with
    | .summed paid => some paid
    | _ => last) none

/-- The attempt and the balance of the invoice and of the payments that were last read. -/
def priceRead (facts : List Fact) : Option (ℕ × ℚ) := do
  let invoice ← lastRead facts
  let paid ← lastSum facts
  pure (invoice.stripeCheckoutAttempt, (invoiceBalance invoice.total paid).balanceDue)

/-- The session that was not stored is the one of the invoice that is read next. -/
def confirmed (data : CheckoutData) : List Fact → Bool
  | .read invoice :: _ => invoice.stripeCheckoutSessionId = some data.checkoutSessionId
  | _ => false

/-- The link of the first session that was stored, or seen on the invoice when it was not. -/
def settled : List Fact → Option String
  | [] => none
  | .tried data stored :: rest =>
    if stored || confirmed data rest then some data.paymentLink else settled rest
  | _ :: rest => settled rest

/-- What a payment link has learned before it tries to store a session. -/
structure Tries (facts : List Fact) (attempt : ℕ) (data : CheckoutData) : Prop where
  unsettled : settled facts = none
  silent : Fact.replied ∉ facts
  price : ∃ balance, priceRead facts = some (attempt, balance) ∧
    data.amountMinor = checkoutAmountMinor balance
  session : ∃ key session, .answered key session ∈ facts ∧ key.attempt = attempt ∧
    key.amountMinor = data.amountMinor ∧ session.id = data.checkoutSessionId ∧
    session.url = data.paymentLink

/-- The reused link is the one of the invoice that was last read, outside of any transaction. -/
structure Reuses (facts : List Fact) (url : String) : Prop where
  unlocked : Fact.locked ∉ facts
  read : ∃ invoice balance, lastRead facts = some invoice ∧
    invoice.stripePaymentLink = some url ∧
    priceRead facts = some (invoice.stripeCheckoutAttempt, balance)

/-- What a payment link has learned before it replies. -/
structure Replies (reply : CheckoutReply) (facts : List Fact) : Prop where
  settled : ∀ url, settled facts = some url → reply = .link url false
  reused : ∀ url, reply = .link url true → Reuses facts url

def need {β : Type} (st : Stmt β) (facts : List Fact) : Prop :=
  match st with
  | .updateMany tx (.storeCheckout attempt data) => tx = false ∧ Tries facts attempt data
  | .reply reply => Replies reply facts
  | _ => True

variable {facts more : List Fact} {data : CheckoutData} {r : Invoice} {balanceDue : ℚ}
  {config : StripeConfig} {α : Type}

theorem confirmed_append (h : ∀ invoice rest, more ≠ .read invoice :: rest) :
    confirmed data (facts ++ more) = confirmed data facts := by
  cases facts with
  | cons fact facts => cases fact <;> rfl
  | nil =>
    cases more with
    | nil => rfl
    | cons fact more =>
      cases fact with
      | read invoice => exact absurd rfl (h invoice more)
      | _ => rfl

/-- Nothing is settled by what was learned before. -/
theorem settled_append (h : settled facts = none)
    (hmore : ∀ invoice rest, more ≠ .read invoice :: rest) :
    settled (facts ++ more) = settled more := by
  induction facts with
  | nil => rfl
  | cons fact facts ih =>
    cases fact with
    | tried data stored =>
      rw [settled] at h
      split at h
      · cases h
      · rename_i hnot
        rw [List.cons_append, settled, confirmed_append hmore, if_neg hnot]
        exact ih h
    | _ => exact ih h

/-- What is settled stays so. -/
theorem settled_mono {url : String} (h : settled facts = some url) (more : List Fact) :
    settled (facts ++ more) = some url := by
  induction facts with
  | nil => cases h
  | cons fact facts ih =>
    cases fact with
    | tried data stored =>
      rw [settled] at h
      rw [List.cons_append, settled]
      cases facts with
      | nil =>
        split at h
        · rename_i hstored
          rw [show confirmed data [] = false from rfl, Bool.or_false] at hstored
          rw [if_pos (by rw [hstored, Bool.true_or]), h]
        · cases h
      | cons fact facts =>
        have hsame : confirmed data (fact :: facts ++ more) = confirmed data (fact :: facts) := by
          cases fact <;> rfl
        rw [hsame]
        split at h
        · rename_i hstored
          rw [if_pos hstored, h]
        · rename_i hnot
          rw [if_neg hnot]
          exact ih h
    | _ => exact ih h

/-! ### The rounds -/

/-- What a payment link has learned before a round. -/
structure Round (facts : List Fact) (r : Invoice) (balanceDue : ℚ) : Prop where
  unsettled : settled facts = none
  silent : Fact.replied ∉ facts
  unlocked : Fact.locked ∉ facts
  read : lastRead facts = some r
  summed : ∃ paid, lastSum facts = some paid ∧
    (invoiceBalance r.total paid).balanceDue = balanceDue

theorem Round.price (h : Round facts r balanceDue) :
    priceRead facts = some (r.stripeCheckoutAttempt, balanceDue) := by
  obtain ⟨paid, hpaid, rfl⟩ := h.summed
  rw [priceRead, h.read, hpaid]
  rfl

theorem Round.answered (h : Round facts r balanceDue) (key : CheckoutKey) (session : Session) :
    Round (facts ++ [.answered key session]) r balanceDue := by
  obtain ⟨paid, hpaid, hbalance⟩ := h.summed
  refine ⟨(settled_append h.unsettled (by simp)).trans rfl, by simp [h.silent],
    by simp [h.unlocked], ?_, paid, ?_, hbalance⟩
  · rw [lastRead, List.foldl_append]
    exact h.read
  · rw [lastSum, List.foldl_append]
    exact hpaid

/-- The invoice and its payments have been read again. -/
theorem Round.again {paid : ℚ} (hunsettled : settled facts = none)
    (hsilent : Fact.replied ∉ facts) (hunlocked : Fact.locked ∉ facts)
    (hread : lastRead facts = some r) :
    Round (facts ++ [.summed paid]) r (invoiceBalance r.total paid).balanceDue := by
  refine ⟨(settled_append hunsettled (by simp)).trans rfl, by simp [hsilent], by simp [hunlocked],
    ?_, paid, ?_, rfl⟩
  · rw [lastRead, List.foldl_append]
    exact hread
  · rw [lastSum, List.foldl_append]
    rfl

/-- The session that Stripe has just answered with. -/
structure Answered (facts : List Fact) (config : StripeConfig) (r : Invoice) (balanceDue : ℚ)
    (created : CreatedLink) : Prop extends Round facts r balanceDue where
  data : created.data = checkoutPersistenceData r (checkoutParams config.appUrl r balanceDue)
    created.session
  answer : ∃ key, .answered key created.session ∈ facts ∧
    key.attempt = r.stripeCheckoutAttempt ∧ key.amountMinor = checkoutAmountMinor balanceDue

theorem Answered.tries {created : CreatedLink}
    (h : Answered facts config r balanceDue created) :
    Tries facts r.stripeCheckoutAttempt created.data := by
  obtain ⟨key, hanswered, hattempt, hamount⟩ := h.answer
  refine ⟨h.unsettled, h.silent, ⟨balanceDue, h.price, by rw [h.data]; rfl⟩,
    key, created.session, hanswered, hattempt, ?_, by rw [h.data]; rfl, by rw [h.data]; rfl⟩
  rw [hamount, h.data]
  rfl

theorem replies_of_unsettled (h : settled facts = none) {reply : CheckoutReply}
    (hnew : ∀ url, reply ≠ .link url true) : Replies reply facts := by
  refine ⟨fun url hurl => ?_, fun url hurl => absurd hurl (hnew url)⟩
  cases h.symm.trans hurl

theorem replies_of_settled (h : settled facts = some data.paymentLink) :
    Replies (.link data.paymentLink false) facts := by
  refine ⟨fun url hurl => ?_, fun url hurl => by cases hurl⟩
  rw [Option.some.inj (h.symm.trans hurl)]

theorem link_of_reusable {now : Time} {url : String}
    (h : reusableCheckoutLink r balanceDue now = some url) : r.stripePaymentLink = some url := by
  unfold reusableCheckoutLink at h
  obtain ⟨link, hlink, h⟩ := Option.bind_eq_some_iff.mp h
  obtain ⟨_, -, h⟩ := Option.bind_eq_some_iff.mp h
  obtain ⟨_, -, h⟩ := Option.bind_eq_some_iff.mp h
  obtain ⟨_, -, h⟩ := Option.bind_eq_some_iff.mp h
  obtain ⟨_, -, h⟩ := Option.bind_eq_some_iff.mp h
  obtain ⟨_, -, h⟩ := Option.bind_eq_some_iff.mp h
  rw [hlink, Option.some.inj h]

theorem Round.reuses (h : Round facts r balanceDue) {now : Time} {url : String}
    (hlink : reusableCheckoutLink r balanceDue now = some url) :
    Replies (.link url true) facts := by
  refine ⟨fun url' hurl => ?_, fun url' hurl => ?_⟩
  · cases h.unsettled.symm.trans hurl
  · cases hurl
    exact ⟨h.unlocked, r, balanceDue, h.read, link_of_reusable hlink, h.price⟩

theorem createPaymentLink_learned (h : Round facts r balanceDue) :
    (createPaymentLink config r balanceDue).Learned learn need (fun result facts =>
      match result with
      | .error _ => settled facts = none
      | .ok created => Answered facts config r balanceDue created) facts := by
  unfold createPaymentLink
  split
  · exact h.unsettled
  · refine ⟨trivial, fun answer => ?_⟩
    cases answer with
    | none =>
      change settled (facts ++ []) = none
      rw [List.append_nil]
      exact h.unsettled
    | some session =>
      exact { h.answered _ session with
        data := rfl
        answer := ⟨_, List.mem_append_right _ List.mem_cons_self, rfl, rfl⟩ }

theorem checkoutRounds_learned (now : Time) (rounds : ℕ) (h : Round facts r balanceDue) :
    (checkoutRounds config now rounds r balanceDue).Learned learn need Replies facts := by
  induction rounds generalizing r balanceDue facts with
  | zero => exact replies_of_unsettled h.unsettled (by simp)
  | succ rounds ih =>
    unfold checkoutRounds
    split
    · exact replies_of_unsettled h.unsettled (by simp)
    split
    · exact replies_of_unsettled h.unsettled (by simp)
    split
    · rename_i hlink
      exact h.reuses hlink
    refine Prog.Learned.bind ((createPaymentLink_learned h).mono fun result facts hresult => ?_)
    cases result with
    | error e => exact replies_of_unsettled hresult (by simp)
    | ok created =>
      have hlink : created.session.url = created.data.paymentLink := by rw [hresult.data]; rfl
      have hid : created.session.id = created.data.checkoutSessionId := by rw [hresult.data]; rfl
      refine ⟨⟨rfl, hresult.tries⟩, fun count => ?_⟩
      simp only [learn, Prog.ret_bind, Prog.bind_def, Prog.pure_def]
      split
      · rename_i hcount
        rw [hlink, hcount]
        refine replies_of_settled ?_
        rw [settled_append hresult.unsettled (by simp)]
        rfl
      rename_i hcount
      refine ⟨trivial, fun fresh => ?_⟩
      simp only [learn, Prog.ret_bind, List.append_assoc, List.singleton_append]
      have hsettled : settled (facts ++ [.tried created.data (count = 1), .read fresh]) =
          settled [.tried created.data (count = 1), .read fresh] :=
        settled_append hresult.unsettled (by simp)
      split
      · rename_i hfound
        rw [hlink]
        refine replies_of_settled (hsettled.trans ?_)
        simp [settled, confirmed, hfound, hid]
      · rename_i hfound
        refine ⟨trivial, fun _ => ⟨trivial, fun paid => ih ?_⟩⟩
        simp only [learn, List.append_nil]
        refine Round.again (hsettled.trans ?_) (by simp [hresult.silent])
          (by simp [hresult.unlocked]) ?_
        · simp [settled, confirmed, hcount, hid ▸ hfound]
        · rw [lastRead, List.foldl_append]
          rfl

theorem paymentLink_learned :
    (paymentLink config).Learned learn need Replies [] := by
  refine ⟨trivial, fun invoice => ?_⟩
  simp only [learn, Prog.ret_bind, Prog.pure_def]
  split
  · exact replies_of_unsettled rfl (by simp)
  · refine ⟨trivial, fun now => ⟨trivial, fun paid => checkoutRounds_learned now _ ?_⟩⟩
    have hround : Round ([.read invoice] ++ [.summed paid]) invoice
        (invoiceBalance invoice.total paid).balanceDue :=
      Round.again rfl (by simp) (by simp) rfl
    exact hround

theorem Deployed.learned {p : Prog Stmt Unit} (h : Deployed config False p) :
    p.Learned learn need (fun _ _ => True) [] := by
  rcases h.pricing with hother | rfl
  · refine Prog.AtMost.learned hother fun st facts hst => ?_
    cases st with
    | updateMany tx write =>
      cases write with
      | storeCheckout attempt data => cases hst
      | _ => trivial
    | reply reply => cases hst
    | _ => trivial
  · exact Prog.Learned.bind (paymentLink_learned.mono fun reply facts hreply =>
      ⟨hreply, fun _ => trivial⟩)

end Ashbi.Invoicing
