import Ashbi.Invoicing.SameLink

/-! Payment links of one price reply with one session. -/

namespace Ashbi.Invoicing

open Interleaving

/-! ### Two links that ask Stripe -/

def Stmt.replies {β : Type} : Stmt β → Option CheckoutReply
  | .reply r => some r
  | _ => none

def Stmt.readsInvoice {β : Type} : Stmt β → Bool
  | .findInvoice => true
  | _ => false

/-- What the thread has learned in the trace. -/
abbrev factsOf (tr : List (Occurrence machine)) (i : ℕ) : List Fact :=
  marksOf (Occurrence.learned learn) tr i

/-- Two payment links have read one attempt and one balance and try to store their sessions. The
first finds the invoice as it has read it, and until the second has read it back, the stored session
is not changed. -/
structure Overlap (before : List (Occurrence machine)) (first : Occurrence machine)
    (between : List (Occurrence machine)) (second : Occurrence machine)
    (waiting : List (Occurrence machine)) (readBack : Occurrence machine)
    (attempt : ℕ) (data : CheckoutData) : Prop where
  stores : first.stmt.storesCheckout = some (attempt, data)
  current : (Write.storeCheckout attempt data).filter first.pre.committed.invoice = true
  tries : second.stmt.storesCheckout.isSome = true
  price : priceRead (factsOf (before ++ first :: between) second.thread) =
    priceRead (factsOf before first.thread)
  alone : ∀ o ∈ waiting, o.thread ≠ second.thread
  thread : readBack.thread = second.thread
  reads : readBack.stmt.readsInvoice = true
  undisturbed : ∀ o ∈ between ++ waiting, o.post.committed.invoice.stripeCheckoutSessionId =
    o.pre.committed.invoice.stripeCheckoutSessionId

section

variable {s₀ : Store} {tr before between waiting after : List (Occurrence machine)}
  {d : Config machine} {o first second readBack : Occurrence machine} {attempt : ℕ}

theorem factsOf_concat (tr : List (Occurrence machine)) (o : Occurrence machine) :
    factsOf (tr ++ [o]) o.thread = factsOf tr o.thread ++ o.learned learn := by
  rw [factsOf, marksOf_concat, Function.update_self]

theorem factsOf_others {i : ℕ} (h : ∀ o ∈ tr, o.thread ≠ i) : factsOf tr i = [] := by
  have hnone : tr.filter (·.thread = i) = [] :=
    List.filter_eq_nil_iff.mpr fun o ho => by simpa using h o ho
  rw [factsOf, marksOf, hnone]
  rfl

/-- A store that finds the attempt it has read, and one that does not. -/
theorem learned_store (hneed : need o.stmt facts) (hp : Promised False o.thread o.stmt o.pre)
    (hst : o.stmt.storesCheckout = some (attempt, data)) :
    Tries facts attempt data ∧
      if (Write.storeCheckout attempt data).filter o.pre.committed.invoice then
        o.learned learn = [.tried data true] ∧ data.attempt = attempt + 1 ∧
          o.post.committed.invoice = o.pre.committed.invoice.storeCheckout data
      else o.learned learn = [.tried data false] ∧ o.post = o.pre := by
  obtain ⟨i, st, ch, s⟩ := o
  cases st with
  | updateMany tx write =>
    cases write with
    | storeCheckout attempt' data' =>
      obtain ⟨rfl, rfl⟩ := Prod.mk.inj (Option.some.inj hst)
      obtain ⟨rfl, htries⟩ := hneed
      have hview : s.view i = s.committed := view_idle hp.2
      refine ⟨htries, ?_⟩
      split
      · rename_i hfilter
        have hfilter : (Write.storeCheckout attempt' data').filter s.committed.invoice = true :=
          hfilter
        refine ⟨?_, hp.1, ?_⟩
        · simp [Occurrence.learned, Occurrence.result, machine, exec, Store.updateMany, hview,
            hfilter, learn]
        · simp [Occurrence.post, machine, exec, Store.updateMany, hview, hfilter, Store.write,
            Write.data]
      · rename_i hfilter
        have hfilter : (Write.storeCheckout attempt' data').filter s.committed.invoice = false :=
          Bool.eq_false_iff.mpr hfilter
        refine ⟨?_, ?_⟩
        · simp [Occurrence.learned, Occurrence.result, machine, exec, Store.updateMany, hview,
            hfilter, learn]
        · simp [Occurrence.post, machine, exec, Store.updateMany, hview, hfilter]
    | _ => cases hst
  | _ => cases hst

theorem free_of_store (hp : Promised False o.thread o.stmt o.pre)
    (hst : o.stmt.storesCheckout.isSome = true) (hneed : need o.stmt facts) :
    o.pre.heldBy o.thread = false := by
  obtain ⟨i, st, ch, s⟩ := o
  cases st with
  | updateMany tx write =>
    cases write with
    | storeCheckout attempt data =>
      obtain ⟨rfl, -⟩ := hneed
      exact hp.2
    | _ => cases hst
  | _ => cases hst

theorem learned_read (hfree : o.pre.heldBy o.thread = false)
    (hreads : o.stmt.readsInvoice = true) : o.learned learn = [.read o.pre.committed.invoice] := by
  obtain ⟨i, st, ch, s⟩ := o
  cases st with
  | findInvoice =>
    have hview : s.view i = s.committed := view_idle hfree
    simp [Occurrence.learned, Occurrence.result, machine, exec, hview, learn]
  | _ => cases hreads

theorem learned_reply {reply : CheckoutReply} (hreply : o.stmt.replies = some reply) :
    o.learned learn = [.replied] := by
  obtain ⟨i, st, ch, s⟩ := o
  cases st with
  | reply reply' => rfl
  | _ => cases hreply

theorem replies_of_need {reply : CheckoutReply} (hneed : need o.stmt facts)
    (hreply : o.stmt.replies = some reply) : Replies reply facts := by
  obtain ⟨i, st, ch, s⟩ := o
  cases st with
  | reply reply' =>
    obtain rfl := Option.some.inj hreply
    exact hneed
  | _ => cases hreply

theorem created_of_answered {key : CheckoutKey} {session : Session}
    (h : Fact.answered key session ∈ o.learned learn) : .created key session ∈ note o := by
  obtain ⟨i, st, ch, s⟩ := o
  cases st with
  | createSession key' params =>
    obtain ⟨session', hsession, heq⟩ := List.mem_map.mp h
    cases heq
    exact List.mem_map.mpr ⟨session, hsession, rfl⟩
  | updateMany tx write =>
    cases tx with
    | true => cases List.mem_singleton.mp h
    | false =>
      cases write with
      | storeCheckout attempt data => cases List.mem_singleton.mp h
      | _ => cases h
  | findInvoice => cases List.mem_singleton.mp h
  | invoiceAmountPaid => cases List.mem_singleton.mp h
  | createPayment payment => cases List.mem_singleton.mp h
  | recordInvoicePaid payment => cases List.mem_singleton.mp h
  | reply reply => cases List.mem_singleton.mp h
  | _ => cases h

/-- A thread whose link is settled replies with it. -/
theorem reply_of_settled (h : Run (Deployed config False) s₀ tr d)
    {front back : List (Occurrence machine)} (htr : tr = front ++ back)
    {i : ℕ} {url : String} (hsettled : settled (factsOf front i) = some url)
    (hsilent : Fact.replied ∉ factsOf front i) (ho : o ∈ tr) (hi : o.thread = i)
    {reply : CheckoutReply} (hreply : o.stmt.replies = some reply) : reply = .link url false := by
  subst hi
  rw [htr] at ho
  rcases List.mem_append.mp ho with hfront | hback
  · have hlearned : Fact.replied ∈ o.learned learn := by
      rw [learned_reply hreply]
      exact List.mem_cons_self
    exact absurd (mem_marksOf.mpr ⟨o, hfront, rfl, hlearned⟩) hsilent
  · obtain ⟨middle, rest, rfl⟩ := List.append_of_mem hback
    have htr' : tr = (front ++ middle) ++ o :: rest := by rw [htr, List.append_assoc]
    have hneed := Run.learned_at (fun p hp => hp.learned) h htr'
    refine (replies_of_need hneed hreply).settled url ?_
    rw [marksOf_append]
    exact settled_mono hsettled _

/-- Sessions for one attempt and amount have one id and one link. -/
theorem same_session (h : Run (Deployed config False) s₀ tr d) (h₀ : s₀.locked = none)
    (hs : Priced s₀) {i j : ℕ} {attempt' : ℕ}
    {data' : CheckoutData} {front front' : List (Occurrence machine)}
    (hfront : front ⊆ tr) (hfront' : front' ⊆ tr)
    (ht : Tries (factsOf front i) attempt data) (ht' : Tries (factsOf front' j) attempt' data')
    (hprice : priceRead (factsOf front' j) = priceRead (factsOf front i)) :
    attempt' = attempt ∧ data'.checkoutSessionId = data.checkoutSessionId ∧
      data'.paymentLink = data.paymentLink := by
  obtain ⟨balance, hread, hamount⟩ := ht.price
  obtain ⟨balance', hread', hamount'⟩ := ht'.price
  obtain ⟨hattempt, hbalance⟩ := Prod.mk.inj
    (Option.some.inj (hread'.symm.trans (hprice.trans hread)))
  obtain ⟨key, session, hin, hkey, hminor, hid, hurl⟩ := ht.session
  obtain ⟨key', session', hin', hkey', hminor', hid', hurl'⟩ := ht'.session
  obtain ⟨o₁, ho₁, -, hlearned₁⟩ := mem_marksOf.mp hin
  obtain ⟨o₂, ho₂, -, hlearned₂⟩ := mem_marksOf.mp hin'
  have hsame : session' = session := session_of_key h h₀ hs (hfront' ho₂) (hfront ho₁)
    (created_of_answered hlearned₂) (created_of_answered hlearned₁)
    (by rw [hkey', hkey, hattempt]) (by rw [hminor', hminor, hamount', hamount, hbalance])
  refine ⟨hattempt, ?_, ?_⟩
  · rw [← hid', ← hid, hsame]
  · rw [← hurl', ← hurl, hsame]

/-- The first store finds the invoice as it was read. -/
theorem Overlap.stored (hov : Overlap before first between second waiting readBack attempt data)
    (h : Run (Deployed config False) s₀ tr d) (h₀ : s₀.locked = none)
    (htr : tr = before ++ first :: (between ++ second :: (waiting ++ readBack :: after))) :
    Tries (factsOf before first.thread) attempt data ∧ first.learned learn = [.tried data true] ∧
      attempt < first.post.attempt ∧
      first.post.committed.invoice.stripeCheckoutSessionId = some data.checkoutSessionId := by
  have hneed := Run.learned_at (fun p hp => hp.learned) h htr
  obtain ⟨htries, hstored⟩ := learned_store hneed ((run_custody h h₀).1 first (by simp [htr]))
    hov.stores
  rw [if_pos hov.current] at hstored
  obtain ⟨hlearned, hnext, hpost⟩ := hstored
  refine ⟨htries, hlearned, ?_, by rw [hpost]; rfl⟩
  rw [Store.attempt, hpost]
  exact Nat.lt_of_succ_le hnext.ge

/-- Its session is still stored when the second tries. -/
theorem Overlap.still_stored
    (hov : Overlap before first between second waiting readBack attempt data)
    (h : Run (Deployed config False) s₀ tr d) (h₀ : s₀.locked = none)
    (htr : tr = before ++ first :: (between ++ second :: (waiting ++ readBack :: after))) :
    second.pre.committed.invoice.stripeCheckoutSessionId = some data.checkoutSessionId ∧
      attempt < second.pre.attempt := by
  obtain ⟨-, -, hattempt, hsession⟩ := hov.stored h h₀ htr
  have hchain := h.chained
  rw [htr] at hchain
  obtain ⟨-, -, -, hchain⟩ := chained_append.mp hchain
  obtain ⟨s, hbetween, rfl, -⟩ := chained_append.mp hchain
  refine (hbetween.invariant (fun s => s.committed.invoice.stripeCheckoutSessionId =
    some data.checkoutSessionId ∧ attempt < s.attempt) (fun o ho hpre => ⟨?_, ?_⟩)
    ⟨hsession, hattempt⟩).1
  · rw [hov.undisturbed o (List.mem_append_left _ ho)]
    exact hpre.1
  · exact hpre.2.trans_le (run_change h h₀ (by simp [htr, ho])).priceStep.attempt

/-- The second reads the session of the first back. -/
theorem Overlap.seen (hov : Overlap before first between second waiting readBack attempt data)
    (h : Run (Deployed config False) s₀ tr d) (h₀ : s₀.locked = none)
    (htr : tr = before ++ first :: (between ++ second :: (waiting ++ readBack :: after)))
    (hneed : need second.stmt facts) (hpost : second.post = second.pre) :
    readBack.learned learn = [.read readBack.pre.committed.invoice] ∧
      readBack.pre.committed.invoice.stripeCheckoutSessionId = some data.checkoutSessionId := by
  have hchain := h.chained
  rw [htr] at hchain
  obtain ⟨-, -, -, hchain⟩ := chained_append.mp hchain
  obtain ⟨-, -, -, hchain⟩ := chained_append.mp hchain
  obtain ⟨s, hwaiting, rfl, -⟩ := chained_append.mp hchain
  have hseen : readBack.pre.committed.invoice.stripeCheckoutSessionId =
      some data.checkoutSessionId ∧ readBack.pre.heldBy second.thread = false := by
    refine (hwaiting.invariant (fun s => s.committed.invoice.stripeCheckoutSessionId =
      some data.checkoutSessionId ∧ s.heldBy second.thread = false)
      (fun o ho hpre => ⟨?_, exec_free (hov.alone o ho).symm hpre.2⟩) ⟨?_, ?_⟩).1
    · rw [hov.undisturbed o (List.mem_append_right _ ho)]
      exact hpre.1
    · rw [hpost]
      exact (hov.still_stored h h₀ htr).1
    · rw [hpost]
      exact free_of_store ((run_custody h h₀).1 second (by simp [htr])) hov.tries hneed
  refine ⟨learned_read ?_ hov.reads, hseen.1⟩
  rw [hov.thread]
  exact hseen.2

/-- Both links reply with the session that the first has stored. -/
theorem Overlap.reply (hov : Overlap before first between second waiting readBack attempt data)
    (h : Run (Deployed config False) s₀ tr d) (h₀ : s₀.locked = none) (hs : Priced s₀)
    (htr : tr = before ++ first :: (between ++ second :: (waiting ++ readBack :: after)))
    (ho : o ∈ tr) (hthread : o.thread = first.thread ∨ o.thread = second.thread)
    {reply : CheckoutReply} (hreply : o.stmt.replies = some reply) :
    reply = .link data.paymentLink false := by
  obtain ⟨hfirst, hlearned, -, -⟩ := hov.stored h h₀ htr
  rcases hthread with hthread | hthread
  · have htr₁ : tr =
        (before ++ [first]) ++ (between ++ second :: (waiting ++ readBack :: after)) := by
      simp [htr]
    refine reply_of_settled h htr₁ ?_ ?_ ho hthread hreply
    · rw [factsOf_concat, hlearned, settled_append hfirst.unsettled (by simp)]
      rfl
    · rw [factsOf_concat, hlearned]
      simp [hfirst.silent]
  have htr₂ : tr = (before ++ first :: between) ++ second :: (waiting ++ readBack :: after) := by
    rw [htr, List.append_assoc, List.cons_append]
  obtain ⟨⟨attempt', data'⟩, htries⟩ := Option.isSome_iff_exists.mp hov.tries
  have hneed := Run.learned_at (fun p hp => hp.learned) h htr₂
  obtain ⟨hsecond, htried⟩ := learned_store hneed
    ((run_custody h h₀).1 second (by simp [htr])) htries
  obtain ⟨rfl, hid, hlink⟩ := same_session h h₀ hs
    (by rw [htr]; exact List.subset_append_left _ _)
    (by rw [htr₂]; exact List.subset_append_left _ _) hfirst hsecond hov.price
  -- the attempt has moved on, so the second does not store its session
  have hlost : ¬ (Write.storeCheckout attempt' data').filter second.pre.committed.invoice =
      true := by
    simp only [Write.filter, Bool.and_eq_true, decide_eq_true_eq, not_and]
    exact fun _ => (hov.still_stored h h₀ htr).2.ne'
  rw [if_neg hlost] at htried
  obtain ⟨hread, hseen⟩ := hov.seen h h₀ htr hneed htried.2
  have hlast : factsOf (waiting ++ [readBack]) second.thread =
      [.read readBack.pre.committed.invoice] := by
    rw [← hov.thread, factsOf_concat, hov.thread, factsOf_others hov.alone, List.nil_append, hread]
  have hfacts : factsOf (before ++ first :: between ++ second :: (waiting ++ [readBack]))
      second.thread = factsOf (before ++ first :: between) second.thread ++
        [.tried data' false, .read readBack.pre.committed.invoice] := by
    rw [factsOf, marksOf_append, marksOf_cons, htried.1]
    exact congrArg (_ ++ _ :: ·) hlast
  have htr₃ : tr = (before ++ first :: between ++ second :: (waiting ++ [readBack])) ++ after := by
    simp [htr]
  refine reply_of_settled h htr₃ ?_ ?_ ho hthread hreply
  · rw [hfacts, settled_append hsecond.unsettled (by simp), ← hlink]
    simp [settled, confirmed, hseen, hid]
  · rw [hfacts]
    simp [hsecond.silent]

/-! ### Two links that reuse the stored one -/

theorem light_of_learned (hp : Promised False o.thread o.stmt o.pre)
    (h : Fact.locked ∉ o.learned learn) : Light False o.stmt := by
  obtain ⟨i, st, ch, s⟩ := o
  cases st with
  | updateMany tx write =>
    cases tx with
    | true => exact absurd (List.mem_singleton.mpr rfl) h
    | false => exact ⟨rfl, hp.1⟩
  | createPayment payment => exact absurd (List.mem_singleton.mpr rfl) h
  | recordInvoicePaid payment => exact absurd (List.mem_singleton.mpr rfl) h
  | _ => trivial

/-- A thread that has run no statement of a transaction holds no lock. -/
theorem free_of_unlocked (h : Run (Deployed config False) s₀ tr d) (h₀ : s₀.locked = none)
    {front back : List (Occurrence machine)} (htr : tr = front ++ o :: back)
    (hfacts : Fact.locked ∉ factsOf front o.thread) : o.pre.heldBy o.thread = false := by
  have hchain := h.chained
  rw [htr] at hchain
  obtain ⟨s, hfront, rfl, -⟩ := chained_append.mp hchain
  refine (hfront.invariant (·.heldBy o.thread = false) (fun o' ho' hpre => ?_)
    (by simp [Store.heldBy, h₀])).1
  by_cases hi : o'.thread = o.thread
  · have hunlocked : Fact.locked ∉ o'.learned learn :=
      fun hm => hfacts (mem_marksOf.mpr ⟨o', ho', hi, hm⟩)
    have hp := (run_custody h h₀).1 o' (by simp [htr, ho'])
    rw [← hi] at hpre ⊢
    exact light_free hpre (light_of_learned hp hunlocked)
  · exact exec_free (Ne.symm hi) hpre

theorem mem_of_lastRead {r : Invoice} (h : lastRead facts = some r) : Fact.read r ∈ facts := by
  induction facts using List.reverseRecOn with
  | nil => cases h
  | append_singleton facts fact ih =>
    rw [lastRead, List.foldl_append] at h
    cases fact with
    | read invoice =>
      obtain rfl := Option.some.inj h
      exact List.mem_append_right _ List.mem_cons_self
    | _ => exact List.mem_append_left _ (ih h)

theorem readsInvoice_of_learned {r : Invoice} (h : Fact.read r ∈ o.learned learn) :
    o.stmt.readsInvoice = true := by
  obtain ⟨i, st, ch, s⟩ := o
  cases st with
  | findInvoice => rfl
  | createSession key params =>
    obtain ⟨session, -, heq⟩ := List.mem_map.mp h
    cases heq
  | updateMany tx write =>
    cases tx with
    | true => cases List.mem_singleton.mp h
    | false =>
      cases write with
      | storeCheckout attempt data => cases List.mem_singleton.mp h
      | _ => cases h
  | invoiceAmountPaid => cases List.mem_singleton.mp h
  | createPayment payment => cases List.mem_singleton.mp h
  | recordInvoicePaid payment => cases List.mem_singleton.mp h
  | reply reply => cases List.mem_singleton.mp h
  | _ => cases h

/-- What a thread without a lock has read last was committed. -/
theorem read_committed (h : Run (Deployed config False) s₀ tr d) (h₀ : s₀.locked = none)
    {front back : List (Occurrence machine)} (htr : tr = front ++ back) {i : ℕ} {r : Invoice}
    (hfacts : Fact.locked ∉ factsOf front i) (hread : lastRead (factsOf front i) = some r) :
    ∃ o ∈ tr, o.pre.committed.invoice = r := by
  obtain ⟨o, ho, rfl, hlearned⟩ := mem_marksOf.mp (mem_of_lastRead hread)
  obtain ⟨earlier, later, rfl⟩ := List.append_of_mem ho
  have hfree : o.pre.heldBy o.thread = false := by
    have htr' : tr = earlier ++ o :: (later ++ back) := by simp [htr]
    refine free_of_unlocked h h₀ htr' fun hm => hfacts ?_
    rw [factsOf, marksOf_append]
    exact List.mem_append_left _ hm
  refine ⟨o, by simp [htr], ?_⟩
  rw [learned_read hfree (readsInvoice_of_learned hlearned)] at hlearned
  exact (Fact.read.inj (List.mem_singleton.mp hlearned)).symm

theorem priceStep_of_later (h : Run (Deployed config False) s₀ tr d) (h₀ : s₀.locked = none)
    {front back : List (Occurrence machine)} {o' : Occurrence machine}
    (htr : tr = front ++ o :: back) (ho' : o' ∈ back) : PriceStep o.pre o'.pre := by
  have hstep : ∀ o ∈ tr, PriceStep o.pre o.post := fun o ho => (run_change h h₀ ho).priceStep
  have hchain := h.chained
  rw [htr] at hchain
  obtain ⟨-, -, -, hback⟩ := chained_append.mp hchain
  exact (hback.invariant (PriceStep o.pre)
    (fun o'' ho'' hpre => hpre.trans (hstep o'' (by simp [htr, ho''])))
    (hstep o (by simp [htr]))).2 o' ho'

/-- Of two states of a run, one comes after the other. -/
theorem priceStep_of_mem (h : Run (Deployed config False) s₀ tr d) (h₀ : s₀.locked = none)
    {o' : Occurrence machine} (ho : o ∈ tr) (ho' : o' ∈ tr) :
    PriceStep o.pre o'.pre ∨ PriceStep o'.pre o.pre := by
  obtain ⟨front, back, htr⟩ := List.append_of_mem ho
  rw [htr] at ho'
  rcases List.mem_append.mp ho' with hfront | hback
  · obtain ⟨earlier, later, rfl⟩ := List.append_of_mem hfront
    have htr' : tr = earlier ++ o' :: (later ++ o :: back) := by simp [htr]
    exact .inr (priceStep_of_later h h₀ htr' (by simp))
  · rcases List.mem_cons.mp hback with rfl | hback
    · exact .inl (.refl _)
    · exact .inl (priceStep_of_later h h₀ htr hback)

/-- Two links that reuse the stored one at one price reply with the same. -/
theorem reused_link (h : Run (Deployed config False) s₀ tr d) (h₀ : s₀.locked = none)
    {front back front' back' : List (Occurrence machine)} {o' : Occurrence machine}
    (htr : tr = front ++ o :: back) (htr' : tr = front' ++ o' :: back') {url url' : String}
    (hreply : o.stmt.replies = some (.link url true))
    (hreply' : o'.stmt.replies = some (.link url' true))
    (hprice : priceRead (factsOf front' o'.thread) = priceRead (factsOf front o.thread)) :
    url' = url := by
  have hneed := Run.learned_at (fun p hp => hp.learned) h htr
  have hneed' := Run.learned_at (fun p hp => hp.learned) h htr'
  obtain ⟨hunlocked, r, balance, hread, hlink, hr⟩ :=
    (replies_of_need hneed hreply).reused url rfl
  obtain ⟨hunlocked', r', balance', hread', hlink', hr'⟩ :=
    (replies_of_need hneed' hreply').reused url' rfl
  obtain ⟨hattempt, -⟩ := Prod.mk.inj (Option.some.inj (hr'.symm.trans (hprice.trans hr)))
  obtain ⟨o₁, ho₁, rfl⟩ := read_committed h h₀ htr hunlocked hread
  obtain ⟨o₂, ho₂, rfl⟩ := read_committed h h₀ htr' hunlocked' hread'
  -- the link changes only together with the attempt, unless it is cleared
  have hsame : some url' = some url := by
    rcases priceStep_of_mem h h₀ ho₁ ho₂ with hstep | hstep
    · rcases hstep.link hattempt with heq | hnone
      · rw [← hlink', ← hlink, heq]
      · cases hnone.symm.trans hlink'
    · rcases hstep.link hattempt.symm with heq | hnone
      · rw [← hlink', ← hlink, heq]
      · cases hnone.symm.trans hlink
  exact Option.some.inj hsame

end

end Ashbi.Invoicing
