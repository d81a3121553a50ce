import Ashbi.Gmail.Dispatched

/-! A reply leaves at most once, whatever calls cross each other and wherever they are cut off. -/

namespace Ashbi.Gmail

open Interleaving

/-! ### Runs -/

/-- Nothing was sent yet. -/
structure Unsent (db : Db) : Prop where
  rows : ∀ id, db.receipts.rows id = none
  settled : db.receipts.Settled
  messages : db.messages = []
  recorded : db.recorded = []

/-- What a run keeps. -/
structure Sound (tr : List (Occurrence machine)) (db : Db) : Prop where
  told : Told (heard tr) db.issued
  inv : Inv (heard tr) db.books

theorem Unsent.sound {db : Db} (h : Unsent db) : Sound [] db := by
  have hnone (id : ℕ) (r : Receipt) : ¬ db.books.receipts.Has id r := by
    rintro (hrow | ⟨i, hmine⟩)
    · cases (h.rows id).symm.trans hrow
    · cases h.settled.mine.symm.trans hmine
  have hmessages (id : ℕ) : db.books.messagesOf id = [] := by
    unfold Books.messagesOf Db.books
    rw [h.messages]
    rfl
  refine ⟨⟨?_, ?_, ?_, ?_⟩, ⟨?_, ?_, ?_, ?_, ?_, ?_, ?_⟩⟩
  · exact fun _ _ _ hmem => by cases hmem
  · exact fun _ _ _ _ _ _ hmem => by cases hmem
  · exact fun _ _ _ hmem => by cases hmem
  · exact fun _ _ _ _ _ hmem => by cases hmem
  · exact fun id r hr => absurd hr (hnone id r)
  · exact fun id _ r _ hr => absurd hr (hnone id r)
  · exact fun i id r hr => absurd (.inr ⟨i, hr⟩) (hnone id r)
  · refine fun i => ⟨fun id => h.settled.mine, ?_⟩
    unfold Books.recordedBy Db.books
    rw [h.recorded]
    rfl
  · exact fun id => by simp [hmessages]
  · exact fun id r hr => absurd hr (hnone id r)
  · exact fun _ _ _ hmem => by cases hmem

theorem heard_concat (tr : List (Occurrence machine)) (o : Occurrence machine) :
    heard (tr ++ [o]) = hears (heard tr) o.thread (learned o) := marksOf_concat tr o

section Runs

variable {service : Service} {s₀ : Db} {tr : List (Occurrence machine)} {c : Config machine}

theorem need_of_run (h : Run (Requested service) s₀ tr c) {k : ℕ} {o : Occurrence machine}
    (ho : tr[k]? = some o) : need o.stmt (heard (tr.take k) o.thread) :=
  h.learned (fun _ => Requested.knows) ho

theorem sound_step (h : Run (Requested service) s₀ tr c) {k : ℕ} {o : Occurrence machine}
    (ho : tr[k]? = some o) (he : machine.enabled o.thread o.stmt o.pre = true)
    (hsound : Sound (tr.take k) o.pre) : Sound (tr.take k ++ [o]) o.post := by
  have hneed := need_of_run h ho
  refine ⟨?_, ?_⟩
  · rw [heard_concat]
    exact hsound.told.step hneed
  · rw [heard_concat]
    exact hsound.inv.step hneed he

theorem sound_end (h : Run (Requested service) s₀ tr c) (h0 : Unsent s₀) : Sound tr c.state :=
  (h.along Sound h0.sound fun _ _ ho _ _ _ he hsound => sound_step h ho he hsound).1

theorem sound_before (h : Run (Requested service) s₀ tr c) (h0 : Unsent s₀) {k : ℕ}
    {o : Occurrence machine} (ho : tr[k]? = some o) : Sound (tr.take k) o.pre :=
  h.along_before Sound h0.sound (fun _ _ ho _ _ _ he hsound => sound_step h ho he hsound) k o ho

/-! ### Calls of Gmail -/

/-- Gmail has refused the call for certain. -/
def Stmt.refused {β : Type} (st : Stmt β) (b : β) : Bool :=
  match st, b with
  | .send _ _, answer => refusal answer
  | _, _ => false

def refused (o : Occurrence machine) : Bool := Stmt.refused o.stmt o.result

theorem learned_of_calls {o : Occurrence machine} {transport : Transport} {receipt : Receipt}
    (h : calls o = some (transport, receipt)) : learned o = [.sent receipt.id (refused o)] := by
  obtain ⟨i, st, ch, db⟩ := o
  cases st with
  | send transport' receipt' =>
    obtain ⟨rfl, rfl⟩ := Prod.mk.inj (Option.some.inj h)
    rfl
  | _ => cases h

/-- What a thread has heard it does not forget. -/
theorem heard_take {k l : ℕ} (hkl : k ≤ l) (i : ℕ) :
    ∃ more, heard (tr.take l) i = heard (tr.take k) i ++ more := by
  refine ⟨marksOf learned ((tr.take l).drop k) i, ?_⟩
  have hsplit : tr.take l = tr.take k ++ (tr.take l).drop k := by
    have h := (List.take_append_drop k (tr.take l)).symm
    rwa [List.take_take, Nat.min_eq_left hkl] at h
  exact (congrArg (fun tr => heard tr i) hsplit).trans (marksOf_append ..)

theorem heard_subset {k l : ℕ} (hkl : k ≤ l) (i : ℕ) :
    heard (tr.take k) i ⊆ heard (tr.take l) i := by
  obtain ⟨more, hmore⟩ := @heard_take tr _ _ hkl i
  rw [hmore]
  exact List.subset_append_left ..

/-- A fact that was learned before is known. -/
theorem heard_of_lt {k l : ℕ} {o : Occurrence machine} (ho : tr[k]? = some o) (hkl : k < l)
    {fact : Fact} (hfact : fact ∈ learned o) : fact ∈ heard (tr.take l) o.thread := by
  refine mem_marksOf.mpr ⟨o, List.mem_of_getElem? (i := k) ?_, rfl, hfact⟩
  rw [List.getElem?_take_of_lt hkl]
  exact ho

/-- What a call of Gmail is for: a committed receipt that its thread has claimed. -/
structure Backs (tr : List (Occurrence machine)) (o : Occurrence machine) (receipt : Receipt) :
    Prop where
  created : .created ⟨receipt.mailbox, receipt.snapshot⟩ receipt ∈ heard tr o.thread
  claimed : (⟨receipt.mailbox, receipt.snapshot⟩, receipt) ∈ (progress (heard tr o.thread)).claims
  first : (progress (heard tr o.thread)).sent = false
  stored : ∃ row, o.pre.receipts.rows receipt.id = some row ∧ row.identity = receipt.identity

theorem created_heard {i : ℕ} {transport : Transport} {receipt : Receipt}
    (h : .created transport receipt ∈ heard tr i) :
    transport = ⟨receipt.mailbox, receipt.snapshot⟩ := by
  obtain ⟨o, -, -, hmem⟩ := mem_marksOf.mp h
  exact (learned_created hmem).2.2.1

/-- A transport is prepared for the snapshot that is asked for. -/
theorem learned_prepared {o : Occurrence machine} {snapshot : Snapshot} {transport : Transport}
    (h : .prepared snapshot transport ∈ learned o) : transport.snapshot = snapshot := by
  obtain ⟨i, st, ch, db⟩ := o
  have hlearned : learned ⟨i, st, ch, db⟩ = learn st (exec i st ch db).1 := rfl
  rw [hlearned] at h
  cases st with
  | prepare actor snapshot' =>
    have hanswer : (exec i (.prepare actor snapshot') ch db).1 =
      (ch.answer db (.ok (ch.mailbox.map (⟨·, snapshot'⟩), ch.sendable), db)).1 := rfl
    rw [hanswer, answer_result] at h
    split at h
    · cases hmailbox : ch.mailbox with
      | none =>
        rw [hmailbox] at h
        cases h
      | some mailbox =>
        rw [hmailbox] at h
        obtain ⟨rfl, rfl⟩ := Fact.prepared.inj (List.mem_singleton.mp h)
        rfl
    · cases h
  | findReceipt scope =>
    generalize (exec i (.findReceipt scope) ch db).1 = b at h
    rcases b with _ | (_ | _) <;> nomatch h
  | findResponse id threadId =>
    generalize (exec i (.findResponse id threadId) ch db).1 = b at h
    rcases b with _ | (_ | _) <;> nomatch h
  | createReceipt scope mailbox payloadHash snapshot' =>
    generalize (exec i (.createReceipt scope mailbox payloadHash snapshot') ch db).1 = b at h
    rcases b with _ | _ <;> nomatch h
  | updateReceipt id scope status outcome =>
    generalize (exec i (.updateReceipt id scope status outcome) ch db).1 = b at h
    rcases b with _ | changed
    · nomatch h
    · have h : .prepared snapshot transport ∈ if changed = 1 then [outcome.fact id] else [] := h
      split at h
      · cases outcome <;> nomatch h
      · nomatch h
  | createMessage receipt threadId =>
    generalize (exec i (.createMessage receipt threadId) ch db).1 = b at h
    rcases b with _ | _ <;> nomatch h
  | commit =>
    generalize (exec i .commit ch db).1 = b at h
    rcases b with _ | _ <;> nomatch h
  | _ => nomatch h

theorem backs (h : Run (Requested service) s₀ tr c) (h0 : Unsent s₀) {k : ℕ}
    {o : Occurrence machine} (ho : tr[k]? = some o) {transport : Transport} {receipt : Receipt}
    (hcalls : calls o = some (transport, receipt)) :
    transport = ⟨receipt.mailbox, receipt.snapshot⟩ ∧ Backs (tr.take k) o receipt := by
  obtain ⟨hfirst, snapshot, hclaim, hprepared⟩ := need_calls hcalls (need_of_run h ho)
  have hcreated := created_of_progress (.inr hclaim)
  have htransport := created_heard hcreated
  rw [htransport] at hclaim hcreated
  refine ⟨?_, hcreated, hclaim, hfirst, (sound_before h h0 ho).inv.claims _ _ _ hclaim⟩
  obtain ⟨hmailbox, hsnapshot⟩ := Transport.mk.inj htransport
  obtain ⟨mailbox, snapshot'⟩ := transport
  obtain ⟨o', -, -, hmem⟩ := mem_marksOf.mp hprepared
  obtain rfl : snapshot' = snapshot := learned_prepared hmem
  rw [Transport.mk.injEq]
  exact ⟨hmailbox, hsnapshot⟩

/-- Two calls of Gmail are for different receipts, the later of which is not rejected before, and
the earlier only where Gmail has refused the call. -/
theorem later_call (h : Run (Requested service) s₀ tr c) (h0 : Unsent s₀) {k l : ℕ} (hkl : k < l)
    {o o' : Occurrence machine} (ho : tr[k]? = some o) (ho' : tr[l]? = some o')
    {t t' : Transport} {r r' : Receipt} (hcalls : calls o = some (t, r))
    (hcalls' : calls o' = some (t', r')) :
    ∃ row row', o'.pre.receipts.Has r.id row ∧ row.identity = r.identity ∧
      o'.pre.receipts.Has r'.id row' ∧ row'.identity = r'.identity ∧ r.id ≠ r'.id ∧
        (row.status = .rejected → refused o = true) ∧ row'.status ≠ .rejected := by
  obtain ⟨htold, hinv⟩ := sound_before h h0 ho'
  obtain ⟨-, hcreated', -, hfirst', row', hrow', hidentity'⟩ := backs h h0 ho' hcalls'
  have hsent : .sent r.id (refused o) ∈ heard (tr.take l) o.thread := by
    refine heard_of_lt ho hkl ?_
    rw [learned_of_calls hcalls]
    exact List.mem_cons_self
  have hcalled := (htold.sent _ _ _ hsent).1
  obtain ⟨-, hcreated, hclaimed, -⟩ := backs h h0 ho hcalls
  have hcreated := heard_subset (Nat.le_of_lt hkl) _ hcreated
  obtain ⟨more, hmore⟩ := @heard_take tr _ _ (Nat.le_of_lt hkl) o.thread
  have hclaimed :
      (⟨r.mailbox, r.snapshot⟩, r) ∈ (progress (heard (tr.take l) o.thread)).claims := by
    rw [hmore]
    exact (progress_grows ..).1 hclaimed
  obtain ⟨row, hrow, hidentity⟩ := hinv.claims _ _ _ hclaimed
  -- A receipt that was called for is one of the caller's, who alone has claimed it.
  have hcaller {i : ℕ} {q : Receipt} {refused : Bool} {j : ℕ} {t : Transport}
      (hq : .created t q ∈ heard (tr.take l) j) (hi : .sent q.id refused ∈ heard (tr.take l) i) :
      i = j := by
    obtain ⟨-, t₁, r₁, hclaim, hid⟩ := htold.sent i _ _ hi
    exact htold.owner i j t₁ t r₁ q (created_of_progress (.inr hclaim)) hq hid
  refine ⟨row, row', .inl hrow, hidentity, .inl hrow', hidentity', fun hid => ?_,
    fun hrejected => ?_,
    fun hrejected => ?_⟩
  · have hthread := htold.owner _ _ _ _ _ _ hcreated hcreated' hid
    rw [hthread, hfirst'] at hcalled
    cases hcalled
  · obtain ⟨i, hi⟩ := hinv.refused r.id row (.inl hrow) hrejected
    obtain rfl := hcaller hcreated hi
    exact (htold.once _ _ _ _ _ hi hsent).2.symm
  · obtain ⟨i, hi⟩ := hinv.refused r'.id row' (.inl hrow') hrejected
    obtain rfl := hcaller hcreated' hi
    rw [(htold.sent _ _ _ hi).1] at hfirst'
    cases hfirst'

/-! ### At most once -/

/-- For an organization, a user and a key Gmail is called at most once. -/
def OncePerKey (tr : List (Occurrence machine)) : Prop :=
  ∀ (k l : ℕ) o o' t t' r r', tr[k]? = some o → tr[l]? = some o' → calls o = some (t, r) →
    calls o' = some (t', r') → r.scope = r'.scope → k = l

/-- For a response of an organization at most one call is not refused for certain. -/
def OncePerResponse (tr : List (Occurrence machine)) : Prop :=
  ∀ (k l : ℕ) o o' t t' r r' responseId, tr[k]? = some o → tr[l]? = some o' →
    calls o = some (t, r) → calls o' = some (t', r') →
      r.scope.organizationId = r'.scope.organizationId →
        r.snapshot.payload.responseId = some responseId →
          r'.snapshot.payload.responseId = some responseId →
            refused o = false → refused o' = false → k = l

/-- Thread `i` has claimed the receipt, having looked for one of its scope in vain and having read
its response, if it has one, as approved and as it is to be sent; the response was approved
still. -/
def Claimant (tr : List (Occurrence machine)) (i : ℕ) (receipt : Receipt) : Prop :=
  ∃ (k : ℕ) (o : Occurrence machine), tr[k]? = some o ∧ o.thread = i ∧
    .created ⟨receipt.mailbox, receipt.snapshot⟩ receipt ∈ learned o ∧
      .looked receipt.scope ∈ heard (tr.take k) i ∧
        Backed receipt.snapshot.payload (heard (tr.take k) i) ∧
          ∀ id, receipt.snapshot.payload.responseId = some id → ∃ response,
            o.pre.findResponse i id receipt.snapshot.payload.hubThreadId = some response ∧
              response.status = .approved

/-- What is handed to Gmail is what the caller has claimed, and what is stored of its scope. -/
def AsClaimed (tr : List (Occurrence machine)) : Prop :=
  ∀ (k : ℕ) o transport receipt, tr[k]? = some o → calls o = some (transport, receipt) →
    transport = ⟨receipt.mailbox, receipt.snapshot⟩ ∧ Claimant (tr.take k) o.thread receipt ∧
      ∀ id row, o.pre.receipts.rows id = some row → row.scope = receipt.scope →
        row.identity = receipt.identity

/-- A stored receipt stays, and moves along the status changes alone. -/
def Steady (o : Occurrence machine) : Prop :=
  ∀ id r, o.pre.receipts.rows id = some r →
    ∃ r', o.post.receipts.rows id = some r' ∧ r.Becomes r'

theorem claimant (h : Run (Requested service) s₀ tr c) {n i : ℕ} {receipt : Receipt}
    (hcreated : .created ⟨receipt.mailbox, receipt.snapshot⟩ receipt ∈ heard (tr.take n) i) :
    Claimant (tr.take n) i receipt := by
  obtain ⟨o, hmem, rfl, hlearned⟩ := mem_marksOf.mp hcreated
  obtain ⟨k, ho⟩ := List.mem_iff_getElem?.mp hmem
  have hkn : k < n := by
    by_contra hle
    rw [List.getElem?_take_eq_none (Nat.le_of_not_lt hle)] at ho
    cases ho
  have htake : (tr.take n).take k = tr.take k := by
    rw [List.take_take, Nat.min_eq_left (Nat.le_of_lt hkn)]
  have ho' : tr[k]? = some o := by rwa [List.getElem?_take_of_lt hkn] at ho
  obtain ⟨-, -, -, hgrounds, happroved⟩ := learned_created hlearned
  obtain ⟨hlooked, hbacked⟩ := hgrounds _ (need_of_run h ho')
  rw [← htake] at hlooked hbacked
  exact ⟨k, o, ho, rfl, hlearned, hlooked, hbacked, happroved⟩

theorem steady {o : Occurrence machine} {told : ℕ → List Fact} (h : Inv told o.pre.books) :
    Steady o := by
  intro id r hr
  have hsame {b : Books} (hpost : o.post.books = b)
    (hrows : b.receipts.rows = o.pre.receipts.rows) :
      ∃ r', o.post.receipts.rows id = some r' ∧ r.Becomes r' := by
    refine ⟨r, ?_, rfl, .inl rfl⟩
    have hpost : o.post.receipts.rows = b.receipts.rows := congrArg (·.receipts.rows) hpost
    rw [hpost, hrows, hr]
  cases effect o with
  | keep hpost => exact hsame hpost rfl
  | create _ _ _ _ _ _ hpost => exact hsame hpost rfl
  | update _ _ _ _ hpost => exact hsame hpost rfl
  | record _ hpost => exact hsame hpost rfl
  | rollback hpost => exact hsame hpost rfl
  | commit _ hpost =>
    obtain ⟨r', hr', hbecomes⟩ := h.row_commit (i := o.thread) hr
    have hpost : o.post.receipts.rows = (o.pre.books.commit o.thread).receipts.rows :=
      congrArg (·.receipts.rows) hpost
    exact ⟨r', by rw [hpost, hr'], hbecomes⟩

theorem once_per_key (h : Run (Requested service) s₀ tr c) (h0 : Unsent s₀) : OncePerKey tr := by
  have hlater {k l : ℕ} (hkl : k < l) {o o' : Occurrence machine} {t t' : Transport}
    {r r' : Receipt}
      (ho : tr[k]? = some o) (ho' : tr[l]? = some o') (hcalls : calls o = some (t, r))
      (hcalls' : calls o' = some (t', r')) : r.scope ≠ r'.scope := by
    intro hscope
    obtain ⟨row, row', hrow, hsame, hrow', hsame', hne, -⟩ :=
      later_call h h0 hkl ho ho' hcalls hcalls'
    refine (sound_before h h0 ho').inv.apart r.id r'.id row row' hrow hrow' hne (.inl ?_)
    rw [(identity_inj hsame).1, (identity_inj hsame').1, hscope]
  intro k l o o' t t' r r' ho ho' hcalls hcalls' hscope
  rcases Nat.lt_trichotomy k l with hkl | hkl | hkl
  · exact absurd hscope (hlater hkl ho ho' hcalls hcalls')
  · exact hkl
  · exact absurd hscope.symm (hlater hkl ho' ho hcalls' hcalls)

theorem once_per_response (h : Run (Requested service) s₀ tr c) (h0 : Unsent s₀) :
    OncePerResponse tr := by
  have hlater {k l : ℕ} (hkl : k < l) {o o' : Occurrence machine} {t t' : Transport}
    {r r' : Receipt}
      {responseId : String} (ho : tr[k]? = some o) (ho' : tr[l]? = some o')
      (hcalls : calls o = some (t, r)) (hcalls' : calls o' = some (t', r'))
      (horg : r.scope.organizationId = r'.scope.organizationId)
      (hresponse : r.snapshot.payload.responseId = some responseId)
      (hresponse' : r'.snapshot.payload.responseId = some responseId) : refused o = true := by
    obtain ⟨row, row', hrow, hsame, hrow', hsame', hne, hrefused, hlive⟩ :=
      later_call h h0 hkl ho ho' hcalls hcalls'
    refine hrefused ?_
    by_contra hnot
    obtain ⟨hscope, hsnapshot⟩ := identity_inj hsame
    obtain ⟨hscope', hsnapshot'⟩ := identity_inj hsame'
    refine (sound_before h h0 ho').inv.apart r.id r'.id row row' hrow hrow' hne
      (.inr ⟨hnot, hlive, ?_, ?_, ?_⟩)
    · rw [hscope, hscope', horg]
    · rw [hsnapshot, hresponse]
      rfl
    · rw [hsnapshot, hsnapshot', hresponse, hresponse']
  intro k l o o' t t' r r' responseId ho ho' hcalls hcalls' horg hresponse hresponse' hnot hnot'
  rcases Nat.lt_trichotomy k l with hkl | hkl | hkl
  · cases (hlater hkl ho ho' hcalls hcalls' horg hresponse hresponse').symm.trans hnot
  · exact hkl
  · cases (hlater hkl ho' ho hcalls' hcalls horg.symm hresponse' hresponse).symm.trans hnot'

theorem as_claimed (h : Run (Requested service) s₀ tr c) (h0 : Unsent s₀) : AsClaimed tr := by
  intro k o transport receipt ho hcalls
  obtain ⟨htransport, hcreated, -, -, row, hrow, hsame⟩ := backs h h0 ho hcalls
  refine ⟨htransport, claimant h hcreated, fun id q hq hscope => ?_⟩
  have hid : id = receipt.id := by
    by_contra hne
    refine (sound_before h h0 ho).inv.apart id receipt.id q row (.inl hq) (.inl hrow) hne (.inl ?_)
    rw [hscope, (identity_inj hsame).1]
  subst hid
  obtain rfl := Option.some.inj (hq.symm.trans hrow)
  exact hsame

/-- Whatever calls that send, read or repair replies cross each other, with whatever is done to the
drafted responses meanwhile, and wherever statements or their answers are lost: Gmail is called at
most once for a key, and at most once without a definite refusal for a response; what it is handed
is what the caller has claimed; receipts keep to their status changes, and each leaves at most one
message. -/
theorem replies_leave_once (h : Run (Requested service) s₀ tr c) (h0 : Unsent s₀) :
    OncePerKey tr ∧ OncePerResponse tr ∧ AsClaimed tr ∧ (∀ o ∈ tr, Steady o) ∧
      ∀ id, (c.state.messages.filter (·.sendReceiptId = id)).length ≤ 1 := by
  refine ⟨once_per_key h h0, once_per_response h h0, as_claimed h h0, fun o ho => ?_, fun id => ?_⟩
  · obtain ⟨k, ho⟩ := List.mem_iff_getElem?.mp ho
    exact steady (sound_before h h0 ho).inv
  · exact ((sound_end h h0).inv.recorded id).1

end Runs

/-! ### A sample reply -/

def sampleApproved : Db := { sampleDb with
  responses :=
    ⟨fun id => if id = "r" then some { sampleResponse with status := .approved } else none,
      fun _ => none⟩ }

def samplePayload : Payload where
  toAddress := "client@example.com"
  subject := "Re: the logo"
  body := "As agreed."
  hubThreadId := some "t"
  responseId := some "r"
  threadId := none
  inReplyTo := none
  references := none

def sampleSend : SendRequest := .send ⟨"u", "o", .team⟩ ⟨samplePayload, "key"⟩

def deliveredChoice : Choice :=
  ⟨0, .answered, some ⟨"u", "o", .team, true, none⟩, true, some "m", true, .ok ⟨"sent", "thread"⟩⟩

def sampleSends : List (Prog Stmt Unit) :=
  [sampleSend, sampleSend].map fun request =>
    (request.program sampleService).run.bind fun _ => .ret ()

theorem sampleSends_requested : ∀ p ∈ sampleSends, Requested sampleService p := by
  intro p hp
  obtain ⟨request, -, rfl⟩ := List.mem_map.mp hp
  exact .inl ⟨request, rfl⟩

/-- Both look the key up before either claims it. -/
def sampleCrossing : List (ℕ × Choice) :=
  (List.replicate 9 0 ++ List.replicate 10 1 ++ List.replicate 3 0 ++ List.replicate 30 1 ++
    List.replicate 30 0).map (⟨·, deliveredChoice⟩)

theorem sampleApproved_unsent : Unsent sampleApproved :=
  ⟨fun _ => rfl, fun _ => rfl, rfl, rfl⟩

/-- A reply that is asked for twice at once: one call claims it and the other finds the claim. -/
theorem replies_leave_once_crossing : ∃ (tr : List (Occurrence machine)) (c : Config machine),
    Run (Requested sampleService) sampleApproved tr c ∧ OncePerKey tr ∧ AsClaimed tr ∧
      (tr.filter fun o => (calls o).isSome).length = 1 ∧ c.state.messages.length = 1 ∧
        (c.state.responses.rows "r").map (·.status) = some .sent := by
  have hrun : Run (M := machine) (Requested sampleService) sampleApproved _ _ := Run.of_schedule
    sampleSends sampleSends_requested sampleCrossing
  obtain ⟨hkey, -, hclaimed, -, -⟩ := replies_leave_once hrun sampleApproved_unsent
  exact ⟨_, _, hrun, hkey, hclaimed, by decide +kernel, by decide +kernel, by decide +kernel⟩

end Ashbi.Gmail
