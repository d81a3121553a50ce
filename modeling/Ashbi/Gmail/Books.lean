import Ashbi.Gmail.Approved
import Ashbi.Gmail.Knowledge

/-! The life of a receipt, the books of receipts and messages, and what one statement does to
them. -/

namespace Ashbi.Gmail

open Interleaving

/-! ### The life of a receipt -/

/-- The status changes of a receipt. -/
def ReceiptStatus.Moves (s t : ReceiptStatus) : Prop :=
  match t with
  | .acceptedPendingRecord => s = .dispatching
  | .rejected => s = .dispatching
  | .unknown => s = .dispatching
  | .completed => s = .acceptedPendingRecord
  | .dispatching => False

/-- What no update of a receipt touches. -/
def Receipt.identity (receipt : Receipt) : ℕ × Scope × String × String × Snapshot :=
  (receipt.id, receipt.scope, receipt.payloadHash, receipt.mailbox, receipt.snapshot)

/-- The receipt keeps its identity, and its status or moves on. -/
def Receipt.Becomes (r r' : Receipt) : Prop :=
  r'.identity = r.identity ∧ (r'.status = r.status ∨ r.status.Moves r'.status)

/-- Two receipts that no unique index admits beside each other. -/
def Receipt.Rival (r r' : Receipt) : Prop :=
  r.scope = r'.scope ∨ (r.status ≠ .rejected ∧ r'.status ≠ .rejected ∧
    r.scope.organizationId = r'.scope.organizationId ∧ r.snapshot.payload.responseId.isSome = true ∧
      r.snapshot.payload.responseId = r'.snapshot.payload.responseId)

theorem identity_inj {r r' : Receipt} (h : r.identity = r'.identity) :
    r.scope = r'.scope ∧ r.snapshot = r'.snapshot := by
  simp only [Receipt.identity, Prod.mk.injEq] at h
  exact ⟨h.2.1, h.2.2.2.2⟩

theorem Receipt.Rival.symm {r r' : Receipt} (h : r.Rival r') : r'.Rival r := by
  rcases h with hscope | ⟨hr, hr', horg, hsome, hresponse⟩
  · exact .inl hscope.symm
  · exact .inr ⟨hr', hr, horg.symm, hresponse ▸ hsome, hresponse.symm⟩

theorem ReceiptStatus.Moves.live {s t : ReceiptStatus} (h : s.Moves t) : s ≠ .rejected := by
  rintro rfl
  cases t <;> cases h

/-- What a receipt becomes has no rival that it had not. -/
theorem Receipt.Becomes.rival {r r' q : Receipt} (h : r.Becomes r') (hq : r'.Rival q) :
    r.Rival q := by
  obtain ⟨hidentity, hstatus⟩ := h
  obtain ⟨hscope, hsnapshot⟩ := identity_inj hidentity
  rcases hq with hq | ⟨hr', hq, horg, hsome, hresponse⟩
  · exact .inl (hscope.symm.trans hq)
  · refine .inr ⟨?_, hq, hscope ▸ horg, hsnapshot ▸ hsome, hsnapshot ▸ hresponse⟩
    rcases hstatus with hsame | hmoves
    · exact hsame ▸ hr'
    · exact hmoves.live

/-- A rival of a new receipt is one that clashes with it. -/
theorem Receipt.Rival.clashes {r r' : Receipt} (h : r.Rival r') :
    r'.clashes r.scope r.snapshot.payload.responseId = true := by
  unfold Receipt.clashes
  rcases h with hscope | ⟨-, hr', horg, hsome, hresponse⟩
  · simp [hscope]
  · rw [hresponse] at hsome ⊢
    simp [hsome, hr', horg]

theorem Outcome.on_becomes {outcome : Outcome} {id : ℕ} {status : ReceiptStatus} {facts : List Fact}
    (hdue : outcome.due id status facts) {r : Receipt} (hr : r.status = status) (now : Time) :
    r.Becomes (outcome.on now r) := by
  subst hr
  cases outcome with
  | locked => exact ⟨rfl, .inl rfl⟩
  | rejected => exact ⟨rfl, .inr hdue.2.1⟩
  | unknown => exact ⟨rfl, .inr hdue.2⟩
  | accepted sent => exact ⟨rfl, .inr hdue.2⟩
  | completed hubMessageId => exact ⟨rfl, .inr hdue.2⟩

/-! ### The books -/

/-- What the requests on responses leave alone. -/
structure Books where
  receipts : Versions ℕ Receipt
  issued : ℕ
  messages : List HubMessage
  recorded : List (ℕ × HubMessage)

def Db.books (db : Db) : Books := ⟨db.receipts, db.issued, db.messages, db.recorded⟩

namespace Books

def recordedBy (b : Books) (i : ℕ) : List HubMessage := (b.recorded.filter (·.1 = i)).map (·.2)

/-- The messages that a receipt has left. -/
def messagesOf (b : Books) (id : ℕ) : List HubMessage := b.messages.filter (·.sendReceiptId = id)

def create (b : Books) (i : ℕ) (receipt : Receipt) : Books :=
  { b with receipts := b.receipts.write i b.issued receipt, issued := b.issued + 1 }

def update (b : Books) (i id : ℕ) (receipt : Receipt) : Books :=
  { b with receipts := b.receipts.write i id receipt }

def record (b : Books) (i : ℕ) (message : HubMessage) : Books :=
  { b with recorded := b.recorded ++ [(i, message)] }

def rollback (b : Books) (i : ℕ) : Books :=
  { b with receipts := b.receipts.rollback i, recorded := b.recorded.filter (·.1 ≠ i) }

def commit (b : Books) (i : ℕ) : Books :=
  { b with
    receipts := b.receipts.commit i
    messages := b.messages ++ b.recordedBy i
    recorded := b.recorded.filter (·.1 ≠ i) }

end Books

/-- What a thread learns by a statement. -/
def learned (o : Occurrence machine) : List Fact := learn o.stmt o.result

/-- What thread `i` has learned. -/
def heard (tr : List (Occurrence machine)) : ℕ → List Fact := marksOf learned tr

/-- The call of Gmail that a statement is. -/
def Stmt.calls {β : Type} (st : Stmt β) : Option (Transport × Receipt) :=
  match st with
  | .send transport receipt => some (transport, receipt)
  | _ => none

/-- What is handed to Gmail, with the receipt it is for. -/
def calls (o : Occurrence machine) : Option (Transport × Receipt) := Stmt.calls o.stmt

/-- What one statement does to the books, and what its thread learns by it. -/
inductive Effect (o : Occurrence machine) : Prop
  | keep (hpost : o.post.books = o.pre.books)
      (hstage : ∀ facts, (progress (facts ++ learned o)).claims = (progress facts).claims ∧
        ((progress (facts ++ learned o)).stage = (progress facts).stage ∨
          (progress (facts ++ learned o)).stage = .failed))
      (hcreated : ∀ transport receipt, .created transport receipt ∉ learned o)
      (hsent : ∀ id refused, .sent id refused ∈ learned o → learned o = [.sent id refused] ∧
        ∃ transport receipt, calls o = some (transport, receipt) ∧ receipt.id = id)
  | create {receipt : Receipt}
      (hneed : ∀ facts, need o.stmt facts → (progress facts).stage = .idle ∧
        .looked receipt.scope ∈ facts ∧ Backed receipt.snapshot.payload facts)
      (happroved : ∀ id, receipt.snapshot.payload.responseId = some id → ∃ response,
        o.pre.findResponse o.thread id receipt.snapshot.payload.hubThreadId = some response ∧
          response.status = .approved)
      (hfree : machine.enabled o.thread o.stmt o.pre = true →
        o.pre.contended o.thread receipt.scope receipt.snapshot.payload.responseId = false)
      (hclear : ∀ r ∈ o.pre.seen o.thread,
        r.clashes receipt.scope receipt.snapshot.payload.responseId = false)
      (hid : receipt.id = o.pre.issued) (hstatus : receipt.status = .dispatching)
      (hpost : o.post.books = o.pre.books.create o.thread receipt)
      (hlearned : learned o = [.created ⟨receipt.mailbox, receipt.snapshot⟩ receipt] ∨
        learned o = [.failed])
  | update {id : ℕ} {status : ReceiptStatus} {outcome : Outcome} {now : Time} {r : Receipt}
      (hneed : ∀ facts, need o.stmt facts → outcome.due id status facts)
      (hfree : machine.enabled o.thread o.stmt o.pre = true →
        o.pre.receipts.locked o.thread id = false)
      (hread : o.pre.receipts.read o.thread id = some r) (hstatus : r.status = status)
      (hpost : o.post.books = o.pre.books.update o.thread id (outcome.on now r))
      (hlearned : learned o = [outcome.fact id] ∨ learned o = [.failed])
  | record {message : HubMessage}
      (hneed : ∀ facts, need o.stmt facts →
        (progress facts).stage = .locked message.sendReceiptId)
      (hpost : o.post.books = o.pre.books.record o.thread message)
      (hlearned : learned o = [.recorded message.sendReceiptId] ∨ learned o = [.failed])
  | commit (hneed : ∀ facts, need o.stmt facts → (progress facts).stage.closes = true)
      (hpost : o.post.books = o.pre.books.commit o.thread)
      (hlearned : learned o = [.committed] ∨ learned o = [.undone])
  | rollback (hpost : o.post.books = o.pre.books.rollback o.thread)
    (hlearned : learned o = [.undone])

/-! ### Statements -/

/-- An answer gets through, or its thread is told of an interruption. -/
theorem answer_result {α : Type} {ch : Choice} {lost : Db} {ran : Except Failure α × Db} :
    (ch.answer lost ran).1 = if ch.fate = .answered then ran.1 else .error .interrupted := by
  unfold Choice.answer
  cases ch.fate <;> rfl

theorem answer_books {α : Type} {ch : Choice} {db : Db} (ran : Except Failure α × Db)
    (h : ran.2.books = db.books) : (ch.answer db ran).2.books = db.books := by
  rw [answer_post]
  split
  · rfl
  · exact h

theorem still_books {β : Type} {i : ℕ} {st : Stmt β} {ch : Choice} {db : Db}
    (h : st.still = true) : (exec i st ch db).2.books = db.books := by
  cases st with
  | now => rfl
  | update id write =>
    refine answer_books (update id write db) ?_
    unfold update
    split <;> rfl
  | sendResponse id threadId subject body =>
    refine answer_books (sendResponse i id threadId subject body ch.now db) ?_
    unfold sendResponse
    split <;> rfl
  | send => cases h
  | createReceipt => cases h
  | updateReceipt => cases h
  | createMessage => cases h
  | commit => cases h
  | rollback => cases h
  | _ => exact answer_books _ rfl

/-- What a still statement tells is no claim and no call. -/
theorem still_learned {β : Type} {st : Stmt β} (h : st.still = true) (b : β) :
    (∀ transport receipt, .created transport receipt ∉ learn st b) ∧
      ∀ id refused, .sent id refused ∉ learn st b := by
  have hnil : learn st b = [] → (∀ transport receipt, .created transport receipt ∉ learn st b) ∧
      ∀ id refused, .sent id refused ∉ learn st b := by
    intro hnil
    rw [hnil]
    exact ⟨fun _ _ => List.not_mem_nil, fun _ _ => List.not_mem_nil⟩
  have hone (fact : Fact) (hfact : learn st b = [fact])
      (hcreated : ∀ transport receipt, fact ≠ .created transport receipt)
      (hsent : ∀ id refused, fact ≠ .sent id refused) :
      (∀ transport receipt, .created transport receipt ∉ learn st b) ∧
        ∀ id refused, .sent id refused ∉ learn st b := by
    rw [hfact]
    exact ⟨fun _ _ hmem => hcreated _ _ (List.mem_singleton.mp hmem).symm,
      fun _ _ hmem => hsent _ _ (List.mem_singleton.mp hmem).symm⟩
  cases st with
  | findReceipt scope =>
    rcases b with _ | (_ | _)
    · exact hnil rfl
    · exact hone _ rfl (fun _ _ => nofun) fun _ _ => nofun
    · exact hnil rfl
  | findResponse id threadId =>
    rcases b with _ | (_ | _)
    · exact hnil rfl
    · exact hnil rfl
    · exact hone _ rfl (fun _ _ => nofun) fun _ _ => nofun
  | prepare actor snapshot =>
    rcases b with _ | ⟨_ | _, _⟩
    · exact hnil rfl
    · exact hnil rfl
    · exact hone _ rfl (fun _ _ => nofun) fun _ _ => nofun
  | send => cases h
  | createReceipt => cases h
  | updateReceipt => cases h
  | createMessage => cases h
  | commit => cases h
  | rollback => cases h
  | _ => exact hnil rfl

/-- What tells of a failure, or of nothing, is no claim and no call. -/
theorem effect_lost {o : Occurrence machine} (hpost : o.post.books = o.pre.books)
    (hlearned : learned o = [] ∨ learned o = [.failed]) : Effect o := by
  refine .keep hpost (fun facts => ?_) (fun _ _ hmem => ?_) fun _ _ hmem => ?_
  · rcases hlearned with hlearned | hlearned
    · rw [hlearned, List.append_nil]
      exact ⟨rfl, .inl rfl⟩
    · rw [hlearned, progress_concat]
      exact ⟨rfl, .inr rfl⟩
  · rcases hlearned with hlearned | hlearned
    · rw [hlearned] at hmem
      cases hmem
    · rw [hlearned, List.mem_singleton] at hmem
      cases hmem
  · rcases hlearned with hlearned | hlearned
    · rw [hlearned] at hmem
      cases hmem
    · rw [hlearned, List.mem_singleton] at hmem
      cases hmem

/-- A receipt is created where nothing that its thread sees clashes with it. -/
theorem createReceipt_cases (i : ℕ) (scope : Scope) (mailbox payloadHash : String)
    (snapshot : Snapshot) (ch : Choice) (db : Db) :
    (∃ error, createReceipt i scope mailbox payloadHash snapshot ch db = (.error error, db)) ∨
    ∃ receipt : Receipt, createReceipt i scope mailbox payloadHash snapshot ch db =
        (.ok receipt, { db with
          receipts := db.receipts.write i db.issued receipt
          issued := db.issued + 1 }) ∧
      receipt.id = db.issued ∧ receipt.status = .dispatching ∧ receipt.scope = scope ∧
        receipt.mailbox = mailbox ∧ receipt.snapshot = snapshot ∧
          (∀ r ∈ db.seen i, r.clashes scope snapshot.payload.responseId = false) ∧
            ∀ id, snapshot.payload.responseId = some id →
              ∃ response, db.findResponse i id snapshot.payload.hubThreadId = some response ∧
                response.status = .approved := by
  unfold createReceipt
  dsimp only
  split
  · exact .inl ⟨_, rfl⟩
  rename_i happroved
  split
  · exact .inl ⟨_, rfl⟩
  rename_i hclear
  refine .inr ⟨_, rfl, rfl, rfl, rfl, rfl, rfl, fun r hr => ?_, fun id hid => ?_⟩
  · simp only [Bool.not_eq_true, List.any_eq_false] at hclear
    simpa using hclear r hr
  · simp only [Bool.or_eq_true, not_or, Bool.not_eq_true, Bool.not_eq_false'] at happroved
    have happroved := happroved.2
    rw [hid, Option.all_some, Option.any_eq_true] at happroved
    obtain ⟨response, hresponse, hstatus⟩ := happroved
    exact ⟨response, hresponse, by simpa using hstatus⟩

theorem updateReceipt_cases (i id : ℕ) (scope : Scope) (status : ReceiptStatus) (outcome : Outcome)
    (now : Time) (db : Db) :
    updateReceipt i id scope status outcome now db = (.ok 0, db) ∨
    ∃ r, db.receipts.read i id = some r ∧ r.status = status ∧
      updateReceipt i id scope status outcome now db =
        (.ok 1, { db with receipts := db.receipts.write i id (outcome.on now r) }) := by
  unfold updateReceipt
  split
  · exact .inl rfl
  · rename_i r hr
    rw [Option.filter_eq_some_iff] at hr
    obtain ⟨hread, hr⟩ := hr
    simp only [Bool.and_eq_true, decide_eq_true_eq] at hr
    exact .inr ⟨r, hread, hr.2, rfl⟩

/-- What comes of a statement that may be lost, or whose answer may be. -/
theorem effect_answer {o : Occurrence machine} {α : Type} (ran : Except Failure α × Db)
    (f : Except Failure α → List Fact) (hexec : o.post = (o.choice.answer o.pre ran).2)
    (hlearned : learned o = f (o.choice.answer o.pre ran).1)
    (herror : ∀ e, f (.error e) = [.failed])
    (h : o.post = ran.2 → learned o = f ran.1 ∨ learned o = [.failed] → Effect o) : Effect o := by
  rw [answer_post] at hexec
  rw [answer_result] at hlearned
  split at hexec
  · rename_i hfate
    rw [hfate, if_neg (by decide), herror] at hlearned
    exact effect_lost (by rw [hexec]) (.inr hlearned)
  · refine h hexec ?_
    split at hlearned
    · exact .inl hlearned
    · exact .inr (hlearned.trans (herror _))

theorem effect (o : Occurrence machine) : Effect o := by
  obtain ⟨i, st, ch, db⟩ := o
  by_cases hstill : st.still = true
  · obtain ⟨hcreated, hsent⟩ :=
      still_learned hstill (⟨i, st, ch, db⟩ : Occurrence machine).result
    refine .keep (still_books hstill) (fun facts => ?_) hcreated
      fun id refused hmem => absurd hmem (hsent id refused)
    have hsame := learn_still hstill (⟨i, st, ch, db⟩ : Occurrence machine).result facts
    exact ⟨congrArg Progress.claims hsame, .inl (congrArg Progress.stage hsame)⟩
  cases st with
  | createReceipt scope mailbox payloadHash snapshot =>
    refine effect_answer (createReceipt i scope mailbox payloadHash snapshot ch db)
      (fun answer => learn (.createReceipt scope mailbox payloadHash snapshot) answer) rfl rfl
      (fun _ => rfl) fun hpost hlearned => ?_
    rcases createReceipt_cases i scope mailbox payloadHash snapshot ch db with
      ⟨error, hran⟩ | ⟨receipt, hran, hid, hstatus, rfl, rfl, rfl, hclear, happroved⟩
    · rw [hran] at hpost hlearned
      exact effect_lost (by rw [hpost]) (.inr (hlearned.elim id id))
    · rw [hran] at hpost hlearned
      refine .create (fun _ hneed => hneed) happroved (fun he => ?_) hclear hid hstatus ?_ hlearned
      · have he : enabled i (.createReceipt receipt.scope receipt.mailbox payloadHash
          receipt.snapshot) db = true := he
        simp only [enabled, Bool.and_eq_true, Bool.not_eq_true'] at he
        exact he.1
      · rw [hpost]
        rfl
  | updateReceipt id scope status outcome =>
    refine effect_answer (updateReceipt i id scope status outcome ch.now db)
      (fun answer => learn (.updateReceipt id scope status outcome) answer) rfl rfl
      (fun _ => rfl) fun hpost hlearned => ?_
    rcases updateReceipt_cases i id scope status outcome ch.now db with
      hran | ⟨r, hread, hstatus, hran⟩
    · rw [hran] at hpost hlearned
      exact effect_lost (by rw [hpost]) hlearned
    · rw [hran] at hpost hlearned
      have hbooks : (⟨i, .updateReceipt id scope status outcome, ch, db⟩ :
          Occurrence machine).post.books = db.books.update i id (outcome.on ch.now r) := by
        rw [hpost]
        rfl
      refine .update (fun _ hneed => hneed) (fun he => ?_) hread hstatus hbooks hlearned
      have he : enabled i (.updateReceipt id scope status outcome) db = true := he
      simpa [enabled] using he
  | createMessage receipt threadId =>
    refine effect_answer (createMessage i receipt threadId db)
      (fun answer => learn (.createMessage receipt threadId) answer) rfl rfl
      (fun _ => rfl) fun hpost hlearned => ?_
    obtain ⟨message, hid, hbooks⟩ : ∃ message : HubMessage, message.sendReceiptId = receipt.id ∧
        (⟨i, .createMessage receipt threadId, ch, db⟩ : Occurrence machine).post.books =
          db.books.record i message := ⟨_, rfl, by rw [hpost]; rfl⟩
    refine .record (fun _ hneed => ?_) hbooks ?_
    · rw [hid]
      exact hneed
    · rw [hid]
      exact hlearned
  | commit =>
    have hpost : (⟨i, .commit, ch, db⟩ : Occurrence machine).post =
      (ch.answer (db.rollback i) (.ok (), db.commit i)).2 := rfl
    have hlearned : learned ⟨i, .commit, ch, db⟩ =
      learn .commit (ch.answer (db.rollback i) (.ok (), db.commit i)).1 := rfl
    rw [answer_post] at hpost
    rw [answer_result] at hlearned
    split at hpost
    · rename_i hfate
      rw [hfate, if_neg (by decide)] at hlearned
      refine .rollback ?_ hlearned
      rw [hpost]
      rfl
    · refine .commit (fun _ hneed => hneed) (by rw [hpost]; rfl) ?_
      split at hlearned
      · exact .inl hlearned
      · exact .inr hlearned
  | rollback => exact .rollback rfl rfl
  | send transport receipt =>
    have hlearned : learned ⟨i, .send transport receipt, ch, db⟩ =
      [.sent receipt.id (refusal (ch.outcome.mapError .provider))] := rfl
    refine .keep rfl (fun facts => ?_) (fun _ _ hmem => ?_) fun id refused hmem => ?_
    · rw [hlearned, progress_concat]
      exact ⟨rfl, .inl rfl⟩
    · rw [hlearned, List.mem_singleton] at hmem
      cases hmem
    · rw [hlearned, List.mem_singleton] at hmem
      obtain ⟨rfl, rfl⟩ := Fact.sent.inj hmem
      exact ⟨hlearned, transport, receipt, rfl, rfl⟩
  | _ => exact absurd rfl hstill

end Ashbi.Gmail
