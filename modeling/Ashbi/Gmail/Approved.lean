import Ashbi.Gmail.Service
import Ashbi.Interleaving.Learned

/-! An approved response is what its administrator has read. -/

namespace Ashbi.Gmail

open Interleaving

/-! ### The life of a response -/

/-- The status changes that are meant to happen. -/
def Edge (s t : ResponseStatus) : Prop :=
  match t with
  | .draft => s = .draft ∨ s = .rejected
  | .pendingApproval => s = .draft ∨ s = .rejected
  | .approved => s = .pendingApproval
  | .rejected => s = .pendingApproval
  | .sent => s = .approved

def Write.target : Write → ResponseStatus
  | .edit _ => .draft
  | .submit => .pendingApproval
  | .approve _ _ => .approved
  | .reject _ => .rejected
  | .send _ => .sent

/-- The check that the route of the write makes. -/
def Write.accepts (write : Write) (status : ResponseStatus) : Bool :=
  match write with
  | .edit _ => status.editable
  | .submit => status.editable
  | .approve _ _ => status = .pendingApproval
  | .reject _ => status = .pendingApproval
  | .send _ => status = .approved

theorem Write.on_status (write : Write) (response : Response) :
    (write.on response).status = write.target := by
  cases write <;> rfl

theorem Write.edge_iff (write : Write) {s : ResponseStatus} :
    Edge s write.target ↔ write.accepts s = true := by
  cases write <;> simp [Write.target, Write.accepts, Edge, ResponseStatus.editable]

/-- The route's write that the statement makes, unless it is lost before. -/
def Stmt.writes {β : Type} (st : Stmt β) (ch : Choice) : Option (String × Write) :=
  match st with
  | .update id write => if ch.fate = .interrupted then none else some (id, write)
  | _ => none

def written (o : Occurrence machine) : Option (String × Write) := Stmt.writes o.stmt o.choice

/-- The statement approves the response. -/
def approves (id : String) (o : Occurrence machine) : Bool :=
  (written o).any fun found => found.1 = id && found.2.target = .approved

/-- The rows that a route reads. -/
def Stmt.reads {β : Type} (st : Stmt β) (b : β) : List (String × Response) :=
  match st, b with
  | .findUnique id, .ok (some response) => [(id, response)]
  | _, _ => []

/-- A route writes where the one row that it has read passes its check. -/
def Stmt.grounded {β : Type} (st : Stmt β) (reads : List (String × Response)) : Prop :=
  match st with
  | .update id write => ∃ read, reads = [(id, read)] ∧ write.accepts read.status = true
  | _ => True

/-- The rows that the request of thread `i` has read. -/
def readBy (tr : List (Occurrence machine)) (i : ℕ) : List (String × Response) :=
  marksOf (Occurrence.learned (M := machine) Stmt.reads) tr i

/-- The thread that has approved the response last. -/
def approver (tr : List (Occurrence machine)) (id : String) : Option ℕ :=
  ((tr.filter (approves id)).getLast?).map (·.thread)

/-- The response says what it said when the administrator's request read it as pending. -/
def AsRead (tr : List (Occurrence machine)) (id : String) (response : Response) : Prop :=
  ∃ i, approver tr id = some i ∧ ∃ read, (id, read) ∈ readBy tr i ∧
    read.status = .pendingApproval ∧ read.subject = response.subject ∧ read.body = response.body

/-- The status follows an edge, and a sent response stays as it is. -/
def Follows (o : Occurrence machine) : Prop :=
  ∀ id r r', o.pre.responses.rows id = some r → o.post.responses.rows id = some r' →
    (r'.status = r.status ∨ Edge r.status r'.status) ∧ (r.status = .sent → r' = r)

/-- A route's write finds a response that passes the route's check, or has the status that is
written; and an approval finds what its request has read. -/
def Lands (reads : List (String × Response)) (o : Occurrence machine) : Prop :=
  ∀ id write r, written o = some (id, write) → o.pre.responses.rows id = some r →
    (write.accepts r.status = true ∨
      r.status = write.target ∧ (r.status = .sent → write.on r = r)) ∧
    (write.target = .approved → ∀ read, (id, read) ∈ reads →
      read.subject = r.subject ∧ read.body = r.body)

/-! ### Statements -/

/-- What one statement does to the responses. -/
inductive Steps (o : Occurrence machine) : Prop
  | keep (h : written o = none) (hpost : o.post.responses = o.pre.responses)
  | missing {id : String} {write : Write} (h : written o = some (id, write))
      (hrow : o.pre.responses.rows id = none) (hpost : o.post.responses = o.pre.responses)
  | update {id : String} {write : Write} {r : Response} (h : written o = some (id, write))
      (hrow : o.pre.responses.rows id = some r)
      (hfree : machine.enabled o.thread o.stmt o.pre = true → o.pre.responses.written id = none)
      (hpost : o.post.responses = o.pre.responses.put id (write.on r))
  | claim {id : String} {r : Response} {now : Time} (h : written o = none)
      (hread : o.pre.responses.read o.thread id = some r) (happroved : r.status = .approved)
      (hfree : machine.enabled o.thread o.stmt o.pre = true →
        o.pre.responses.locked o.thread id = false)
      (hpost : o.post.responses = o.pre.responses.write o.thread id ((Write.send now).on r))
  | commit (h : written o = none) (hpost : o.post.responses = o.pre.responses.commit o.thread)
  | rollback (h : written o = none) (hpost : o.post.responses = o.pre.responses.rollback o.thread)

theorem createReceipt_responses {i : ℕ} {scope : Scope} {mailbox payloadHash : String}
    {snapshot : Snapshot} {ch : Choice} {db : Db} :
    (createReceipt i scope mailbox payloadHash snapshot ch db).2.responses = db.responses := by
  unfold createReceipt
  dsimp only
  split_ifs <;> rfl

theorem updateReceipt_responses {i id : ℕ} {scope : Scope} {status : ReceiptStatus}
    {outcome : Outcome} {now : Time} {db : Db} :
    (updateReceipt i id scope status outcome now db).2.responses = db.responses := by
  unfold updateReceipt
  split <;> rfl

/-- An answer is that of the statement, or the statement was lost. -/
theorem answer_post {α : Type} {ch : Choice} {lost : Db} {ran : Except Failure α × Db} :
    (ch.answer lost ran).2 = if ch.fate = .interrupted then lost else ran.2 := by
  unfold Choice.answer
  cases ch.fate <;> rfl

theorem steps (o : Occurrence machine) : Steps o := by
  obtain ⟨i, st, ch, db⟩ := o
  have hkeep : ∀ {α : Type} {ran : Except Failure α × Db}, ran.2.responses = db.responses →
      (ch.answer db ran).2.responses = db.responses := by
    intro α ran hran
    rw [answer_post]
    split
    · rfl
    · exact hran
  cases st with
  | update id write =>
    by_cases hfate : ch.fate = .interrupted
    · refine .keep (by simp [written, Stmt.writes, hfate]) ?_
      change (ch.answer db (update id write db)).2.responses = db.responses
      rw [answer_post, if_pos hfate]
    have hw : written ⟨i, .update id write, ch, db⟩ = some (id, write) := by
      simp [written, Stmt.writes, hfate]
    have hpost : (⟨i, .update id write, ch, db⟩ : Occurrence machine).post =
        (update id write db).2 := by
      change (ch.answer db (update id write db)).2 = _
      rw [answer_post, if_neg hfate]
    cases hrow : db.responses.rows id with
    | none => exact .missing hw hrow (by rw [hpost, update, hrow])
    | some r =>
      refine .update hw hrow (fun he => ?_) (by rw [hpost, update, hrow])
      simpa [enabled] using he
  | sendResponse id threadId subject body =>
    have hpost : (⟨i, .sendResponse id threadId subject body, ch, db⟩ : Occurrence machine).post =
        (ch.answer db (sendResponse i id threadId subject body ch.now db)).2 := rfl
    rw [answer_post] at hpost
    split at hpost
    · exact .keep rfl (by rw [hpost])
    unfold sendResponse at hpost
    split at hpost
    · exact .keep rfl (by rw [hpost])
    · rename_i r hr
      rw [Option.filter_eq_some_iff] at hr
      obtain ⟨hfound, happroved⟩ := hr
      obtain ⟨hread, -⟩ := Option.filter_eq_some_iff.mp hfound
      simp only [Bool.and_eq_true, decide_eq_true_eq] at happroved
      refine .claim rfl hread happroved.1.1 (fun he => ?_) (by rw [hpost])
      simpa [enabled] using he
  | commit =>
    have hpost : (⟨i, .commit, ch, db⟩ : Occurrence machine).post =
        (ch.answer (db.rollback i) (.ok (), db.commit i)).2 := rfl
    rw [answer_post] at hpost
    split at hpost
    · exact .rollback rfl (by rw [hpost]; rfl)
    · exact .commit rfl (by rw [hpost]; rfl)
  | rollback => exact .rollback rfl rfl
  | createReceipt => exact .keep rfl (hkeep createReceipt_responses)
  | updateReceipt => exact .keep rfl (hkeep updateReceipt_responses)
  | now => exact .keep rfl rfl
  | send => exact .keep rfl rfl
  | _ => exact .keep rfl (hkeep rfl)

/-! ### Approved versions -/

/-- A version that waits to be committed sends the approved response. -/
def Held (v : Versions String Response) : Prop :=
  ∀ id i r', v.mine i id = some r' →
    ∃ r now, v.rows id = some r ∧ r.status = .approved ∧ r' = (Write.send now).on r

theorem held_step {o : Occurrence machine} (h : Held o.pre.responses)
    (he : machine.enabled o.thread o.stmt o.pre = true) : Held o.post.responses := by
  intro id i r' hmine
  cases steps o with
  | keep hw hpost => exact hpost ▸ h id i r' (hpost ▸ hmine)
  | missing hw hrow hpost => exact hpost ▸ h id i r' (hpost ▸ hmine)
  | @update id' write r hw hrow hfree hpost =>
    rw [hpost] at hmine ⊢
    rw [Versions.mine_put] at hmine
    have hne : id ≠ id' := by
      rintro rfl
      rw [Versions.mine_eq_none (hfree he)] at hmine
      cases hmine
    rw [Versions.rows_put_of_ne hne]
    exact h id i r' hmine
  | @claim id' r now hw hread happroved hfree hpost =>
    rw [hpost] at hmine ⊢
    rcases Versions.mine_write_eq_some.mp hmine with ⟨rfl, rfl, rfl⟩ | ⟨-, hmine⟩
    · rcases Versions.read_eq_some.mp hread with hown | ⟨-, hrows⟩
      · obtain ⟨r₀, now', -, -, rfl⟩ := h id _ r hown
        cases happroved
      · exact ⟨r, now, hrows, happroved, rfl⟩
    · exact h id i r' hmine
  | commit hw hpost =>
    rw [hpost] at hmine ⊢
    obtain ⟨hne, hmine⟩ := Versions.mine_commit_eq_some.mp hmine
    obtain ⟨r, now, hrows, hrest⟩ := h id i r' hmine
    have hnone := Versions.mine_eq_none_of_ne hmine hne
    exact ⟨r, now, Versions.rows_commit_eq_some.mpr (.inr ⟨hnone, hrows⟩), hrest⟩
  | rollback hw hpost =>
    rw [hpost] at hmine ⊢
    exact h id i r' (Versions.mine_rollback_eq_some.mp hmine).2

/-! ### What a step leaves -/

/-- A response that no route writes stays as it is, or is sent. -/
theorem unwritten {o : Occurrence machine} (h : Held o.pre.responses) {id : String}
    {r r' : Response} (hw : ∀ write, written o ≠ some (id, write))
    (hr : o.pre.responses.rows id = some r) (hr' : o.post.responses.rows id = some r') :
    r' = r ∨ r.status = .approved ∧ r'.status = .sent := by
  cases steps o with
  | keep _ hpost =>
    rw [hpost, hr] at hr'
    exact .inl (Option.some.inj hr').symm
  | missing _ _ hpost =>
    rw [hpost, hr] at hr'
    exact .inl (Option.some.inj hr').symm
  | @update id' write r₀ hw' _ _ hpost =>
    have hne : id ≠ id' := by
      rintro rfl
      exact hw write hw'
    rw [hpost, Versions.rows_put_of_ne hne, hr] at hr'
    exact .inl (Option.some.inj hr').symm
  | claim _ _ _ _ hpost =>
    rw [hpost] at hr'
    have hr' : o.pre.responses.rows id = some r' := hr'
    rw [hr] at hr'
    exact .inl (Option.some.inj hr').symm
  | commit _ hpost =>
    rw [hpost] at hr'
    rcases Versions.rows_commit_eq_some.mp hr' with hmine | ⟨-, hrows⟩
    · obtain ⟨r₀, now, hrows, happroved, rfl⟩ := h id _ r' hmine
      rw [hr] at hrows
      obtain rfl := Option.some.inj hrows
      exact .inr ⟨happroved, rfl⟩
    · rw [hr] at hrows
      exact .inl (Option.some.inj hrows).symm
  | rollback _ hpost =>
    rw [hpost] at hr'
    have hr' : o.pre.responses.rows id = some r' := hr'
    rw [hr] at hr'
    exact .inl (Option.some.inj hr').symm

/-- What a route's write leaves. -/
theorem written_post {o : Occurrence machine} {id : String} {write : Write} {r : Response}
    (hw : written o = some (id, write)) (hr : o.pre.responses.rows id = some r) :
    o.post.responses.rows id = some (write.on r) := by
  cases steps o with
  | missing hw' hrow _ =>
    rw [hw] at hw'
    obtain ⟨rfl, rfl⟩ := Prod.mk.inj (Option.some.inj hw')
    rw [hr] at hrow
    cases hrow
  | update hw' hrow _ hpost =>
    rw [hw] at hw'
    obtain ⟨rfl, rfl⟩ := Prod.mk.inj (Option.some.inj hw')
    rw [hr] at hrow
    obtain rfl := Option.some.inj hrow
    rw [hpost, Versions.rows_put]
  | keep hw' _ => cases hw.symm.trans hw'
  | claim hw' _ _ _ _ => cases hw.symm.trans hw'
  | commit hw' _ => cases hw.symm.trans hw'
  | rollback hw' _ => cases hw.symm.trans hw'

/-- No statement makes or removes a response. -/
theorem rows_isSome {o : Occurrence machine} (h : Held o.pre.responses) (id : String) :
    (o.post.responses.rows id).isSome = (o.pre.responses.rows id).isSome := by
  cases steps o with
  | keep _ hpost => rw [hpost]
  | missing _ _ hpost => rw [hpost]
  | @update id' write r₀ _ hrow _ hpost =>
    rw [hpost]
    by_cases hid : id = id'
    · subst hid
      rw [Versions.rows_put, hrow]
      rfl
    · rw [Versions.rows_put_of_ne hid]
  | claim _ _ _ _ hpost => rw [hpost]; rfl
  | commit _ hpost =>
    rw [hpost]
    change ((o.pre.responses.mine o.thread id).or (o.pre.responses.rows id)).isSome = _
    cases hmine : o.pre.responses.mine o.thread id with
    | none => rfl
    | some r' =>
      obtain ⟨r, now, hrows, -⟩ := h id _ r' hmine
      rw [hrows]
      rfl
  | rollback _ hpost => rw [hpost]; rfl

/-! ### What the routes have read -/

def Stmt.routed {β : Type} : Stmt β → Bool
  | .update _ _ => true
  | _ => false

theorem grounded_of_routed {β : Type} (st : Stmt β) (reads : List (String × Response))
    (h : st.routed = false) : st.grounded reads := by
  cases st with
  | update id write => cases h
  | _ => trivial

theorem writeResponse_learned {id : String} {accepts : ResponseStatus → Bool} {refusal : String}
    {write : Write} (h : ∀ s, accepts s = true → write.accepts s = true) :
    (writeResponse id accepts refusal write).Learned Stmt.reads Stmt.grounded
      (fun _ _ => True) [] := by
  refine Throws.learned_stmt_bind trivial fun found => ?_
  refine Throws.learned_found_bind fun existing hfound => ?_
  refine Throws.learned_require_bind fun haccepts => ?_
  subst hfound
  exact Throws.learned_stmt ⟨existing, rfl, h _ haccepts⟩ fun _ => trivial

theorem routes_learned (request : RouteRequest) :
    request.program.Learned Stmt.reads Stmt.grounded (fun _ _ => True) [] := by
  cases request with
  | update id input =>
    refine writeResponse_learned fun s h => ?_
    exact h
  | submit id =>
    refine writeResponse_learned fun s h => ?_
    exact h
  | approve userId id =>
    refine Throws.learned_read_bind trivial fun now => writeResponse_learned fun s h => ?_
    exact h
  | reject id reason =>
    unfold RouteRequest.program rejectResponse
    refine writeResponse_learned fun s h => ?_
    exact h
  | sent id =>
    refine Throws.learned_read_bind trivial fun now => writeResponse_learned fun s h => ?_
    exact h

theorem Requested.learned {service : Service} {p : Prog Stmt Unit} (h : Requested service p) :
    p.Learned Stmt.reads Stmt.grounded (fun _ _ => True) [] := by
  obtain ⟨request, rfl⟩ | ⟨request, rfl⟩ := h
  · have hapart {β : Type} (st : Stmt β) (hst : st.apart = false) : st.routed = false := by
      cases st with
      | update id write => cases hst
      | _ => rfl
    have hfree : Free Stmt.routed (request.program service) :=
      sends_free hapart (fun _ _ => rfl) request
    refine Prog.Learned.bind (Prog.Learned.mono (hfree.learned ?_) fun _ _ _ => trivial)
    exact fun st facts => grounded_of_routed st facts
  · exact Prog.Learned.bind (Prog.Learned.mono (routes_learned request) fun _ _ _ => trivial)

/-! ### Runs -/

variable {service : Service} {s₀ : Db} {tr : List (Occurrence machine)} {c : Config machine}

/-- The one row that the request of a write has read. -/
theorem read_of_written (h : Run (Requested service) s₀ tr c) {k : ℕ} {o : Occurrence machine}
    (ho : tr[k]? = some o) {id : String} {write : Write} (hw : written o = some (id, write)) :
    ∃ read, readBy (tr.take k) o.thread = [(id, read)] ∧ write.accepts read.status = true := by
  have hneed := h.learned (fun _ => Requested.learned) ho
  obtain ⟨i, st, ch, db⟩ := o
  cases st with
  | update id' write' =>
    simp only [written, Stmt.writes] at hw
    split at hw
    · cases hw
    · obtain ⟨rfl, rfl⟩ := Prod.mk.inj (Option.some.inj hw)
      exact hneed
  | _ => cases hw

theorem approver_concat {o : Occurrence machine} {id : String} :
    approver (tr ++ [o]) id = if approves id o then some o.thread else approver tr id := by
  unfold approver
  rw [List.filter_append]
  by_cases h : approves id o = true
  · simp [h]
  · simp [h]

theorem readBy_concat {o : Occurrence machine} {i : ℕ} {read : String × Response}
    (h : read ∈ readBy tr i) : read ∈ readBy (tr ++ [o]) i := by
  unfold readBy at h ⊢
  rw [marksOf_append]
  exact List.mem_append_left _ h

theorem approves_iff {o : Occurrence machine} {id : String} :
    approves id o = true ↔ ∃ write, written o = some (id, write) ∧ write.target = .approved := by
  unfold approves
  rw [Option.any_eq_true]
  constructor
  · rintro ⟨⟨id', write⟩, hw, hfound⟩
    simp only [Bool.and_eq_true, decide_eq_true_eq] at hfound
    obtain ⟨rfl, htarget⟩ := hfound
    exact ⟨write, hw, htarget⟩
  · rintro ⟨write, hw, htarget⟩
    exact ⟨(id, write), hw, by simp [htarget]⟩

/-- An approval leaves the text of the response. -/
theorem Write.text {write : Write} (h : write.target = .approved) (r : Response) :
    (write.on r).subject = r.subject ∧ (write.on r).body = r.body := by
  cases write with
  | approve approvedById approvedAt => exact ⟨rfl, rfl⟩
  | _ => cases h

theorem asRead_concat {o : Occurrence machine} {id : String} {r : Response}
    (h : AsRead tr id r) (ho : approves id o = false) : AsRead (tr ++ [o]) id r := by
  obtain ⟨i, happrover, read, hread, hsame⟩ := h
  refine ⟨i, ?_, read, readBy_concat hread, hsame⟩
  rw [approver_concat, ho]
  exact happrover

/-- An approval that lands leaves the response as its request has read it. -/
theorem asRead_approve (h : Run (Requested service) s₀ tr c) {k : ℕ} {o : Occurrence machine}
    (ho : tr[k]? = some o) (hlands : Lands (readBy (tr.take k) o.thread) o) {id : String}
    {write : Write} (hw : written o = some (id, write)) (htarget : write.target = .approved)
    {r : Response} (hr : o.pre.responses.rows id = some r) :
    AsRead (tr.take k ++ [o]) id (write.on r) := by
  obtain ⟨read, hreads, haccepts⟩ := read_of_written h ho hw
  have hmem : (id, read) ∈ readBy (tr.take k) o.thread := by
    rw [hreads]
    exact List.mem_singleton_self _
  obtain ⟨hsubject, hbody⟩ := (hlands id write r hw hr).2 htarget read hmem
  obtain ⟨hsubject', hbody'⟩ := Write.text htarget r
  refine ⟨o.thread, ?_, read, readBy_concat hmem, ?_, hsubject'.symm ▸ hsubject,
    hbody'.symm ▸ hbody⟩
  · rw [approver_concat, if_pos (approves_iff.mpr ⟨write, hw, htarget⟩)]
  · have hedge := write.edge_iff.mpr haccepts
    rw [htarget] at hedge
    exact hedge

/-- A write that lands follows an edge. -/
theorem Lands.follows {reads : List (String × Response)} {o : Occurrence machine}
    (h : Lands reads o) (hheld : Held o.pre.responses) : Follows o := by
  intro id r r' hr hr'
  by_cases hw : ∃ write, written o = some (id, write)
  · obtain ⟨write, hw⟩ := hw
    rw [written_post hw hr] at hr'
    obtain rfl := Option.some.inj hr'
    rw [write.on_status]
    rcases (h id write r hw hr).1 with haccepts | ⟨htarget, hsent⟩
    · refine ⟨.inr (write.edge_iff.mpr haccepts), fun hsent => ?_⟩
      rw [hsent] at haccepts
      cases write <;> cases haccepts
    · exact ⟨.inl htarget.symm, hsent⟩
  · rcases unwritten hheld (fun write hw' => hw ⟨write, hw'⟩) hr hr' with rfl | ⟨happroved, hsent⟩
    · exact ⟨.inl rfl, fun _ => rfl⟩
    · refine ⟨.inr ?_, fun h => ?_⟩
      · rw [happroved, hsent]
        rfl
      · cases happroved.symm.trans h

/-- What a run keeps in which every route's write lands. -/
structure Kept (tr : List (Occurrence machine)) (db : Db) : Prop where
  held : Held db.responses
  follows : ∀ o ∈ tr, Follows o
  approved : ∀ id r, db.responses.rows id = some r → r.status = .approved → AsRead tr id r

/-- One more statement, of which `tr.take k` are those before. -/
theorem Kept.step {k : ℕ} {o : Occurrence machine} (hkept : Kept (tr.take k) o.pre)
    (h : Run (Requested service) s₀ tr c) (ho : tr[k]? = some o)
    (he : machine.enabled o.thread o.stmt o.pre = true)
    (hlands : Lands (readBy (tr.take k) o.thread) o) : Kept (tr.take k ++ [o]) o.post where
  held := held_step hkept.held he
  follows := by
    intro o' ho'
    rcases List.mem_append.mp ho' with ho' | ho'
    · exact hkept.follows o' ho'
    · exact List.mem_singleton.mp ho' ▸ hlands.follows hkept.held
  approved := by
    intro id r' hr' happroved
    have hsome := rows_isSome hkept.held id
    rw [hr'] at hsome
    obtain ⟨r, hr⟩ := Option.isSome_iff_exists.mp hsome.symm
    by_cases hw : ∃ write, written o = some (id, write)
    · obtain ⟨write, hw⟩ := hw
      rw [written_post hw hr] at hr'
      obtain rfl := Option.some.inj hr'
      rw [write.on_status] at happroved
      exact asRead_approve h ho hlands hw happroved hr
    · have hnot : approves id o = false := by
        rw [Bool.eq_false_iff]
        intro h
        obtain ⟨write, hw', -⟩ := approves_iff.mp h
        exact hw ⟨write, hw'⟩
      rcases unwritten hkept.held (fun write hw' => hw ⟨write, hw'⟩) hr hr' with rfl | ⟨-, hsent⟩
      · exact asRead_concat (hkept.approved id r' hr happroved) hnot
      · cases happroved.symm.trans hsent

theorem take_add_one {k : ℕ} {o : Occurrence machine} (ho : tr[k]? = some o) :
    tr.take (k + 1) = tr.take k ++ [o] := by
  rw [List.take_add_one, ho]
  rfl

theorem Kept.run (h : Run (Requested service) s₀ tr c) (h0 : Kept [] s₀)
    (hlands : ∀ (k : ℕ) o, tr[k]? = some o → Lands (readBy (tr.take k) o.thread) o) :
    Kept tr c.state ∧ ∀ (k : ℕ) o, tr[k]? = some o → Kept (tr.take (k + 1)) o.post := by
  obtain ⟨hend, hall⟩ := h.along Kept h0 fun k o ho _ _ _ he hkept =>
    hkept.step h ho he (hlands k o ho)
  refine ⟨hend, fun k o ho => ?_⟩
  rw [take_add_one ho]
  exact hall k o ho

/-- Statuses follow the edges, sent responses stay and approved ones are what the administrator
has read, exactly where every route's write lands. -/
theorem approved_as_read (h : Run (Requested service) s₀ tr c) (hsettled : s₀.responses.Settled)
    (h0 : ∀ id r, s₀.responses.rows id = some r → r.status ≠ .approved) :
    (∀ (k : ℕ) o, tr[k]? = some o → Lands (readBy (tr.take k) o.thread) o) ↔
      (∀ o ∈ tr, Follows o) ∧ ∀ (k : ℕ) o, tr[k]? = some o → ∀ id r,
        o.post.responses.rows id = some r → r.status = .approved →
          AsRead (tr.take (k + 1)) id r := by
  have hinit : Kept [] s₀ :=
    { held := fun id i r' hmine => by cases hsettled.mine.symm.trans hmine
      follows := by simp
      approved := fun id r hr happroved => absurd happroved (h0 id r hr) }
  constructor
  · intro hlands
    obtain ⟨hend, hall⟩ := Kept.run h hinit hlands
    exact ⟨hend.follows, fun k o ho => (hall k o ho).approved⟩
  · rintro ⟨hfollows, hread⟩ k o ho id write r hw hr
    have hpost := written_post hw hr
    obtain ⟨hedge, hsent⟩ := hfollows o (List.mem_of_getElem? ho) id r _ hr hpost
    rw [write.on_status] at hedge
    refine ⟨?_, fun htarget read hmem => ?_⟩
    · rcases hedge with hsame | hedge
      · exact .inr ⟨hsame.symm, hsent⟩
      · exact .inl (write.edge_iff.mp hedge)
    · obtain ⟨i, happrover, read', hmem', -, hsubject, hbody⟩ :=
        hread k o ho id _ hpost (by rw [write.on_status, htarget])
      have htake := take_add_one ho
      rw [htake, approver_concat, if_pos (approves_iff.mpr ⟨write, hw, htarget⟩)] at happrover
      obtain rfl := Option.some.inj happrover
      obtain ⟨first, hreads, -⟩ := read_of_written h ho hw
      rw [hreads, List.mem_singleton] at hmem
      obtain ⟨-, rfl⟩ := Prod.mk.inj hmem
      have hsame : readBy (tr.take (k + 1)) o.thread = [(id, read)] := by
        rw [htake]
        unfold readBy at hreads ⊢
        rw [marksOf_append, hreads]
        have hnone : marksOf (Occurrence.learned (M := machine) Stmt.reads) [o] o.thread = [] := by
          obtain ⟨i, st, ch, db⟩ := o
          cases st with
          | update => simp [marksOf, Occurrence.learned, Stmt.reads]
          | _ => cases hw
        rw [hnone, List.append_nil]
      rw [hsame, List.mem_singleton] at hmem'
      obtain ⟨-, rfl⟩ := Prod.mk.inj hmem'
      obtain ⟨hsubject', hbody'⟩ := Write.text htarget r
      exact ⟨hsubject.trans hsubject', hbody.trans hbody'⟩

/-! ### A sample response -/

def sampleService : Service := ⟨fun _ _ => "", id⟩

def sampleResponse : Response where
  id := "r"
  threadId := "t"
  status := .draft
  subject := "Re: the logo"
  body := "As agreed."
  tone := none
  rejectionReason := none
  approvedById := none
  approvedAt := none
  sentAt := none

def sampleDb : Db where
  responses := ⟨fun id => if id = "r" then some sampleResponse else none, fun _ => none⟩
  receipts := ⟨fun _ => none, fun _ => none⟩
  issued := 0
  messages := []
  recorded := []
  numbered := 0

def sampleChoice : Choice := ⟨0, .answered, none, true, none, false, .error false⟩

def samplePrograms (requests : List RouteRequest) : List (Prog Stmt Unit) :=
  requests.map fun request => request.program.run.bind fun _ => .ret ()

def sampleSchedule (threads : List ℕ) : List (ℕ × Choice) := threads.map (⟨·, sampleChoice⟩)

theorem samplePrograms_requested {requests : List RouteRequest} :
    ∀ p ∈ samplePrograms requests, Requested sampleService p := by
  intro p hp
  obtain ⟨request, -, rfl⟩ := List.mem_map.mp hp
  exact .inr ⟨request, rfl⟩

theorem sampleDb_unapproved :
    ∀ id r, sampleDb.responses.rows id = some r → r.status ≠ .approved := by
  intro id r hr
  simp only [sampleDb] at hr
  split at hr
  · obtain rfl := Option.some.inj hr
    decide
  · cases hr

/-- A submission, an approval and a sending that nobody overtakes. -/
theorem approved_as_read_submitted : ∃ (tr : List (Occurrence machine)) (c : Config machine),
    Run (Requested sampleService) sampleDb tr c ∧ (∀ o ∈ tr, Follows o) ∧
      (∃ o ∈ tr, (o.post.responses.rows "r").map (·.status) = some .approved) ∧
      (c.state.responses.rows "r").map (·.status) = some .sent := by
  have hrun : Run (M := machine) (Requested sampleService) sampleDb _ _ := Run.of_schedule
    (samplePrograms [.submit "r", .approve "admin" "r", .sent "r"]) samplePrograms_requested
    (sampleSchedule [0, 0, 1, 1, 1, 2, 2, 2])
  refine ⟨_, _, hrun, ((approved_as_read hrun (fun _ => rfl) sampleDb_unapproved).mp ?_).1,
    ⟨_, List.mem_of_getElem? (i := 4) rfl, rfl⟩, rfl⟩
  intro k o ho id write r hw hr
  match k with
  | 0 | 2 | 3 | 5 | 6 =>
    obtain rfl := Option.some.inj ho
    cases hw
  | 1 | 7 =>
    obtain rfl := Option.some.inj ho
    obtain ⟨rfl, rfl⟩ := Prod.mk.inj (Option.some.inj hw)
    obtain rfl := Option.some.inj hr
    exact ⟨.inl rfl, fun h => by cases h⟩
  | 4 =>
    obtain rfl := Option.some.inj ho
    obtain ⟨rfl, rfl⟩ := Prod.mk.inj (Option.some.inj hw)
    obtain rfl := Option.some.inj hr
    refine ⟨.inl rfl, fun _ read hread => ?_⟩
    obtain ⟨-, rfl⟩ := Prod.mk.inj (List.mem_singleton.mp hread)
    exact ⟨rfl, rfl⟩
  | k + 8 => cases ho

/-- An edit that read the draft overtakes its submission, its approval and its sending. -/
theorem sent_response_edited : ∃ (tr : List (Occurrence machine)) (c : Config machine),
    Run (Requested sampleService) sampleDb tr c ∧ ∃ o ∈ tr, ∃ r r',
      o.pre.responses.rows "r" = some r ∧ o.post.responses.rows "r" = some r' ∧
        r.status = .sent ∧ r'.status = .draft ∧ r'.body = "Something else." ∧ ¬ Follows o := by
  have hrun : Run (M := machine) (Requested sampleService) sampleDb _ _ := Run.of_schedule
    (samplePrograms [.update "r" ⟨none, some "Something else.", none⟩, .submit "r",
      .approve "admin" "r", .sent "r"])
    samplePrograms_requested (sampleSchedule [0, 1, 1, 2, 2, 2, 3, 3, 3, 0])
  refine ⟨_, _, hrun, _, List.mem_of_getElem? (i := 9) rfl, _, _, rfl, rfl, rfl, rfl, rfl, ?_⟩
  intro h
  have hsame := (h "r" _ _ rfl rfl).2 rfl
  exact absurd (congrArg Response.status hsame) (by decide)

end Ashbi.Gmail
