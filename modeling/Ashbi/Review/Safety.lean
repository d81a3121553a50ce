import Ashbi.Review.Waiting

/-! Every request keeps the invariant of the reviews. -/

namespace Ashbi.Review

open Interleaving

variable {db s t : Db} {i id : ℕ} {session old : Session} {pending : Option ℕ} {α β : Type}

/-! ### What is known -/

/-- The session that a request has read is stored. -/
def Db.Knows (db : Db) (session : Session) : Prop :=
  ∃ row, db.sessions.rows session.id = some row ∧ session.Kept row

theorem Db.Knows.rely (h : s.Knows session) (hr : s.Rely i t) : t.Knows session := by
  obtain ⟨row, hrow, hkept⟩ := h
  obtain ⟨row', hrow', hkept'⟩ := hr.kept session.id row hrow
  exact ⟨row', hrow', hkept.trans hkept'⟩

theorem Db.Knows.row (h : db.Knows session) : ∃ row, db.sessions.rows session.id = some row := by
  obtain ⟨row, hrow, -⟩ := h
  exact ⟨row, hrow⟩

/-- What a request knows outside its transaction, once it has read its session. -/
structure Db.Requesting (db : Db) (i : ℕ) (session : Session) : Prop where
  idle : db.Idle i
  knows : db.Knows session

theorem Db.Requesting.rely (h : s.Requesting i session) (hr : s.Rely i t) :
    t.Requesting i session :=
  ⟨h.idle.rely hr, h.knows.rely hr⟩

theorem Db.Complete.rely (h : s.Complete i pending) (hr : s.Rely i t) : t.Complete i pending where
  closes id session previousId hmine hnone hprevious hpending := by
    have hmine := (congrFun hr.mine id).symm.trans hmine
    obtain ⟨previous, hread, hclosed⟩ := h.closes id session previousId hmine
      ((hr.locked id session hmine).1.symm.trans hnone) hprevious hpending
    rcases Versions.read_eq_some.mp hread with hown | ⟨hown, hrow⟩
    · exact ⟨previous, Versions.read_eq_some.mpr (.inl ((congrFun hr.mine previousId).trans hown)),
        hclosed⟩
    · obtain ⟨row, hrow', hkept⟩ := hr.kept previousId previous hrow
      exact ⟨row, Versions.read_eq_some.mpr
        (.inr ⟨(congrFun hr.mine previousId).trans hown, hrow'⟩),
        hkept.closed hclosed⟩
  posted a ha := by
    obtain ⟨held, hheld, hopen⟩ := h.posted a (hr.posted ▸ ha)
    exact ⟨held, (congrFun hr.mine _).trans hheld, hopen⟩
  recorded d hd := by
    obtain ⟨held, hheld, hopen⟩ := h.recorded d (hr.recorded ▸ hd)
    exact ⟨held, (congrFun hr.mine _).trans hheld, hopen⟩
  status id session hmine hopen := by
    have hmine := (congrFun hr.mine id).symm.trans hmine
    rw [(hr.locked id session hmine).2, hr.recorded]
    exact h.status id session hmine hopen

/-! ### Statements -/

/-- A statement that ends no transaction, and what follows it. -/
theorem stmt_bind_safe {st : Stmt (Except Failure β)} {f : β → Throws Stmt Failure α}
    {Q : α → Db → Prop} (hlost : ∀ ch (t : Db) b, (lost i st ch t).1 ≠ .ok b)
    (h : ∀ t ch, s.Rely i t → t.Inv → Ready i st t ∧
      ∀ b, (run i st ch t).1 = .ok b → (f b).Safe contract i Q (run i st ch t).2) :
    (Throws.stmt st >>= f).Safe contract i Q s := by
  refine Throws.safe_stmt_bind fun t ch hr hi he _ => ?_
  obtain ⟨hready, hnext⟩ := h t ch hr hi
  refine ⟨keeps hi he hready, fun b hb => ?_⟩
  change (exec i st ch t).1 = .ok b at hb
  change (f b).Safe contract i Q (exec i st ch t).2
  unfold exec at hb ⊢
  split at hb
  · cases hlost _ _ _ hb
  · rename_i hkept
    rw [if_neg hkept]
    exact hnext b hb

/-- The last statement of a program. -/
theorem stmt_safe {st : Stmt (Except Failure β)} {Q : β → Db → Prop}
    (hlost : ∀ ch (t : Db) b, (lost i st ch t).1 ≠ .ok b)
    (h : ∀ t ch, s.Rely i t → t.Inv → Ready i st t ∧
      ∀ b, (run i st ch t).1 = .ok b → Q b (run i st ch t).2) :
    (Throws.stmt st).Safe contract i Q s := by
  refine Throws.safe_stmt fun t ch hr hi he _ => ?_
  obtain ⟨hready, hnext⟩ := h t ch hr hi
  refine ⟨keeps hi he hready, fun b hb => ?_⟩
  change (exec i st ch t).1 = .ok b at hb
  change Q b (exec i st ch t).2
  unfold exec at hb ⊢
  split at hb
  · cases hlost _ _ _ hb
  · rename_i hkept
    rw [if_neg hkept]
    exact hnext b hb

/-- A statement that changes nothing. -/
theorem now_bind_safe {f : Time → Throws Stmt Failure α} {Q : α → Db → Prop}
    (h : ∀ now t, s.Rely i t → (f now).Safe contract i Q t) :
    (Throws.read .now >>= f).Safe contract i Q s := by
  refine Throws.safe_read_bind fun t ch hr hi he _ => ⟨keeps hi he trivial, ?_⟩
  have hexec : exec i .now ch t = (ch.now, t) := by
    unfold exec
    split <;> rfl
  change (f (exec i .now ch t).1).Safe contract i Q (exec i .now ch t).2
  rw [hexec]
  exact h ch.now t hr

theorem randomToken_bind_safe {f : String → Throws Stmt Failure α} {Q : α → Db → Prop}
    (h : ∀ token t, s.Rely i t → (f token).Safe contract i Q t) :
    (Throws.read .randomToken >>= f).Safe contract i Q s := by
  refine Throws.safe_read_bind fun t ch hr hi he _ => ⟨keeps hi he trivial, ?_⟩
  have hexec : exec i .randomToken ch t = (ch.token, t) := by
    unfold exec
    split <;> rfl
  change (f (exec i .randomToken ch t).1).Safe contract i Q (exec i .randomToken ch t).2
  rw [hexec]
  exact h ch.token t hr

theorem inTransaction_safe {body : Throws Stmt Failure α}
    (h : body.Safe contract i (fun _ t => t.Complete i none) s) :
    (inTransaction body).Safe contract i (fun _ _ => True) s := by
  refine (Throws.safe_transaction (F := fun _ => True) h (fun _ u hcomplete => ?_) fun u => ?_).mono
    fun _ _ _ _ _ => trivial
  · exact fun t ch hr hi he _ => ⟨keeps hi he (hcomplete.rely hr), trivial⟩
  · exact fun t ch _ hi he _ => ⟨keeps hi he trivial, trivial⟩

/-! ### Transactions -/

/-- A transaction has written one session, and it is open. -/
theorem complete_write (hmine : ∀ id, db.sessions.mine i id = none) (hposted : db.postedBy i = [])
    (hrecorded : ∀ decision ∈ db.recordedBy i, decision.sessionId = id)
    (hrow : db.sessions.rows id = some old) (hopen : session.status ≠ .closed)
    (hstatus : session.status =
      lastStatus (db.committedOf id ++ (db.recordedBy i).filter (·.sessionId = id))) :
    Db.Complete { db with sessions := db.sessions.write i id session } i none where
  closes id' s previousId hs hnone := by
    rcases Versions.mine_write_eq_some.mp hs with ⟨rfl, -, -⟩ | ⟨-, hs⟩
    · cases hrow.symm.trans hnone
    · cases (hmine id').symm.trans hs
  posted a ha := by
    have ha : a ∈ db.postedBy i := ha
    rw [hposted] at ha
    cases ha
  recorded d hd := by
    refine ⟨session, Versions.mine_write_eq_some.mpr (.inl ⟨hrecorded d hd, rfl, rfl⟩), hopen⟩
  status id' s hs _ := by
    rcases Versions.mine_write_eq_some.mp hs with ⟨rfl, -, rfl⟩ | ⟨-, hs⟩
    · exact hstatus
    · cases (hmine id').symm.trans hs

/-- Annotations of a session that is locked and open. -/
theorem Db.Complete.post (h : db.Complete i none) {comment : Annotation} {annotationCount : ℕ}
    (hheld : ∃ held, db.sessions.mine i comment.sessionId = some held ∧ held.status ≠ .closed) :
    Db.Complete { db with
      posted := db.posted ++ [(i, comment)]
      annotationCount := annotationCount } i none where
  closes := h.closes
  posted a ha := by
    unfold Db.postedBy at ha
    rw [List.filter_append, List.map_append] at ha
    rcases List.mem_append.mp ha with ha | ha
    · exact h.posted a ha
    · obtain rfl : a = comment := by simpa using ha
      exact hheld
  recorded := h.recorded
  status := h.status

theorem annotateBody_safe (author : Author) (parentId : Option ℕ) (body : String)
    (h : s.Requesting i session) :
    (annotateBody session author parentId body).Safe contract i
      (fun _ t => t.Complete i none) s := by
  refine stmt_bind_safe (fun _ _ _ h => by cases h) fun t ch hr hi => ?_
  have ht := h.rely hr
  refine ⟨⟨ht.knows.row, ht.idle.recorded⟩,
    fun locked hlocked => Throws.safe_require_bind fun hone => ?_⟩
  obtain ⟨row, hrow⟩ := ht.knows.row
  rcases updateOpen_cases i session.id (fun session => session) t with
    hrun | ⟨held, hread, hopen, hrun⟩
  · rw [run, hrun] at hlocked
    cases Except.ok.inj hlocked
    cases hone
  rw [run, hrun]
  have hheld : t.sessions.rows session.id = some held := by
    rcases Versions.read_eq_some.mp hread with hmine | ⟨-, hrow⟩
    · cases (ht.idle.mine _).symm.trans hmine
    · exact hrow
  have hcomplete := complete_write ht.idle.mine ht.idle.posted
    (fun d hd => by rw [ht.idle.recorded] at hd; cases hd) hheld hopen (by
      rw [ht.idle.recorded, List.filter_nil, List.append_nil]
      exact hi.status session.id held hheld hopen)
  refine stmt_safe (fun _ _ _ h => by cases h) fun u ch' hr' _ => ⟨trivial, fun _ _ => ?_⟩
  refine (hcomplete.rely hr').post ⟨held, ?_, hopen⟩
  exact (congrFun hr'.mine session.id).trans
    (Versions.mine_write_eq_some.mpr (.inl ⟨rfl, rfl, rfl⟩))

theorem decideBody_safe (author : Author) (decision : Verdict) (note : Option String)
    (h : s.Requesting i session) :
    (decideBody session author decision note).Safe contract i
      (fun _ t => t.Complete i none) s := by
  refine stmt_bind_safe (fun _ _ _ h => by cases h) fun t ch hr hi => ?_
  have ht := h.rely hr
  refine ⟨ht.knows.row, fun row hrow => ?_⟩
  rcases createDecision_cases i session author decision note t with
    hrun | ⟨own, hsession, hdecision, -, -, -, hrun⟩
  · rw [run, hrun] at hrow
    cases hrow
  rw [run, hrun]
  refine stmt_bind_safe (fun _ _ _ h => by cases h) fun u ch' hr' _ => ?_
  obtain ⟨stored, hstored, -⟩ := hr'.kept session.id _ ht.knows.row.choose_spec
  refine ⟨⟨stored, hstored⟩, fun moved hmoved => Throws.safe_require_bind fun hone => ?_⟩
  rcases updateOpen_cases i session.id (fun session => { session with status := decision.status }) u
    with hrun' | ⟨held, -, -, hrun'⟩
  · rw [run, hrun'] at hmoved
    cases Except.ok.inj hmoved
    cases hone
  rw [run, hrun']
  have hrecorded : u.recordedBy i = [own] := by
    refine hr'.recorded.trans ?_
    have hidle := ht.idle.recorded
    unfold Db.recordedBy at hidle ⊢
    dsimp only
    rw [List.filter_append, List.map_append, hidle]
    simp
  refine Throws.safe_pure (complete_write
    (fun id' => (congrFun hr'.mine id').trans (ht.idle.mine id'))
    (hr'.posted.trans ht.idle.posted) (fun d hd => ?_) hstored decision.status_ne_closed ?_)
  · rw [hrecorded] at hd
    exact List.mem_singleton.mp hd ▸ hsession
  · rw [hrecorded]
    simp [lastStatus, hsession, hdecision]

/-- A new session waits for the one that it replaces to be closed. -/
theorem complete_create (h : db.Inv) (hidle : db.Idle i) (hopen : session.status = .open) :
    Db.Complete { db with
      sessions := db.sessions.write i db.sessionCount session
      sessionCount := db.sessionCount + 1 } i session.previousSessionId where
  closes id s previousId hs _ hprevious hpending := by
    rcases Versions.mine_write_eq_some.mp hs with ⟨-, -, rfl⟩ | ⟨-, hs⟩
    · exact absurd hprevious hpending
    · cases (hidle.mine id).symm.trans hs
  posted a ha := by
    have ha : a ∈ db.postedBy i := ha
    rw [hidle.posted] at ha
    cases ha
  recorded d hd := by
    have hd : d ∈ db.recordedBy i := hd
    rw [hidle.recorded] at hd
    cases hd
  status id s hs _ := by
    rcases Versions.mine_write_eq_some.mp hs with ⟨rfl, -, rfl⟩ | ⟨-, hs⟩
    · have hnone : db.committedOf db.sessionCount = [] := by
        refine List.filter_eq_nil_iff.mpr fun d hd heq => ?_
        obtain ⟨row, hrow⟩ := h.known d (List.mem_append_left _ hd)
        rw [of_decide_eq_true heq] at hrow
        cases (h.fresh db.sessionCount (Nat.le_refl _)).1.symm.trans hrow
      change s.status = lastStatus (db.committedOf db.sessionCount ++ (db.recordedBy i).filter _)
      rw [hnone, hidle.recorded]
      exact hopen
    · cases (hidle.mine id).symm.trans hs

/-- The session that was to be closed is. -/
theorem Db.Complete.closed {previousId : ℕ} (h : db.Complete i (some previousId))
    (hclosed : ∃ previous, db.sessions.read i previousId = some previous ∧
      previous.status = .closed) : db.Complete i none := by
  refine ⟨fun id s p hs hnone hp _ => ?_, h.posted, h.recorded, h.status⟩
  by_cases hpending : p = previousId
  · exact hpending ▸ hclosed
  · exact h.closes id s p hs hnone hp fun heq => hpending (Option.some.inj heq).symm

theorem Db.Complete.close {previousId : ℕ} (h : db.Complete i (some previousId))
    (hposted : db.postedBy i = []) (hrecorded : db.recordedBy i = [])
    (hrow : db.sessions.rows previousId = some old) (hclosed : session.status = .closed) :
    Db.Complete { db with sessions := db.sessions.write i previousId session } i none := by
  refine ⟨fun id s p hs hnone hp _ => ?_, fun a ha => ?_, fun d hd => ?_, fun id s hs hopen => ?_⟩
  · rcases Versions.mine_write_eq_some.mp hs with ⟨rfl, -, -⟩ | ⟨-, hs'⟩
    · cases hrow.symm.trans hnone
    by_cases hpending : p = previousId
    · subst hpending
      exact ⟨session, Versions.read_write, hclosed⟩
    · obtain ⟨previous, hread, hclosed'⟩ := h.closes id s p hs' hnone hp fun heq =>
        hpending (Option.some.inj heq).symm
      refine ⟨previous, ?_, hclosed'⟩
      rcases Versions.read_eq_some.mp hread with hmine | ⟨hmine, hrow'⟩
      · exact Versions.read_eq_some.mpr
          (.inl (Versions.mine_write_eq_some.mpr (.inr ⟨hpending, hmine⟩)))
      · refine Versions.read_eq_some.mpr (.inr ⟨?_, hrow'⟩)
        rw [Versions.mine_write, Function.update_of_ne hpending]
        exact hmine
  · have ha : a ∈ db.postedBy i := ha
    rw [hposted] at ha
    cases ha
  · have hd : d ∈ db.recordedBy i := hd
    rw [hrecorded] at hd
    cases hd
  · rcases Versions.mine_write_eq_some.mp hs with ⟨rfl, -, rfl⟩ | ⟨-, hs'⟩
    · exact absurd hclosed hopen
    · exact h.status id s hs' hopen

theorem versionBody_safe (projectId createdById : String) {previous : Option Session}
    (hidle : s.Idle i) (hknown : ∀ p ∈ previous, s.Knows p) :
    (versionBody projectId previous createdById).Safe contract i
      (fun _ t => t.Complete i none) s := by
  refine stmt_bind_safe (fun _ _ _ h => by cases h) fun t ch hr hi => ?_
  have ht := hidle.rely hr
  constructor
  · cases previous with
    | none => trivial
    | some p =>
      obtain ⟨row, hrow, hkept⟩ := (hknown p rfl).rely hr
      exact ⟨row, hrow, hkept.version⟩
  intro created hcreated
  rcases createSession_cases i projectId previous createdById t with
    hrun | ⟨session, -, hopen, -, hprevious, -, hrun⟩
  · rw [run, hrun] at hcreated
    cases hcreated
  rw [run, hrun]
  have hcomplete := complete_create hi ht hopen
  rw [hprevious] at hcomplete
  cases previous with
  | none => exact Throws.safe_pure hcomplete
  | some p =>
    dsimp only
    have hp := (hknown p rfl).rely hr
    split
    · refine stmt_bind_safe (fun _ _ _ h => by cases h) fun u ch' hr' _ => ?_
      obtain ⟨row, hrow, -⟩ := hr'.kept p.id _ hp.row.choose_spec
      refine ⟨⟨⟨row, hrow⟩, hr'.recorded.trans ht.recorded⟩, fun _ hclosed => ?_⟩
      rcases closeSession_cases i p.id u with hrun' | ⟨held, -, hrun'⟩
      · rw [run, hrun'] at hclosed
        cases hclosed
      · rw [run, hrun']
        exact Throws.safe_pure ((hcomplete.rely hr').close (hr'.posted.trans ht.posted)
          (hr'.recorded.trans ht.recorded) hrow rfl)
    · rename_i hclosed
      obtain ⟨row, hrow, hkept⟩ := hp
      refine Throws.safe_pure (hcomplete.closed ⟨row, ?_, hkept.closed (by simpa using hclosed)⟩)
      refine Versions.read_eq_some.mpr (.inr ⟨?_, hrow⟩)
      rw [Versions.mine_write, Function.update_of_ne]
      · exact ht.mine p.id
      · intro hid
        have hid : p.id = t.sessionCount := hid
        rw [hid] at hrow
        cases (hi.fresh t.sessionCount (Nat.le_refl _)).1.symm.trans hrow

/-! ### Reads -/

theorem read_of_mem_sessionsOf (h : session ∈ db.sessionsOf i) :
    ∃ id, db.sessions.read i id = some session := by
  obtain ⟨id, -, hread⟩ := List.mem_filterMap.mp h
  exact ⟨id, hread⟩

theorem Db.Idle.knows (hidle : db.Idle i) (h : db.Inv) (hin : session ∈ db.sessionsOf i) :
    db.Knows session := by
  obtain ⟨id, hread⟩ := read_of_mem_sessionsOf hin
  rcases Versions.read_eq_some.mp hread with hmine | ⟨-, hrow⟩
  · cases (hidle.mine id).symm.trans hmine
  · have hid := h.id_eq id session hrow
    exact ⟨session, hid.symm ▸ hrow, .refl session⟩

theorem loadSession_bind_safe {selects : Session → Bool} {failure : Failure}
    {f : Session → Throws Stmt Failure α} {Q : α → Db → Prop} (hidle : s.Idle i)
    (h : ∀ session t, selects session = true → s.Rely i t → t.Requesting i session →
      (f session).Safe contract i Q t) :
    (loadSession selects failure >>= f).Safe contract i Q s := by
  refine Throws.Safe.bind (stmt_bind_safe (fun _ _ _ h => by cases h) fun t ch hr hi =>
    ⟨hidle.rely hr, fun found hfound => Throws.safe_found fun session hsession => ?_⟩)
  obtain rfl := Except.ok.inj hfound
  have ht := hidle.rely hr
  exact h session t (List.find?_some hsession) hr
    ⟨ht, ht.knows hi (List.mem_of_find?_eq_some hsession)⟩

theorem checkParent_bind_safe {sessionId : ℕ} {parentId : Option ℕ} {failure : Failure}
    {f : Unit → Throws Stmt Failure α} {Q : α → Db → Prop}
    (h : ∀ t, s.Rely i t → (f ()).Safe contract i Q t) :
    (checkParent sessionId parentId failure >>= f).Safe contract i Q s := by
  cases parentId with
  | none => exact h s (.refl i s)
  | some id =>
    refine Throws.Safe.bind (stmt_bind_safe (fun _ _ _ h => by cases h) fun t ch hr _ =>
      ⟨trivial, fun parent _ => Throws.safe_require fun _ => h t hr⟩)

theorem checkLimit_bind_safe {sessionId : ℕ} {shareLinkId : Option ℕ}
    {f : Unit → Throws Stmt Failure α} {Q : α → Db → Prop}
    (h : ∀ t, s.Rely i t → (f ()).Safe contract i Q t) :
    (checkLimit sessionId shareLinkId >>= f).Safe contract i Q s := by
  refine Throws.Safe.bind (stmt_bind_safe (fun _ _ _ h => by cases h) fun t ch hr _ =>
    ⟨trivial, fun total _ => Throws.safe_require_bind fun _ => ?_⟩)
  cases shareLinkId with
  | none => exact Throws.safe_pure (h t hr)
  | some id =>
    exact stmt_bind_safe (fun _ _ _ h => by cases h) fun u ch hr' _ =>
      ⟨trivial, fun linked _ => Throws.safe_require fun _ => h u (hr.trans hr')⟩

theorem loadPrevious_bind_safe {previousSessionId : ℕ} {projectId : String}
    {f : Session → Throws Stmt Failure α} {Q : α → Db → Prop} (hidle : s.Idle i)
    (h : ∀ previous t, t.Requesting i previous → (f previous).Safe contract i Q t) :
    (loadPrevious previousSessionId projectId >>= f).Safe contract i Q s := by
  refine Throws.Safe.bind (loadSession_bind_safe hidle fun previous t _ _ ht => ?_)
  refine stmt_bind_safe (fun _ _ _ h => by cases h) fun u ch hr _ =>
    ⟨(ht.rely hr).idle, fun next _ => ?_⟩
  exact Throws.safe_require_bind fun _ => Throws.safe_pure (h previous u (ht.rely hr))

theorem resolveShareLink_bind_safe {sha256 : String → String} {projects : String → Bool}
    {token : String} {f : ShareLink × Session → Throws Stmt Failure α} {Q : α → Db → Prop}
    (hidle : s.Idle i)
    (h : ∀ link session t, t.Requesting i session → (f (link, session)).Safe contract i Q t) :
    (resolveShareLink sha256 projects token >>= f).Safe contract i Q s := by
  refine Throws.Safe.bind (Throws.safe_require_bind fun _ => ?_)
  refine stmt_bind_safe (fun _ _ _ h => by cases h) fun t ch hr _ =>
    ⟨trivial, fun found _ => Throws.safe_found_bind fun link _ => ?_⟩
  refine stmt_bind_safe (fun _ _ _ h => by cases h) fun u ch' hr' hi =>
    ⟨(hidle.rely hr).rely hr', fun found hfound => now_bind_safe fun checkedAt v hr'' =>
      Throws.safe_require_bind fun _ => Throws.safe_found_bind fun session hsession => ?_⟩
  obtain rfl := Except.ok.inj hfound
  have hu := (hidle.rely hr).rely hr'
  have hrequesting : u.Requesting i session :=
    ⟨hu, hu.knows hi (List.mem_of_find?_eq_some hsession)⟩
  refine Throws.safe_require_bind fun _ => now_bind_safe fun now w hr''' => ?_
  refine stmt_bind_safe (fun _ _ _ h => by cases h) fun x ch'' hx hi' =>
    ⟨trivial, fun _ _ => Throws.safe_pure (h link session _ ?_)⟩
  have hbefore : x.Requesting i session := ((hrequesting.rely hr'').rely hr''').rely hx
  exact ⟨⟨hbefore.idle.mine, hbefore.idle.posted, hbefore.idle.recorded⟩, hbefore.knows⟩

/-! ### Requests -/

section

variable {projects : String → Bool} {sessionId : ℕ} {author : Author} {parentId : Option ℕ}
  {text : String} {decision : Verdict} {note : Option String} {sha256 : String → String}
  {token : String}

theorem createReview_safe (projectId : String) (previousSessionId : Option ℕ)
    (createdById : String) (hidle : s.Idle i) :
    (createReview projectId previousSessionId createdById).Safe contract i (fun _ _ => True) s := by
  cases previousSessionId with
  | none =>
    exact Throws.safe_mapError (inTransaction_safe
      (versionBody_safe projectId createdById hidle fun p hp => by cases hp))
  | some id =>
    refine loadPrevious_bind_safe hidle fun previous t ht => ?_
    exact Throws.safe_mapError (inTransaction_safe
      (versionBody_safe projectId createdById ht.idle fun p hp => Option.some.inj hp ▸ ht.knows))

theorem annotate_safe (hidle : s.Idle i) :
    (annotate projects sessionId author parentId text).Safe contract i (fun _ _ => True) s := by
  unfold annotate
  generalize sanitizePlainText text = body
  refine loadSession_bind_safe hidle fun session t _ _ ht => Throws.safe_require_bind fun _ => ?_
  refine checkParent_bind_safe fun u hr => Throws.safe_require_bind fun _ => ?_
  refine checkLimit_bind_safe fun v hr' => Throws.safe_mapError (inTransaction_safe ?_)
  exact annotateBody_safe author parentId _ ((ht.rely hr).rely hr')

theorem recordDecision_safe (hidle : s.Idle i) :
    (recordDecision projects sessionId author decision note).Safe contract i
      (fun _ _ => True) s := by
  refine loadSession_bind_safe hidle fun session t _ _ ht => Throws.safe_require_bind fun _ => ?_
  exact Throws.safe_mapError (inTransaction_safe (decideBody_safe author decision _ ht))

/-- The annotation that was read is of the session that was read. -/
theorem resolveOrReopen_safe (annotationId : ℕ) (resolved : Bool) (userId : String)
    (hidle : s.Idle i) :
    (resolveOrReopen projects sessionId annotationId resolved userId).Safe contract i
      (fun _ _ => True) s := by
  refine loadSession_bind_safe hidle fun session t _ _ ht => Throws.safe_require_bind
    fun hopen => ?_
  refine stmt_bind_safe (fun _ _ _ h => by cases h) fun u ch hr _ =>
    ⟨trivial, fun existing hexisting => Throws.safe_found_bind fun comment hfound => ?_⟩
  obtain rfl := Except.ok.inj hexisting
  have hof := List.find?_some hfound
  simp only [Bool.and_eq_true, decide_eq_true_eq] at hof
  refine now_bind_safe fun now v hr' => stmt_safe (fun _ _ _ h => by cases h)
    fun w ch' hr'' _ => ⟨⟨by simpa [canWriteToSession] using hopen, ?_⟩, fun _ _ => trivial⟩
  obtain ⟨row, hrow, hid, hsession⟩ := (hr'.trans hr'').annotations comment
    (List.mem_of_find?_eq_some hfound)
  exact ⟨row, hrow, hid, hsession.trans hof.1.2⟩

theorem changeClientAccess_safe (sharedWithClient clientCanDecide : Option Bool)
    (hidle : s.Idle i) :
    (changeClientAccess projects sessionId sharedWithClient clientCanDecide).Safe contract i
      (fun _ _ => True) s := by
  refine loadSession_bind_safe hidle fun session t _ _ ht => Throws.safe_require_bind fun _ =>
    Throws.safe_require_bind fun _ => ?_
  split
  · exact stmt_bind_safe (fun _ _ _ h => by cases h) fun u ch hr _ =>
      ⟨trivial, fun _ _ => Throws.safe_pure trivial⟩
  · exact Throws.safe_pure trivial

theorem addShareLink_safe (expiresInDays : Option ℤ) (allowDecision : Bool) (userId : String)
    (hidle : s.Idle i) :
    (addShareLink projects sessionId sha256 expiresInDays allowDecision userId).Safe contract i
      (fun _ _ => True) s := by
  refine loadSession_bind_safe hidle fun session t _ _ ht => Throws.safe_require_bind
    fun hopen => ?_
  refine now_bind_safe fun now u _ => Throws.safe_require_bind fun _ =>
    randomToken_bind_safe fun token v _ => ?_
  exact stmt_bind_safe (fun _ _ _ h => by cases h) fun w ch _ _ =>
    ⟨by simpa [Ready, canWriteToSession] using hopen, fun _ _ => Throws.safe_pure trivial⟩

theorem revokeLink_safe (linkId : ℕ) (userId : String) (hidle : s.Idle i) :
    (revokeLink projects sessionId linkId userId).Safe contract i (fun _ _ => True) s := by
  refine loadSession_bind_safe hidle fun session t _ _ ht => ?_
  refine stmt_bind_safe (fun _ _ _ h => by cases h) fun u ch hr _ =>
    ⟨trivial, fun row _ => Throws.safe_found_bind fun link _ => ?_⟩
  split
  · exact Throws.safe_pure trivial
  · exact now_bind_safe fun now v _ => stmt_safe (fun _ _ _ h => by cases h)
      fun w ch' _ _ => ⟨trivial, fun _ _ => trivial⟩

theorem guestAnnotate_safe (name : String) (email : Option String) (hidle : s.Idle i) :
    (guestAnnotate sha256 projects token name email parentId text).Safe contract i
      (fun _ _ => True) s := by
  unfold guestAnnotate
  generalize sanitizePlainText text = body
  generalize sanitizeGuestName name = name
  refine resolveShareLink_bind_safe hidle fun link session t ht => ?_
  refine Throws.safe_require_bind fun _ => Throws.safe_require_bind fun _ =>
    Throws.safe_require_bind fun _ => checkParent_bind_safe fun u hr => ?_
  refine checkLimit_bind_safe fun v hr' => Throws.safe_mapError (inTransaction_safe ?_)
  exact annotateBody_safe _ parentId _ ((ht.rely hr).rely hr')

theorem guestDecide_safe (name : String) (email : Option String) (hidle : s.Idle i) :
    (guestDecide sha256 projects token name email decision note).Safe contract i
      (fun _ _ => True) s := by
  unfold guestDecide
  generalize sanitizeGuestName name = name
  refine resolveShareLink_bind_safe hidle fun link session t ht => ?_
  refine Throws.safe_require_bind fun _ => Throws.safe_require_bind fun _ =>
    Throws.safe_require_bind fun _ => ?_
  refine stmt_bind_safe (fun _ _ _ h => by cases h) fun u ch hr _ =>
    ⟨trivial, fun count _ => Throws.safe_require_bind fun _ => ?_⟩
  exact Throws.safe_mapError (inTransaction_safe (decideBody_safe _ decision _ (ht.rely hr)))

theorem clientAnnotate_safe (hidle : s.Idle i) :
    (clientAnnotate projects sessionId author parentId text).Safe contract i
      (fun _ _ => True) s := by
  unfold clientAnnotate
  generalize sanitizePlainText text = body
  refine loadSession_bind_safe hidle fun session t _ _ ht => Throws.safe_require_bind fun _ =>
    Throws.safe_require_bind fun _ => ?_
  refine checkParent_bind_safe fun u hr => checkLimit_bind_safe fun v hr' => ?_
  refine stmt_bind_safe (fun _ _ _ h => by cases h) fun w ch hr'' _ =>
    ⟨trivial, fun own _ => Throws.safe_require_bind fun _ => ?_⟩
  refine Throws.safe_mapError (inTransaction_safe ?_)
  exact annotateBody_safe author parentId _ (((ht.rely hr).rely hr').rely hr'')

theorem clientDecide_safe (hidle : s.Idle i) :
    (clientDecide projects sessionId author decision note).Safe contract i
      (fun _ _ => True) s := by
  refine loadSession_bind_safe hidle fun session t _ _ ht => Throws.safe_require_bind fun _ =>
    Throws.safe_require_bind fun _ => ?_
  exact Throws.safe_mapError (inTransaction_safe (decideBody_safe author decision _ ht))

end

theorem answered_safe {p : Throws Stmt Failure α} (h : p.Safe contract i (fun _ _ => True) s) :
    (answered p).Safe contract i (fun _ _ => True) s :=
  Prog.Safe.bind (Prog.Safe.mono h fun _ _ _ => trivial)

theorem requested_safe {sha256 : String → String} {p : Prog Stmt Unit}
    (hp : Requested sha256 p) (hidle : s.Idle i) : p.Safe contract i (fun _ _ => True) s := by
  obtain ⟨request, rfl⟩ := hp
  cases request with
  | createReview projectId previousSessionId createdById =>
    exact answered_safe (createReview_safe projectId previousSessionId createdById hidle)
  | annotate projects sessionId userId name parentId text =>
    exact answered_safe (annotate_safe hidle)
  | resolve projects sessionId annotationId resolved userId =>
    exact answered_safe (resolveOrReopen_safe annotationId resolved userId hidle)
  | decide projects sessionId userId name decision note =>
    exact answered_safe (recordDecision_safe hidle)
  | clientAccess projects sessionId sharedWithClient clientCanDecide =>
    exact answered_safe (changeClientAccess_safe sharedWithClient clientCanDecide hidle)
  | addShareLink projects sessionId expiresInDays allowDecision userId =>
    exact answered_safe (addShareLink_safe expiresInDays allowDecision userId hidle)
  | revokeShareLink projects sessionId linkId userId =>
    exact answered_safe (revokeLink_safe linkId userId hidle)
  | guestAnnotate projects token name email parentId text =>
    exact answered_safe (guestAnnotate_safe name email hidle)
  | guestDecide projects token name email decision note =>
    exact answered_safe (guestDecide_safe name email hidle)
  | clientAnnotate projects sessionId userId name email parentId text =>
    exact answered_safe (clientAnnotate_safe hidle)
  | clientDecide projects sessionId userId name email decision note =>
    exact answered_safe (clientDecide_safe hidle)

end Ashbi.Review
