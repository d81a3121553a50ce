import Mathlib.Data.List.Perm.Basic
import Mathlib.Data.List.Sort
import Ashbi.Review.Requests

/-! What holds of reviews between statements, and that each statement keeps it. -/

namespace Ashbi.Review

open Interleaving

variable {db : Db} {i j id : ℕ} {session old : Session}

def Db.isClosed (db : Db) (sessionId : ℕ) : Bool :=
  (db.sessions.rows sessionId).any (·.status = .closed)

def Db.annotationsOf (db : Db) (sessionId : ℕ) : List Annotation :=
  db.annotations.filter (·.sessionId = sessionId)

/-- The decisions of a session in the order in which they were committed. -/
def Db.committedOf (db : Db) (sessionId : ℕ) : List Decision :=
  db.decisions.filter (·.sessionId = sessionId)

/-- `orderBy: { createdAt: 'asc' }`. -/
def Db.decisionsOf (db : Db) (sessionId : ℕ) : List Decision :=
  (db.committedOf sessionId).insertionSort (·.createdAt ≤ ·.createdAt)

/-- The ids of the share links that were created on a session. -/
def Db.shareLinksOf (db : Db) (sessionId : ℕ) : List ℕ :=
  (db.shareLinks.filter (·.sessionId = sessionId)).map (·.id)

/-- The status that the last of the decisions leaves. -/
def lastStatus (decisions : List Decision) : Status :=
  (decisions.getLast?.map (·.decision.status)).getD .open

/-- What never changes of a session, and that it stays closed. -/
structure Session.Kept (old session : Session) : Prop where
  id_eq : session.id = old.id
  version : session.version = old.version
  previousSessionId : session.previousSessionId = old.previousSessionId
  closed : old.status = .closed → session.status = .closed

theorem Session.Kept.refl (session : Session) : session.Kept session := ⟨rfl, rfl, rfl, fun h => h⟩

theorem Session.Kept.trans {a b c : Session} (h : a.Kept b) (h' : b.Kept c) : a.Kept c :=
  ⟨h'.id_eq.trans h.id_eq, h'.version.trans h.version,
    h'.previousSessionId.trans h.previousSessionId, h'.closed ∘ h.closed⟩

/-- The first version, or the one after the session that it replaces. -/
def Db.Follows (db : Db) (session : Session) : Prop :=
  match session.previousSessionId with
  | none => session.version = 1
  | some id => ∃ previous, db.sessions.rows id = some previous ∧
      session.version = previous.version + 1

/-- The new version of thread `i`. -/
structure Db.Creates (db : Db) (i id : ℕ) (session : Session) : Prop where
  id_eq : session.id = id
  status : session.status = .open
  follows : db.Follows session
  free : ∀ previousId, session.previousSessionId = some previousId → ∀ id' other,
    db.sessions.rows id' = some other → other.previousSessionId ≠ some previousId
  one : ∀ previousId, session.previousSessionId = some previousId → ∀ j id' other,
    db.sessions.mine j id' = some other → db.sessions.rows id' = none →
      other.previousSessionId = some previousId → id' = id

structure Db.Inv (db : Db) : Prop where
  fresh : ∀ id, db.sessionCount ≤ id →
    db.sessions.rows id = none ∧ db.sessions.written id = none
  id_eq : ∀ id session, db.sessions.rows id = some session → session.id = id
  follows : ∀ id session, db.sessions.rows id = some session → db.Follows session
  closed : ∀ id session previousId previous, db.sessions.rows id = some session →
    session.previousSessionId = some previousId → db.sessions.rows previousId = some previous →
      previous.status = .closed
  unique : ∀ id id' session session' previousId, db.sessions.rows id = some session →
    db.sessions.rows id' = some session' → session.previousSessionId = some previousId →
      session'.previousSessionId = some previousId → id = id'
  status : ∀ id session, db.sessions.rows id = some session → session.status ≠ .closed →
    session.status = lastStatus (db.committedOf id)
  updates : ∀ i id session old, db.sessions.mine i id = some session →
    db.sessions.rows id = some old → old.Kept session
  creates : ∀ i id session, db.sessions.mine i id = some session → db.sessions.rows id = none →
    db.Creates i id session
  known : ∀ decision ∈ db.decisions ++ db.recorded.map (·.2),
    ∃ session, db.sessions.rows decision.sessionId = some session
  decided : ∀ linkId, ((db.decisions ++ db.recorded.map (·.2)).filter
    (·.author.shareLinkId = some linkId)).length ≤ 1
  annotations : ((db.annotations ++ db.posted.map (·.2)).map (·.id)).Nodup
  numbered : ∀ comment ∈ db.annotations ++ db.posted.map (·.2),
    comment.id < db.annotationCount

/-- What a transaction has to bring about before it commits. `pending` is the session that it has
yet to close. -/
structure Db.Complete (db : Db) (i : ℕ) (pending : Option ℕ) : Prop where
  closes : ∀ id session previousId, db.sessions.mine i id = some session →
    db.sessions.rows id = none → session.previousSessionId = some previousId →
      pending ≠ some previousId →
        ∃ previous, db.sessions.read i previousId = some previous ∧ previous.status = .closed
  posted : ∀ comment ∈ db.postedBy i, ∃ session,
    db.sessions.mine i comment.sessionId = some session ∧ session.status ≠ .closed
  recorded : ∀ decision ∈ db.recordedBy i, ∃ session,
    db.sessions.mine i decision.sessionId = some session ∧ session.status ≠ .closed
  status : ∀ id session, db.sessions.mine i id = some session → session.status ≠ .closed →
    session.status = lastStatus (db.committedOf id ++
      (db.recordedBy i).filter (·.sessionId = id))

theorem empty_inv : Db.empty.Inv where
  fresh _ _ := ⟨rfl, rfl⟩
  id_eq _ _ h := by cases h
  follows _ _ h := by cases h
  closed _ _ _ _ h := by cases h
  unique _ _ _ _ _ h := by cases h
  status _ _ h := by cases h
  updates _ _ _ _ h := by cases h
  creates _ _ _ h := by cases h
  known _ h := by cases h
  decided _ := Nat.zero_le _
  annotations := List.nodup_nil
  numbered _ h := by cases h

/-! ### Rows -/

/-- A new version follows whatever the sessions become. -/
theorem Db.Follows.mono {db' : Db} (h : db.Follows session)
    (hrows : ∀ id r, db.sessions.rows id = some r →
      ∃ r', db'.sessions.rows id = some r' ∧ r'.version = r.version) : db'.Follows session := by
  unfold Db.Follows at h ⊢
  cases hprevious : session.previousSessionId with
  | none => simpa [hprevious] using h
  | some previousId =>
    rw [hprevious] at h
    obtain ⟨previous, hrow, hversion⟩ := h
    obtain ⟨r', hrow', hsame⟩ := hrows previousId previous hrow
    exact ⟨r', hrow', hversion.trans (by rw [hsame])⟩

theorem Session.Kept.follows (h : old.Kept session) (hfollows : db.Follows old) :
    db.Follows session := by
  unfold Db.Follows at hfollows ⊢
  rw [h.previousSessionId, h.version]
  exact hfollows

/-- The rows of `posted` and `recorded` that a transaction ends with are those of the others and
its own. -/
theorem filter_perm {α : Type} (rows : List (ℕ × α)) (i : ℕ) :
    (((rows.filter (·.1 = i)).map (·.2)) ++ (rows.filter (·.1 ≠ i)).map (·.2)).Perm
      (rows.map (·.2)) := by
  have hsplit := (List.filter_append_perm (fun row : ℕ × α => decide (row.1 = i)) rows).map (·.2)
  simpa using hsplit

/-! ### The end of a transaction -/

theorem Db.Inv.rollback (h : db.Inv) : (db.rollback i).Inv := by
  have hmine : ∀ j id session, (db.rollback i).sessions.mine j id = some session →
      db.sessions.mine j id = some session := fun j id session hs =>
    (Versions.mine_rollback_eq_some.mp hs).2
  have hdecisions : (db.decisions ++ (db.rollback i).recorded.map (·.2)).Sublist
      (db.decisions ++ db.recorded.map (·.2)) := (List.filter_sublist.map _).append_left _
  have hannotations : (db.annotations ++ (db.rollback i).posted.map (·.2)).Sublist
      (db.annotations ++ db.posted.map (·.2)) := (List.filter_sublist.map _).append_left _
  refine ⟨fun id hid => ?_, h.id_eq, h.follows, h.closed, h.unique, h.status,
    fun j id s o hs => h.updates j id s o (hmine j id s hs), fun j id s hs hn => ?_,
    fun d hd => h.known d (hdecisions.subset hd), fun linkId => ?_,
    h.annotations.sublist (hannotations.map _),
    fun a ha => h.numbered a (hannotations.subset ha)⟩
  · obtain ⟨hrow, hwritten⟩ := h.fresh id hid
    exact ⟨hrow, by simp [Db.rollback, Versions.rollback, hwritten]⟩
  · obtain ⟨hid, hstatus, hfollows, hfree, hone⟩ := h.creates j id s (hmine j id s hs) hn
    exact ⟨hid, hstatus, hfollows, hfree,
      fun p hp k id' other hother => hone p hp k id' other (hmine k id' other hother)⟩
  · exact (hdecisions.filter _).length_le.trans (h.decided linkId)

/-- A committed session is a new one, or keeps what never changes of the one before. -/
theorem Db.Inv.rows_commit (h : db.Inv) (hrow : (db.commit i).sessions.rows id = some session) :
    (db.sessions.mine i id = some session ∧ db.sessions.rows id = none) ∨
      ∃ old, db.sessions.rows id = some old ∧ old.Kept session := by
  rcases Versions.rows_commit_eq_some.mp hrow with hmine | ⟨-, hrow⟩
  · cases hold : db.sessions.rows id with
    | none => exact .inl ⟨hmine, rfl⟩
    | some old => exact .inr ⟨old, rfl, h.updates i id session old hmine hold⟩
  · exact .inr ⟨session, hrow, .refl session⟩

theorem Db.Inv.commit_rows (h : db.Inv) (hrow : db.sessions.rows id = some old) :
    ∃ session, (db.commit i).sessions.rows id = some session ∧ old.Kept session := by
  cases hmine : db.sessions.mine i id with
  | some session =>
    exact ⟨session, Versions.rows_commit_eq_some.mpr (.inl hmine),
      h.updates i id session old hmine hrow⟩
  | none => exact ⟨old, Versions.rows_commit_eq_some.mpr (.inr ⟨hmine, hrow⟩), .refl old⟩

theorem Db.Inv.follows_commit (h : db.Inv) (hfollows : db.Follows session) :
    (db.commit i).Follows session := by
  refine hfollows.mono fun id r hrow => ?_
  obtain ⟨r', hrow', hkept⟩ := h.commit_rows hrow
  exact ⟨r', hrow', hkept.version⟩

theorem committedOf_commit (sessionId : ℕ) : (db.commit i).committedOf sessionId =
    db.committedOf sessionId ++ (db.recordedBy i).filter (·.sessionId = sessionId) := by
  simp [Db.committedOf, Db.commit]

theorem Db.Inv.commit (h : db.Inv) (hcomplete : db.Complete i none) : (db.commit i).Inv := by
  have hdecisions : ((db.commit i).decisions ++ (db.commit i).recorded.map (·.2)).Perm
      (db.decisions ++ db.recorded.map (·.2)) := by
    rw [Db.commit, List.append_assoc]
    exact (filter_perm db.recorded i).append_left _
  have hannotations : ((db.commit i).annotations ++ (db.commit i).posted.map (·.2)).Perm
      (db.annotations ++ db.posted.map (·.2)) := by
    rw [Db.commit, List.append_assoc]
    exact (filter_perm db.posted i).append_left _
  refine ⟨fun id hid => ?_, fun id s hs => ?_, fun id s hs => ?_, fun id s p q hs hp hq => ?_,
    fun id id' s s' p hs hs' hp hp' => ?_, fun id s hs hopen => ?_, fun j id s o hs ho => ?_,
    fun j id s hs hn => ?_, fun d hd => ?_, fun linkId => ?_, ?_,
    fun a ha => h.numbered a (hannotations.mem_iff.mp ha)⟩
  · obtain ⟨hrow, hwritten⟩ := h.fresh id hid
    refine ⟨Versions.rows_commit_eq_none.mpr ⟨Versions.mine_eq_none hwritten, hrow⟩, ?_⟩
    simp [Db.commit, Versions.commit, Versions.rollback, hwritten]
  · rcases h.rows_commit hs with ⟨hmine, hnone⟩ | ⟨o, ho, hkept⟩
    · exact (h.creates i id s hmine hnone).id_eq
    · exact hkept.id_eq.trans (h.id_eq id o ho)
  · rcases h.rows_commit hs with ⟨hmine, hnone⟩ | ⟨o, ho, hkept⟩
    · exact h.follows_commit (h.creates i id s hmine hnone).follows
    · exact h.follows_commit (hkept.follows (h.follows id o ho))
  · rcases h.rows_commit hs with ⟨hmine, hnone⟩ | ⟨o, ho, hkept⟩
    · obtain ⟨q', hread, hclosed⟩ :=
        hcomplete.closes id s p hmine hnone hp (by intro hnew; cases hnew)
      have hq : db.sessions.read i p = some q := hq
      exact Option.some.inj (hread.symm.trans hq) ▸ hclosed
    · rw [hkept.previousSessionId] at hp
      have hfollows := h.follows id o ho
      rw [Db.Follows, hp] at hfollows
      obtain ⟨q₀, hq₀, -⟩ := hfollows
      obtain ⟨q', hq', hkept'⟩ := h.commit_rows (i := i) hq₀
      obtain rfl := Option.some.inj (hq.symm.trans hq')
      exact hkept'.closed (h.closed id o p q₀ ho hp hq₀)
  · rcases h.rows_commit hs with ⟨hmine, hnone⟩ | ⟨o, ho, hkept⟩
    · rcases h.rows_commit hs' with ⟨hmine', hnone'⟩ | ⟨o', ho', hkept'⟩
      · exact (h.creates i id' s' hmine' hnone').one p hp' i id s hmine hnone hp
      · rw [hkept'.previousSessionId] at hp'
        exact absurd hp' ((h.creates i id s hmine hnone).free p hp id' o' ho')
    · rw [hkept.previousSessionId] at hp
      rcases h.rows_commit hs' with ⟨hmine', hnone'⟩ | ⟨o', ho', hkept'⟩
      · exact absurd hp ((h.creates i id' s' hmine' hnone').free p hp' id o ho)
      · rw [hkept'.previousSessionId] at hp'
        exact h.unique id id' o o' p ho ho' hp hp'
  · rw [committedOf_commit]
    rcases Versions.rows_commit_eq_some.mp hs with hmine | ⟨hnone, hrow⟩
    · exact hcomplete.status id s hmine hopen
    · have hother : (db.recordedBy i).filter (·.sessionId = id) = [] := by
        refine List.filter_eq_nil_iff.mpr fun d hd heq => ?_
        obtain ⟨held, hheld, -⟩ := hcomplete.recorded d hd
        rw [of_decide_eq_true heq, hnone] at hheld
        cases hheld
      rw [hother, List.append_nil]
      exact h.status id s hrow hopen
  · obtain ⟨hj, hs⟩ := Versions.mine_commit_eq_some.mp hs
    rcases Versions.rows_commit_eq_some.mp ho with hmine | ⟨-, hrow⟩
    · exact absurd (Versions.mine_unique hs hmine) hj
    · exact h.updates j id s o hs hrow
  · obtain ⟨hj, hs⟩ := Versions.mine_commit_eq_some.mp hs
    have hrow := (Versions.rows_commit_eq_none.mp hn).2
    obtain ⟨hid, hstatus, hfollows, hfree, hone⟩ := h.creates j id s hs hrow
    refine ⟨hid, hstatus, h.follows_commit hfollows, fun p hp id' other hother hprevious => ?_,
      fun p hp k id' other hother hn' => hone p hp k id' other
        (Versions.mine_commit_eq_some.mp hother).2 (Versions.rows_commit_eq_none.mp hn').2⟩
    rcases h.rows_commit hother with ⟨hmine', hnone'⟩ | ⟨o, ho, hkept⟩
    · obtain rfl := hone p hp i id' other hmine' hnone' hprevious
      exact hj (Versions.mine_unique hs hmine')
    · rw [hkept.previousSessionId] at hprevious
      exact hfree p hp id' o ho hprevious
  · obtain ⟨s, hs⟩ := h.known d (hdecisions.mem_iff.mp hd)
    obtain ⟨s', hs', -⟩ := h.commit_rows (i := i) hs
    exact ⟨s', hs'⟩
  · exact (hdecisions.filter _).length_eq.trans_le (h.decided linkId)
  · exact (hannotations.map _).nodup_iff.mpr h.annotations

/-! ### What each statement keeps of the invariant -/

variable {s t u : Db} {β : Type} {st : Stmt β} {ch : Choice}

/-! ### Statements -/

theorem updateOpen_cases (i id : ℕ) (write : Session → Session) (db : Db) :
    updateOpen i id write db = (.ok 0, db) ∨
    ∃ session, db.sessions.read i id = some session ∧ session.status ≠ .closed ∧
      updateOpen i id write db =
        (.ok 1, { db with sessions := db.sessions.write i id (write session) }) := by
  unfold updateOpen
  cases hread : (db.sessions.read i id).filter (·.status ≠ .closed) with
  | none => exact .inl rfl
  | some session =>
    obtain ⟨hread, hopen⟩ := Option.filter_eq_some_iff.mp hread
    exact .inr ⟨session, hread, of_decide_eq_true hopen, rfl⟩

theorem closeSession_cases (i id : ℕ) (db : Db) :
    closeSession i id db = (.error .recordNotFound, db) ∨
    ∃ session, db.sessions.read i id = some session ∧ closeSession i id db =
      (.ok (), { db with sessions :=
        db.sessions.write i id { session with status := .closed } }) := by
  unfold closeSession
  cases hread : db.sessions.read i id with
  | none => exact .inl rfl
  | some session => exact .inr ⟨session, rfl, rfl⟩

theorem createSession_cases (i : ℕ) (projectId : String) (previous : Option Session)
    (createdById : String) (db : Db) :
    createSession i projectId previous createdById db = (.error .uniqueViolation, db) ∨
    ∃ session : Session, session.id = db.sessionCount ∧ session.status = .open ∧
      session.version = (previous.map (·.version + 1)).getD 1 ∧
      session.previousSessionId = previous.map (·.id) ∧
      (∀ p ∈ previous, ∀ other ∈ db.sessionsOf i, other.previousSessionId ≠ some p.id) ∧
      createSession i projectId previous createdById db = (.ok session, { db with
        sessions := db.sessions.write i db.sessionCount session
        sessionCount := db.sessionCount + 1 }) := by
  unfold createSession
  split
  · exact .inl rfl
  · rename_i hfree
    refine .inr ⟨_, rfl, rfl, rfl, rfl, fun p hp other hother hprevious => hfree ?_, rfl⟩
    rw [Option.mem_def.mp hp, Option.any_some]
    exact List.any_eq_true.mpr ⟨other, hother, decide_eq_true hprevious⟩

theorem createDecision_cases (i : ℕ) (session : Session) (author : Author) (decision : Verdict)
    (note : Option String) (db : Db) :
    createDecision i session author decision note db = (.error .uniqueViolation, db) ∨
    ∃ row : Decision, row.sessionId = session.id ∧ row.decision = decision ∧
      row.author = author ∧ row.createdAt = db.decisionCount ∧
      (∀ linkId, author.shareLinkId = some linkId →
        ∀ other ∈ db.decisions ++ db.recordedBy i, other.author.shareLinkId ≠ some linkId) ∧
      createDecision i session author decision note db = (.ok row, { db with
        recorded := db.recorded ++ [(i, row)]
        decisionCount := db.decisionCount + 1 }) := by
  unfold createDecision
  split
  · exact .inl rfl
  · rename_i hfree
    refine .inr ⟨_, rfl, rfl, rfl, rfl, fun linkId hlink row hrow hsame => hfree ?_, rfl⟩
    rw [hlink, Option.isSome_some, Bool.true_and]
    exact List.any_eq_true.mpr ⟨row, hrow, decide_eq_true hsame⟩

theorem mem_sessionsOf (h : db.Inv) (hread : db.sessions.read i id = some session) :
    session ∈ db.sessionsOf i := by
  refine List.mem_filterMap.mpr ⟨id, List.mem_range.mpr ?_, hread⟩
  by_contra hle
  obtain ⟨hrow, hwritten⟩ := h.fresh id (Nat.le_of_not_lt hle)
  rw [Versions.read, Versions.mine_eq_none hwritten, Option.none_or, hrow] at hread
  cases hread

/-! ### The invariant -/

/-- A session is written in the transaction that holds its row. -/
theorem Db.Inv.write (h : db.Inv) (hrow : db.sessions.rows id = some old)
    (hkept : old.Kept session) :
    Db.Inv { db with sessions := db.sessions.write i id session } := by
  refine ⟨fun id' hid => ?_, h.id_eq, h.follows, h.closed, h.unique, h.status,
    fun j id' s o hs ho => ?_, fun j id' s hs hn => ?_, h.known, h.decided, h.annotations,
    h.numbered⟩
  · obtain ⟨hrow', hwritten⟩ := h.fresh id' hid
    have hne : id' ≠ id := by
      rintro rfl
      cases hrow.symm.trans hrow'
    exact ⟨hrow', (Versions.written_write_of_ne hne).trans hwritten⟩
  · rcases Versions.mine_write_eq_some.mp hs with ⟨rfl, -, rfl⟩ | ⟨-, hs'⟩
    · obtain rfl := Option.some.inj (hrow.symm.trans ho)
      exact hkept
    · exact h.updates j id' s o hs' ho
  · rcases Versions.mine_write_eq_some.mp hs with ⟨rfl, -, rfl⟩ | ⟨-, hs'⟩
    · cases hrow.symm.trans hn
    · obtain ⟨hid, hstatus, hfollows, hfree, hone⟩ := h.creates j id' s hs' hn
      refine ⟨hid, hstatus, hfollows, hfree, fun p hp k id₂ other hother hn₂ hprevious => ?_⟩
      rcases Versions.mine_write_eq_some.mp hother with ⟨rfl, -, rfl⟩ | ⟨-, hother'⟩
      · cases hrow.symm.trans hn₂
      · exact hone p hp k id₂ other hother' hn₂ hprevious

/-- A new version of a session that has none. -/
theorem Db.Inv.create (h : db.Inv) (hid : session.id = db.sessionCount)
    (hstatus : session.status = .open) (hfollows : db.Follows session)
    (hfree : ∀ p, session.previousSessionId = some p →
      (∀ id' other, db.sessions.rows id' = some other → other.previousSessionId ≠ some p) ∧
      ∀ j id' other, db.sessions.mine j id' = some other → db.sessions.rows id' = none →
        other.previousSessionId ≠ some p) :
    Db.Inv { db with
      sessions := db.sessions.write i db.sessionCount session
      sessionCount := db.sessionCount + 1 } := by
  obtain ⟨hrow, hwritten⟩ := h.fresh db.sessionCount (Nat.le_refl _)
  refine ⟨fun id' hid' => ?_, h.id_eq, h.follows, h.closed, h.unique, h.status,
    fun j id' s o hs ho => ?_, fun j id' s hs hn => ?_, h.known, h.decided, h.annotations,
    h.numbered⟩
  · have hid' : db.sessionCount + 1 ≤ id' := hid'
    obtain ⟨hrow', hwritten'⟩ := h.fresh id' (by omega)
    exact ⟨hrow', (Versions.written_write_of_ne (by omega)).trans hwritten'⟩
  · rcases Versions.mine_write_eq_some.mp hs with ⟨rfl, -, rfl⟩ | ⟨-, hs'⟩
    · cases hrow.symm.trans ho
    · exact h.updates j id' s o hs' ho
  · rcases Versions.mine_write_eq_some.mp hs with ⟨rfl, -, rfl⟩ | ⟨-, hs'⟩
    · refine ⟨hid, hstatus, hfollows, fun p hp => (hfree p hp).1,
        fun p hp k id₂ other hother hn₂ hprevious => ?_⟩
      rcases Versions.mine_write_eq_some.mp hother with ⟨rfl, -, -⟩ | ⟨-, hother'⟩
      · rfl
      · exact absurd hprevious ((hfree p hp).2 k id₂ other hother' hn₂)
    · obtain ⟨hid', hstatus', hfollows', hfree', hone⟩ := h.creates j id' s hs' hn
      refine ⟨hid', hstatus', hfollows', hfree', fun p hp k id₂ other hother hn₂ hprevious => ?_⟩
      rcases Versions.mine_write_eq_some.mp hother with ⟨rfl, -, rfl⟩ | ⟨-, hother'⟩
      · exact absurd hp ((hfree p hprevious).2 j id' s hs' hn)
      · exact hone p hp k id₂ other hother' hn₂ hprevious

/-- A committed row is replaced that no transaction holds. -/
theorem Db.Inv.replace (h : db.Inv) (hrow : db.sessions.rows id = some old)
    (hkept : old.Kept session) (hstatus : session.status = old.status) :
    Db.Inv { db with sessions :=
      { db.sessions with rows := Function.update db.sessions.rows id (some session) } } := by
  have hback : ∀ id' s, Function.update db.sessions.rows id (some session) id' = some s →
      ∃ o, db.sessions.rows id' = some o ∧ o.Kept s ∧ s.status = o.status := by
    intro id' s hs
    by_cases hid : id' = id
    · subst hid
      rw [Function.update_self] at hs
      obtain rfl := Option.some.inj hs
      exact ⟨old, hrow, hkept, hstatus⟩
    · rw [Function.update_of_ne hid] at hs
      exact ⟨s, hs, .refl s, rfl⟩
  have hforth : ∀ id' o, db.sessions.rows id' = some o →
      ∃ s, Function.update db.sessions.rows id (some session) id' = some s ∧ o.Kept s := by
    intro id' o ho
    by_cases hid : id' = id
    · subst hid
      obtain rfl := Option.some.inj (hrow.symm.trans ho)
      exact ⟨session, Function.update_self .., hkept⟩
    · exact ⟨o, (Function.update_of_ne hid ..).trans ho, .refl o⟩
  have hnone : ∀ id', Function.update db.sessions.rows id (some session) id' = none →
      db.sessions.rows id' = none := by
    intro id' hn
    rw [Option.eq_none_iff_forall_ne_some]
    intro o ho
    obtain ⟨s, hs, -⟩ := hforth id' o ho
    cases hn.symm.trans hs
  have hfollowed : ∀ s, db.Follows s → Db.Follows { db with
      sessions := { db.sessions with rows := Function.update db.sessions.rows id (some session) } }
        s := by
    intro s hs
    refine hs.mono fun id' r hr => ?_
    obtain ⟨r', hr', hkept'⟩ := hforth id' r hr
    exact ⟨r', hr', hkept'.version⟩
  refine ⟨fun id' hid => ?_, fun id' s hs => ?_, fun id' s hs => ?_, fun id' s p q hs hp hq => ?_,
    fun id₁ id₂ s₁ s₂ p hs₁ hs₂ hp₁ hp₂ => ?_, fun id' s hs hopen => ?_, fun j id' s o hs ho => ?_,
    fun j id' s hs hn => ?_, fun d hd => ?_, h.decided, h.annotations, h.numbered⟩
  · obtain ⟨hrow', hwritten⟩ := h.fresh id' hid
    refine ⟨(Function.update_of_ne ?_ ..).trans hrow', hwritten⟩
    rintro rfl
    cases hrow.symm.trans hrow'
  · obtain ⟨o, ho, hk, -⟩ := hback id' s hs
    exact hk.id_eq.trans (h.id_eq id' o ho)
  · obtain ⟨o, ho, hk, -⟩ := hback id' s hs
    exact hfollowed s (hk.follows (h.follows id' o ho))
  · obtain ⟨o, ho, hk, -⟩ := hback id' s hs
    obtain ⟨q', hq', -, hsame⟩ := hback p q hq
    exact hsame.trans (h.closed id' o p q' ho (hk.previousSessionId.symm.trans hp) hq')
  · obtain ⟨o₁, ho₁, hk₁, -⟩ := hback id₁ s₁ hs₁
    obtain ⟨o₂, ho₂, hk₂, -⟩ := hback id₂ s₂ hs₂
    exact h.unique id₁ id₂ o₁ o₂ p ho₁ ho₂ (hk₁.previousSessionId.symm.trans hp₁)
      (hk₂.previousSessionId.symm.trans hp₂)
  · obtain ⟨o, ho, -, hsame⟩ := hback id' s hs
    exact hsame.trans (h.status id' o ho (hsame ▸ hopen))
  · obtain ⟨o', ho', hk, hsame⟩ := hback id' o ho
    have hupdates := h.updates j id' s o' hs ho'
    exact ⟨hupdates.id_eq.trans hk.id_eq.symm, hupdates.version.trans hk.version.symm,
      hupdates.previousSessionId.trans hk.previousSessionId.symm,
      fun hclosed => hupdates.closed (hsame.symm.trans hclosed)⟩
  · obtain ⟨hid, hopen, hfollows, hfree, hone⟩ := h.creates j id' s hs (hnone id' hn)
    refine ⟨hid, hopen, hfollowed s hfollows, fun p hp id₂ other hother hprevious => ?_,
      fun p hp k id₂ other hother hn₂ => hone p hp k id₂ other hother (hnone id₂ hn₂)⟩
    obtain ⟨o, ho, hk, -⟩ := hback id₂ other hother
    exact hfree p hp id₂ o ho (hk.previousSessionId.symm.trans hprevious)
  · obtain ⟨o, ho⟩ := h.known d hd
    obtain ⟨o', ho', -⟩ := hforth _ o ho
    exact ⟨o', ho'⟩

theorem Db.Inv.record {decision : Decision} (h : db.Inv)
    (hrow : ∃ session, db.sessions.rows decision.sessionId = some session)
    (hfree : ∀ linkId, decision.author.shareLinkId = some linkId →
      ∀ row ∈ db.decisions ++ db.recorded.map (·.2), row.author.shareLinkId ≠ some linkId) :
    Db.Inv { db with
      recorded := db.recorded ++ [(i, decision)]
      decisionCount := db.decisionCount + 1 } := by
  refine ⟨h.fresh, h.id_eq, h.follows, h.closed, h.unique, h.status, h.updates,
    fun j id s hs hn => ?_, fun d hd => ?_, fun linkId => ?_, h.annotations, h.numbered⟩
  · obtain ⟨hid, hstatus, hfollows, hfree, hone⟩ := h.creates j id s hs hn
    exact ⟨hid, hstatus, hfollows, hfree, hone⟩
  · rw [List.map_append, ← List.append_assoc] at hd
    rcases List.mem_append.mp hd with hd | hd
    · exact h.known d hd
    · obtain rfl := List.mem_singleton.mp hd
      exact hrow
  · rw [List.map_append, ← List.append_assoc, List.filter_append, List.length_append]
    by_cases hlink : decision.author.shareLinkId = some linkId
    · have hnone : (db.decisions ++ db.recorded.map (·.2)).filter
          (·.author.shareLinkId = some linkId) = [] :=
        List.filter_eq_nil_iff.mpr fun row hin => by simpa using hfree linkId hlink row hin
      rw [hnone]
      simp [hlink]
    · have hnone : [decision].filter (·.author.shareLinkId = some linkId) = [] := by simp [hlink]
      have hone := h.decided linkId
      simp only [List.map_cons, List.map_nil, hnone, List.length_nil]
      omega

theorem Db.Inv.post {comment : Annotation} (h : db.Inv)
    (hid : comment.id = db.annotationCount) : Db.Inv { db with
      posted := db.posted ++ [(i, comment)]
      annotationCount := db.annotationCount + 1 } := by
  refine ⟨h.fresh, h.id_eq, h.follows, h.closed, h.unique, h.status, h.updates,
    fun j id s hs hn => ?_, h.known, h.decided, ?_, fun a ha => ?_⟩
  · obtain ⟨hid, hstatus, hfollows, hfree, hone⟩ := h.creates j id s hs hn
    exact ⟨hid, hstatus, hfollows, hfree, hone⟩
  · have happend : (db.annotations ++ (db.posted ++ [(i, comment)]).map (·.2)).map (·.id) =
        (db.annotations ++ db.posted.map (·.2)).map (·.id) ++ [comment.id] := by simp
    rw [happend]
    refine List.nodup_append.mpr
      ⟨h.annotations, List.nodup_cons.mpr ⟨List.not_mem_nil, List.nodup_nil⟩, fun a ha b hb => ?_⟩
    obtain ⟨row, hrow, rfl⟩ := List.mem_map.mp ha
    obtain rfl := List.mem_singleton.mp hb
    exact hid.symm ▸ (h.numbered row hrow).ne
  · rw [List.map_append, ← List.append_assoc] at ha
    rcases List.mem_append.mp ha with ha | ha
    · exact Nat.lt_succ_of_lt (h.numbered a ha)
    · obtain rfl := List.mem_singleton.mp ha
      exact hid ▸ Nat.lt_succ_self _

/-- The annotations keep their ids and sessions. -/
theorem Db.Inv.rewrite (h : db.Inv) {write : Annotation → Annotation}
    (hid : ∀ comment, (write comment).id = comment.id) :
    Db.Inv { db with annotations := db.annotations.map write } := by
  refine ⟨h.fresh, h.id_eq, h.follows, h.closed, h.unique, h.status, h.updates,
    fun j id s hs hn => ?_, h.known, h.decided, ?_, fun a ha => ?_⟩
  · obtain ⟨hid, hstatus, hfollows, hfree, hone⟩ := h.creates j id s hs hn
    exact ⟨hid, hstatus, hfollows, hfree, hone⟩
  · simpa [hid, Function.comp_def] using h.annotations
  · rcases List.mem_append.mp ha with ha | ha
    · obtain ⟨row, hrow, rfl⟩ := List.mem_map.mp ha
      rw [hid]
      exact h.numbered row (List.mem_append_left _ hrow)
    · exact h.numbered a (List.mem_append_right _ ha)

/-- Nothing here is about share links. -/
theorem Db.Inv.of_shareLinks (h : db.Inv) (shareLinks : List ShareLink) :
    Db.Inv { db with shareLinks := shareLinks } := by
  refine ⟨h.fresh, h.id_eq, h.follows, h.closed, h.unique, h.status, h.updates,
    fun j id s hs hn => ?_, h.known, h.decided, h.annotations, h.numbered⟩
  obtain ⟨hid, hstatus, hfollows, hfree, hone⟩ := h.creates j id s hs hn
  exact ⟨hid, hstatus, hfollows, hfree, hone⟩

end Ashbi.Review
