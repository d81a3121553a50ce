import Mathlib.Data.List.Nodup
import Ashbi.Review.Steps

/-! What a thread finds unchanged after it waited, and what is final. -/

namespace Ashbi.Review

open Interleaving

variable {db s t u : Db} {i j id : ℕ} {session old : Session} {β : Type} {st : Stmt β} {ch : Choice}

/-- What the others leave alone while thread `i` waits. They write no session that it has locked,
and record no decision of it. -/
structure Db.Rely (i : ℕ) (s t : Db) : Prop where
  mine : t.sessions.mine i = s.sessions.mine i
  posted : t.postedBy i = s.postedBy i
  recorded : t.recordedBy i = s.recordedBy i
  kept : ∀ id old, s.sessions.rows id = some old →
    ∃ session, t.sessions.rows id = some session ∧ old.Kept session
  locked : ∀ id session, s.sessions.mine i id = some session →
    t.sessions.rows id = s.sessions.rows id ∧ t.committedOf id = s.committedOf id
  annotations : ∀ comment ∈ s.annotations, ∃ row ∈ t.annotations,
    row.id = comment.id ∧ row.sessionId = comment.sessionId

theorem Db.Rely.refl (i : ℕ) (s : Db) : s.Rely i s :=
  ⟨rfl, rfl, rfl, fun _ old h => ⟨old, h, .refl old⟩, fun _ _ _ => ⟨rfl, rfl⟩,
    fun comment h => ⟨comment, h, rfl, rfl⟩⟩

theorem Db.Rely.trans (h : s.Rely i t) (h' : t.Rely i u) : s.Rely i u where
  mine := h'.mine.trans h.mine
  posted := h'.posted.trans h.posted
  recorded := h'.recorded.trans h.recorded
  kept id old hrow := by
    obtain ⟨session, hrow', hkept⟩ := h.kept id old hrow
    obtain ⟨session', hrow'', hkept'⟩ := h'.kept id session hrow'
    exact ⟨session', hrow'', hkept.trans hkept'⟩
  locked id session hmine := by
    obtain ⟨hrow, hdecisions⟩ := h.locked id session hmine
    obtain ⟨hrow', hdecisions'⟩ := h'.locked id session ((congrFun h.mine id).trans hmine)
    exact ⟨hrow'.trans hrow, hdecisions'.trans hdecisions⟩
  annotations comment hin := by
    obtain ⟨row, hrow, hid, hsession⟩ := h.annotations comment hin
    obtain ⟨row', hrow', hid', hsession'⟩ := h'.annotations row hrow
    exact ⟨row', hrow', hid'.trans hid, hsession'.trans hsession⟩

/-- Another thread may write a row that it has locked and that is its own. -/
theorem write_rely {sessionCount : ℕ} (hlock : db.sessions.locked i id = false) (hj : j ≠ i) :
    db.Rely j { db with
      sessions := db.sessions.write i id session
      sessionCount := sessionCount } where
  mine := Versions.mine_write_other hlock hj
  posted := rfl
  recorded := rfl
  kept _ old h := ⟨old, h, .refl old⟩
  locked _ _ _ := ⟨rfl, rfl⟩
  annotations comment h := ⟨comment, h, rfl, rfl⟩

theorem of_shareLinks_rely (shareLinks : List ShareLink) :
    db.Rely j { db with shareLinks := shareLinks } :=
  ⟨rfl, rfl, rfl, fun _ old h => ⟨old, h, .refl old⟩, fun _ _ _ => ⟨rfl, rfl⟩,
    fun comment h => ⟨comment, h, rfl, rfl⟩⟩

theorem filter_concat_other {α : Type} {rows : List (ℕ × α)} {a : α} (hj : j ≠ i) :
    ((rows ++ [(i, a)]).filter (·.1 = j)).map (·.2) = (rows.filter (·.1 = j)).map (·.2) := by
  simp [hj.symm]

theorem filter_filter_other {α : Type} {rows : List (ℕ × α)} (hj : j ≠ i) :
    ((rows.filter (·.1 ≠ i)).filter (·.1 = j)).map (·.2) = (rows.filter (·.1 = j)).map (·.2) := by
  rw [List.filter_filter]
  congr 2
  funext row
  by_cases hrow : row.1 = j
  · simp [hrow, hj]
  · simp [hrow]

theorem rollback_rely (hj : j ≠ i) : db.Rely j (db.rollback i) where
  mine := Versions.mine_rollback_other hj
  posted := filter_filter_other hj
  recorded := filter_filter_other hj
  kept _ old h := ⟨old, h, .refl old⟩
  locked _ _ _ := ⟨rfl, rfl⟩
  annotations comment h := ⟨comment, h, rfl, rfl⟩

/-- A transaction records decisions of the sessions that it has locked. -/
theorem Db.Complete.committedOf (h : db.Complete i none) (hnone : db.sessions.mine i id = none) :
    (db.commit i).committedOf id = db.committedOf id := by
  have hother : (db.recordedBy i).filter (·.sessionId = id) = [] := by
    refine List.filter_eq_nil_iff.mpr fun d hd heq => ?_
    obtain ⟨held, hheld, -⟩ := h.recorded d hd
    rw [of_decide_eq_true heq, hnone] at hheld
    cases hheld
  rw [committedOf_commit, hother, List.append_nil]

theorem commit_rely (h : db.Inv) (hcomplete : db.Complete i none) (hj : j ≠ i) :
    db.Rely j (db.commit i) where
  mine := Versions.mine_rollback_other hj
  posted := filter_filter_other hj
  recorded := filter_filter_other hj
  kept _ _ hrow := h.commit_rows hrow
  locked id session hmine := by
    have hnone : db.sessions.mine i id = none := Versions.mine_eq_none_of_ne hmine hj
    refine ⟨?_, hcomplete.committedOf hnone⟩
    change db.sessions.read i id = db.sessions.rows id
    rw [Versions.read, hnone, Option.none_or]
  annotations comment hin := ⟨comment, List.mem_append_left _ hin, rfl, rfl⟩

/-- Nothing waits to be committed in the thread. -/
structure Db.Idle (db : Db) (i : ℕ) : Prop where
  mine : ∀ id, db.sessions.mine i id = none
  posted : db.postedBy i = []
  recorded : db.recordedBy i = []

theorem Db.Idle.rely (h : s.Idle i) (hr : s.Rely i t) : t.Idle i :=
  ⟨fun id => (congrFun hr.mine id).trans (h.mine id), hr.posted.trans h.posted,
    hr.recorded.trans h.recorded⟩

/-- What a thread has to know before it runs a statement. -/
def Ready {γ : Type} (i : ℕ) (st : Stmt γ) (db : Db) : Prop :=
  match st with
  | .findSession _ => db.Idle i
  | .createSession _ (some previous) _ =>
    ∃ row, db.sessions.rows previous.id = some row ∧ row.version = previous.version
  | .closeSession id => (∃ row, db.sessions.rows id = some row) ∧ db.recordedBy i = []
  | .lockOpenSession id => (∃ row, db.sessions.rows id = some row) ∧ db.recordedBy i = []
  | .applyDecisionStatus id _ => ∃ row, db.sessions.rows id = some row
  | .createDecision session _ _ _ => ∃ row, db.sessions.rows session.id = some row
  | .resolve session comment _ => session.status ≠ .closed ∧
      ∃ row ∈ db.annotations, row.id = comment.id ∧ row.sessionId = session.id
  | .createShareLink session _ _ _ _ => session.status ≠ .closed
  | .commit => db.Complete i none
  | _ => True

/-- A session that is seen over a committed row keeps what never changes of it. -/
theorem Db.Inv.read_kept (h : db.Inv) (hrow : db.sessions.rows id = some old)
    (hread : db.sessions.read i id = some session) : old.Kept session := by
  rcases Versions.read_eq_some.mp hread with hmine | ⟨-, hrow'⟩
  · exact h.updates i id session old hmine hrow
  · obtain rfl := Option.some.inj (hrow.symm.trans hrow')
    exact .refl old

/-- An open session is written. -/
theorem updateOpen_inv (h : db.Inv) (hrow : ∃ row, db.sessions.rows id = some row)
    {write : Session → Session} (hwrite : ∀ session : Session, session.status ≠ .closed →
      session.Kept (write session)) : (updateOpen i id write db).2.Inv := by
  obtain ⟨old, hrow⟩ := hrow
  rcases updateOpen_cases i id write db with hrun | ⟨session, hread, hopen, hrun⟩
  · rw [hrun]
    exact h
  · rw [hrun]
    exact h.write hrow ((h.read_kept hrow hread).trans (hwrite session hopen))

theorem updateOpen_rely {write : Session → Session} (hlock : db.sessions.locked i id = false)
    (hj : j ≠ i) : db.Rely j (updateOpen i id write db).2 := by
  rcases updateOpen_cases i id write db with hrun | ⟨session, -, -, hrun⟩
  · rw [hrun]
    exact .refl j db
  · rw [hrun]
    exact write_rely hlock hj

theorem updateOpen_shareLinks (i id : ℕ) (write : Session → Session) (db : Db) :
    (updateOpen i id write db).2.shareLinks = db.shareLinks := by
  rcases updateOpen_cases i id write db with hrun | ⟨session, -, -, hrun⟩
  · rw [hrun]
  · rw [hrun]

theorem Verdict.status_ne_closed (verdict : Verdict) : verdict.status ≠ .closed := by
  cases verdict <;> nofun

/-- No other session follows the one that a new version is made of. -/
theorem Db.Inv.createSession (h : db.Inv) {projectId createdById : String}
    {previous : Option Session}
    (he : enabled i (.createSession projectId previous createdById) db = true)
    (hready : Ready i (.createSession projectId previous createdById) db) :
    (createSession i projectId previous createdById db).2.Inv := by
  rcases createSession_cases i projectId previous createdById db with
    hrun | ⟨session, hid, hopen, hversion, hprevious, hfree, hrun⟩
  · rw [hrun]
    exact h
  rw [hrun]
  cases previous with
  | none =>
    refine h.create hid hopen ?_ fun p hp => ?_
    · rw [Db.Follows, hprevious]
      exact hversion
    · cases hprevious.symm.trans hp
  | some previous =>
    obtain ⟨row, hrow, hsame⟩ := hready
    refine h.create hid hopen ?_ fun p hp => ?_
    · rw [Db.Follows, hprevious]
      exact ⟨row, hrow, hversion.trans (by rw [hsame]; rfl)⟩
    obtain rfl : previous.id = p := Option.some.inj (hprevious.symm.trans hp)
    have hseen : ∀ id' other, db.sessions.read i id' = some other →
        other.previousSessionId ≠ some previous.id := fun id' other hread =>
      hfree previous rfl other (mem_sessionsOf h hread)
    refine ⟨fun id' other hother => ?_, fun j id' other hother hnone => ?_⟩
    · cases hmine : db.sessions.mine i id' with
      | none => exact hseen id' other (Versions.read_eq_some.mpr (.inr ⟨hmine, hother⟩))
      | some seen =>
        rw [← (h.updates i id' seen other hmine hother).previousSessionId]
        exact hseen id' seen (Versions.read_eq_some.mpr (.inl hmine))
    · by_cases hj : j = i
      · exact hseen id' other (Versions.read_eq_some.mpr (.inl (hj ▸ hother)))
      · intro hsame'
        have hlt : id' < db.sessionCount := by
          by_contra hle
          cases (Versions.mine_eq_none (h.fresh id' (Nat.le_of_not_lt hle)).2).symm.trans hother
        have hwritten := Versions.mine_eq_some.mp hother
        simp only [enabled, Bool.not_eq_true', List.any_eq_false, List.mem_range] at he
        exact he id' hlt (by simp [hnone, hwritten, hj, hsame'])

theorem run_inv (h : db.Inv) (he : enabled i st db = true) (hready : Ready i st db) :
    (run i st ch db).2.Inv := by
  cases st with
  | createSession projectId previous createdById => exact h.createSession he hready
  | closeSession id =>
    obtain ⟨⟨old, hrow⟩, -⟩ := hready
    rcases closeSession_cases i id db with hrun | ⟨session, hread, hrun⟩
    · rw [run, hrun]
      exact h
    · rw [run, hrun]
      have hkept := h.read_kept hrow hread
      exact h.write hrow ⟨hkept.id_eq, hkept.version, hkept.previousSessionId, fun _ => rfl⟩
  | lockOpenSession id => exact updateOpen_inv h hready.1 fun session _ => .refl session
  | applyDecisionStatus id decision =>
    exact updateOpen_inv h hready fun session hopen =>
      ⟨rfl, rfl, rfl, fun hclosed => absurd hclosed hopen⟩
  | annotationCreate session author parentId body => exact h.post rfl
  | createDecision session author decision note =>
    rcases createDecision_cases i session author decision note db with
      hrun | ⟨row, hsession, -, hauthor, -, hfree, hrun⟩
    · rw [run, hrun]
      exact h
    · rw [run, hrun]
      refine h.record (hsession.symm ▸ hready) fun linkId hlink row hrow hsame => ?_
      rw [hauthor] at hlink
      rcases List.mem_append.mp hrow with hrow | hrow
      · exact hfree linkId hlink row (List.mem_append_left _ hrow) hsame
      · obtain ⟨⟨j, row⟩, hin, rfl⟩ := List.mem_map.mp hrow
        by_cases hj : j = i
        · refine hfree linkId hlink row (List.mem_append_right _ ?_) hsame
          exact List.mem_map.mpr ⟨(j, row), List.mem_filter.mpr ⟨hin, decide_eq_true hj⟩, rfl⟩
        · simp only [enabled, Bool.not_eq_true', List.any_eq_false] at he
          exact he (j, row) hin (by simp_all)
  | resolve session comment resolution =>
    unfold run resolve
    dsimp only
    split
    · exact h
    · refine h.rewrite fun row => ?_
      split <;> rfl
  | updateClientAccess session sharedWithClient clientCanDecide =>
    unfold run updateClientAccess
    dsimp only
    split
    · exact h
    · rename_i row hrow
      split
      · exact h
      · exact h.replace hrow ⟨rfl, rfl, rfl, fun h => h⟩ rfl
  | createShareLink session tokenHash expiresAt allowDecision createdById =>
    unfold run createShareLink
    dsimp only
    split
    · exact h
    · exact h.of_shareLinks _
  | useShareLink link now => exact h.of_shareLinks _
  | revokeShareLink link now userId =>
    unfold run revokeShareLink
    dsimp only
    split
    · exact h
    · exact h.of_shareLinks _
  | commit => exact h.commit hready
  | rollback => exact h.rollback
  | _ => exact h

theorem lost_inv (h : db.Inv) : (lost i st ch db).2.Inv := by
  cases st with
  | commit => exact h.rollback
  | rollback => exact h.rollback
  | _ => exact h

theorem closeSession_rely (hlock : db.sessions.locked i id = false) (hj : j ≠ i) :
    db.Rely j (closeSession i id db).2 := by
  rcases closeSession_cases i id db with hrun | ⟨session, -, hrun⟩
  · rw [hrun]
    exact .refl j db
  · rw [hrun]
    exact write_rely hlock hj

theorem createSession_rely (h : db.Inv) (hj : j ≠ i) {projectId createdById : String}
    {previous : Option Session} :
    db.Rely j (createSession i projectId previous createdById db).2 := by
  rcases createSession_cases i projectId previous createdById db with
    hrun | ⟨session, -, -, -, -, -, hrun⟩
  · rw [hrun]
    exact .refl j db
  · rw [hrun]
    have hlock : db.sessions.locked i db.sessionCount = false := by
      simp [Versions.locked, (h.fresh db.sessionCount (Nat.le_refl _)).2]
    exact write_rely hlock hj

/-- The client's access is changed in a row that nobody has locked. -/
theorem updateClientAccess_rely {sharedWithClient clientCanDecide : Bool}
    (hfree : db.sessions.written session.id = none) :
    db.Rely j (updateClientAccess session sharedWithClient clientCanDecide db).2 := by
  unfold updateClientAccess
  split
  · exact .refl j db
  rename_i row hrow
  split
  · exact .refl j db
  refine ⟨rfl, rfl, rfl, fun id old hold => ?_, fun id s hs => ⟨?_, rfl⟩,
    fun comment hin => ⟨comment, hin, rfl, rfl⟩⟩
  · by_cases hid : id = session.id
    · subst hid
      obtain rfl := Option.some.inj (hrow.symm.trans hold)
      exact ⟨_, Function.update_self .., rfl, rfl, rfl, fun h => h⟩
    · exact ⟨old, (Function.update_of_ne hid ..).trans hold, .refl old⟩
  · refine Function.update_of_ne ?_ ..
    rintro rfl
    cases (Versions.mine_eq_none hfree).symm.trans hs

theorem run_rely (h : db.Inv) (he : enabled i st db = true) (hready : Ready i st db) (hj : j ≠ i) :
    db.Rely j (run i st ch db).2 := by
  cases st with
  | createSession projectId previous createdById => exact createSession_rely h hj
  | closeSession id => exact closeSession_rely (by simpa [enabled] using he) hj
  | lockOpenSession id => exact updateOpen_rely (by simpa [enabled] using he) hj
  | applyDecisionStatus id decision => exact updateOpen_rely (by simpa [enabled] using he) hj
  | annotationCreate session author parentId body =>
    exact ⟨rfl, filter_concat_other hj, rfl, fun _ old h => ⟨old, h, .refl old⟩,
      fun _ _ _ => ⟨rfl, rfl⟩, fun comment h => ⟨comment, h, rfl, rfl⟩⟩
  | createDecision session author decision note =>
    rcases createDecision_cases i session author decision note db with
      hrun | ⟨row, -, -, -, -, -, hrun⟩
    · rw [run, hrun]
      exact .refl j db
    · rw [run, hrun]
      exact ⟨rfl, rfl, filter_concat_other hj, fun _ old h => ⟨old, h, .refl old⟩,
        fun _ _ _ => ⟨rfl, rfl⟩, fun comment h => ⟨comment, h, rfl, rfl⟩⟩
  | resolve session comment resolution =>
    unfold run resolve
    dsimp only
    split
    · exact .refl j db
    · refine ⟨rfl, rfl, rfl, fun _ old h => ⟨old, h, .refl old⟩, fun _ _ _ => ⟨rfl, rfl⟩,
        fun a ha => ⟨_, List.mem_map_of_mem ha, ?_⟩⟩
      split <;> exact ⟨rfl, rfl⟩
  | updateClientAccess session sharedWithClient clientCanDecide =>
    exact updateClientAccess_rely (by simpa [enabled] using he)
  | createShareLink session tokenHash expiresAt allowDecision createdById =>
    unfold run createShareLink
    dsimp only
    split
    · exact .refl j db
    · exact of_shareLinks_rely _
  | useShareLink link now => exact of_shareLinks_rely _
  | revokeShareLink link now userId =>
    unfold run revokeShareLink
    dsimp only
    split
    · exact .refl j db
    · exact of_shareLinks_rely _
  | commit => exact commit_rely h hready hj
  | rollback => exact rollback_rely hj
  | _ => exact .refl j db

theorem lost_rely (hj : j ≠ i) : db.Rely j (lost i st ch db).2 := by
  cases st with
  | commit => exact rollback_rely hj
  | rollback => exact rollback_rely hj
  | _ => exact .refl j db

/-! ### What is final -/

/-- A closed session stays closed, with its annotations, decisions and share links. -/
def Db.Final (s t : Db) : Prop := ∀ id, s.isClosed id = true →
  t.isClosed id = true ∧ t.annotationsOf id = s.annotationsOf id ∧
    t.decisionsOf id = s.decisionsOf id ∧ t.shareLinksOf id = s.shareLinksOf id

theorem Db.Final.refl (s : Db) : s.Final s := fun _ h => ⟨h, rfl, rfl, rfl⟩

theorem Db.Final.trans (h : s.Final t) (h' : t.Final u) : s.Final u := by
  intro id hclosed
  obtain ⟨ht, hannotations, hdecisions, hlinks⟩ := h id hclosed
  obtain ⟨hu, hannotations', hdecisions', hlinks'⟩ := h' id ht
  exact ⟨hu, hannotations'.trans hannotations, hdecisions'.trans hdecisions, hlinks'.trans hlinks⟩

/-- The stored session of a request that resolves, reopens or shares is closed just if it was
closed when the request read it; that of a decision has none committed that was inserted later. -/
def isCurrent {γ : Type} (i : ℕ) (st : Stmt γ) (db : Db) : Bool :=
  match st with
  | .applyDecisionStatus id _ => (db.recordedBy i).all fun own =>
    (db.committedOf id).all (·.createdAt ≤ own.createdAt)
  | .resolve session _ _ => db.isClosed session.id = !canWriteToSession session
  | .createShareLink session _ _ _ _ => db.isClosed session.id = !canWriteToSession session
  | _ => true

theorem isClosed_iff : db.isClosed id = true ↔
    ∃ session, db.sessions.rows id = some session ∧ session.status = .closed := by
  simp [Db.isClosed, Option.any_eq_true]

/-- What changes neither sessions, annotations, decisions nor share links changes nothing final. -/
theorem final_of_rows (hrows : t.sessions.rows = s.sessions.rows)
    (hannotations : t.annotations = s.annotations) (hdecisions : t.decisions = s.decisions)
    (hlinks : ∀ id, t.shareLinksOf id = s.shareLinksOf id) : s.Final t := by
  intro id hclosed
  refine ⟨?_, ?_, ?_, hlinks id⟩
  · rw [Db.isClosed, hrows]
    exact hclosed
  · rw [Db.annotationsOf, hannotations, Db.annotationsOf]
  · rw [Db.decisionsOf, Db.committedOf, hdecisions, Db.decisionsOf, Db.committedOf]

theorem commit_final (h : db.Inv) (hcomplete : db.Complete i none) : db.Final (db.commit i) := by
  intro id hclosed
  obtain ⟨session, hrow, hstatus⟩ := isClosed_iff.mp hclosed
  have hmine : ∀ held, db.sessions.mine i id = some held → held.status = .closed :=
    fun held hheld => (h.updates i id held session hheld hrow).closed hstatus
  refine ⟨?_, ?_, ?_, rfl⟩
  · obtain ⟨session', hrow', hkept⟩ := h.commit_rows (i := i) hrow
    exact isClosed_iff.mpr ⟨session', hrow', hkept.closed hstatus⟩
  · have hposted : (db.postedBy i).filter (·.sessionId = id) = [] := by
      refine List.filter_eq_nil_iff.mpr fun a ha heq => ?_
      obtain ⟨held, hheld, hopen⟩ := hcomplete.posted a ha
      exact hopen (hmine held (of_decide_eq_true heq ▸ hheld))
    simp [Db.annotationsOf, Db.commit, hposted]
  · have hrecorded : (db.recordedBy i).filter (·.sessionId = id) = [] := by
      refine List.filter_eq_nil_iff.mpr fun d hd heq => ?_
      obtain ⟨held, hheld, hopen⟩ := hcomplete.recorded d hd
      exact hopen (hmine held (of_decide_eq_true heq ▸ hheld))
    rw [Db.decisionsOf, committedOf_commit, hrecorded, List.append_nil, Db.decisionsOf]

/-- An annotation of a session that is not closed is resolved or reopened. -/
theorem resolve_final (h : db.Inv) {comment : Annotation} {resolution : Option (Time × String)}
    (hcomment : ∃ row ∈ db.annotations, row.id = comment.id ∧ row.sessionId = session.id)
    (hopen : db.isClosed session.id = false) :
    db.Final (resolve comment resolution db).2 := by
  unfold resolve
  split
  · exact .refl db
  intro id hclosed
  refine ⟨hclosed, ?_, rfl, rfl⟩
  have hne : id ≠ session.id := by
    rintro rfl
    cases hopen.symm.trans hclosed
  obtain ⟨own, hown, hid, hsession⟩ := hcomment
  have hnodup : (db.annotations.map (·.id)).Nodup := by
    have hall := h.annotations
    rw [List.map_append] at hall
    exact hall.of_append_left
  have hsame : ∀ row ∈ db.annotations, row.id = comment.id → row.sessionId = session.id := by
    intro row hrow hsame
    have heq : row = own := List.inj_on_of_nodup_map hnodup hrow hown (hsame.trans hid.symm)
    exact heq ▸ hsession
  unfold Db.annotationsOf
  dsimp only
  rw [List.filter_map]
  have hfilter : db.annotations.filter ((fun row : Annotation => decide (row.sessionId = id)) ∘
      fun row => if row.id = comment.id then row.resolved resolution else row) =
      db.annotations.filter (·.sessionId = id) := by
    congr 1
    funext row
    dsimp only [Function.comp_apply]
    split <;> rfl
  rw [hfilter]
  refine (List.map_congr_left fun row hrow => ?_).trans (List.map_id _)
  obtain ⟨hin, hof⟩ := List.mem_filter.mp hrow
  rw [if_neg fun hsame' => hne ((of_decide_eq_true hof).symm.trans (hsame row hin hsame'))]
  rfl

theorem createShareLink_final {tokenHash createdById : String} {expiresAt : Time}
    {allowDecision : Bool} (hopen : db.isClosed session.id = false) :
    db.Final (createShareLink session tokenHash expiresAt allowDecision createdById db).2 := by
  unfold createShareLink
  split
  · exact .refl db
  intro id hclosed
  refine ⟨hclosed, rfl, rfl, ?_⟩
  have hne : session.id ≠ id := by
    rintro rfl
    cases hopen.symm.trans hclosed
  simp [Db.shareLinksOf, hne]

theorem updateShareLink_final (linkId : ℕ) {write : ShareLink → ShareLink}
    (hid : ∀ link, (write link).id = link.id)
    (hsession : ∀ link, (write link).sessionId = link.sessionId) :
    db.Final (db.updateShareLink linkId write) := by
  refine final_of_rows rfl rfl rfl fun id => ?_
  unfold Db.shareLinksOf Db.updateShareLink
  dsimp only
  rw [List.filter_map, List.map_map]
  have hfilter : db.shareLinks.filter ((fun row : ShareLink => decide (row.sessionId = id)) ∘
      fun row => if row.id = linkId then write row else row) =
      db.shareLinks.filter (·.sessionId = id) := by
    congr 1
    funext row
    dsimp only [Function.comp_apply]
    split
    · rw [hsession]
    · rfl
  rw [hfilter]
  refine List.map_congr_left fun row _ => ?_
  dsimp only [Function.comp_apply]
  split
  · exact hid row
  · rfl

theorem updateClientAccess_final {sharedWithClient clientCanDecide : Bool} :
    db.Final (updateClientAccess session sharedWithClient clientCanDecide db).2 := by
  unfold updateClientAccess
  split
  · exact .refl db
  rename_i row hrow
  split
  · exact .refl db
  intro id hclosed
  refine ⟨?_, rfl, rfl, rfl⟩
  obtain ⟨held, hheld, hstatus⟩ := isClosed_iff.mp hclosed
  by_cases hid : id = session.id
  · subst hid
    obtain rfl := Option.some.inj (hrow.symm.trans hheld)
    exact isClosed_iff.mpr ⟨_, Function.update_self .., hstatus⟩
  · exact isClosed_iff.mpr ⟨held, (Function.update_of_ne hid ..).trans hheld, hstatus⟩

theorem updateOpen_final {write : Session → Session} : db.Final (updateOpen i id write db).2 := by
  rcases updateOpen_cases i id write db with hrun | ⟨session, -, -, hrun⟩
  · rw [hrun]
    exact .refl db
  · rw [hrun]
    exact final_of_rows rfl rfl rfl fun _ => rfl

theorem run_final (h : db.Inv) (hready : Ready i st db) (hcurrent : isCurrent i st db = true) :
    db.Final (run i st ch db).2 := by
  cases st with
  | createSession projectId previous createdById =>
    rcases createSession_cases i projectId previous createdById db with
      hrun | ⟨session, -, -, -, -, -, hrun⟩
    · rw [run, hrun]
      exact .refl db
    · rw [run, hrun]
      exact final_of_rows rfl rfl rfl fun _ => rfl
  | closeSession id =>
    rcases closeSession_cases i id db with hrun | ⟨session, -, hrun⟩
    · rw [run, hrun]
      exact .refl db
    · rw [run, hrun]
      exact final_of_rows rfl rfl rfl fun _ => rfl
  | lockOpenSession id => exact updateOpen_final
  | applyDecisionStatus id decision => exact updateOpen_final
  | annotationCreate session author parentId body => exact final_of_rows rfl rfl rfl fun _ => rfl
  | createDecision session author decision note =>
    rcases createDecision_cases i session author decision note db with
      hrun | ⟨row, -, -, -, -, -, hrun⟩
    · rw [run, hrun]
      exact .refl db
    · rw [run, hrun]
      exact final_of_rows rfl rfl rfl fun _ => rfl
  | resolve session comment resolution =>
    refine resolve_final h hready.2 ((of_decide_eq_true hcurrent).trans ?_)
    simp [canWriteToSession, hready.1]
  | updateClientAccess session sharedWithClient clientCanDecide => exact updateClientAccess_final
  | createShareLink session tokenHash expiresAt allowDecision createdById =>
    refine createShareLink_final ((of_decide_eq_true hcurrent).trans ?_)
    have hopen : session.status ≠ .closed := hready
    simp [canWriteToSession, hopen]
  | useShareLink link now =>
    refine updateShareLink_final link.id (fun row => ?_) fun row => ?_
    · split <;> rfl
    · split <;> rfl
  | revokeShareLink link now userId =>
    unfold run revokeShareLink
    dsimp only
    split
    · exact .refl db
    · exact updateShareLink_final link.id (fun _ => rfl) fun _ => rfl
  | commit => exact commit_final h hready
  | rollback => exact final_of_rows rfl rfl rfl fun _ => rfl
  | _ => exact .refl db

theorem lost_final : db.Final (lost i st ch db).2 := by
  cases st with
  | commit => exact final_of_rows rfl rfl rfl fun _ => rfl
  | rollback => exact final_of_rows rfl rfl rfl fun _ => rfl
  | _ => exact .refl db

/-! ### The contract -/

/-- A thread that runs a statement is ready for it, and leaves what is final where the statement is
current. -/
def contract : Contract machine where
  inv := Db.Inv
  rely := Db.Rely
  assumed _ := True
  guar o := Ready o.thread o.stmt o.pre ∧
    (isCurrent o.thread o.stmt o.pre = true → o.pre.Final o.post)
  fresh i s := s.Idle i
  refl := Db.Rely.refl
  trans _ _ _ _ := Db.Rely.trans
  fresh_rely _ _ _ hr h := h.rely hr

theorem keeps (h : db.Inv) (he : enabled i st db = true) (hready : Ready i st db) :
    contract.Keeps ⟨i, st, ch, db⟩ := by
  refine ⟨⟨hready, fun hcurrent => ?_⟩, ?_, fun j hj => ?_⟩
  · change db.Final (exec i st ch db).2
    unfold exec
    split
    · exact lost_final
    · exact run_final h hready hcurrent
  · change (exec i st ch db).2.Inv
    unfold exec
    split
    · exact lost_inv h
    · exact run_inv h he hready
  · change db.Rely j (exec i st ch db).2
    unfold exec
    split
    · exact lost_rely hj
    · exact run_rely h he hready hj

end Ashbi.Review
