import Ashbi.Timers.Knowledge

/-! Every request keeps the invariant of the timers. -/

namespace Ashbi.Timers

open Interleaving

variable {db : Db} {i j id : ℕ} {session : Session}

/-- A session that stops leaves no entry, or the one that its end expects. -/
theorem expected_stop {s : Session} (hcore : s.core = session.core) (endTime : Time) :
    (s.stop endTime (sessionDuration (endTime - session.startTime))).expected =
      if 60000 ≤ endTime - session.startTime then
        [session.timeEntry (sessionDuration (endTime - session.startTime))]
      else [] := by
  have hstart : s.startTime = session.startTime := by
    have htimer : s.core.startTime = session.core.startTime := by rw [hcore]
    exact htimer
  have hentry : ∀ duration, (s.stop endTime duration).timeEntry = session.timeEntry := by
    intro duration
    funext minutes
    have htimer : s.core.timeEntry minutes = session.core.timeEntry minutes := by rw [hcore]
    exact htimer
  unfold Session.expected
  change (if 60000 ≤ endTime - s.startTime then _ else _) = _
  rw [hstart, hentry]
  split
  · rename_i h
    rw [sessionDuration_eq h]
    rw [show (s.stop endTime (roundMinutes (endTime - session.startTime))).startTime =
      session.startTime from hstart]
  · rfl

/-- A stopped session that expects nothing has nothing left to record. -/
theorem Db.Ready.stop {s : Session} {endTime : Time} {duration : ℤ} (h : db.Ready i)
    (hread : db.sessions.read i id = some s) (hfits : s.Fits id) (hrun : s.isRunning = true)
    {entries : List TimeEntry} (hentries : (s.stop endTime duration).expected = entries)
    {recorded : List (ℕ × TimeEntry)}
    (hrecorded : (recorded.filter (·.1 = i)).map (·.2) = db.recordedBy i ++ entries)
    (hlinks : ∀ entry ∈ entries, entry.timeSessionId = some id) :
    Db.Ready { db with
      sessions := db.sessions.write i id (s.stop endTime duration)
      recorded := recorded } i := by
  refine ⟨fun id' => ?_, fun id' r hr => ?_⟩
  rotate_left
  · have hr : (db.sessions.write i id (s.stop endTime duration)).mine i id' = some r := hr
    rw [Versions.mine_write] at hr
    by_cases hid : id' = id
    · subst hid
      rw [Function.update_self] at hr
      obtain rfl := Option.some.inj hr
      rfl
    · rw [Function.update_of_ne hid] at hr
      exact h.stopped id' r hr
  have hby : Db.recordedBy { db with
      sessions := db.sessions.write i id (s.stop endTime duration)
      recorded := recorded } i = db.recordedBy i ++ entries := hrecorded
  rw [hby, List.filter_append, h.complete id', Versions.mine_write]
  by_cases hid : id' = id
  · subst hid
    have hnone : ((db.sessions.mine i id').map Session.expected).getD [] = [] := by
      cases hmine : db.sessions.mine i id' with
      | none => rfl
      | some r =>
        rw [Versions.read, hmine, Option.some_or] at hread
        obtain rfl := Option.some.inj hread
        exact hfits.expected hrun
    have hall : entries.filter (·.timeSessionId = some id') = entries :=
      List.filter_eq_self.mpr fun entry hin => decide_eq_true (hlinks entry hin)
    rw [hnone, hall, Function.update_self, Option.map_some, Option.getD_some, hentries]
    rfl
  · have hother : entries.filter (·.timeSessionId = some id') = [] := by
      refine List.filter_eq_nil_iff.mpr fun entry hin => ?_
      simp [hlinks entry hin, Ne.symm hid]
    rw [hother, Function.update_of_ne hid, List.append_nil]

theorem createEntry_ok {entry entry' : TimeEntry} (h : (createEntry i entry db).1 = .ok entry') :
    (createEntry i entry db).2 = { db with recorded := db.recorded ++ [(i, entry)] } := by
  unfold createEntry at h ⊢
  split at h
  · cases h
  rename_i hkey
  rw [if_neg hkey]
  split at h
  · cases h
  rename_i hunique
  rw [if_neg hunique]

theorem recordedBy_append (db : Db) (entry : TimeEntry) :
    ((db.recorded ++ [(i, entry)]).filter (·.1 = i)).map (·.2) = db.recordedBy i ++ [entry] := by
  simp [Db.recordedBy]

theorem closeSession_safe {endTime : Time} {s : Db} (hs : s.Ready i) (hk : s.Knows session) :
    (closeSession session endTime).Safe contract i (fun _ t => t.Ready i) s := by
  refine Throws.safe_stmt_bind fun t ch hr hi he _ => ?_
  have hready : t.Ready i := hs.of_own hr.1
  obtain ⟨now, interrupted⟩ := ch
  cases interrupted with
  | true => exact ⟨keeps hi he (interrupted_inv hi) rfl, fun _ h => by cases h⟩
  | false =>
  have hlock : t.sessions.locked i session.id = false := by simpa [enabled] using he
  refine ⟨keeps hi he (Db.Inv.close hi hlock) rfl, fun count hcount => ?_⟩
  rcases close_cases i session.id endTime (sessionDuration (endTime - session.startTime)) t with
    hclose | hclose | ⟨r, hread, hrun, hclose⟩
  · have hexec : machine.exec i (.close session.id endTime
        (sessionDuration (endTime - session.startTime))) ⟨now, false⟩ t = _ := hclose
    rw [hexec] at hcount ⊢
    obtain rfl := Except.ok.inj hcount
    exact Throws.safe_pure hready
  · have hexec : machine.exec i (.close session.id endTime
        (sessionDuration (endTime - session.startTime))) ⟨now, false⟩ t = _ := hclose
    rw [hexec] at hcount
    cases hcount
  have hexec : machine.exec i (.close session.id endTime
    (sessionDuration (endTime - session.startTime))) ⟨now, false⟩ t = _ := hclose
  rw [hexec] at hcount ⊢
  obtain rfl := Except.ok.inj hcount
  have hcore := (hr.2 session hk).core r (version_of_read hread)
  have hfits := (Db.Inv.version_fits hi (version_of_read hread)).1
  have hexpected := expected_stop hcore endTime
  rw [if_neg (by simp)]
  by_cases hlong : 60000 ≤ endTime - session.startTime
  · rw [if_pos hlong] at hexpected ⊢
    refine Throws.safe_stmt_bind fun u ch hr' hi' he' _ => ?_
    obtain ⟨now', interrupted⟩ := ch
    cases interrupted with
    | true => exact ⟨keeps hi' he' (interrupted_inv hi') rfl, fun _ h => by cases h⟩
    | false =>
      refine ⟨keeps hi' he' (Db.Inv.createEntry hi') rfl, fun entry hentry => ?_⟩
      have hpost := createEntry_ok hentry
      have hexec : (machine.exec i (.createEntry (session.timeEntry
          (sessionDuration (endTime - session.startTime)))) ⟨now', false⟩ u).2 = _ := hpost
      rw [hexec]
      refine Throws.safe_pure (Db.Ready.of_own (hready.stop hread hfits hrun hexpected
        (recordedBy_append t _) ?_) ?_)
      · intro e he
        obtain rfl := List.mem_singleton.mp he
        rfl
      · have hmine : (t.sessions.write i session.id _).mine i = u.sessions.mine i :=
          congrArg Prod.fst hr'.1
        have hsame : t.recordedBy i = u.recordedBy i := congrArg Prod.snd hr'.1
        refine Prod.ext hmine ?_
        change ((t.recorded ++ _).filter (·.1 = i)).map (·.2) =
          ((u.recorded ++ _).filter (·.1 = i)).map (·.2)
        rw [recordedBy_append, recordedBy_append, hsame]
  · rw [if_neg hlong] at hexpected ⊢
    refine Throws.safe_pure (hready.stop hread hfits hrun hexpected ?_ (by simp))
    exact (List.append_nil _).symm

/-- What a request does in its transaction leaves its thread complete. -/
theorem now_safe {α : Type} {f : Time → Throws Stmt Failure α} {Q : α → Db → Prop}
    {F : Db → Prop} {s : Db} (hs : F s) (stable : ∀ u v, contract.rely i u v → F u → F v)
    (h : ∀ now t, F t → (f now).Safe contract i Q t) :
    (Throws.read .now >>= f).Safe contract i Q s :=
  Throws.safe_read_bind fun t ch hr hi he _ => ⟨keeps hi he hi rfl, h ch.now t (stable s t hr hs)⟩

/-- A thread that knows the sessions that it has read. -/
def Reads (i : ℕ) (sessions : List Session) (db : Db) : Prop :=
  db.Ready i ∧ ∀ session ∈ sessions, db.Knows session

theorem Reads.stable {sessions : List Session} {u v : Db} (hr : contract.rely i u v)
    (h : Reads i sessions u) : Reads i sessions v :=
  ⟨h.1.of_own hr.1, fun session hin => hr.2 session (h.2 session hin)⟩

theorem find_running_safe {α : Type} {f : List Session → Throws Stmt Failure α} {Q : α → Db → Prop}
    {s : Db} (hs : s.Ready i)
    (h : ∀ sessions t, Reads i sessions t → (f sessions).Safe contract i Q t) :
    (Throws.stmt .findRunning >>= f).Safe contract i Q s := by
  refine Throws.safe_stmt_bind fun t ch hr hi he _ => ?_
  obtain ⟨now, interrupted⟩ := ch
  cases interrupted with
  | true => exact ⟨keeps hi he hi rfl, fun _ h => by cases h⟩
  | false =>
    refine ⟨keeps hi he hi rfl, fun sessions hsessions => ?_⟩
    obtain rfl := Except.ok.inj hsessions
    refine h _ t ⟨hs.of_own hr.1, fun session hin => ?_⟩
    obtain ⟨id, -, hread, -⟩ := mem_running.mp hin
    exact (Db.Inv.knows hi hread).2

theorem closeAll_safe {β : Type} (f : β → Option (ℤ × Option TimeEntry) → β) (endTime : Time)
    {sessions : List Session} (b : β) {s : Db} (hs : Reads i sessions s) :
    (sessions.foldlM (fun b session => do
      let closed ← closeSession session endTime
      pure (f b closed)) b : Throws Stmt Failure β).Safe contract i
        (fun _ t => t.Ready i) s := by
  refine Throws.Safe.mono (Throws.safe_foldlM (I := fun _ t => Reads i sessions t) ?_ hs)
    fun _ _ h => h.1
  intro b session t hin ht
  refine Throws.Safe.bind ((Throws.Safe.frame ?_ (closeSession_safe ht.1 (ht.2 session hin))
    ht.2).mono fun closed u hu => Throws.safe_pure hu)
  exact fun _ _ _ hr hk session hin => hr.2 session (hk session hin)

theorem createSession_ok {projectId : String} {taskId description : Option String}
    {startTime : Time} {s : Session}
    (h : (createSession i projectId taskId description startTime db).1 = .ok s) :
    s.endTime = none ∧ (createSession i projectId taskId description startTime db).2 = { db with
      sessions := db.sessions.write i db.issued s
      issued := db.issued + 1 } := by
  unfold createSession at h ⊢
  split at h
  · cases h
  rename_i hfree
  rw [if_neg hfree]
  obtain rfl := Except.ok.inj h
  exact ⟨rfl, rfl⟩

theorem startBody_safe {projectId : String} {taskId description : Option String} {s : Db}
    (hs : s.Ready i) : (startBody projectId taskId description).Safe contract i
      (fun _ t => t.Complete i) s := by
  refine find_running_safe hs fun sessions t ht => now_safe ht (fun _ _ => Reads.stable) ?_
  intro endTime t ht
  refine Throws.Safe.bind ((closeAll_safe (fun _ _ => ()) endTime () ht).mono fun _ t ht => ?_)
  refine now_safe (F := fun t => t.Ready i) ht (fun _ _ hr h => h.of_own hr.1)
    fun startTime t ht => ?_
  refine Throws.safe_stmt fun u ch hr hi he _ => ?_
  have hready : u.Ready i := ht.of_own hr.1
  obtain ⟨now, interrupted⟩ := ch
  cases interrupted with
  | true => exact ⟨keeps_new hi he hi hready.stopped, fun _ h => by cases h⟩
  | false =>
    have hfree : u.contended i = false := by simpa [enabled] using he
    refine ⟨keeps_new hi he (Db.Inv.createSession hi hfree) hready.stopped,
      fun session hsession => ?_⟩
    obtain ⟨hend, hpost⟩ := createSession_ok hsession
    have hexec : (machine.exec i (.createSession projectId taskId description startTime)
      ⟨now, false⟩ u).2 = _ := hpost
    rw [hexec]
    intro id
    have hid := hready.complete id
    change (u.recordedBy i).filter (·.timeSessionId = some id) =
      ((((u.sessions.write i u.issued session).mine i) id).map Session.expected).getD []
    rw [hid, Versions.mine_write]
    by_cases hnew : id = u.issued
    · subst hnew
      have hnone := mine_none (i := i) (Db.Inv.fresh hi u.issued (Nat.le_refl _)).2.1
      rw [hnone, Function.update_self, Option.map_some, Option.getD_some, Session.expected, hend]
      rfl
    · rw [Function.update_of_ne hnew]

theorem find_safe {α : Type} {f : Option Session → Throws Stmt Failure α} {Q : α → Db → Prop}
    {s : Db} (hs : s.Ready i) (hnone : ∀ t, t.Ready i → (f none).Safe contract i Q t)
    (hsome : ∀ session t, t.Ready i → t.Knows session → (f (some session)).Safe contract i Q t) :
    (Throws.stmt (.find id) >>= f).Safe contract i Q s := by
  refine Throws.safe_stmt_bind fun t ch hr hi he _ => ?_
  have hready : t.Ready i := hs.of_own hr.1
  obtain ⟨now, interrupted⟩ := ch
  cases interrupted with
  | true => exact ⟨keeps hi he hi rfl, fun _ h => by cases h⟩
  | false =>
    refine ⟨keeps hi he hi rfl, fun found hfound => ?_⟩
    have hread : t.sessions.read i id = found := Except.ok.inj hfound
    cases found with
    | none => exact hnone t hready
    | some session => exact hsome session t hready (Db.Inv.knows hi hread).2

theorem stopBody_safe {s : Db} (hs : s.Ready i) :
    (stopBody id).Safe contract i (fun _ t => t.Complete i) s := by
  refine find_safe hs (fun t _ => Throws.safe_throw) fun session t ht hk => ?_
  change Throws.Safe _ _ (if !session.isRunning then _ else _) _ _
  split
  · exact Throws.safe_throw
  have hreads : Reads i [session] t := ⟨ht, fun r hr => List.mem_singleton.mp hr ▸ hk⟩
  refine now_safe hreads (fun _ _ => Reads.stable) fun endTime t ht => ?_
  refine Throws.Safe.bind ((closeSession_safe ht.1 (ht.2 session List.mem_cons_self)).mono ?_)
  intro closed u hu
  cases closed with
  | none => exact Throws.safe_throw
  | some closed =>
    exact find_safe hu (fun t ht => Throws.safe_pure ht.complete)
      fun _ t ht _ => Throws.safe_pure ht.complete

theorem stopAllBody_safe {s : Db} (hs : s.Ready i) :
    stopAllBody.Safe contract i (fun _ t => t.Complete i) s := by
  refine find_running_safe hs fun sessions t ht => now_safe ht (fun _ _ => Reads.stable) ?_
  intro endTime t ht
  have hall := closeAll_safe (fun stopped closed => if closed.isSome then stopped + 1 else stopped)
    endTime 0 ht
  exact hall.mono fun _ _ h => h.complete

/-- A transaction whose body leaves its thread complete ends with nothing uncommitted. -/
theorem inTransaction_safe {α : Type} {body : Throws Stmt Failure α} {s : Db}
    (hbody : body.Safe contract i (fun _ t => t.Complete i) s) :
    (inTransaction body).run.Safe contract i (fun _ t => t.Idle i) s := by
  refine Throws.safe_transaction hbody (fun _ u hu t ch hr hi he _ => ?_)
    fun u t ch hr hi he _ => ?_
  · obtain ⟨now, interrupted⟩ := ch
    cases interrupted with
    | true => exact ⟨keeps hi he (Db.Inv.rollback hi) rfl, rollback_idle⟩
    | false => exact ⟨keeps hi he (Db.Inv.commit hi (hu.of_own hr.1)) rfl, commit_idle⟩
  · obtain ⟨now, interrupted⟩ := ch
    cases interrupted with
    | true => exact ⟨keeps hi he (Db.Inv.rollback hi) rfl, rollback_idle⟩
    | false => exact ⟨keeps hi he (Db.Inv.rollback hi) rfl, rollback_idle⟩

theorem deleteTimeEntry_safe {s : Db} (hs : s.Idle i) :
    (deleteTimeEntry id).run.Safe contract i (fun _ t => t.Idle i) s := by
  refine Throws.run_safe_stmt_bind fun t ch hr hi he _ => ?_
  have hidle : t.Idle i := hr.1.symm.trans hs
  obtain ⟨now, interrupted⟩ := ch
  cases interrupted with
  | true => exact ⟨keeps hi he hi rfl, (fun _ h => by cases h), fun _ _ => hidle⟩
  | false =>
    refine ⟨keeps hi he hi rfl, fun found _ => ?_, fun _ _ => hidle⟩
    cases found with
    | none => exact hidle
    | some session =>
      dsimp only
      split
      · exact hidle
      refine Throws.run_safe_stmt_bind fun u ch hr' hi' he' _ => ?_
      have hidle' : u.Idle i := hr'.1.symm.trans hidle
      obtain ⟨now', interrupted⟩ := ch
      cases interrupted with
      | true => exact ⟨keeps hi' he' hi' rfl, (fun _ h => by cases h), fun _ _ => hidle'⟩
      | false =>
        have hlock : u.sessions.written id = none := by simpa [enabled] using he'
        have hpost : Db.Idle (delete id u).2 i := delete_own.trans hidle'
        refine ⟨keeps hi' he' (Db.Inv.delete hi' hlock) rfl, fun count _ => ?_, fun _ _ => hpost⟩
        dsimp only
        split
        · exact hpost
        · exact hpost

theorem requested_safe {p : Prog Stmt Unit} (hp : Requested p) {s : Db} (hs : s.Idle i) :
    p.Safe contract i (fun _ t => t.Idle i) s := by
  obtain ⟨request, rfl⟩ := hp
  cases request with
  | start projectId taskId description =>
    refine Prog.Safe.bind (Prog.Safe.mono ?_ fun _ _ h => h)
    unfold startTimer
    rw [Throws.run_tryCatch]
    refine Prog.Safe.bind ((inTransaction_safe (startBody_safe hs.ready)).mono fun r t ht => ?_)
    cases r with
    | ok session => exact ht
    | error err =>
      dsimp only
      split
      · exact ht
      · exact ht
  | stop sessionId =>
    exact Prog.Safe.bind ((inTransaction_safe (stopBody_safe hs.ready)).mono fun _ _ h => h)
  | stopAll =>
    exact Prog.Safe.bind ((inTransaction_safe (stopAllBody_safe hs.ready)).mono fun _ _ h => h)
  | delete sessionId => exact Prog.Safe.bind ((deleteTimeEntry_safe hs).mono fun _ _ h => h)

end Ashbi.Timers
