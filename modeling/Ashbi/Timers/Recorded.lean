import Ashbi.Interleaving.Budget
import Ashbi.Timers.Safety

/-! Timed work is recorded exactly once. -/

namespace Ashbi.Timers

open Interleaving

variable {db : Db} {i j id : ℕ} {session : Session} {β : Type} {st : Stmt β} {ch : Choice}

/-! ### Starts that lose -/

/-- What hits only where a statement of a body throws. -/
structure OnlyThrows (hit : {β : Type} → Stmt β → β → Bool) : Prop where
  now : ∀ now, hit .now now = false
  findRunning : ∀ b, hit .findRunning b = true → ∃ e, b = .error e
  find : ∀ id b, hit (.find id) b = true → ∃ e, b = .error e
  close : ∀ id endTime duration b, hit (.close id endTime duration) b = true → ∃ e, b = .error e
  createEntry : ∀ entry b, hit (.createEntry entry) b = true → ∃ e, b = .error e
  createSession : ∀ projectId taskId description startTime b,
    hit (.createSession projectId taskId description startTime) b = true → ∃ e, b = .error e
  delete : ∀ id b, hit (.delete id) b = true → ∃ e, b = .error e

section After

variable {hit : {β : Type} → Stmt β → β → Bool} {bar : {β : Type} → Stmt β → Bool}

theorem OnlyThrows.closeSession (h : OnlyThrows hit) (endTime : Time) :
    (closeSession session endTime).After hit bar := by
  refine (Throws.after_stmt (h.close _ _ _)).bind fun count => ?_
  split
  · exact Throws.after_pure
  split
  · exact (Throws.after_stmt (h.createEntry _)).bind fun _ => Throws.after_pure
  · exact Throws.after_pure

theorem OnlyThrows.closeAll {β : Type} (h : OnlyThrows hit)
    (f : β → Option (ℤ × Option TimeEntry) → β) (endTime : Time) (sessions : List Session) (b : β) :
    (sessions.foldlM (fun b session => do
      let closed ← Timers.closeSession session endTime
      pure (f b closed)) b : Throws Stmt Failure β).After hit bar :=
  Throws.after_foldlM (fun _ _ => (h.closeSession endTime).bind fun _ => Throws.after_pure)
    sessions b

theorem OnlyThrows.requested (h : OnlyThrows hit) (hbar : bar Stmt.rollback = false)
    {p : Prog Stmt Unit} (hp : Requested p) : p.After hit bar fun _ => True := by
  have hnow : (Throws.read .now : Throws Stmt Failure Time).After hit bar := Throws.after_read h.now
  obtain ⟨request, rfl⟩ := hp
  cases request with
  | start projectId taskId description =>
    refine Prog.After.bind (Q := fun _ => True) ?_ (fun _ => trivial) fun _ _ => trivial
    unfold startTimer
    rw [Throws.run_tryCatch]
    refine Prog.After.bind (Q := fun _ => True) ?_ (fun r => ?_) fun r _ => ?_
    · refine Throws.after_transaction ?_ hbar fun _ => trivial
      refine (Throws.after_stmt h.findRunning).bind fun running => hnow.bind fun endTime => ?_
      refine (h.closeAll (fun _ _ => ()) endTime running ()).bind fun _ => hnow.bind fun _ => ?_
      exact Throws.after_stmt (h.createSession _ _ _ _)
    · cases r with
      | ok session => trivial
      | error err =>
        dsimp only
        split <;> trivial
    · cases r with
      | ok session => trivial
      | error err =>
        dsimp only
        split <;> trivial
  | stop sessionId =>
    refine Prog.After.bind (Q := fun _ => True) ?_ (fun _ => trivial) fun _ _ => trivial
    refine Throws.after_transaction ?_ hbar fun _ => trivial
    refine (Throws.after_stmt (h.find _)).bind fun found => ?_
    cases found with
    | none => exact Throws.after_throw
    | some session =>
      dsimp only
      split
      · exact Throws.after_throw
      refine hnow.bind fun endTime => (h.closeSession endTime).bind fun closed => ?_
      cases closed with
      | none => exact Throws.after_throw
      | some closed => exact (Throws.after_stmt (h.find _)).bind fun _ => Throws.after_pure
  | stopAll =>
    refine Prog.After.bind (Q := fun _ => True) ?_ (fun _ => trivial) fun _ _ => trivial
    refine Throws.after_transaction ?_ hbar fun _ => trivial
    refine (Throws.after_stmt h.findRunning).bind fun running => hnow.bind fun endTime => ?_
    exact h.closeAll (fun stopped closed => if closed.isSome then stopped + 1 else stopped) endTime
      running 0
  | delete sessionId =>
    have hdelete : (deleteTimeEntry sessionId).After hit bar := by
      refine (Throws.after_stmt (h.find _)).bind fun found => ?_
      cases found with
      | none => exact Throws.after_throw
      | some session =>
        dsimp only
        split
        · exact Throws.after_throw
        refine (Throws.after_stmt (h.delete _)).bind fun count => ?_
        split
        · exact Throws.after_throw
        · exact Throws.after_pure
    exact Prog.After.bind hdelete (fun _ => trivial) fun _ _ => trivial

end After

theorem loses_onlyThrows : OnlyThrows loses where
  now _ := rfl
  findRunning _ h := by cases h
  find _ _ h := by cases h
  close _ _ _ _ h := by cases h
  createEntry _ _ h := by cases h
  createSession _ _ _ _ b h := by
    cases b with
    | ok session => cases h
    | error e => exact ⟨e, rfl⟩
  delete _ _ h := by cases h

theorem commits_onlyThrows : OnlyThrows fun st _ => commits st where
  now _ := rfl
  findRunning _ h := by cases h
  find _ _ h := by cases h
  close _ _ _ _ h := by cases h
  createEntry _ _ h := by cases h
  createSession _ _ _ _ _ h := by cases h
  delete _ _ h := by cases h

/-- A start that loses does so to a session that is running and not its own. -/
theorem loses_exec (hs : db.Stopped i) (h : loses st (exec i st ch db).1 = true) :
    (exec i st ch db).2 = db ∧ ∃ id s, db.sessions.rows id = some s ∧ s.isRunning = true := by
  obtain ⟨now, interrupted⟩ := ch
  cases st with
  | createSession projectId taskId description startTime =>
    cases interrupted with
    | true => cases h
    | false =>
      have h : loses (.createSession projectId taskId description startTime)
        (createSession i projectId taskId description startTime db).1 = true := h
      change (createSession i projectId taskId description startTime db).2 = db ∧ _
      unfold createSession at h ⊢
      split at h
      · rename_i hrunning
        rw [if_pos hrunning]
        refine ⟨rfl, ?_⟩
        obtain ⟨s, hs'⟩ := List.exists_mem_of_ne_nil (db.running i) (by simpa using hrunning)
        obtain ⟨id, -, hread, hrun⟩ := mem_running.mp hs'
        refine ⟨id, s, ?_, hrun⟩
        cases hmine : db.sessions.mine i id with
        | none => rwa [Versions.read, hmine, Option.none_or] at hread
        | some r =>
          rw [Versions.read, hmine, Option.some_or] at hread
          obtain rfl := Option.some.inj hread
          rw [hs id r hmine] at hrun
          cases hrun
      · cases h
  | _ => cases h

/-! ### Every run -/

/-- What holds of the timers in every database that is reached. -/
structure Timed (db : Db) : Prop where
  one_running : ∀ id id' s s', db.sessions.rows id = some s → db.sessions.rows id' = some s' →
    s.isRunning = true → s'.isRunning = true → id = id'
  stopped : ∀ s, s.isRunning = false → db.sessions.rows s.id = some s ∨ s ∈ db.deleted →
    ∃ endTime, s.endTime = some endTime ∧ db.entriesOf s.id =
      if 60000 ≤ endTime - s.startTime then [s.timeEntry (roundMinutes (endTime - s.startTime))]
      else []
  running : ∀ s, s.isRunning = true → db.sessions.rows s.id = some s → db.entriesOf s.id = []

theorem Db.Inv.timed (h : db.Inv) : Timed db where
  one_running := h.one
  stopped s hrun hs := by
    have hend : s.endTime.isSome = true ∧ db.entriesOf s.id = s.expected := by
      rcases hs with hrow | hgone
      · have hfits := (h.fits s.id s hrow).running
        rw [hrun] at hfits
        refine ⟨?_, h.kept s.id s hrow⟩
        cases hend : s.endTime with
        | none => simp [hend] at hfits
        | some endTime => rfl
      · obtain ⟨-, -, -, -, hend, hentries⟩ := h.gone s hgone
        exact ⟨hend, hentries⟩
    obtain ⟨endTime, hsome⟩ := Option.isSome_iff_exists.mp hend.1
    refine ⟨endTime, hsome, hend.2.trans ?_⟩
    unfold Session.expected
    rw [hsome]
  running s hrun hrow := by
    rw [h.kept s.id s hrow, (h.fits s.id s hrow).expected hrun]

/-- A start that lost: the session that it lost to goes on running, and nothing of the start is
ever committed. -/
structure Lost (tr : List (Occurrence machine)) (o : Occurrence machine) : Prop where
  unchanged : o.post = o.pre
  running : ∃ id s, (Db.sessions o.pre).rows id = some s ∧ s.isRunning = true
  uncommitted : ∀ o' ∈ tr, o'.thread = o.thread → commits o'.stmt = false

theorem timed_once {tr : List (Occurrence machine)} {c : Config machine}
    (h : Run (M := machine) Requested Db.empty tr c) :
    Timed c.state ∧ ∀ o ∈ tr, loses o.stmt o.result = true → Lost tr o := by
  obtain ⟨hholds, hall⟩ := Run.holds (K := contract) (fun _ hp _ _ _ hs => requested_safe hp hs)
    empty_inv (fun _ => rfl) h fun _ _ => trivial
  refine ⟨(show Db.Inv c.state from hholds.inv).timed, fun o ho hlost => ?_⟩
  have hcreates : creates o.stmt = true := by
    obtain ⟨thread, stmt, choice, pre⟩ := o
    cases stmt with
    | createSession => rfl
    | _ => cases hlost
  obtain ⟨hpost, hrunning⟩ := loses_exec ((hall o ho).2.guar hcreates) hlost
  refine ⟨hpost, hrunning, fun o' ho' hthread => ?_⟩
  have hafter : tr.Pairwise fun o o' => o.thread = o'.thread → loses o.stmt o.result = true →
      commits o'.stmt = false := Run.after (fun _ hp => loses_onlyThrows.requested rfl hp) h
  have hbefore : tr.Pairwise fun o o' => o.thread = o'.thread → commits o.stmt = true →
      creates o'.stmt = false := Run.after (fun _ hp => commits_onlyThrows.requested rfl hp) h
  rw [List.pairwise_iff_getElem] at hafter hbefore
  obtain ⟨k, hk, rfl⟩ := List.mem_iff_getElem.mp ho
  obtain ⟨l, hl, rfl⟩ := List.mem_iff_getElem.mp ho'
  rcases Nat.lt_trichotomy k l with hlt | rfl | hgt
  · exact hafter k l hk hl hlt hthread.symm hlost
  · exact creates_not_commits hcreates
  · by_contra hcommits
    have hnot := hbefore l k hl hk hgt hthread (by simpa using hcommits)
    rw [hcreates] at hnot
    cases hnot

/-- Two starts at the same moment, and a stop two minutes later. -/
def sampleThreads : Config machine where
  state := Db.empty
  threads := [(Request.start "site" none none).program, (Request.start "shop" none none).program,
    (Request.stop 0).program]

def sampleSchedule : List (ℕ × Choice) :=
  ([0, 0, 1, 1, 0, 0, 1, 0, 1, 1].map (·, ⟨1000, false⟩)) ++
    [2, 2, 2, 2, 2, 2].map (·, ⟨121000, false⟩)

theorem timed_once_sample : (Timed (sampleThreads.play sampleSchedule).state ∧
    ∀ o ∈ sampleThreads.played sampleSchedule, loses o.stmt o.result = true →
      Lost (sampleThreads.played sampleSchedule) o) ∧
    (Db.entries (sampleThreads.play sampleSchedule).state).map TimeEntry.duration = [2] ∧
    ((sampleThreads.played sampleSchedule).filter fun o => loses o.stmt o.result).length = 1 := by
  have hrun : Run (M := machine) Requested Db.empty (sampleThreads.played sampleSchedule)
      (sampleThreads.play sampleSchedule) := by
    refine Run.of_schedule sampleThreads.threads (fun p hp => ?_) sampleSchedule
    rcases List.mem_cons.mp hp with rfl | hp
    · exact ⟨_, rfl⟩
    rcases List.mem_cons.mp hp with rfl | hp
    · exact ⟨_, rfl⟩
    · exact ⟨_, List.mem_singleton.mp hp⟩
  exact ⟨timed_once hrun, by decide +kernel, by decide +kernel⟩

end Ashbi.Timers
