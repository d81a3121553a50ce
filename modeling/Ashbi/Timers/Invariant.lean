import Mathlib.Tactic.Linarith
import Ashbi.Timers.Statements

/-! What holds of the timers and their entries between statements. -/

namespace Ashbi.Timers

open Interleaving

variable {db : Db} {i j id : ℕ} {session : Session}

/-! ### The entries of a session -/

/-- The entries that a session is recorded by once it has stopped. -/
def Session.expected (session : Session) : List TimeEntry :=
  match session.endTime with
  | some endTime =>
    if 60000 ≤ endTime - session.startTime then
      [session.timeEntry (roundMinutes (endTime - session.startTime))]
    else []
  | none => []

/-- The entries that were ever created for a session. -/
def Db.entriesOf (db : Db) (id : ℕ) : List TimeEntry :=
  db.entries.filter (·.timeSessionId = some id)

/-- What never changes of a session. -/
def Session.core (session : Session) : Session :=
  { session with endTime := none, duration := 0, isRunning := true }

/-- The session of its id is running as long as it has no end. -/
structure Session.Fits (session : Session) (id : ℕ) : Prop where
  id_eq : session.id = id
  running : session.isRunning = session.endTime.isNone

theorem Session.Fits.expected (h : session.Fits id) (hrun : session.isRunning = true) :
    session.expected = [] := by
  have hend := h.running
  rw [hrun] at hend
  unfold Session.expected
  rw [Option.isNone_iff_eq_none.mp hend.symm]

theorem sessionDuration_eq {elapsedMs : ℤ} (h : 60000 ≤ elapsedMs) :
    sessionDuration elapsedMs = roundMinutes elapsedMs := by
  unfold sessionDuration roundMinutes
  rw [if_pos h, max_eq_right]
  omega

/-! ### The invariant -/

structure Db.Inv (db : Db) : Prop where
  fresh : ∀ id, db.issued ≤ id →
    db.sessions.rows id = none ∧ db.sessions.written id = none ∧ db.entriesOf id = []
  fits : ∀ id s, db.sessions.rows id = some s → s.Fits id
  written_fits : ∀ id i s, db.sessions.written id = some (i, s) → s.Fits id
  one : ∀ id id' s s', db.sessions.rows id = some s → db.sessions.rows id' = some s' →
    s.isRunning = true → s'.isRunning = true → id = id'
  replaced : ∀ id i s, db.sessions.written id = some (i, s) → s.isRunning = true → ∀ id' s',
    db.sessions.rows id' = some s' → s'.isRunning = true →
      ∃ r, db.sessions.written id' = some (i, r)
  one_written : ∀ id id' i i' s s', db.sessions.written id = some (i, s) →
    db.sessions.written id' = some (i', s') → s.isRunning = true → s'.isRunning = true → id = id'
  unrecorded : ∀ id i s, db.sessions.written id = some (i, s) → db.entriesOf id = [] ∧
    ∀ s', db.sessions.rows id = some s' → s'.isRunning = true ∧ s'.core = s.core
  kept : ∀ id s, db.sessions.rows id = some s → db.entriesOf id = s.expected
  gone : ∀ s ∈ db.deleted, s.id < db.issued ∧ db.sessions.rows s.id = none ∧
    db.sessions.written s.id = none ∧ s.isRunning = false ∧ s.endTime.isSome = true ∧
      db.entriesOf s.id = s.expected

theorem empty_inv : Db.empty.Inv where
  fresh _ _ := ⟨rfl, rfl, rfl⟩
  fits _ _ h := by cases h
  written_fits _ _ _ h := by cases h
  one _ _ _ _ h := by cases h
  replaced _ _ _ h := by cases h
  one_written _ _ _ _ _ _ h := by cases h
  unrecorded _ _ _ h := by cases h
  kept _ _ h := by cases h
  gone _ h := by cases h

/-- A version that is left after a rollback was there before it. -/
theorem written_rollback {s : Session}
    (h : (db.sessions.rollback i).written id = some (j, s)) :
    db.sessions.written id = some (j, s) ∧ j ≠ i := by
  unfold Versions.rollback at h
  rw [Option.filter_eq_some_iff] at h
  exact ⟨h.1, by simpa using h.2⟩

theorem Db.Inv.rollback (h : db.Inv) : (db.rollback i).Inv where
  fresh id hid := by
    obtain ⟨hrow, hwritten, hentries⟩ := h.fresh id hid
    refine ⟨hrow, ?_, hentries⟩
    simp [Db.rollback, Versions.rollback, hwritten]
  fits := h.fits
  written_fits id j s hw := h.written_fits id j s (written_rollback hw).1
  one := h.one
  replaced id j s hw hrun id' s' hrow hrun' := by
    obtain ⟨hw, hj⟩ := written_rollback hw
    obtain ⟨r, hr⟩ := h.replaced id j s hw hrun id' s' hrow hrun'
    refine ⟨r, ?_⟩
    simp [Db.rollback, Versions.rollback, hr, hj]
  one_written id id' j j' s s' hw hw' :=
    h.one_written id id' j j' s s' (written_rollback hw).1 (written_rollback hw').1
  unrecorded id j s hw := h.unrecorded id j s (written_rollback hw).1
  kept := h.kept
  gone s hs := by
    obtain ⟨hid, hrow, hwritten, hrest⟩ := h.gone s hs
    refine ⟨hid, hrow, ?_, hrest⟩
    simp [Db.rollback, Versions.rollback, hwritten]

/-- What thread `i` has recorded is what its stopped sessions expect. -/
def Db.Complete (db : Db) (i : ℕ) : Prop :=
  ∀ id, (db.recordedBy i).filter (·.timeSessionId = some id) =
    ((db.sessions.mine i id).map Session.expected).getD []

theorem entriesOf_commit (id : ℕ) : (db.commit i).entriesOf id =
    db.entriesOf id ++ (db.recordedBy i).filter (·.timeSessionId = some id) := by
  unfold Db.entriesOf Db.commit
  rw [List.filter_append]

/-- A committed row is the thread's own version, or as it was. -/
theorem rows_commit {s : Session} (h : (db.commit i).sessions.rows id = some s) :
    db.sessions.written id = some (i, s) ∨
      db.sessions.mine i id = none ∧ db.sessions.rows id = some s := by
  have hread : (db.sessions.mine i id).or (db.sessions.rows id) = some s := h
  cases hmine : db.sessions.mine i id with
  | none =>
    rw [hmine, Option.none_or] at hread
    exact .inr ⟨rfl, hread⟩
  | some r =>
    rw [hmine, Option.some_or] at hread
    obtain rfl := Option.some.inj hread
    exact .inl (Versions.mine_eq_some.mp hmine)

theorem written_commit {s : Session} (h : (db.commit i).sessions.written id = some (j, s)) :
    db.sessions.written id = some (j, s) ∧ j ≠ i := written_rollback h

theorem mine_none (h : db.sessions.written id = none) : db.sessions.mine i id = none := by
  simp [Versions.mine, h]

theorem Db.Inv.commit (h : db.Inv) (hcomplete : db.Complete i) : (db.commit i).Inv where
  fresh id hid := by
    obtain ⟨hrow, hwritten, hentries⟩ := h.fresh id hid
    have hmine := mine_none (i := i) hwritten
    refine ⟨?_, ?_, ?_⟩
    · simp [Db.commit, Versions.commit, Versions.read, hmine, hrow]
    · simp [Db.commit, Versions.commit, Versions.rollback, hwritten]
    · rw [entriesOf_commit, hentries, hcomplete id, hmine]
      rfl
  fits id s hrow := by
    rcases rows_commit hrow with hw | ⟨-, hrow⟩
    · exact h.written_fits id i s hw
    · exact h.fits id s hrow
  written_fits id j s hw := h.written_fits id j s (written_commit hw).1
  one id id' s s' hrow hrow' hrun hrun' := by
    rcases rows_commit hrow with hw | ⟨hnone, hrow⟩
    · rcases rows_commit hrow' with hw' | ⟨hnone', hrow'⟩
      · exact h.one_written id id' i i s s' hw hw' hrun hrun'
      · obtain ⟨r, hr⟩ := h.replaced id i s hw hrun id' s' hrow' hrun'
        rw [Versions.mine_eq_some.mpr hr] at hnone'
        cases hnone'
    · rcases rows_commit hrow' with hw' | ⟨-, hrow'⟩
      · obtain ⟨r, hr⟩ := h.replaced id' i s' hw' hrun' id s hrow hrun
        rw [Versions.mine_eq_some.mpr hr] at hnone
        cases hnone
      · exact h.one id id' s s' hrow hrow' hrun hrun'
  replaced id j s hw hrun id' s' hrow hrun' := by
    obtain ⟨hw, hj⟩ := written_commit hw
    rcases rows_commit hrow with hw' | ⟨-, hrow⟩
    · obtain rfl := h.one_written id id' j i s s' hw hw' hrun hrun'
      rw [hw] at hw'
      exact absurd (congrArg Prod.fst (Option.some.inj hw')) hj
    · obtain ⟨r, hr⟩ := h.replaced id j s hw hrun id' s' hrow hrun'
      refine ⟨r, ?_⟩
      simp [Db.commit, Versions.commit, Versions.rollback, hr, hj]
  one_written id id' j j' s s' hw hw' :=
    h.one_written id id' j j' s s' (written_commit hw).1 (written_commit hw').1
  unrecorded id j s hw := by
    obtain ⟨hw, hj⟩ := written_commit hw
    obtain ⟨hentries, hrows⟩ := h.unrecorded id j s hw
    have hmine : db.sessions.mine i id = none := by
      rw [Option.eq_none_iff_forall_ne_some]
      intro r hr
      rw [Versions.mine_eq_some, hw] at hr
      exact hj (congrArg Prod.fst (Option.some.inj hr))
    refine ⟨?_, fun s' hrow => ?_⟩
    · rw [entriesOf_commit, hentries, hcomplete id, hmine]
      rfl
    · rcases rows_commit hrow with hw' | ⟨-, hrow⟩
      · rw [Versions.mine_eq_some.mpr hw'] at hmine
        cases hmine
      · exact hrows s' hrow
  kept id s hrow := by
    rw [entriesOf_commit, hcomplete id]
    rcases rows_commit hrow with hw | ⟨hnone, hrow⟩
    · rw [(h.unrecorded id i s hw).1, Versions.mine_eq_some.mpr hw]
      rfl
    · rw [hnone, h.kept id s hrow]
      exact List.append_nil _
  gone s hs := by
    obtain ⟨hid, hrow, hwritten, hrun, hend, hentries⟩ := h.gone s hs
    have hmine := mine_none (i := i) hwritten
    refine ⟨hid, ?_, ?_, hrun, hend, ?_⟩
    · simp [Db.commit, Versions.commit, Versions.read, hmine, hrow]
    · simp [Db.commit, Versions.commit, Versions.rollback, hwritten]
    · rw [entriesOf_commit, hcomplete s.id, hmine, hentries]
      exact List.append_nil _

/-- A session stops in the transaction that holds its row. -/
theorem Db.Inv.stop {s : Session} (h : db.Inv) (hlock : db.sessions.locked i id = false)
    (hread : db.sessions.read i id = some s) (hrun : s.isRunning = true) (endTime : Time)
    (duration : ℤ) :
    Db.Inv { db with sessions := db.sessions.write i id (s.stop endTime duration) } := by
  have hwrite : ∀ id' j r, (db.sessions.write i id (s.stop endTime duration)).written id' =
        some (j, r) → id' = id ∧ j = i ∧ r = s.stop endTime duration ∨
          id' ≠ id ∧ db.sessions.written id' = some (j, r) := by
    intro id' j r hw
    by_cases hid : id' = id
    · subst hid
      rw [Versions.written_write] at hw
      obtain ⟨rfl, rfl⟩ := Prod.ext_iff.mp (Option.some.inj hw)
      exact .inl ⟨rfl, rfl, rfl⟩
    · rw [Versions.written_write_of_ne hid] at hw
      exact .inr ⟨hid, hw⟩
  have hopen : s.Fits id ∧ db.entriesOf id = [] ∧ ∀ r, db.sessions.rows id = some r →
      r.isRunning = true ∧ r.core = s.core := by
    cases hmine : db.sessions.mine i id with
    | some r =>
      rw [Versions.read, hmine, Option.some_or] at hread
      obtain rfl := Option.some.inj hread
      have hw := Versions.mine_eq_some.mp hmine
      exact ⟨h.written_fits id i r hw, h.unrecorded id i r hw⟩
    | none =>
      rw [Versions.read, hmine, Option.none_or] at hread
      refine ⟨h.fits id s hread, ?_, fun r hr => ?_⟩
      · rw [h.kept id s hread, (h.fits id s hread).expected hrun]
      · rw [hread] at hr
        obtain rfl := Option.some.inj hr
        exact ⟨hrun, rfl⟩
  obtain ⟨hfits, hentries, hrows⟩ := hopen
  have hnew : ∀ id', db.sessions.rows id' = none → db.sessions.written id' = none → id' ≠ id := by
    rintro id' hrow hwritten rfl
    rw [Versions.read, mine_none hwritten, hrow] at hread
    cases hread
  refine ⟨fun id' hid => ?_, h.fits, fun id' j r hw => ?_, h.one, fun id' j r hw hrun' => ?_,
    fun id₁ id₂ j₁ j₂ r₁ r₂ hw₁ hw₂ hrun₁ hrun₂ => ?_, fun id' j r hw => ?_, h.kept,
    fun r hr => ?_⟩
  · obtain ⟨hrow, hwritten, hentries⟩ := h.fresh id' hid
    refine ⟨hrow, ?_, hentries⟩
    simp [Versions.write, hnew id' hrow hwritten, hwritten]
  · rcases hwrite id' j r hw with ⟨rfl, -, rfl⟩ | ⟨-, hw⟩
    · exact ⟨hfits.id_eq, rfl⟩
    · exact h.written_fits id' j r hw
  · rcases hwrite id' j r hw with ⟨-, -, rfl⟩ | ⟨-, hw⟩
    · cases hrun'
    · intro id₂ s₂ hrow₂ hrun₂
      obtain ⟨r₂, hr₂⟩ := h.replaced id' j r hw hrun' id₂ s₂ hrow₂ hrun₂
      by_cases hid : id₂ = id
      · subst hid
        have hj : j = i := by simpa [Versions.locked, hr₂] using hlock
        obtain rfl := hj
        exact ⟨_, Versions.written_write⟩
      · exact ⟨r₂, (Versions.written_write_of_ne hid).trans hr₂⟩
  · rcases hwrite id₁ j₁ r₁ hw₁ with ⟨-, -, rfl⟩ | ⟨-, hw₁⟩
    · cases hrun₁
    rcases hwrite id₂ j₂ r₂ hw₂ with ⟨-, -, rfl⟩ | ⟨-, hw₂⟩
    · cases hrun₂
    exact h.one_written id₁ id₂ j₁ j₂ r₁ r₂ hw₁ hw₂ hrun₁ hrun₂
  · rcases hwrite id' j r hw with ⟨rfl, -, rfl⟩ | ⟨-, hw⟩
    · exact ⟨hentries, hrows⟩
    · exact h.unrecorded id' j r hw
  · obtain ⟨hid, hrow, hwritten, hrest⟩ := h.gone r hr
    refine ⟨hid, hrow, ?_, hrest⟩
    simp [Versions.write, hnew r.id hrow hwritten, hwritten]

theorem close_cases (i id : ℕ) (endTime : Time) (duration : ℤ) (db : Db) :
    close i id endTime duration db = (.ok 0, db) ∨
    close i id endTime duration db = (.error .integerOutOfRange, db) ∨
    ∃ s, db.sessions.read i id = some s ∧ s.isRunning = true ∧
      close i id endTime duration db =
        (.ok 1, { db with sessions := db.sessions.write i id (s.stop endTime duration) }) := by
  unfold Timers.close
  cases hread : (db.sessions.read i id).filter (·.isRunning) with
  | none => exact .inl rfl
  | some s =>
    obtain ⟨hread, hrun⟩ := Option.filter_eq_some_iff.mp hread
    dsimp only
    split
    · exact .inr (.inl rfl)
    · exact .inr (.inr ⟨s, hread, hrun, rfl⟩)

theorem Db.Inv.close {endTime : Time} {duration : ℤ} (h : db.Inv)
    (hlock : db.sessions.locked i id = false) : (close i id endTime duration db).2.Inv := by
  rcases close_cases i id endTime duration db with hclose | hclose | ⟨s, hread, hrun, hclose⟩
  · rw [hclose]
    exact h
  · rw [hclose]
    exact h
  · rw [hclose]
    exact h.stop hlock hread hrun endTime duration

theorem Db.Inv.createEntry {entry : TimeEntry} (h : db.Inv) : (createEntry i entry db).2.Inv := by
  unfold Timers.createEntry
  split
  · exact h
  split
  · exact h
  · exact ⟨h.fresh, h.fits, h.written_fits, h.one, h.replaced, h.one_written, h.unrecorded, h.kept,
      h.gone⟩

theorem mem_running {s : Session} :
    s ∈ db.running i ↔ ∃ id < db.issued, db.sessions.read i id = some s ∧ s.isRunning = true := by
  simp only [Db.running, List.mem_filter, List.mem_filterMap, List.mem_range]
  constructor
  · rintro ⟨⟨id, hid, hread⟩, hrun⟩
    exact ⟨id, hid, hread, hrun⟩
  · rintro ⟨id, hid, hread, hrun⟩
    exact ⟨⟨id, hid, hread⟩, hrun⟩

/-- No transaction but the thread's own has a running session or stops one. -/
theorem contended_false (h : db.contended i = false) (hid : id < db.issued) {s : Session}
    (hw : db.sessions.written id = some (j, s)) (hj : j ≠ i) :
    s.isRunning = false ∧ ∀ r, db.sessions.rows id = some r → r.isRunning = false := by
  have hlocked := List.any_eq_false.mp h id (List.mem_range.mpr hid)
  have hnone : ((db.sessions.rows id).any (·.isRunning) || s.isRunning) = false := by
    simpa [Versions.locked, hw, hj] using hlocked
  obtain ⟨hrows, hs⟩ := Bool.or_eq_false_iff.mp hnone
  refine ⟨hs, fun r hr => ?_⟩
  rwa [hr, Option.any_some] at hrows

/-- A new session runs where no other does that is not stopped with it. -/
theorem Db.Inv.start {s : Session} (h : db.Inv) (hfree : db.contended i = false)
    (hnone : db.running i = []) (hs : s.Fits db.issued) : Db.Inv { db with
      sessions := db.sessions.write i db.issued s
      issued := db.issued + 1 } := by
  obtain ⟨hrow₀, hwritten₀, hentries₀⟩ := h.fresh db.issued (Nat.le_refl _)
  have hbelow : ∀ id' j r, db.sessions.written id' = some (j, r) → id' < db.issued := by
    intro id' j r hw
    by_contra hle
    rw [(h.fresh id' (Nat.le_of_not_lt hle)).2.1] at hw
    cases hw
  have hrows : ∀ id' r, db.sessions.rows id' = some r → id' < db.issued := by
    intro id' r hr
    by_contra hle
    rw [(h.fresh id' (Nat.le_of_not_lt hle)).1] at hr
    cases hr
  have hstopped : ∀ id' j r, db.sessions.written id' = some (j, r) → r.isRunning = false := by
    intro id' j r hw
    by_cases hj : j = i
    · subst hj
      by_contra hrun
      have hread : db.sessions.read j id' = some r := by
        rw [Versions.read, Versions.mine_eq_some.mpr hw, Option.some_or]
      have hmem := mem_running.mpr ⟨id', hbelow id' j r hw, hread, by simpa using hrun⟩
      rw [hnone] at hmem
      cases hmem
    · exact (contended_false hfree (hbelow id' j r hw) hw hj).1
  have hwrite : ∀ id' j r, (db.sessions.write i db.issued s).written id' = some (j, r) →
      id' = db.issued ∧ j = i ∧ r = s ∨
        id' ≠ db.issued ∧ db.sessions.written id' = some (j, r) := by
    intro id' j r hw
    by_cases hid : id' = db.issued
    · subst hid
      rw [Versions.written_write] at hw
      obtain ⟨rfl, rfl⟩ := Prod.ext_iff.mp (Option.some.inj hw)
      exact .inl ⟨rfl, rfl, rfl⟩
    · rw [Versions.written_write_of_ne hid] at hw
      exact .inr ⟨hid, hw⟩
  refine ⟨fun id' hid => ?_, h.fits, fun id' j r hw => ?_, h.one, fun id' j r hw hrun => ?_,
    fun id₁ id₂ j₁ j₂ r₁ r₂ hw₁ hw₂ hrun₁ hrun₂ => ?_, fun id' j r hw => ?_, h.kept,
    fun r hr => ?_⟩
  · have hid : db.issued + 1 ≤ id' := hid
    obtain ⟨hrow, hwritten, hentries⟩ := h.fresh id' (by omega)
    exact ⟨hrow, (Versions.written_write_of_ne (by omega)).trans hwritten, hentries⟩
  · rcases hwrite id' j r hw with ⟨rfl, -, rfl⟩ | ⟨-, hw⟩
    · exact hs
    · exact h.written_fits id' j r hw
  · rcases hwrite id' j r hw with ⟨-, rfl, -⟩ | ⟨-, hw⟩
    · intro id₂ s₂ hrow₂ hrun₂
      have hne : id₂ ≠ db.issued := (hrows id₂ s₂ hrow₂).ne
      -- the thread must have written the running row: it would see it otherwise
      cases hw₂ : db.sessions.written id₂ with
      | some version =>
        obtain ⟨j₂, r₂⟩ := version
        by_cases hj : j₂ = j
        · subst hj
          exact ⟨r₂, (Versions.written_write_of_ne hne).trans hw₂⟩
        · have hnot := (contended_false hfree (hrows id₂ s₂ hrow₂) hw₂ hj).2 s₂ hrow₂
          rw [hrun₂] at hnot
          cases hnot
      | none =>
        have hread : db.sessions.read j id₂ = some s₂ := by
          rw [Versions.read, mine_none hw₂, Option.none_or]
          exact hrow₂
        have hmem := mem_running.mpr ⟨id₂, hrows id₂ s₂ hrow₂, hread, hrun₂⟩
        rw [hnone] at hmem
        cases hmem
    · rw [hstopped id' j r hw] at hrun
      cases hrun
  · rcases hwrite id₁ j₁ r₁ hw₁ with ⟨rfl, -, -⟩ | ⟨-, hw₁⟩
    · rcases hwrite id₂ j₂ r₂ hw₂ with ⟨rfl, -, -⟩ | ⟨-, hw₂⟩
      · rfl
      · rw [hstopped id₂ j₂ r₂ hw₂] at hrun₂
        cases hrun₂
    · rw [hstopped id₁ j₁ r₁ hw₁] at hrun₁
      cases hrun₁
  · rcases hwrite id' j r hw with ⟨rfl, -, -⟩ | ⟨-, hw⟩
    · refine ⟨hentries₀, fun s' hrow => ?_⟩
      have hrow : db.sessions.rows db.issued = some s' := hrow
      rw [hrow₀] at hrow
      cases hrow
    · exact h.unrecorded id' j r hw
  · obtain ⟨hid, hrow, hwritten, hrest⟩ := h.gone r hr
    refine ⟨Nat.lt_succ_of_lt hid, hrow, ?_, hrest⟩
    exact (Versions.written_write_of_ne hid.ne).trans hwritten

theorem Db.Inv.createSession {projectId : String} {taskId description : Option String}
    {startTime : Time} (h : db.Inv) (hfree : db.contended i = false) :
    (createSession i projectId taskId description startTime db).2.Inv := by
  unfold Timers.createSession
  split
  · exact h
  · rename_i hnone
    exact h.start hfree (by simpa using hnone) ⟨rfl, rfl⟩

theorem Db.Inv.delete (h : db.Inv) (hlock : db.sessions.written id = none) :
    (delete id db).2.Inv := by
  unfold Timers.delete
  cases hrow : (db.sessions.rows id).filter (!·.isRunning) with
  | none => exact h
  | some s =>
    obtain ⟨hrow, hrun⟩ := Option.filter_eq_some_iff.mp hrow
    have hstopped : s.isRunning = false := by simpa using hrun
    have hsub : ∀ id' r, Function.update db.sessions.rows id none id' = some r →
        db.sessions.rows id' = some r := by
      intro id' r hr
      by_cases hid : id' = id
      · subst hid
        rw [Function.update_self] at hr
        cases hr
      · rwa [Function.update_of_ne hid] at hr
    have hnone : ∀ id', db.sessions.rows id' = none →
        Function.update db.sessions.rows id none id' = none := by
      intro id' hid
      by_contra hne
      obtain ⟨r, hr⟩ := Option.ne_none_iff_exists'.mp hne
      rw [hsub id' r hr] at hid
      cases hid
    have hfits := h.fits id s hrow
    refine ⟨fun id' hid => ?_, fun id' r hr => h.fits id' r (hsub id' r hr), h.written_fits,
      fun id₁ id₂ r₁ r₂ hr₁ hr₂ => h.one id₁ id₂ r₁ r₂ (hsub id₁ r₁ hr₁) (hsub id₂ r₂ hr₂),
      fun id' j r hw hrun id₂ r₂ hr₂ => h.replaced id' j r hw hrun id₂ r₂ (hsub id₂ r₂ hr₂),
      h.one_written, fun id' j r hw => ?_, fun id' r hr => h.kept id' r (hsub id' r hr),
      fun r hr => ?_⟩
    · obtain ⟨hrow', hwritten, hentries⟩ := h.fresh id' hid
      exact ⟨hnone id' hrow', hwritten, hentries⟩
    · obtain ⟨hentries, hrows⟩ := h.unrecorded id' j r hw
      exact ⟨hentries, fun r' hr' => hrows r' (hsub id' r' hr')⟩
    · rcases List.mem_append.mp hr with hr | hr
      · obtain ⟨hid, hrow', hrest⟩ := h.gone r hr
        exact ⟨hid, hnone r.id hrow', hrest⟩
      · obtain rfl := List.mem_singleton.mp hr
        have hrunning := hfits.running
        rw [hstopped] at hrunning
        obtain rfl := hfits.id_eq
        refine ⟨?_, Function.update_self .., hlock, hstopped, ?_, h.kept _ r hrow⟩
        · by_contra hle
          rw [(h.fresh _ (Nat.le_of_not_lt hle)).1] at hrow
          cases hrow
        · cases hend : r.endTime with
          | none =>
            rw [hend] at hrunning
            cases hrunning
          | some endTime => rfl

end Ashbi.Timers
