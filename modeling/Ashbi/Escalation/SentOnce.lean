import Ashbi.Escalation.Periods

/-! Every escalation is sent once per quiet period, where no activity comes between the reads and
the claims of a check. -/

namespace Ashbi.Escalation

open Interleaving

section Programs

variable {ThreadId : Type} [DecidableEq ThreadId] {slaDefaults : Priority → ℕ} {i : ℕ}
  {s : State ThreadId} {now : Time}

/-- Clocks only go on. -/
def contract (slaDefaults : Priority → ℕ) : Contract (machine ThreadId slaDefaults) where
  inv := Kept
  rely := fun _ s t => s.clock ≤ t.clock
  assumed := fun _ => True
  guar := fun o => o.stmt.Promised o.pre
  refl := fun _ _ => Int.le_refl _
  trans := fun _ _ _ _ => Int.le_trans

omit [DecidableEq ThreadId] in
theorem Kept.later (h : Kept s) (elapsed : ℕ) : Kept (s.later elapsed) := ⟨h.unique, h.leveled⟩

omit [DecidableEq ThreadId] in
theorem clock_le_later (s : State ThreadId) (elapsed : ℕ) : s.clock ≤ (s.later elapsed).clock :=
  Int.le_add_of_nonneg_right (Int.natCast_nonneg elapsed)

theorem keeps_of {β : Type} {st : Stmt ThreadId β} {choice : Choice} (h : Kept s)
    (hpromised : st.Promised s) : (contract slaDefaults).Keeps ⟨i, st, choice, s⟩ := by
  obtain ⟨hkept, hclock⟩ :=
    execAt_kept slaDefaults st choice.fails (h.later choice.elapsed)
  refine ⟨hpromised, hkept, fun _ _ => ?_⟩
  have hlater := clock_le_later s choice.elapsed
  rw [← hclock] at hlater
  exact hlater

/-- A reading of the clock lies in the past. -/
theorem stable (now : Time) : ∀ (j : ℕ) (u v : State ThreadId),
    (contract slaDefaults).rely j u v → now ≤ u.clock → now ≤ v.clock :=
  fun _ _ _ hr h => Int.le_trans h hr

omit [DecidableEq ThreadId] in
theorem promised_none {β : Type} {st : Stmt ThreadId β} (h : st.checks = none) : st.Promised s := by
  intro thread admins now hchecks
  rw [h] at hchecks
  cases hchecks

theorem call_safe {β γ : Type} {st : Stmt ThreadId γ} {rest : γ → Prog (Stmt ThreadId) β}
    {Q : β → State ThreadId → Prop} (hchecks : st.checks = none)
    (hrest : ∀ t choice, Kept t → s.clock ≤ t.clock →
      (rest ((machine ThreadId slaDefaults).exec i st choice t).1).Safe (contract slaDefaults) i Q
        ((machine ThreadId slaDefaults).exec i st choice t).2) :
    (Prog.call st rest).Safe (contract slaDefaults) i Q s := by
  intro t choice hr hkept _ _
  exact ⟨keeps_of hkept (promised_none hchecks), hrest t choice hkept hr⟩

theorem read_safe {α β : Type} {st : Stmt ThreadId β} {f : β → Throws (Stmt ThreadId) Failure α}
    {Q : α → State ThreadId → Prop} (hchecks : st.checks = none)
    (hrest : ∀ t choice, Kept t → s.clock ≤ t.clock →
      (f ((machine ThreadId slaDefaults).exec i st choice t).1).Safe (contract slaDefaults) i Q
        ((machine ThreadId slaDefaults).exec i st choice t).2) :
    (Throws.read st >>= f).Safe (contract slaDefaults) i Q s := by
  apply Throws.safe_read_bind
  intro t choice hr hkept _ _
  exact ⟨keeps_of hkept (promised_none hchecks), hrest t choice hkept hr⟩

theorem request_safe {st : Stmt ThreadId Unit} (hchecks : st.checks = none) :
    (Prog.stmt st).Safe (contract slaDefaults) i (fun _ _ => True) s :=
  call_safe hchecks fun _ _ _ _ => trivial

theorem fanOut_safe {thread : Thread ThreadId} {admins : List String} (hleveled : thread.Leveled)
    (hnow : now ≤ s.clock) : (Throws.stmt (.fanOut thread admins now)).Safe (contract slaDefaults) i
      (fun _ t => now ≤ t.clock) s := by
  refine (Throws.Safe.frame (Q := fun _ _ => True) (stable now) ?_ hnow).mono fun _ _ h => h.2
  intro t choice hr hkept _ _
  refine ⟨keeps_of hkept ?_, fun _ _ => trivial⟩
  intro thread' admins' now' hchecks
  cases hchecks
  exact ⟨hleveled, Int.le_trans hnow hr⟩

theorem adminsFor_safe (wanted : Bool) (hnow : now ≤ s.clock) :
    (adminsFor wanted).Safe (contract slaDefaults) i (fun _ t => now ≤ t.clock) s := by
  refine (Throws.Safe.frame (Q := fun _ _ => True) (stable now) ?_ hnow).mono fun _ _ h => h.2
  unfold adminsFor
  split
  · exact call_safe rfl fun _ _ _ _ _ _ => trivial
  · exact Throws.safe_pure trivial

theorem checkFound_safe {found : Option (Thread ThreadId)}
    (hleveled : ∀ thread ∈ found, thread.Leveled) (hnow : now ≤ s.clock) :
    (checkFound slaDefaults found now).Safe (contract slaDefaults) i (fun _ t => now ≤ t.clock)
      s := by
  unfold checkFound
  split
  · exact Throws.safe_pure hnow
  rename_i thread
  split
  · exact Throws.safe_pure hnow
  split
  · exact Throws.safe_pure hnow
  refine Throws.Safe.bind ((adminsFor_safe _ hnow).mono fun admins t ht => ?_)
  refine Throws.Safe.bind ((fanOut_safe (hleveled thread rfl) ht).mono fun sent u hu => ?_)
  exact Throws.safe_pure hu

theorem checkThreadEscalation_safe {threadId : ThreadId} {existing : Option (Thread ThreadId)}
    (hexisting : ∀ thread ∈ existing, thread.Leveled) (hnow : now ≤ s.clock) :
    (checkThreadEscalation slaDefaults threadId existing now).Safe (contract slaDefaults) i
      (fun _ t => now ≤ t.clock) s := by
  unfold checkThreadEscalation
  split
  · exact checkFound_safe hexisting hnow
  · apply read_safe rfl
    intro t choice hkept hr
    have hnow' := Int.le_trans (Int.le_trans hnow hr) (clock_le_later t choice.elapsed)
    exact checkFound_safe (fun thread hthread => hkept.leveled thread (thread_mem hthread)) hnow'

theorem sweepThread_safe {totals : Swept} {thread : Thread ThreadId} (hleveled : thread.Leveled)
    (hnow : now ≤ s.clock) : (sweepThread slaDefaults now totals thread).Safe
      (contract slaDefaults) i (fun _ t => now ≤ t.clock) s := by
  apply Throws.safe_tryCatch
  have hlater {p : Throws (Stmt ThreadId) Failure Swept}
      (hp : p.Safe (contract slaDefaults) i (fun _ _ => True) s) :
      p.run.Safe (contract slaDefaults) i (fun _ t => now ≤ t.clock) s :=
    (Prog.Safe.frame (stable now) hp hnow).mono fun _ _ ht => ht.2
  refine (hlater (Throws.Safe.bind ?_)).mono ?_
  · apply (checkThreadEscalation_safe _ hnow).mono
    · intro checked t _
      split <;> exact Throws.safe_pure trivial
    · intro read hread
      obtain rfl := Option.some.inj hread
      exact hleveled
  · intro r t ht
    cases r with
    | ok swept => exact ht
    | error failure => exact Throws.safe_pure ht

theorem Deployed.safe {p : Prog (Stmt ThreadId) Unit} (h : Deployed slaDefaults p) :
    p.Safe (contract slaDefaults) i (fun _ _ => True) s := by
  cases h with
  | check threadId =>
    apply Prog.Safe.bind
    refine Prog.Safe.mono (Q := fun r t => ∀ a, r = .ok a → True) ?_ fun _ _ _ => trivial
    apply read_safe rfl
    intro t choice _ _
    exact (checkThreadEscalation_safe (by simp) (Int.le_refl _)).mono fun _ _ _ => trivial
  | sweep =>
    apply Prog.Safe.bind
    refine Prog.Safe.mono (Q := fun r t => ∀ a, r = .ok a → True) ?_ fun _ _ _ => trivial
    apply read_safe rfl
    intro t choice _ _
    apply read_safe rfl
    intro u choice' hkept hr
    apply Throws.Safe.bind
    refine (Throws.safe_foldlM (I :=
      fun _ (v : State ThreadId) => (t.later choice.elapsed).clock ≤ v.clock) ?_ ?_).mono
      fun _ _ _ => Throws.safe_pure trivial
    · intro totals thread v hthread hv
      exact sweepThread_safe (hkept.leveled thread (List.mem_filter.mp hthread).1) hv
    · exact Int.le_trans hr (clock_le_later u choice'.elapsed)
  | message id status =>
    apply call_safe rfl
    intro t choice _ _
    exact request_safe rfl
  | ingest id receivedAt urgent => exact request_safe rfl
  | respond id status =>
    apply call_safe rfl
    intro t choice _ _
    exact request_safe rfl
  | edit id status priority assignedToId => exact request_safe rfl
  | create thread => exact request_safe rfl
  | setAdmins admins => exact request_safe rfl

end Programs

section Runs

variable {ThreadId : Type} [DecidableEq ThreadId] {slaDefaults : Priority → ℕ}

/-- The transaction of a check whose fan-out fails. -/
def Stmt.rollsBack {β : Type} (slaDefaults : Priority → ℕ) (st : Stmt ThreadId β) (fails : Bool)
    (s : State ThreadId) : Bool :=
  match st with
  | .fanOut thread admins checkedAt =>
    match Escalation.fanOut slaDefaults s thread admins checkedAt fails with
    | .error _ => true
    | .ok _ => false
  | _ => false

/-- How long a thread is inactive when a notification is sent. -/
def threshold (slaDefaults : Priority → ℕ) (thread : Thread ThreadId) : NotificationType → Time
  | .slaWarning => hours 4
  | .escalation => hours 8
  | .slaBreach => hours (slaHours slaDefaults thread.priority)

section Occurrences

variable (o : Occurrence (machine ThreadId slaDefaults))

/-- The state in which an occurrence commits, with the time of the commit. -/
def atCommit : State ThreadId := o.pre.later o.choice.elapsed

/-- The occurrence commits a fan-out of a type for `x`. -/
def fansOut (type : NotificationType) (x : ThreadId) : Bool :=
  sendsType type x (o.stmt.sends slaDefaults o.choice.fails (atCommit o))

def activity (x : ThreadId) : Bool := o.stmt.moves (atCommit o) x

def fails : Bool := o.stmt.rollsBack slaDefaults o.choice.fails (atCommit o)

/-- At its commit the rows that a check claims are of the activity that it has read. -/
def settled : Prop := o.stmt.Settled slaDefaults (atCommit o)

end Occurrences

/-- What the escalations of a thread keep to in a run. -/
structure SentOnce (x : ThreadId) (tr : List (Occurrence (machine ThreadId slaDefaults))) :
    Prop where
  /-- Between two activities each level is sent once. -/
  levels : ∀ type, type ≠ .slaBreach → ∀ before period after, tr = before ++ period ++ after →
    (∀ o ∈ period, activity o x = false) →
    (period.filter fun o => fansOut o type x).length ≤ 1
  quiet : ∀ o ∈ tr, ∀ type, fansOut o type x = true → ∃ thread,
    (atCommit o).thread x = some thread ∧
    threshold slaDefaults thread type ≤ sinceActivity thread (atCommit o).clock
  breach : (tr.filter fun o => fansOut o .slaBreach x).length ≤ 1
  rolledBack : ∀ o ∈ tr, fails o = true →
    o.post.threads = o.pre.threads ∧ o.post.notifications = o.pre.notifications

/-- The level of a notification. -/
def levelOf : NotificationType → ℕ
  | .slaWarning => slaWarningLevel
  | _ => escalationLevel

variable {s₀ : State ThreadId} {tr : List (Occurrence (machine ThreadId slaDefaults))}
  {c : Config (machine ThreadId slaDefaults)} {o : Occurrence (machine ThreadId slaDefaults)}
  {x : ThreadId} {type : NotificationType}

/-- What the contract gives for an occurrence. -/
structure Fair (o : Occurrence (machine ThreadId slaDefaults)) : Prop where
  kept : Kept (atCommit o)
  promised : o.stmt.Promised (atCommit o)

theorem Run.fair (h : Run (Deployed slaDefaults) s₀ tr c) (h0 : Kept s₀) : ∀ o ∈ tr, Fair o := by
  have hholds := (h.holds (K := contract slaDefaults) (fun p hp i s _ _ => hp.safe) h0
    (fun _ => trivial) fun _ _ => trivial).2
  intro o ho
  obtain ⟨hkept, hkeeps⟩ := hholds o ho
  refine ⟨Kept.later hkept _, fun thread admins now hchecks => ?_⟩
  obtain ⟨hleveled, hnow⟩ := hkeeps.guar thread admins now hchecks
  exact ⟨hleveled, Int.le_trans hnow (clock_le_later _ _)⟩

/-- A level is sent when it was not reached in the cycle, and reaches it. -/
theorem Fair.sends_level (h : Fair o) (hsettled : settled o) (htype : type ≠ .slaBreach)
    (hsends : fansOut o type x = true) : ∃ cur, (atCommit o).thread x = some cur ∧
      ¬ cur.Reached (levelOf type) ∧
      threshold slaDefaults cur type ≤ sinceActivity cur (atCommit o).clock ∧
      ∃ cur', o.post.thread x = some cur' ∧ cur'.Reached (levelOf type) := by
  obtain ⟨thread, admins, now, claimed, breached, cur, hchecks, rfl, hcur, houtcome, hwarning,
    hescalation, -⟩ := sends_claims h.kept hsends
  have hclaimed : claimed = some (levelOf type) := by
    cases type with
    | slaWarning => exact hwarning rfl
    | escalation => exact hescalation rfl
    | slaBreach => exact absurd rfl htype
  obtain ⟨hwants, cur', hcur', hclaimable⟩ := houtcome.wanted _ hclaimed
  obtain rfl := Option.some.inj (hcur.symm.trans hcur')
  obtain ⟨hleveled, hnow⟩ := h.promised thread admins now hchecks
  obtain ⟨hnew, hafter, hfour, height⟩ :=
    hwants.settled hclaimable (hsettled thread admins now hchecks cur hcur) hleveled
  refine ⟨cur, hcur, hnew, ?_, _, houtcome.thread_eq hcur, ?_⟩
  · have hdue : threshold slaDefaults cur type ≤ sinceActivity cur now := by
      cases type with
      | slaWarning => exact hfour rfl
      | escalation => exact height rfl
      | slaBreach => exact absurd rfl htype
    exact Int.le_trans hdue (Int.sub_le_sub_right hnow _)
  · rw [if_pos rfl, hclaimed]
    exact claimed_reached cur breached hafter

theorem Fair.sends_breach (h : Fair o) (hsends : fansOut o .slaBreach x = true) :
    ∃ cur, (atCommit o).thread x = some cur ∧ cur.slaBreached = false ∧
      (settled o →
        threshold slaDefaults cur .slaBreach ≤ sinceActivity cur (atCommit o).clock) ∧
      ∃ cur', o.post.thread x = some cur' ∧ cur'.slaBreached = true := by
  obtain ⟨thread, admins, now, claimed, breached, cur, hchecks, rfl, hcur, houtcome, -, -,
    hbreach⟩ := sends_claims h.kept hsends
  obtain ⟨hwants, cur', hcur', hopen⟩ := houtcome.overdue (hbreach rfl)
  obtain rfl := Option.some.inj (hcur.symm.trans hcur')
  refine ⟨cur, hcur, hopen, fun hsettled => ?_, _, houtcome.thread_eq hcur, ?_⟩
  · have hdue := (hsettled thread admins now hchecks cur hcur).overdue hwants hopen
    exact Int.le_trans hdue (Int.sub_le_sub_right (h.promised thread admins now hchecks).2 _)
  · rw [if_pos rfl, hbreach rfl]
    rfl

theorem sent_levels (hchained : Chained s₀ tr c.state) (hfair : ∀ o ∈ tr, Fair o)
    (hsettled : ∀ o ∈ tr, settled o) (hquiet : ∀ o ∈ tr, activity o x = false)
    (htype : type ≠ .slaBreach) : (tr.filter fun o => fansOut o type x).length ≤ 1 := by
  refine (hchained.barred (fun o => fansOut o type x)
    (fun s => ∃ cur, s.thread x = some cur ∧ cur.Reached (levelOf type)) ?_ ?_ ?_).1
  · intro o ho hsends
    exact ((hfair o ho).sends_level (hsettled o ho) htype hsends).choose_spec.2.2.2
  · rintro o ho ⟨cur, hcur, hreached⟩
    exact execAt_reached (hfair o ho).kept (hfair o ho).promised (hsettled o ho) (hquiet o ho) hcur
      hreached
  · rintro o ho ⟨cur, hcur, hreached⟩
    by_contra hsends
    obtain ⟨cur', hcur', hnew, -⟩ :=
      (hfair o ho).sends_level (hsettled o ho) htype (Bool.not_eq_false _ ▸ hsends)
    obtain rfl := Option.some.inj (hcur.symm.trans hcur')
    exact hnew hreached

theorem sent_breach (hchained : Chained s₀ tr c.state) (hfair : ∀ o ∈ tr, Fair o) :
    (tr.filter fun o => fansOut o .slaBreach x).length ≤ 1 := by
  refine (hchained.barred (fun o => fansOut o .slaBreach x)
    (fun s => ∃ cur, s.thread x = some cur ∧ cur.slaBreached = true) ?_ ?_ ?_).1
  · intro o ho hsends
    exact ((hfair o ho).sends_breach hsends).choose_spec.2.2.2
  · rintro o ho ⟨cur, hcur, hbreached⟩
    exact execAt_breached (hfair o ho).kept hcur hbreached
  · rintro o ho ⟨cur, hcur, hbreached⟩
    by_contra hsends
    obtain ⟨cur', hcur', hopen, -⟩ := (hfair o ho).sends_breach (Bool.not_eq_false _ ▸ hsends)
    obtain rfl := Option.some.inj (hcur.symm.trans hcur')
    rw [hbreached] at hopen
    cases hopen

/-- A failed fan-out leaves nothing claimed. -/
theorem failed_same (hfails : fails o = true) :
    o.post.threads = o.pre.threads ∧ o.post.notifications = o.pre.notifications := by
  obtain ⟨i, st, choice, s⟩ := o
  unfold fails at hfails
  cases st with
  | fanOut thread admins now =>
    simp only [Stmt.rollsBack] at hfails
    split at hfails
    · rename_i failure hbody
      simp only [atCommit] at hbody
      simp only [Occurrence.post, execAt, transaction, hbody]
      exact ⟨rfl, rfl⟩
    · cases hfails
  | _ => cases hfails

/-- In every run in which each claim is settled, the escalations of a thread are sent once per
quiet period, and its breach once. -/
theorem escalations_sent_once (h : Run (Deployed slaDefaults) s₀ tr c) (h0 : Kept s₀)
    (hsettled : ∀ o ∈ tr, settled o) (x : ThreadId) : SentOnce x tr := by
  have hfair := Run.fair h h0
  constructor
  · rintro type htype before period after rfl hquiet
    obtain ⟨t, hfront, -⟩ := chained_append.mp h.chained
    obtain ⟨u, -, hperiod⟩ := chained_append.mp hfront
    have hmem : ∀ o ∈ period, o ∈ before ++ period ++ after := fun o ho =>
      List.mem_append_left _ (List.mem_append_right _ ho)
    exact sent_levels (c := ⟨t, []⟩) hperiod (fun o ho => hfair o (hmem o ho))
      (fun o ho => hsettled o (hmem o ho)) hquiet htype
  · intro o ho type hsends
    by_cases htype : type = .slaBreach
    · subst htype
      obtain ⟨cur, hcur, -, hdue, -⟩ := (hfair o ho).sends_breach hsends
      exact ⟨cur, hcur, hdue (hsettled o ho)⟩
    · obtain ⟨cur, hcur, -, hdue, -⟩ := (hfair o ho).sends_level (hsettled o ho) htype hsends
      exact ⟨cur, hcur, hdue⟩
  · exact sent_breach h.chained hfair
  · exact fun o _ hfails => failed_same hfails

end Runs

/-! ### Runs of two checks -/

section Sample

variable {ThreadId : Type} {slaDefaults : Priority → ℕ}

instance (cur thread : Thread ThreadId) (level : ℕ) : Decidable (Claimable cur thread level) :=
  decidable_of_iff (currentEscalationLevel thread < level ∧
      cur.lastEscalatedAt = thread.lastEscalatedAt ∧
      (currentEscalationLevel thread = 0 ∨ cur.lastEscalationLevel < level))
    ⟨fun ⟨due, marker, below⟩ => ⟨due, marker, below⟩, fun h => ⟨h.due, h.marker, h.below⟩⟩

instance (thread : Thread ThreadId) (canNotifyAdmins : Bool) (now : Time) (level : ℕ) :
    Decidable (Wants thread canNotifyAdmins now level) :=
  inferInstanceAs (Decidable (_ ∨ _))

instance (thread cur : Thread ThreadId) (admins : List String) (now : Time) :
    Decidable (thread.Settled slaDefaults cur admins now) :=
  decidable_of_iff
    ((∀ level ∈ [slaWarningLevel, escalationLevel], Wants thread (!admins.isEmpty) now level →
        Claimable cur thread level → cur.lastActivityAt = thread.lastActivityAt) ∧
      ((wantsBreach slaDefaults thread now && !admins.isEmpty) = true →
        cur.slaBreached = false →
          cur.lastActivityAt = thread.lastActivityAt ∧ cur.priority = thread.priority)) <| by
    refine ⟨fun ⟨level, breach⟩ => ⟨fun k hwants => level k ?_ hwants, breach⟩,
      fun h => ⟨fun k _ => h.level k, h.breach⟩⟩
    rcases hwants with ⟨rfl, -⟩ | ⟨rfl, -⟩ <;> simp

instance [DecidableEq ThreadId] (o : Occurrence (machine ThreadId slaDefaults)) :
    Decidable (settled o) :=
  decidable_of_iff (∀ check ∈ o.stmt.checks.toList,
      ∀ cur ∈ ((atCommit o).thread check.1.id).toList,
        check.1.Settled slaDefaults cur check.2.1 check.2.2) <| by
    simp only [Option.mem_toList]
    exact ⟨fun h thread admins now hchecks cur hcur => h (thread, admins, now) hchecks cur hcur,
      fun h check hchecks cur hcur => h check.1 check.2.1 check.2.2 hchecks cur hcur⟩

def sampleThread : Thread ℕ where
  id := 1
  subject := "Invoice"
  status := .awaitingResponse
  priority := .normal
  assignedToId := some "user"
  lastActivityAt := 0
  slaBreached := false
  lastEscalationLevel := 0
  lastEscalatedAt := none

/-- Five hours after the last activity. -/
def sampleState : State ℕ := ⟨18000000, [sampleThread], ["admin"], []⟩

def sampleDefaults : Priority → ℕ
  | .critical => 2
  | .high => 4
  | .normal => 24
  | .low => 72

def samplePrograms : List (Prog (Stmt ℕ) Unit) :=
  [(checkThread sampleDefaults 1).run.bind fun _ => .ret (),
    (Prog.stmt .now).bind fun now => .stmt (.message 1 now .awaitingResponse),
    (checkThread sampleDefaults 1).run.bind fun _ => .ret ()]

theorem samplePrograms_deployed : ∀ p ∈ samplePrograms, Deployed sampleDefaults p := by
  intro p hp
  simp only [samplePrograms, List.mem_cons, List.not_mem_nil, or_false] at hp
  obtain rfl | rfl | rfl := hp
  · exact .check _
  · exact .message _ _
  · exact .check _

theorem sampleState_kept : Kept sampleState := by
  refine ⟨by decide, fun thread hthread => ?_⟩
  obtain rfl := List.mem_singleton.mp hthread
  exact fun hmarked => absurd hmarked Bool.false_ne_true

/-- Two checks read the thread, and one of them sends the warning. -/
theorem escalations_sent_once_sample :
    ∃ (tr : List (Occurrence (machine ℕ sampleDefaults))) (c : Config (machine ℕ sampleDefaults)),
      Run (Deployed sampleDefaults) sampleState tr c ∧
      c.state.notifications.map (fun n => (n.userId, n.type)) = [("user", .slaWarning)] ∧
      SentOnce 1 tr := by
  have hrun : Run (M := machine ℕ sampleDefaults) (Deployed sampleDefaults) sampleState _ _ :=
    Run.of_schedule (M := machine ℕ sampleDefaults) samplePrograms samplePrograms_deployed
      [(0, ⟨0, false⟩), (2, ⟨0, false⟩), (0, ⟨0, false⟩), (2, ⟨0, false⟩), (0, ⟨5, false⟩),
        (2, ⟨5, false⟩)]
  exact ⟨_, _, hrun, by decide +kernel,
    escalations_sent_once hrun sampleState_kept (by decide +kernel) 1⟩

/-- A message comes between the reads and the claim of the first check, so that it warns at once,
and the second check warns again in the same period. -/
theorem warned_twice :
    ∃ (tr : List (Occurrence (machine ℕ sampleDefaults))) (c : Config (machine ℕ sampleDefaults)),
      Run (Deployed sampleDefaults) sampleState tr c ∧ Kept sampleState ∧ ¬ SentOnce 1 tr := by
  have hrun : Run (M := machine ℕ sampleDefaults) (Deployed sampleDefaults) sampleState _ _ :=
    Run.of_schedule (M := machine ℕ sampleDefaults) samplePrograms samplePrograms_deployed
      [(0, ⟨0, false⟩), (0, ⟨0, false⟩), (1, ⟨1, false⟩), (1, ⟨0, false⟩), (0, ⟨0, false⟩),
        (2, ⟨14400000, false⟩), (2, ⟨0, false⟩), (2, ⟨0, false⟩)]
  refine ⟨_, _, hrun, sampleState_kept, fun hsent => ?_⟩
  have htwice := hsent.levels .slaWarning (by decide) (List.take 4 _) (List.drop 4 _) []
    (by rw [List.append_nil, List.take_append_drop]) (by decide +kernel)
  exact absurd htwice (by decide +kernel)

end Sample

end Ashbi.Escalation
