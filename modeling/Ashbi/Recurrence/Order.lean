import Ashbi.Recurrence.Copies

/-! The copies of a recurring task come in the order of their dates. -/

namespace Ashbi.Recurrence

open Interleaving

section Runs

variable {TaskId : Type} [LinearOrder TaskId] {zones : Zones}

/-- What an occurrence generates. -/
def generated (o : Occurrence (machine TaskId zones)) : Option (TaskId × ℤ) :=
  o.stmt.generates o.choice o.pre

/-- The source that an occurrence copies. -/
def copied (o : Occurrence (machine TaskId zones)) : List TaskId :=
  ((generated o).map (·.1)).toList

/-- The date of the copy of `x` that an occurrence generates. -/
def scheduledDate (x : TaskId) (o : Occurrence (machine TaskId zones)) : Option ℤ :=
  (generated o).bind fun copy => if copy.1 = x then some copy.2 else none

/-- A claim that a thread sends advances to a later date, for a source that the thread has
not copied yet. -/
def Stmt.Promised {β : Type} (st : Stmt TaskId β) (copies : List TaskId) : Prop :=
  st.Dated ∧ match st with
    | .claim source _ _ => source.id ∉ copies
    | _ => True

/-- Threads rely on the list of their own copies. -/
def contract (zones : Zones) :
    Contract ((machine TaskId zones).logged copied) where
  inv := fun s => Kept s.1
  rely := fun i s t => s.2 i = t.2 i
  assumed := fun _ => True
  guar := fun o => Stmt.Promised o.stmt (o.pre.2 o.thread)
  refl := fun _ _ => rfl
  trans := fun _ _ _ _ => Eq.trans
  fresh := fun i s => s.2 i = []
  fresh_rely := fun _ _ _ h hs => h ▸ hs

variable {i : ℕ} {s : State TaskId × (ℕ → List TaskId)}

theorem keeps_of {β : Type} {st : Stmt TaskId β} {newId : TaskId} (h : Kept s.1)
    (hp : st.Promised (s.2 i)) : (contract zones).Keeps ⟨i, st, newId, s⟩ where
  guar := hp
  inv := (exec_step st newId h hp.1).kept
  others _ hj := (Function.update_of_ne hj _ _).symm

/-- Every copy that thread `i` made has its source in `P`. -/
def Within (i : ℕ) (P : TaskId → Prop) (s : State TaskId × (ℕ → List TaskId)) : Prop :=
  ∀ x ∈ s.2 i, P x

omit [LinearOrder TaskId] in
theorem Within.mono {P Q : TaskId → Prop} (h : Within i P s) (hpq : ∀ x, P x → Q x) :
    Within i Q s := fun x hx => hpq x (h x hx)

theorem findSources_ids (s : State TaskId) (after : Option TaskId) (h : Kept s) :
    ((findSources s after).map (·.id)).Nodup ∧
    (findSources s after).Pairwise (·.id ≤ ·.id) ∧
    ∀ source ∈ findSources s after, ∀ a ∈ after, a < source.id := by
  unfold findSources
  refine ⟨?_, ?_, ?_⟩
  · apply List.Nodup.sublist ((List.take_sublist _ _).map _)
    apply ((List.perm_insertionSort _ _).map _).nodup_iff.mpr
    exact h.unique.sublist (List.filter_sublist.map _)
  · exact (List.pairwise_insertionSort _ _).sublist (List.take_sublist _ _)
  · intro source hsource a ha
    have hmem := (List.mem_insertionSort _).mp (List.mem_of_mem_take hsource)
    obtain rfl := ha
    have hselected := (List.mem_filter.mp hmem).2
    simp only [Bool.and_eq_true, Option.all_some, decide_eq_true_eq] at hselected
    exact hselected.2

section Programs

variable {P : TaskId → Prop} {now : Time}

/-- A claim may only add its own source. -/
theorem claim_safe {source : Task TaskId} {date next : ℤ} {β : Type}
    {rest : Claimed → Prog (Stmt TaskId) β} {Q : β → State TaskId × (ℕ → List TaskId) → Prop}
    (hs : Within i P s) (hfresh : ¬ P source.id) (hdated : date < next)
    (hrest : ∀ b t, Within i (fun x => P x ∨ x = source.id) t →
      (rest b).Safe (contract zones) i Q t) :
    (Prog.call (.claim source date next) rest).Safe (contract zones) i Q s := by
  intro t newId hr hkept _ _
  have hown : Within i P t := by
    intro x hx
    exact hs x (hr ▸ hx)
  refine ⟨keeps_of hkept ⟨hdated, fun hmem => hfresh (hown _ hmem)⟩, hrest _ _ ?_⟩
  intro x hx
  simp only [Machine.logged, Function.update_self, List.mem_append] at hx
  rcases hx with hx | hx
  · exact .inl (hown x hx)
  · right
    simp only [copied, generated, Stmt.generates, Option.mem_toList, Option.map_eq_some_iff] at hx
    obtain ⟨copy, hcopy, rfl⟩ := hx
    split at hcopy
    · rw [← Option.some.inj hcopy]
    · cases hcopy

theorem processSource_safe {totals : Totals TaskId} {source : Task TaskId} (hs : Within i P s)
    (hfresh : ¬ P source.id) : (processSource zones now totals source).Safe (contract zones) i
      (fun _ t => Within i (fun x => P x ∨ x = source.id) t) s := by
  have hidle : Within i (fun x => P x ∨ x = source.id) s := hs.mono fun _ => .inl
  unfold processSource
  dsimp only
  split
  · exact hidle
  rename_i rule hrule
  split
  · exact hidle
  split
  · exact hidle
  rename_i hdue
  have hnext := recurrenceAfter_gt rule (zones now rule.timeZone)
  apply claim_safe hs hfresh (by omega)
  intro claimed t ht
  cases claimed <;> exact ht

theorem processSources_safe {sources : List (Task TaskId)} {totals : Totals TaskId}
    (hs : Within i P s) (hfresh : ∀ source ∈ sources, ¬ P source.id)
    (hnodup : (sources.map (·.id)).Nodup) :
    (sources.foldlM (processSource zones now) totals).Safe (contract zones) i
      (fun _ t => Within i (fun x => P x ∨ x ∈ sources.map (·.id)) t) s := by
  induction sources generalizing P totals s with
  | nil => exact hs.mono fun _ => .inl
  | cons source rest ih =>
    obtain ⟨hhead, htail⟩ := List.nodup_cons.mp hnodup
    apply Prog.Safe.bind
    apply (processSource_safe hs (hfresh source List.mem_cons_self)).mono
    intro totals' t ht
    apply (ih ht _ htail).mono
    · intro _ u hu
      exact hu.mono fun x hx => by simpa [or_assoc] using hx
    · intro other hother hor
      rcases hor with hp | hid
      · exact hfresh other (List.mem_cons_of_mem _ hother) hp
      · exact hhead (List.mem_map.mpr ⟨other, hother, hid⟩)

/-- What thread `i` copied lies before the cursor of its loop. -/
def Passed (i : ℕ) (after : Option TaskId) : State TaskId × (ℕ → List TaskId) → Prop :=
  Within i fun x => ∃ a ∈ after, x ≤ a

/-- Behind a page the cursor is its last source. -/
theorem passed_page {after : Option TaskId} {sources : List (Task TaskId)}
    {t : State TaskId × (ℕ → List TaskId)} (hne : sources ≠ [])
    (hsorted : sources.Pairwise (·.id ≤ ·.id))
    (hafter : ∀ source ∈ sources, ∀ a ∈ after, a < source.id)
    (ht : Within i (fun x => (∃ a ∈ after, x ≤ a) ∨ x ∈ sources.map (·.id)) t) :
    Passed i (sources.getLast?.map (·.id)) t := by
  have hlast : ∀ source ∈ sources, source.id ≤ (sources.getLast hne).id := by
    intro source hsource
    rcases eq_or_ne source (sources.getLast hne) with heq | hother
    · rw [heq]
    · have hbefore : source ∈ sources.dropLast := by
        rw [← List.dropLast_concat_getLast hne] at hsource
        rcases List.mem_append.mp hsource with hin | hin
        · exact hin
        · exact absurd (List.mem_singleton.mp hin) hother
      rw [← List.dropLast_concat_getLast hne, List.pairwise_append] at hsorted
      exact hsorted.2.2 source hbefore _ (List.mem_singleton_self _)
  rw [List.getLast?_eq_some_getLast hne]
  refine Within.mono ht fun x hx => ?_
  refine ⟨_, rfl, ?_⟩
  rcases hx with ⟨a, ha, hxa⟩ | hx
  · exact hxa.trans (hafter _ (List.getLast_mem hne) a ha).le
  · obtain ⟨source, hsource, rfl⟩ := List.mem_map.mp hx
    exact hlast source hsource

theorem processPages_safe {pages : ℕ} {after : Option TaskId} {totals : Totals TaskId}
    (hs : Passed i after s) :
    (processPages zones now pages after totals).Safe (contract zones) i (fun _ _ => True) s := by
  induction pages generalizing after totals s with
  | zero => trivial
  | succ pages ih =>
    intro t newId hr hkept _ _
    refine ⟨keeps_of hkept ⟨trivial, trivial⟩, ?_⟩
    obtain ⟨hnodup, hsorted, hafter⟩ := findSources_ids t.1 after hkept
    have ht : Passed i after ((machine TaskId zones).logged copied |>.exec i
        (.findSources after) newId t).2 := by
      intro x hx
      have hown : (((machine TaskId zones).logged copied).exec i (.findSources after) newId t).2.2 i
          = t.2 i := by simp [Machine.logged, copied, generated, Stmt.generates]
      rw [hown, ← hr] at hx
      exact hs x hx
    simp only [Prog.ret_bind]
    apply Prog.Safe.bind
    apply (processSources_safe ht ?_ hnodup).mono
    · intro totals' u hu
      split
      · trivial
      · rename_i hfull
        have hne : findSources t.1 after ≠ [] := by
          intro hnil
          simp [Machine.logged, exec, hnil] at hfull
        exact ih (passed_page hne hsorted hafter hu)
    · rintro source hsource ⟨a, ha, hle⟩
      exact absurd hle (not_le.mpr (hafter source hsource a ha))

theorem Deployed.safe {p : Prog (Stmt TaskId) Unit} (h : Deployed zones p) (hs : s.2 i = []) :
    p.Safe (contract zones) i (fun _ _ => True) s := by
  cases h with
  | process now pages =>
    apply Prog.Safe.bind
    apply Prog.Safe.bind
    have hpassed : Passed i none s := by
      intro x hx
      simp [hs] at hx
    apply (processPages_safe hpassed).mono
    intro totals t _
    split <;> trivial
  | save id input now =>
    intro t newId _ hkept _ _
    exact ⟨keeps_of hkept ⟨trivial, trivial⟩, trivial⟩
  | activity id boardActive projectActive =>
    intro t newId _ hkept _ _
    exact ⟨keeps_of hkept ⟨trivial, trivial⟩, trivial⟩

end Programs

/-- An executed statement that kept its promise. -/
structure Fair (o : Occurrence (machine TaskId zones)) : Prop where
  kept : Kept o.pre
  dated : o.stmt.Dated

theorem Fair.step {o : Occurrence (machine TaskId zones)} (h : Fair o) :
    Step (generated o) o.pre o.post := exec_step o.stmt o.choice h.kept h.dated

theorem scheduledDate_eq_some {x : TaskId} {o : Occurrence (machine TaskId zones)} {date : ℤ} :
    scheduledDate x o = some date ↔ generated o = some (x, date) := by
  unfold scheduledDate
  cases generated o with
  | none => simp
  | some copy =>
    obtain ⟨id, d⟩ := copy
    by_cases hid : id = x <;> simp [hid]

theorem scheduledDate_eq_none {x : TaskId} {o : Occurrence (machine TaskId zones)} :
    scheduledDate x o = none ↔ ∀ date, generated o ≠ some (x, date) := by
  simp only [Option.eq_none_iff_forall_ne_some, ne_eq, scheduledDate_eq_some]

variable {s₀ : State TaskId} {tr : List (Occurrence (machine TaskId zones))}
  {c : Config (machine TaskId zones)}

/-- Every statement of a run is fair, and a thread copies no source twice. -/
theorem Run.fair (h : Run (Deployed zones) s₀ tr c) (h0 : Kept s₀) :
    Kept c.state ∧ (∀ o ∈ tr, Fair o) ∧ ∀ i, (marksOf copied tr i).Nodup := by
  obtain ⟨tr', rfl, hrun⟩ := h.logged copied
  have hstart : (contract zones).inv (s₀, fun _ => []) := h0
  have hfresh : ∀ i, (contract zones).fresh i (s₀, fun _ => []) := fun _ => rfl
  obtain ⟨hend, hkeeps⟩ := hrun.holds (K := contract zones) (fun p hp i s _ hs => hp.safe hs) hstart
    hfresh fun _ _ => trivial
  refine ⟨hend.inv, fun o ho => ?_, fun i => ?_⟩
  · obtain ⟨o', ho', rfl⟩ := List.mem_map.mp ho
    exact ⟨(hkeeps o' ho').1, (hkeeps o' ho').2.guar.1⟩
  · have hnodup := hrun.chained.invariant (fun s => ∀ i, (s.2 i).Nodup) ?_ fun _ => List.nodup_nil
    · exact hnodup.1 i
    intro o ho hpre j
    have hguar := (hkeeps o ho).2.guar
    obtain ⟨k, st, newId, s⟩ := o
    by_cases hj : j = k
    · subst hj
      simp only [Occurrence.post, Machine.logged, Function.update_self]
      cases st with
      | claim source date next =>
        simp only [copied, generated, Stmt.generates]
        split
        · have hnew : source.id ∉ s.2 j := hguar.2
          apply List.nodup_append.mpr
          refine ⟨hpre j, by simp, fun a ha b hb heq => ?_⟩
          obtain rfl : b = source.id := by simpa using hb
          exact hnew (heq ▸ ha)
        · simpa using hpre j
      | _ => simpa [copied, generated, Stmt.generates] using hpre j
    · simp only [Occurrence.post, Machine.logged, Function.update_of_ne hj]
      exact hpre j

/-- In every run the next date of a task stays behind its last one, the dates of the copies of
a source only grow, and a thread copies a source at most once. -/
theorem recurrence_order (h : Run (Deployed zones) s₀ tr c) (h0 : Kept s₀) :
    (∀ task ∈ c.state.tasks, task.Ordered) ∧
    (∀ x, (tr.filterMap (scheduledDate x)).Pairwise (· < ·) ∧
      (∀ date ∈ tr.filterMap (scheduledDate x), ∀ last ∈ s₀.lastDate x, last < date) ∧
      c.state.copies x = s₀.copies x ++ tr.filterMap (scheduledDate x)) ∧
    ∀ i, (marksOf copied tr i).Nodup := by
  obtain ⟨hkept, hfair, hnodup⟩ := Run.fair h h0
  refine ⟨hkept.ordered, fun x => ?_, hnodup⟩
  have hgrows : ∀ o ∈ tr, ∀ date ∈ scheduledDate x o,
      (∀ last ∈ o.pre.lastDate x, last < date) ∧ o.post.lastDate x = some date := by
    intro o ho date hdate
    have hstep := (hfair o ho).step.grows x date (scheduledDate_eq_some.mp hdate)
    exact ⟨hstep.1, hstep.2.1⟩
  have hkeeps : ∀ o ∈ tr, scheduledDate x o = none → o.post.lastDate x = o.pre.lastDate x :=
    fun o ho hnone => ((hfair o ho).step.others x (scheduledDate_eq_none.mp hnone)).1
  obtain ⟨hpair, hlast⟩ := h.chained.increasing (fun _ _ _ => Int.lt_trans) (scheduledDate x)
    (fun s => s.lastDate x) hgrows hkeeps
  refine ⟨hpair, hlast, h.chained.collects (fun s => s.copies x) (scheduledDate x) ?_⟩
  intro o ho
  cases hdate : scheduledDate x o with
  | none => simp [((hfair o ho).step.others x (scheduledDate_eq_none.mp hdate)).2]
  | some date => simp [((hfair o ho).step.grows x date (scheduledDate_eq_some.mp hdate)).2.2]

end Runs

/-! ### A schedule that changes between two runs -/

section Sample

def sampleRule (frequency : Frequency) : Rule where
  trigger := none
  frequency := frequency
  interval := 1
  startDate := 20500
  timeZone := "UTC"
  interval_pos := by decide
  interval_le := by decide
  start_from := by decide +kernel
  start_to := by decide +kernel

def sampleTask : Task ℕ where
  id := 1
  projectId := "project"
  boardActive := true
  projectActive := true
  dueDate := none
  recurrenceRule := some (sampleRule .weekly)
  recurrenceNextDate := some 20500
  recurrenceLastDate := none
  recurrenceRevision := 0
  recurrenceSourceId := none
  recurrenceScheduledDate := none
  recurrenceFirstCompletedAt := none
  recurrenceCompletionProcessedAt := none

/-- The zone of every rule is at the given day. -/
def sampleZones : Zones := fun now _ => now

def sampleState : State ℕ := ⟨[sampleTask]⟩

def samplePrograms : List (Prog (Stmt ℕ) Unit) :=
  [(processRecurringTasks sampleZones 20503 3).bind fun _ => .ret (),
    (Prog.stmt (.save 1 ⟨some (sampleRule .daily), 0, none⟩ 20490)).bind fun _ => .ret (),
    (processRecurringTasks sampleZones 20503 3).bind fun _ => .ret ()]

theorem samplePrograms_deployed : ∀ p ∈ samplePrograms, Deployed sampleZones p := by
  intro p hp
  simp only [samplePrograms, List.mem_cons, List.not_mem_nil, or_false] at hp
  obtain rfl | rfl | rfl := hp
  · exact .process _ _
  · exact .save _ _ _
  · exact .process _ _

/-- The daily rule is saved at an earlier day, and the second run goes on from the last date. -/
theorem recurrence_order_sample : ∃ (tr : List (Occurrence (machine ℕ sampleZones)))
    (c : Config (machine ℕ sampleZones)),
    Run (Deployed sampleZones) sampleState tr c ∧
    c.state.copies 1 = [20500, 20501] ∧ (∀ task ∈ c.state.tasks, task.Ordered) := by
  have hrun : Run (M := machine ℕ sampleZones) (Deployed sampleZones) sampleState _ _ :=
    Run.of_schedule (M := machine ℕ sampleZones) samplePrograms samplePrograms_deployed
      [(0, 2), (0, 2), (1, 0), (2, 3), (2, 3)]
  have hkept : Kept sampleState := ⟨by decide, by simp [Task.Ordered, sampleState, sampleTask]⟩
  exact ⟨_, _, hrun, by decide +kernel, (recurrence_order hrun hkept).1⟩

end Sample

end Ashbi.Recurrence
