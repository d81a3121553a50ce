import Ashbi.Interleaving.Budget

/-! The events of a run, kept beside the shared state. -/

namespace Interleaving

variable {M : Machine} {Event : Type} {event : Occurrence M → List Event}
  {P : Prog M.Stmt Unit → Prop} {s₀ : M.State} {tr : List (Occurrence M)} {c : Config M}

/-- The machine that also keeps the events of its statements, oldest first. -/
def Machine.watched (M : Machine) (event : Occurrence M → List Event) : Machine where
  Stmt := M.Stmt
  Choice := M.Choice
  State := M.State × List Event
  enabled i st s := M.enabled i st s.1
  exec i st ch s :=
    ((M.exec i st ch s.1).1, (M.exec i st ch s.1).2, s.2 ++ event ⟨i, st, ch, s.1⟩)

/-- The occurrence without the events. -/
def Occurrence.unwatched (o : Occurrence (M.watched event)) : Occurrence M :=
  ⟨o.thread, o.stmt, o.choice, o.pre.1⟩

/-- Keeping events changes nothing about a run. -/
theorem Run.watched (event : Occurrence M → List Event) (h : Run P s₀ tr c) :
    ∃ tr' : List (Occurrence (M.watched event)), tr'.map (·.unwatched) = tr ∧
      Run (M := M.watched event) P (s₀, []) tr' ⟨(c.state, tr.flatMap event), c.threads⟩ := by
  induction h with
  | init => exact ⟨[], rfl, .init⟩
  | start h hp ih =>
    obtain ⟨tr', ht, hr⟩ := ih
    exact ⟨tr', ht, Run.start (M := M.watched event) hr hp⟩
  | fork h hi ih =>
    obtain ⟨tr', ht, hr⟩ := ih
    exact ⟨tr', ht, Run.fork (M := M.watched event) hr hi⟩
  | @call tr c i β st next ch h hi he ih =>
    obtain ⟨tr', ht, hr⟩ := ih
    rw [List.flatMap_append, List.flatMap_singleton]
    refine ⟨tr' ++ [⟨i, st, ch, (c.state, tr.flatMap event)⟩], ?_,
      Run.call (M := M.watched event) hr hi he⟩
    rw [List.map_append, ht]
    rfl

/-- The events that are kept are those of the statements so far. -/
theorem Run.seen_eq {tr : List (Occurrence (M.watched event))} {c : Config (M.watched event)}
    (h : Run (M := M.watched event) P (s₀, []) tr c) {k : ℕ} {o : Occurrence (M.watched event)}
    (ho : tr[k]? = some o) : o.pre.2 = ((tr.take k).map (·.unwatched)).flatMap event := by
  have hall : c.state.2 = (tr.map (·.unwatched)).flatMap event ∧ ∀ (k : ℕ) o, tr[k]? = some o →
      o.pre.2 = ((tr.take k).map (·.unwatched)).flatMap event := by
    clear ho k
    induction h with
    | init => exact ⟨rfl, by simp⟩
    | start _ _ ih => exact ih
    | fork _ _ ih => exact ih
    | @call tr c i β st next ch _ _ _ ih =>
      obtain ⟨hend, hpre⟩ := ih
      constructor
      · rw [List.map_append, List.flatMap_append, ← hend, List.map_singleton,
          List.flatMap_singleton]
        rfl
      · intro k o hk
        rcases Nat.lt_trichotomy k tr.length with hlt | rfl | hgt
        · rw [List.getElem?_append_left hlt] at hk
          rw [List.take_append_of_le_length (Nat.le_of_lt hlt)]
          exact hpre k o hk
        · rw [List.getElem?_concat_length] at hk
          obtain rfl := Option.some.inj hk
          rw [List.take_left' rfl]
          exact hend
        · rw [List.getElem?_eq_none (by simp; omega)] at hk
          cases hk
  exact hall.2 k o ho

/-! ### Events that only one thread can bring about -/

variable {owns : Event → ℕ → List Event → Prop} {α β : Type} {i : ℕ}

/-- Events are only added, and those of thread `i` by itself. -/
def Onward (owns : Event → ℕ → List Event → Prop) (i : ℕ) (s t : α × List Event) : Prop :=
  ∃ later, t.2 = s.2 ++ later ∧ ∀ e ∈ later, ¬ owns e i s.2

/-- What the other threads cannot change about the events. -/
def Stable (owns : Event → ℕ → List Event → Prop) (i : ℕ) (R : List Event → Prop) : Prop :=
  ∀ h later, (∀ e ∈ later, ¬ owns e i h) → R h → R (h ++ later)

theorem stable_true : Stable owns i fun _ => True := fun _ _ _ _ => trivial

theorem Stable.onward {R : List Event → Prop} {s t : α × List Event} (h : Stable owns i R)
    (hr : Onward owns i s t) (hs : R s.2) : R t.2 := by
  obtain ⟨later, ht, hlater⟩ := hr
  rw [ht]
  exact h s.2 later hlater hs

/-- What is kept beside the state of a machine, and what is promised of it. `inv` holds between
statements, `assumed` restricts the runs considered and `guar` is said of every statement; a thread
knows `fresh` when it starts and `final` when it is done. -/
structure Watcher (M : Machine) (Event : Type) where
  event : Occurrence M → List Event
  owns : Event → ℕ → List Event → Prop
  mono : ∀ e i h later, owns e i h → owns e i (h ++ later)
  inv : M.State → List Event → Prop
  assumed : Occurrence M → Prop := fun _ => True
  guar : Occurrence M → List Event → Prop := fun _ _ => True
  fresh : ℕ → List Event → Prop := fun _ _ => True
  final : ℕ → List Event → Prop := fun _ _ => True
  stable_fresh : ∀ i, Stable owns i (fresh i) := by exact fun _ => stable_true
  stable_final : ∀ i, Stable owns i (final i) := by exact fun _ => stable_true

namespace Watcher

/-- The contract in which every thread leaves the events of the others to them. -/
def contract (W : Watcher M Event) : Contract (M.watched W.event) where
  inv := fun s => W.inv s.1 s.2
  rely := Onward W.owns
  assumed := fun o => W.assumed o.unwatched
  guar := fun o => W.guar o.unwatched o.pre.2
  fresh := fun i s => W.fresh i s.2
  final := fun i s => W.final i s.2
  fresh_rely := fun i _ _ hr hs => (W.stable_fresh i).onward hr hs
  final_rely := fun i _ _ hr hs => (W.stable_final i).onward hr hs
  refl := fun _ s => ⟨[], (List.append_nil _).symm, by simp⟩
  trans := by
    rintro i s t u ⟨later, ht, hlater⟩ ⟨later', hu, hlater'⟩
    refine ⟨later ++ later', by rw [hu, ht, List.append_assoc], fun e he hof => ?_⟩
    rcases List.mem_append.mp he with he | he
    · exact hlater e he hof
    · exact hlater' e he (ht ▸ W.mono e i s.2 later hof)

variable {W : Watcher M Event} {s : M.State × List Event}

theorem keeps {st : M.Stmt β} {ch : M.Choice}
    (hinv : W.inv (M.exec i st ch s.1).2 (s.2 ++ W.event ⟨i, st, ch, s.1⟩))
    (hothers : ∀ j, j ≠ i → ∀ e ∈ W.event ⟨i, st, ch, s.1⟩, ¬ W.owns e j s.2)
    (hguar : W.guar ⟨i, st, ch, s.1⟩ s.2 := by exact trivial) : W.contract.Keeps ⟨i, st, ch, s⟩ :=
  ⟨hguar, hinv, fun j hj => ⟨_, rfl, hothers j hj⟩⟩

/-! ### Statements that nothing is kept of -/

variable {bar : {β : Type} → M.Stmt β → Bool} {R : List Event → Prop}
  {Q : α → (M.watched W.event).State → Prop}

/-- The statements that are not barred keep the invariant and leave no event. -/
structure Silent (W : Watcher M Event) (bar : {β : Type} → M.Stmt β → Bool) : Prop where
  inv : ∀ {β : Type} (st : M.Stmt β), bar st = false → ∀ i ch s h, W.inv s h →
    W.inv (M.exec i st ch s).2 h
  event : ∀ {β : Type} (st : M.Stmt β), bar st = false → ∀ i ch s, W.event ⟨i, st, ch, s⟩ = []
  guar : ∀ {β : Type} (st : M.Stmt β), bar st = false → ∀ i ch s h, W.guar ⟨i, st, ch, s⟩ h := by
    exact fun _ _ _ _ _ _ => trivial

/-- A silent statement, and what follows it. -/
theorem Silent.call {st : M.Stmt β} {next : β → Prog M.Stmt α} (hsilent : W.Silent bar)
    (hst : bar st = false) (hstable : Stable W.owns i R) (hR : R s.2)
    (hnext : ∀ (t : M.State × List Event) ch, W.inv t.1 t.2 → R t.2 →
      (next (M.exec i st ch t.1).1).Safe W.contract i Q ((M.exec i st ch t.1).2, t.2)) :
    Prog.Safe W.contract i (Prog.call (S := M.Stmt) st next) Q s := by
  intro t ch hr hinv _ _
  have hinv : W.inv t.1 t.2 := hinv
  have hpost := hsilent.inv st hst i ch t.1 t.2 hinv
  have hevents := hsilent.event st hst i ch t.1
  have hexec : (M.watched W.event).exec i st ch t =
      ((M.exec i st ch t.1).1, (M.exec i st ch t.1).2, t.2) := by
    change (_, _, t.2 ++ W.event ⟨i, st, ch, t.1⟩) = _
    rw [hevents, List.append_nil]
  rw [hexec]
  refine ⟨keeps ?_ ?_ (hsilent.guar st hst i ch t.1 t.2), hnext t ch hinv (hstable.onward hr hR)⟩
  · rw [hevents, List.append_nil]
    exact hpost
  · rw [hevents]
    exact fun _ _ _ he => absurd he List.not_mem_nil

/-- A program of silent statements leaves what its thread knows. -/
theorem Silent.safe {p : Prog M.Stmt α} {Q : α → Prop} (hsilent : W.Silent bar)
    (h : p.Without bar Q) (hstable : Stable W.owns i R) (hR : R s.2) :
    Prog.Safe W.contract i p (fun a t => Q a ∧ R t.2) s := by
  induction p generalizing s with
  | ret a => exact ⟨h, hR⟩
  | call st next ih =>
    exact hsilent.call h.1 hstable hR fun t ch _ ht => ih _ (h.2 _) ht
  | fork child next _ _ => cases h

/-- The run rule: the invariant holds of every state with the events that led to it. -/
theorem run (W : Watcher M Event)
    (hP : ∀ p, P p → ∀ i (s : M.State × List Event), W.fresh i s.2 →
      Prog.Safe W.contract i p (fun _ t => W.final i t.2) s)
    (h0 : W.inv s₀ []) (hf : ∀ i, W.fresh i []) (h : Run P s₀ tr c) (ha : ∀ o ∈ tr, W.assumed o) :
    W.inv c.state (tr.flatMap W.event) ∧
      (∀ (k : ℕ) o, tr[k]? = some o → W.inv o.pre ((tr.take k).flatMap W.event)) ∧
      (∀ i, c.threads[i]? = some (.ret ()) → W.final i (tr.flatMap W.event)) ∧
      ∀ (k : ℕ) o, tr[k]? = some o → W.guar o ((tr.take k).flatMap W.event) := by
  obtain ⟨tr', rfl, hrun⟩ := h.watched W.event
  have hinit : W.contract.inv (s₀, []) := h0
  obtain ⟨hend, hall⟩ := Run.holds (K := W.contract) (fun p hp i s _ hs => hP p hp i s hs) hinit
    hf hrun fun o ho => ha _ (List.mem_map_of_mem ho)
  have hat (k : ℕ) (o : Occurrence M) (ho : (tr'.map (·.unwatched))[k]? = some o) :
      W.inv o.pre (((tr'.map (·.unwatched)).take k).flatMap W.event) ∧
        W.guar o (((tr'.map (·.unwatched)).take k).flatMap W.event) := by
    rw [List.getElem?_map, Option.map_eq_some_iff] at ho
    obtain ⟨o', ho', rfl⟩ := ho
    rw [← List.map_take, ← hrun.seen_eq ho']
    obtain ⟨hinv, hkeeps⟩ := hall o' (List.mem_of_getElem? ho')
    exact ⟨hinv, hkeeps.guar⟩
  exact ⟨hend.inv, fun k o ho => (hat k o ho).1, fun i hi => hend.final hi,
    fun k o ho => (hat k o ho).2⟩

end Watcher

end Interleaving
