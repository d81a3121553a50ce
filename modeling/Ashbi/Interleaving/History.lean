import Ashbi.Interleaving.Rules

/-! What each thread has done so far, kept beside the shared state. -/

namespace Interleaving

variable {M : Machine} {Mark : Type} {mark : Occurrence M → List Mark}
  {P : Prog M.Stmt Unit → Prop} {s₀ : M.State} {tr : List (Occurrence M)} {c : Config M}

/-- The machine that also keeps, for every thread, the marks of its statements. -/
def Machine.logged (M : Machine) (mark : Occurrence M → List Mark) : Machine where
  Stmt := M.Stmt
  Choice := M.Choice
  State := M.State × (ℕ → List Mark)
  enabled i st s := M.enabled i st s.1
  exec i st ch s := ((M.exec i st ch s.1).1, (M.exec i st ch s.1).2,
    Function.update s.2 i (s.2 i ++ mark ⟨i, st, ch, s.1⟩))

/-- The marks of thread `i` in a trace. -/
def marksOf (mark : Occurrence M → List Mark) (tr : List (Occurrence M)) (i : ℕ) : List Mark :=
  (tr.filter (·.thread = i)).flatMap mark

theorem marksOf_concat (tr : List (Occurrence M)) (o : Occurrence M) :
    marksOf mark (tr ++ [o]) =
      Function.update (marksOf mark tr) o.thread (marksOf mark tr o.thread ++ mark o) := by
  funext j
  by_cases h : o.thread = j
  · subst h
    simp [marksOf, List.filter_append]
  · have hj : j ≠ o.thread := fun e => h e.symm
    simp [marksOf, List.filter_append, h, hj]

theorem marksOf_append (t₁ t₂ : List (Occurrence M)) (i : ℕ) :
    marksOf mark (t₁ ++ t₂) i = marksOf mark t₁ i ++ marksOf mark t₂ i := by
  simp [marksOf, List.filter_append]

theorem marksOf_cons (o : Occurrence M) (tr : List (Occurrence M)) :
    marksOf mark (o :: tr) o.thread = mark o ++ marksOf mark tr o.thread := by
  simp [marksOf]

/-- The marks before, of and after one occurrence. -/
theorem marksOf_split {k : ℕ} {o : Occurrence M} (h : tr[k]? = some o) :
    marksOf mark tr o.thread = marksOf mark (tr.take k) o.thread ++
      (mark o ++ marksOf mark (tr.drop (k + 1)) o.thread) := by
  obtain ⟨hlt, hget⟩ := List.getElem?_eq_some_iff.mp h
  rw [← marksOf_cons, ← marksOf_append, ← hget, ← List.drop_eq_getElem_cons hlt,
    List.take_append_drop]

theorem mem_marksOf {i : ℕ} {m : Mark} :
    m ∈ marksOf mark tr i ↔ ∃ o ∈ tr, o.thread = i ∧ m ∈ mark o := by
  simp [marksOf, and_assoc]

/-- The occurrence without the marks. -/
def Occurrence.plain (o : Occurrence (M.logged mark)) : Occurrence M :=
  ⟨o.thread, o.stmt, o.choice, o.pre.1⟩

/-- Keeping marks changes nothing about a run. -/
theorem Run.logged (mark : Occurrence M → List Mark) (h : Run P s₀ tr c) :
    ∃ tr' : List (Occurrence (M.logged mark)), tr'.map (·.plain) = tr ∧
      Run (M := M.logged mark) P (s₀, fun _ => []) tr'
        ⟨(c.state, marksOf mark tr), c.threads⟩ := by
  induction h with
  | init => exact ⟨[], rfl, .init⟩
  | start h hp ih =>
    obtain ⟨tr', ht, hr⟩ := ih
    exact ⟨tr', ht, Run.start (M := M.logged mark) hr hp⟩
  | fork h hi ih =>
    obtain ⟨tr', ht, hr⟩ := ih
    exact ⟨tr', ht, Run.fork (M := M.logged mark) hr hi⟩
  | @call tr c i β st next ch h hi he ih =>
    obtain ⟨tr', ht, hr⟩ := ih
    rw [marksOf_concat]
    refine ⟨tr' ++ [⟨i, st, ch, (c.state, marksOf mark tr)⟩], ?_,
      Run.call (M := M.logged mark) hr hi he⟩
    rw [List.map_append, ht]
    rfl

/-- The marks that are kept are those of the statements so far. -/
theorem Run.marks_eq {tr : List (Occurrence (M.logged mark))} {c : Config (M.logged mark)}
    (h : Run (M := M.logged mark) P (s₀, fun _ => []) tr c) :
    c.state.2 = marksOf mark (tr.map (·.plain)) ∧
      ∀ k o, tr[k]? = some o → o.pre.2 = marksOf mark ((tr.map (·.plain)).take k) := by
  induction h with
  | init => exact ⟨rfl, by simp⟩
  | start _ _ ih => exact ih
  | fork _ _ ih => exact ih
  | @call tr c i β st next ch _ _ _ ih =>
    obtain ⟨hend, hpre⟩ := ih
    constructor
    · rw [List.map_append, List.map_cons, List.map_nil, marksOf_concat, ← hend]
      rfl
    · intro k o hk
      rcases Nat.lt_trichotomy k tr.length with hlt | rfl | hgt
      · rw [List.getElem?_append_left hlt] at hk
        rw [List.map_append, List.take_append_of_le_length (by simp; omega)]
        exact hpre k o hk
      · rw [List.getElem?_concat_length] at hk
        obtain rfl := Option.some.inj hk
        rw [List.map_append, List.take_left' (by simp)]
        exact hend
      · rw [List.getElem?_eq_none (by simp; omega)] at hk
        cases hk

/-- Marks are only ever added. -/
theorem Run.marks_kept {s : (M.logged mark).State} {tr : List (Occurrence (M.logged mark))}
    {c : Config (M.logged mark)} (h : Run (M := M.logged mark) P s tr c)
    {o : Occurrence (M.logged mark)} (ho : o ∈ tr) (i : ℕ) : o.pre.2 i ⊆ c.state.2 i := by
  have step : ∀ (o : Occurrence (M.logged mark)) i, o.pre.2 i ⊆ o.post.2 i := by
    intro o i
    by_cases hi : i = o.thread
    · subst hi
      simp [Occurrence.post, Machine.logged]
    · simp [Occurrence.post, Machine.logged, Function.update_of_ne hi]
  obtain ⟨-, hpost⟩ := Run.preserves (M := M.logged mark) (fun s t => ∀ i, s.2 i ⊆ t.2 i)
    (fun _ _ => List.Subset.refl _) (fun _ _ _ h h' i _ hm => h' i (h i hm)) h
    fun o _ => step o
  exact fun _ hm => hpost o ho i (step o i hm)

/-! ### Along a run -/

/-- What each statement keeps of the trace before it and the state that it finds holds all along
the run. -/
theorem Run.along (I : List (Occurrence M) → M.State → Prop) (h : Run P s₀ tr c) (h0 : I [] s₀)
    (step : ∀ (k : ℕ) o, tr[k]? = some o → ∀ c', Run P s₀ (tr.take k) c' → c'.state = o.pre →
      M.enabled o.thread o.stmt o.pre = true → I (tr.take k) o.pre →
      I (tr.take k ++ [o]) o.post) :
    I tr c.state ∧ ∀ (k : ℕ) o, tr[k]? = some o → I (tr.take k ++ [o]) o.post := by
  induction h with
  | init => exact ⟨h0, by simp⟩
  | start _ _ ih => exact ih step
  | fork _ _ ih => exact ih step
  | @call tr c i β st next ch h hi he ih =>
    have hbefore : ∀ (last : Occurrence M) (k : ℕ) o, tr[k]? = some o →
        (tr ++ [last]).take k = tr.take k ∧ (tr ++ [last])[k]? = some o := by
      intro last k o ho
      obtain ⟨hlt, -⟩ := List.getElem?_eq_some_iff.mp ho
      exact ⟨List.take_append_of_le_length (Nat.le_of_lt hlt),
        (List.getElem?_append_left hlt).trans ho⟩
    obtain ⟨hend, hall⟩ := ih fun k o ho c' hc' => by
      obtain ⟨htake, ho⟩ := hbefore ⟨i, st, ch, c.state⟩ k o ho
      rw [← htake] at hc' ⊢
      exact step k o ho c' hc'
    have hlast := step tr.length ⟨i, st, ch, c.state⟩ List.getElem?_concat_length c
    rw [List.take_left' rfl] at hlast
    have hnow := hlast h rfl he hend
    refine ⟨hnow, fun k o ho => ?_⟩
    rcases Nat.lt_trichotomy k tr.length with hlt | rfl | hgt
    · rw [List.getElem?_append_left hlt] at ho
      rw [(hbefore _ k o ho).1]
      exact hall k o ho
    · rw [List.getElem?_concat_length] at ho
      obtain rfl := Option.some.inj ho
      rw [List.take_left' rfl]
      exact hnow
    · rw [List.getElem?_eq_none (by simp; omega)] at ho
      cases ho

/-- It holds before each statement, too. -/
theorem Run.along_before (I : List (Occurrence M) → M.State → Prop) (h : Run P s₀ tr c)
    (h0 : I [] s₀)
    (step : ∀ (k : ℕ) o, tr[k]? = some o → ∀ c', Run P s₀ (tr.take k) c' → c'.state = o.pre →
      M.enabled o.thread o.stmt o.pre = true → I (tr.take k) o.pre →
      I (tr.take k ++ [o]) o.post) (k : ℕ) (o : Occurrence M) (ho : tr[k]? = some o) :
    I (tr.take k) o.pre := by
  obtain ⟨⟨-, hall⟩, -⟩ := h.along (fun tr s => I tr s ∧ ∀ (k : ℕ) o, tr[k]? = some o →
    I (tr.take k) o.pre) ⟨h0, by simp⟩ fun k o ho c' hc' hstate he hk => by
      refine ⟨step k o ho c' hc' hstate he hk.1, fun j q hq => ?_⟩
      have hlength : (tr.take k).length = k :=
        List.length_take_of_le (Nat.le_of_lt (List.getElem?_eq_some_iff.mp ho).1)
      rcases Nat.lt_trichotomy j k with hlt | rfl | hgt
      · rw [List.getElem?_append_left (by omega)] at hq
        rw [List.take_append_of_le_length (by omega)]
        exact hk.2 j q hq
      · rw [List.getElem?_append_right (by omega), hlength, Nat.sub_self] at hq
        obtain rfl := Option.some.inj hq
        rw [List.take_left' hlength]
        exact hk.1
      · rw [List.getElem?_eq_none (by simp; omega)] at hq
        cases hq
  exact hall k o ho

end Interleaving
