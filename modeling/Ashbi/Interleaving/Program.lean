import Mathlib.Data.List.Basic

/-! Sequential programs over atomic statements, and their interleaved runs. -/

namespace Interleaving

/-- A sequential program. `call` is one atomic statement on the shared state;
`fork` starts a child that the program no longer waits for. -/
inductive Prog (S : Type → Type) : Type → Type 1
  | ret {α : Type} (a : α) : Prog S α
  | call {α β : Type} (st : S β) (next : β → Prog S α) : Prog S α
  | fork {α : Type} (child : Prog S Unit) (next : Prog S α) : Prog S α

namespace Prog

variable {S : Type → Type} {α β γ : Type}

def bind : {α : Type} → Prog S α → (α → Prog S β) → Prog S β
  | _, .ret a, f => f a
  | _, .call st next, f => .call st (fun b => (next b).bind f)
  | _, .fork child next, f => .fork child (next.bind f)

instance : Monad (Prog S) where
  pure := .ret
  bind := bind

/-- One statement, returning its own result. -/
def stmt (st : S α) : Prog S α := .call st .ret

@[simp] theorem pure_def (a : α) : (pure a : Prog S α) = .ret a := rfl
@[simp] theorem bind_def (p : Prog S α) (f : α → Prog S β) : p >>= f = p.bind f := rfl
@[simp] theorem ret_bind (a : α) (f : α → Prog S β) : (Prog.ret a).bind f = f a := rfl
@[simp] theorem call_bind (st : S γ) (next : γ → Prog S α) (f : α → Prog S β) :
    (Prog.call st next).bind f = .call st (fun c => (next c).bind f) := rfl
@[simp] theorem stmt_bind (st : S α) (f : α → Prog S β) : (stmt st).bind f = .call st f := rfl

theorem bind_assoc (p : Prog S α) (f : α → Prog S β) (g : β → Prog S γ) :
    (p.bind f).bind g = p.bind (fun a => (f a).bind g) := by
  induction p with
  | ret a => rfl
  | call st next ih => exact congrArg (Prog.call st) (funext fun b => ih b f)
  | fork child next _ ih => exact congrArg (Prog.fork child) (ih f)

end Prog

/-- The meaning of a statement set. `Choice` is what the environment decides at
a step (a clock reading, an answer from outside); `exec` is given the thread
that runs the statement, and `enabled` says when a blocking statement may run. -/
structure Machine where
  Stmt : Type → Type
  Choice : Type
  State : Type
  enabled : {β : Type} → ℕ → Stmt β → State → Bool
  exec : {β : Type} → ℕ → Stmt β → Choice → State → β × State

variable {M : Machine}

/-- One executed statement. -/
structure Occurrence (M : Machine) : Type 1 where
  thread : ℕ
  {β : Type}
  stmt : M.Stmt β
  choice : M.Choice
  pre : M.State

def Occurrence.result (o : Occurrence M) : o.β := (M.exec o.thread o.stmt o.choice o.pre).1

def Occurrence.post (o : Occurrence M) : M.State := (M.exec o.thread o.stmt o.choice o.pre).2

/-- The shared state and what is left of every thread; a finished or crashed
thread just stays where it is. -/
structure Config (M : Machine) where
  state : M.State
  threads : List (Prog M.Stmt Unit)

/-- Thread `i` has run to its end. -/
def Config.done (c : Config M) (i : ℕ) : Bool :=
  match c.threads[i]? with
  | some (.ret _) => true
  | _ => false

theorem Config.done_iff {c : Config M} {i : ℕ} :
    c.done i = true ↔ c.threads[i]? = some (.ret ()) := by
  unfold Config.done
  cases c.threads[i]? with
  | none => simp
  | some p => cases p <;> simp

/-- Interleaved runs in which only programs of `P` are started, with the
statements that were executed, oldest first. -/
inductive Run (P : Prog M.Stmt Unit → Prop) (s₀ : M.State) : List (Occurrence M) → Config M → Prop
  | init : Run P s₀ [] ⟨s₀, []⟩
  | start {tr c p} (h : Run P s₀ tr c) (hp : P p) : Run P s₀ tr ⟨c.state, c.threads ++ [p]⟩
  | call {tr c i} {β : Type} {st : M.Stmt β} {next ch} (h : Run P s₀ tr c)
      (hi : c.threads[i]? = some (.call st next)) (he : M.enabled i st c.state = true) :
      Run P s₀ (tr ++ [⟨i, st, ch, c.state⟩])
        ⟨(M.exec i st ch c.state).2, c.threads.set i (next (M.exec i st ch c.state).1)⟩
  | fork {tr c i child next} (h : Run P s₀ tr c)
      (hi : c.threads[i]? = some (.fork child next)) :
      Run P s₀ tr ⟨c.state, c.threads.set i next ++ [child]⟩

/-- The occurrences lead from one state to another, each starting where the last ended. -/
def Chained : M.State → List (Occurrence M) → M.State → Prop
  | s, [], t => s = t
  | s, o :: rest, t => o.pre = s ∧ Chained o.post rest t

theorem chained_append {s t : M.State} {t₁ t₂ : List (Occurrence M)} :
    Chained s (t₁ ++ t₂) t ↔ ∃ u, Chained s t₁ u ∧ Chained u t₂ t := by
  induction t₁ generalizing s with
  | nil => simp [Chained]
  | cons o rest ih => simp [Chained, ih, and_assoc]

/-- The state after the `j`th occurrence leads through the ones behind it. -/
theorem Chained.drop {s t : M.State} {tr : List (Occurrence M)} (h : Chained s tr t)
    (j : Fin tr.length) : Chained tr[j].post (tr.drop (j + 1)) t := by
  have hsplit : tr = tr.take j ++ tr[j] :: tr.drop (j + 1) := by
    rw [Fin.getElem_fin, List.getElem_cons_drop, List.take_append_drop]
  rw [hsplit] at h
  obtain ⟨u, -, -, hrest⟩ := chained_append.mp h
  exact hrest

/-- The occurrences behind the `j`th are those with a greater index. -/
theorem mem_drop_iff {tr : List (Occurrence M)} {j : Fin tr.length} {o : Occurrence M} :
    o ∈ tr.drop (j + 1) ↔ ∃ l, j < l ∧ tr[l] = o := by
  rw [List.mem_iff_getElem]
  constructor
  · rintro ⟨n, hn, rfl⟩
    rw [List.length_drop] at hn
    refine ⟨⟨j + 1 + n, by omega⟩, Fin.lt_def.mpr (by simp; omega), ?_⟩
    simp
  · rintro ⟨l, hl, rfl⟩
    have hjl : j.val < l.val := hl
    refine ⟨l - (j + 1), by simp; omega, ?_⟩
    have hidx : j.val + 1 + (l.val - (j.val + 1)) = l.val := by omega
    simp [hidx]

/-- What every occurrence keeps holds wherever the chain passes. -/
theorem Chained.invariant {s t : M.State} {tr : List (Occurrence M)} (h : Chained s tr t)
    (I : M.State → Prop) (step : ∀ o ∈ tr, I o.pre → I o.post) (h0 : I s) :
    I t ∧ ∀ o ∈ tr, I o.pre := by
  induction tr generalizing s with
  | nil => exact ⟨h ▸ h0, by simp⟩
  | cons o rest ih =>
    obtain ⟨rfl, hrest⟩ := h
    have hpost := step o List.mem_cons_self h0
    obtain ⟨ht, hall⟩ := ih hrest (fun o' ho' => step o' (List.mem_cons_of_mem _ ho')) hpost
    exact ⟨ht, List.forall_mem_cons.mpr ⟨h0, hall⟩⟩

/-- Where each value exceeds the last one and then takes its place, values only grow. -/
theorem Chained.increasing {α : Type} [LT α] {s t : M.State} {tr : List (Occurrence M)}
    (htrans : ∀ a b c : α, a < b → b < c → a < c) (h : Chained s tr t)
    (value : Occurrence M → Option α) (last : M.State → Option α)
    (grows : ∀ o ∈ tr, ∀ v ∈ value o, (∀ l ∈ last o.pre, l < v) ∧ last o.post = some v)
    (keeps : ∀ o ∈ tr, value o = none → last o.post = last o.pre) :
    (tr.filterMap value).Pairwise (· < ·) ∧ ∀ v ∈ tr.filterMap value, ∀ l ∈ last s, l < v := by
  induction tr generalizing s with
  | nil => simp
  | cons o rest ih =>
    obtain ⟨rfl, hrest⟩ := h
    obtain ⟨hpair, hlast⟩ := ih hrest (fun o' ho' => grows o' (List.mem_cons_of_mem _ ho'))
      fun o' ho' => keeps o' (List.mem_cons_of_mem _ ho')
    cases hv : value o with
    | none =>
      rw [List.filterMap_cons_none hv]
      rw [keeps o List.mem_cons_self hv] at hlast
      exact ⟨hpair, hlast⟩
    | some v =>
      obtain ⟨hbefore, hafter⟩ := grows o List.mem_cons_self v hv
      rw [hafter] at hlast
      rw [List.filterMap_cons_some hv, List.pairwise_cons]
      refine ⟨⟨fun w hw => hlast w hw v rfl, hpair⟩, ?_⟩
      refine List.forall_mem_cons.mpr ⟨hbefore, fun w hw l hl => ?_⟩
      exact htrans l v w (hbefore l hl) (hlast w hw v rfl)

/-- What each occurrence appends to a list of the state adds up over the chain. -/
theorem Chained.collects {α : Type} {s t : M.State} {tr : List (Occurrence M)}
    (h : Chained s tr t) (list : M.State → List α) (value : Occurrence M → Option α)
    (step : ∀ o ∈ tr, list o.post = list o.pre ++ (value o).toList) :
    list t = list s ++ tr.filterMap value := by
  induction tr generalizing s with
  | nil =>
    obtain rfl := h
    simp
  | cons o rest ih =>
    obtain ⟨rfl, hrest⟩ := h
    rw [ih hrest fun o' ho' => step o' (List.mem_cons_of_mem _ ho'), step o List.mem_cons_self]
    cases hv : value o <;> simp [hv]

theorem Run.chained {P : Prog M.Stmt Unit → Prop} {s₀ : M.State} {tr : List (Occurrence M)}
    {c : Config M} (h : Run P s₀ tr c) : Chained s₀ tr c.state := by
  induction h with
  | init => rfl
  | start _ _ ih => exact ih
  | fork _ _ ih => exact ih
  | call _ _ _ ih => exact chained_append.mpr ⟨_, ih, rfl, rfl⟩

/-- One scheduler decision: thread `i` moves, answered by `ch`. -/
def Config.tick (c : Config M) (i : ℕ) (ch : M.Choice) : Config M :=
  match c.threads[i]? with
  | some (.call st next) =>
    if M.enabled i st c.state then
      ⟨(M.exec i st ch c.state).2, c.threads.set i (next (M.exec i st ch c.state).1)⟩
    else c
  | some (.fork child next) => ⟨c.state, c.threads.set i next ++ [child]⟩
  | _ => c

/-- The statement that `tick` executes, if any. -/
def Config.ticked (c : Config M) (i : ℕ) (ch : M.Choice) : List (Occurrence M) :=
  match c.threads[i]? with
  | some (.call st _) => if M.enabled i st c.state then [⟨i, st, ch, c.state⟩] else []
  | _ => []

/-- Plays a finite schedule; concrete runs are computed with it. -/
def Config.play (c : Config M) : List (ℕ × M.Choice) → Config M
  | [] => c
  | (i, ch) :: rest => (c.tick i ch).play rest

def Config.played (c : Config M) : List (ℕ × M.Choice) → List (Occurrence M)
  | [] => []
  | (i, ch) :: rest => c.ticked i ch ++ (c.tick i ch).played rest

variable {P : Prog M.Stmt Unit → Prop} {s₀ : M.State} {tr : List (Occurrence M)} {c : Config M}

theorem Run.tick (h : Run P s₀ tr c) (i : ℕ) (ch : M.Choice) :
    Run P s₀ (tr ++ c.ticked i ch) (c.tick i ch) := by
  unfold Config.tick Config.ticked
  cases hi : c.threads[i]? with
  | none => simpa using h
  | some p =>
    cases p with
    | ret a => simpa using h
    | call st next =>
      by_cases he : M.enabled i st c.state = true
      · simpa only [he, ↓reduceIte] using h.call hi he
      · simpa only [he, Bool.false_eq_true, ↓reduceIte, List.append_nil] using h
    | fork child next => simpa using h.fork hi

theorem Run.play (h : Run P s₀ tr c) (sched : List (ℕ × M.Choice)) :
    Run P s₀ (tr ++ c.played sched) (c.play sched) := by
  induction sched generalizing tr c with
  | nil => simpa [Config.played, Config.play] using h
  | cons x rest ih =>
    obtain ⟨i, ch⟩ := x
    have hn := ih (h.tick i ch)
    simpa only [Config.played, Config.play, List.append_assoc] using hn

theorem Run.starts (h : Run P s₀ tr c) (ps : List (Prog M.Stmt Unit)) (hps : ∀ p ∈ ps, P p) :
    Run P s₀ tr ⟨c.state, c.threads ++ ps⟩ := by
  induction ps generalizing c with
  | nil => simpa using h
  | cons p ps ih =>
    have hn := ih (h.start (hps p List.mem_cons_self)) fun q hq => hps q (List.mem_cons_of_mem _ hq)
    simpa using hn

/-- A run that starts the given threads and then follows the schedule. -/
theorem Run.of_schedule (ps : List (Prog M.Stmt Unit)) (hps : ∀ p ∈ ps, P p)
    (sched : List (ℕ × M.Choice)) :
    Run P s₀ ((⟨s₀, ps⟩ : Config M).played sched) ((⟨s₀, ps⟩ : Config M).play sched) := by
  have hinit : Run P s₀ [] ⟨s₀, []⟩ := .init
  simpa using (hinit.starts ps hps).play sched

/-! ### Programs that run without interference -/

variable {α β : Type}

/-- Run alone as thread `i` from `s`, the program can end in `t` with result `r`. -/
def Prog.Ends (i : ℕ) : {α : Type} → Prog M.Stmt α → M.State → α → M.State → Prop
  | _, .ret a, s, r, t => r = a ∧ t = s
  | _, .call st next, s, r, t => ∃ ch, M.enabled i st s = true ∧
      (next (M.exec i st ch s).1).Ends i (M.exec i st ch s).2 r t
  | _, .fork _ next, s, r, t => next.Ends i s r t

/-- However it is answered, the program ends in `Q`. -/
def Prog.Alone (i : ℕ) (p : Prog M.Stmt α) (Q : α → M.State → Prop) (s : M.State) : Prop :=
  ∀ r t, p.Ends i s r t → Q r t

variable {i : ℕ} {s : M.State}

theorem Prog.alone_ret {a : α} {Q : α → M.State → Prop} (h : Q a s) :
    (Prog.ret a : Prog M.Stmt α).Alone i Q s := by
  intro r t he
  obtain ⟨rfl, rfl⟩ := he
  exact h

theorem Prog.alone_call {st : M.Stmt β} {next : β → Prog M.Stmt α} {Q : α → M.State → Prop}
    (h : ∀ ch, (next (M.exec i st ch s).1).Alone i Q (M.exec i st ch s).2) :
    (Prog.call st next).Alone i Q s := by
  intro r t he
  obtain ⟨ch, _, he⟩ := he
  exact h ch r t he

theorem Prog.Alone.mono {p : Prog M.Stmt α} {Q Q' : α → M.State → Prop} (h : p.Alone i Q s)
    (hq : ∀ a t, Q a t → Q' a t) : p.Alone i Q' s :=
  fun r t he => hq r t (h r t he)

theorem Prog.ends_bind {p : Prog M.Stmt α} {f : α → Prog M.Stmt β} {r : β} {t : M.State}
    (h : (p.bind f).Ends i s r t) : ∃ a u, p.Ends i s a u ∧ (f a).Ends i u r t := by
  induction p generalizing s with
  | ret a => exact ⟨a, s, ⟨rfl, rfl⟩, h⟩
  | call st next ih =>
    obtain ⟨ch, he, h⟩ := h
    obtain ⟨a, u, ha, hf⟩ := ih _ h
    exact ⟨a, u, ⟨ch, he, ha⟩, hf⟩
  | fork child next _ ih => exact ih h

theorem Prog.Ends.bind {p : Prog M.Stmt α} {f : α → Prog M.Stmt β} {a : α} {r : β}
    {u t : M.State} (h : p.Ends i s a u) (h' : (f a).Ends i u r t) : (p.bind f).Ends i s r t := by
  induction p generalizing s with
  | ret b =>
    obtain ⟨rfl, rfl⟩ := h
    exact h'
  | call st next ih =>
    obtain ⟨ch, he, h⟩ := h
    exact ⟨ch, he, ih _ h h'⟩
  | fork child next _ ih => exact ih h h'

theorem Prog.Alone.bind {p : Prog M.Stmt α} {f : α → Prog M.Stmt β} {Q : β → M.State → Prop}
    (h : p.Alone i (fun a t => (f a).Alone i Q t) s) : (p.bind f).Alone i Q s := by
  intro r t he
  obtain ⟨a, u, ha, hf⟩ := ends_bind he
  exact h a u ha r t hf

/-- Answers the statements of a program one by one; concrete runs are computed with it. -/
def Prog.play (i : ℕ) : {α : Type} → Prog M.Stmt α → List M.Choice → M.State → Option (α × M.State)
  | _, .ret a, [], s => some (a, s)
  | _, .ret _, _ :: _, _ => none
  | _, .call st next, ch :: rest, s =>
    if M.enabled i st s then
      (next (M.exec i st ch s).1).play i rest (M.exec i st ch s).2
    else none
  | _, .call _ _, [], _ => none
  | _, .fork _ next, chs, s => next.play i chs s

theorem Prog.ends_of_play {p : Prog M.Stmt α} {chs : List M.Choice} {r : α} {t : M.State}
    (h : p.play i chs s = some (r, t)) : p.Ends i s r t := by
  induction p generalizing s chs with
  | ret a =>
    cases chs with
    | nil =>
      simp only [play, Option.some.injEq, Prod.mk.injEq] at h
      exact ⟨h.1.symm, h.2.symm⟩
    | cons ch rest => simp [play] at h
  | call st next ih =>
    cases chs with
    | nil => simp [play] at h
    | cons ch rest =>
      simp only [play] at h
      split at h
      · rename_i he
        exact ⟨ch, he, ih _ h⟩
      · cases h
  | fork child next _ ih =>
    simp only [play] at h
    exact ih h

end Interleaving
