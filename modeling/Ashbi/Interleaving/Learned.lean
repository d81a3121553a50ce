import Ashbi.Interleaving.Budget
import Ashbi.Interleaving.History
import Ashbi.Interleaving.Transaction

/-! What a program has learned from the answers to its statements before it runs another. -/

namespace Interleaving

variable {S : Type → Type} {Fact : Type} (learn : {β : Type} → S β → β → List Fact)
  (need : {β : Type} → S β → List Fact → Prop) {ε α β : Type} {facts : List Fact}

/-- However its statements are answered, the program has learned what each of them needs, and `Q`
when it ends. -/
def Prog.Learned : {α : Type} → Prog S α → (α → List Fact → Prop) → List Fact → Prop
  | _, .ret a, Q, facts => Q a facts
  | _, .call st next, Q, facts => need st facts ∧ ∀ b, (next b).Learned Q (facts ++ learn st b)
  | _, .fork child next, Q, facts => child.Learned (fun _ _ => True) [] ∧ next.Learned Q facts

variable {learn need}

theorem Prog.Learned.mono {p : Prog S α} {Q Q' : α → List Fact → Prop}
    (h : p.Learned learn need Q facts) (hq : ∀ a facts, Q a facts → Q' a facts) :
    p.Learned learn need Q' facts := by
  induction p generalizing facts with
  | ret a => exact hq a facts h
  | call st next ih => exact ⟨h.1, fun b => ih b (h.2 b) hq⟩
  | fork child next _ ih => exact ⟨h.1, ih h.2 hq⟩

theorem Prog.Learned.bind {p : Prog S α} {f : α → Prog S β} {Q : β → List Fact → Prop}
    (h : p.Learned learn need (fun a facts => (f a).Learned learn need Q facts) facts) :
    (p.bind f).Learned learn need Q facts := by
  induction p generalizing facts with
  | ret a => exact h
  | call st next ih => exact ⟨h.1, fun b => ih b (h.2 b)⟩
  | fork child next _ ih => exact ⟨h.1, ih h.2⟩

/-- A program of statements that need nothing. -/
theorem Prog.Without.learned {bar : {β : Type} → S β → Bool} {p : Prog S α} {Q : α → Prop}
    (h : p.Without bar Q)
    (hneed : ∀ {β : Type} (st : S β) facts, bar st = false → need st facts) :
    p.Learned learn need (fun _ _ => True) facts := by
  induction p generalizing facts with
  | ret a => trivial
  | call st next ih => exact ⟨hneed st facts h.1, fun b => ih b (h.2 b)⟩
  | fork child next _ _ => cases h

/-- A program that runs none of the statements that need something. -/
theorem Prog.AtMost.learned {φ : {β : Type} → S β → Bool} {p : Prog S α} (h : p.AtMost φ 0)
    (hneed : ∀ {β : Type} (st : S β) facts, φ st = false → need st facts) :
    p.Learned learn need (fun _ _ => True) facts := by
  induction p generalizing facts with
  | ret a => trivial
  | call st next ih =>
    rw [Prog.atMost_call_iff] at h
    split at h
    · exact absurd h.1 (Nat.lt_irrefl 0)
    · rename_i hst
      exact ⟨hneed st facts (Bool.eq_false_iff.mpr hst), fun b => ih b (h b)⟩
  | fork child next ihc ih => exact ⟨ihc h.1, ih h.2⟩

/-- A program of statements that need nothing keeps what their answers keep. -/
theorem Prog.Without.learned_keeping {bar : {β : Type} → S β → Bool} {p : Prog S α} {Q : α → Prop}
    {R : List Fact → Prop} (h : p.Without bar Q)
    (hneed : ∀ {β : Type} (st : S β) facts, bar st = false → need st facts)
    (hkeep : ∀ {β : Type} (st : S β) b facts, bar st = false → R facts → R (facts ++ learn st b))
    (hr : R facts) : p.Learned learn need (fun _ facts => R facts) facts := by
  induction p generalizing facts with
  | ret a => exact hr
  | call st next ih => exact ⟨hneed st facts h.1, fun b => ih b (h.2 b) (hkeep st b facts h.1 hr)⟩
  | fork child next _ _ => cases h

/-! ### Programs over more statements -/

variable {T : Type → Type}

/-- The program, each of whose statements is one of a larger set. -/
def Prog.lift (f : {β : Type} → S β → T β) : {α : Type} → Prog S α → Prog T α
  | _, .ret a => .ret a
  | _, .call st next => .call (f st) fun b => (next b).lift f
  | _, .fork child next => .fork (child.lift f) (next.lift f)

theorem Prog.Learned.lift {f : {β : Type} → S β → T β}
    {learn : {β : Type} → T β → β → List Fact} {need : {β : Type} → T β → List Fact → Prop}
    {p : Prog S α} {Q : α → List Fact → Prop}
    (h : p.Learned (fun st => learn (f st)) (fun st => need (f st)) Q facts) :
    (p.lift f).Learned learn need Q facts := by
  induction p generalizing facts with
  | ret a => exact h
  | call st next ih => exact ⟨h.1, fun b => ih b (h.2 b)⟩
  | fork child next ihc ih => exact ⟨ihc h.1, ih h.2⟩

/-! ### Programs that throw -/

/-- The program has learned what its statements need, and `Q` where it does not throw. -/
def Throws.Learned (learn : {β : Type} → S β → β → List Fact)
    (need : {β : Type} → S β → List Fact → Prop) (p : Throws S ε α) (Q : α → List Fact → Prop)
    (facts : List Fact) : Prop :=
  p.run.Learned learn need (fun r facts => ∀ a, r = .ok a → Q a facts) facts

namespace Throws

variable {p : Throws S ε α} {f : α → Throws S ε β} {Q : α → List Fact → Prop}
  {R : β → List Fact → Prop}

theorem learned_pure {a : α} (h : Q a facts) :
    (pure a : Throws S ε α).Learned learn need Q facts := by
  intro b hb
  exact Except.ok.inj hb ▸ h

theorem learned_throw {e : ε} : (throw e : Throws S ε α).Learned learn need Q facts := by
  intro b hb
  cases hb

theorem Learned.bind
    (h : p.Learned learn need (fun a facts => (f a).Learned learn need R facts) facts) :
    (p >>= f).Learned learn need R facts := by
  unfold Throws.Learned
  rw [run_bind]
  refine Prog.Learned.bind (Prog.Learned.mono h fun r facts hr => ?_)
  cases r with
  | ok a => exact hr a rfl
  | error e => exact learned_throw

/-- A bind, of which also the thrown errors are asked. -/
theorem run_learned_bind {T : Except ε β → List Fact → Prop}
    (h : p.run.Learned learn need (fun r facts => match r with
      | .ok a => (f a).run.Learned learn need T facts
      | .error e => T (.error e) facts) facts) : (p >>= f).run.Learned learn need T facts := by
  rw [run_bind]
  refine Prog.Learned.bind (Prog.Learned.mono h fun r facts hr => ?_)
  cases r with
  | ok a => exact hr
  | error e => exact hr

theorem learned_require {ok : Bool} {e : ε} {Q : Unit → List Fact → Prop}
    (h : ok = true → Q () facts) : (require ok e : Throws S ε Unit).Learned learn need Q facts := by
  cases ok with
  | true => exact learned_pure (h rfl)
  | false => exact learned_throw

theorem learned_require_bind {ok : Bool} {e : ε} {f : Unit → Throws S ε β}
    (h : ok = true → (f ()).Learned learn need R facts) :
    (require ok e >>= f).Learned learn need R facts := by
  cases ok with
  | true => exact h rfl
  | false => exact learned_throw

theorem learned_found {value : Option α} {e : ε} (h : ∀ a, value = some a → Q a facts) :
    (found value e : Throws S ε α).Learned learn need Q facts := by
  cases value with
  | some a => exact learned_pure (h a rfl)
  | none => exact learned_throw

theorem learned_found_bind {value : Option α} {e : ε}
    (h : ∀ a, value = some a → (f a).Learned learn need R facts) :
    (found value e >>= f).Learned learn need R facts := by
  cases value with
  | some a => exact h a rfl
  | none => exact learned_throw

theorem learned_stmt_bind {st : S (Except ε α)} (hneed : need st facts)
    (h : ∀ a, (f a).Learned learn need R (facts ++ learn st (.ok a))) :
    (stmt st >>= f).Learned learn need R facts := by
  unfold Throws.Learned
  rw [run_stmt_bind]
  refine ⟨hneed, fun r => ?_⟩
  cases r with
  | ok a => exact h a
  | error e => exact learned_throw

theorem learned_stmt {st : S (Except ε α)} (hneed : need st facts)
    (h : ∀ a, Q a (facts ++ learn st (.ok a))) : (stmt st).Learned learn need Q facts := by
  refine ⟨hneed, fun r a hr => ?_⟩
  subst hr
  exact h a

theorem learned_read_bind {st : S α} (hneed : need st facts)
    (h : ∀ a, (f a).Learned learn need R (facts ++ learn st a)) :
    (read st >>= f).Learned learn need R facts := by
  unfold Throws.Learned
  rw [run_bind]
  exact ⟨hneed, h⟩

theorem learned_mapError {g : ε → ε} (h : p.Learned learn need Q facts) :
    (mapError g p).Learned learn need Q facts := by
  unfold Throws.Learned mapError
  rw [run_tryCatch]
  refine Prog.Learned.bind (Prog.Learned.mono h fun r facts hr => ?_)
  cases r with
  | ok a => exact learned_pure (hr a rfl)
  | error e => exact learned_throw

/-- A transaction needs what its body needs, where its ends need nothing. -/
theorem learned_transaction {commit : S (Except ε Unit)} {rollback : S Unit}
    (h : p.Learned learn need (fun _ _ => True) facts) (hcommit : ∀ facts, need commit facts)
    (hrollback : ∀ facts, need rollback facts) :
    (transaction commit rollback p).Learned learn need (fun _ _ => True) facts := by
  unfold Throws.Learned
  rw [run_transaction]
  refine Prog.Learned.bind (Prog.Learned.mono h fun r facts _ => ?_)
  cases r with
  | ok a =>
    rw [run_finish_ok]
    exact ⟨hcommit facts, fun _ _ _ => trivial⟩
  | error e =>
    rw [run_finish_error]
    exact ⟨hrollback facts, fun _ _ _ => trivial⟩

/-- What a transaction comes to: its end follows what its body has learned. -/
theorem run_learned_transaction {commit : S (Except ε Unit)} {rollback : S Unit}
    {T : Except ε α → List Fact → Prop} (h : p.Learned learn need Q facts)
    (hcommit : ∀ a facts, Q a facts → need commit facts ∧
      ∀ b, T (b.map fun _ => a) (facts ++ learn commit b))
    (hrollback : ∀ e facts, need rollback facts ∧ T (.error e) (facts ++ learn rollback ())) :
    (transaction commit rollback p).run.Learned learn need T facts := by
  rw [run_transaction]
  refine Prog.Learned.bind (Prog.Learned.mono h fun r facts hr => ?_)
  cases r with
  | ok a =>
    rw [run_finish_ok]
    exact hcommit a facts (hr a rfl)
  | error e =>
    rw [run_finish_error]
    exact ⟨(hrollback e facts).1, fun _ => (hrollback e facts).2⟩

theorem learned_tryCatch {handle : ε → Throws S ε α} {T : Except ε α → List Fact → Prop}
    (h : p.run.Learned learn need T facts) (hok : ∀ a facts, T (.ok a) facts → Q a facts)
    (herror : ∀ e facts, T (.error e) facts → (handle e).Learned learn need Q facts) :
    (tryCatch p handle).Learned learn need Q facts := by
  unfold Throws.Learned
  rw [run_tryCatch]
  refine Prog.Learned.bind (Prog.Learned.mono h fun r facts hr => ?_)
  cases r with
  | ok a => exact learned_pure (hok a facts hr)
  | error e => exact herror e facts hr

theorem learned_caught {T : Except ε α → List Fact → Prop}
    (h : p.run.Learned learn need T facts) : (caught p).Learned learn need T facts := by
  refine Prog.Learned.bind (Prog.Learned.mono h fun r facts hr => ?_)
  exact learned_pure hr

end Throws

/-! ### Runs -/

section

variable {M : Machine} (learn : {β : Type} → M.Stmt β → β → List Fact)
  (need : {β : Type} → M.Stmt β → List Fact → Prop) {P : Prog M.Stmt Unit → Prop} {s₀ : M.State}
  {tr : List (Occurrence M)} {c : Config M}

/-- What a thread learns by a statement. -/
def Occurrence.learned (o : Occurrence M) : List Fact := learn o.stmt o.result

/-- Every statement of the run is one that its thread has learned the need of. -/
def learning : Contract (M.logged (Occurrence.learned learn)) where
  inv _ := True
  rely i s t := t.2 i = s.2 i
  assumed _ := True
  guar o := need o.stmt (o.pre.2 o.thread)
  fresh i s := s.2 i = []
  refl _ _ := rfl
  trans _ _ _ _ h h' := h'.trans h
  fresh_rely _ _ _ hr h := hr.trans h

variable {learn need}

theorem Prog.Learned.safe {p : Prog M.Stmt α} {Q : α → List Fact → Prop} {i : ℕ}
    {s : M.State × (ℕ → List Fact)} (h : p.Learned learn need Q (s.2 i)) :
    p.Safe (learning learn need) i (fun _ _ => True) s := by
  induction p generalizing s i with
  | ret a => trivial
  | call st next ih =>
    intro t ch hr _ _ _
    have hr : t.2 i = s.2 i := hr
    have hnext : (next (M.exec i st ch t.1).1).Learned learn need Q
        ((((M.logged (Occurrence.learned learn)).exec i st ch t).2).2 i) := by
      change (next (M.exec i st ch t.1).1).Learned learn need Q (Function.update t.2 i _ i)
      rw [Function.update_self, hr]
      exact h.2 _
    refine ⟨⟨?_, trivial, fun j hj => Function.update_of_ne hj ..⟩, ih _ hnext⟩
    change need st (t.2 i)
    exact hr.symm ▸ h.1
  | fork child next ihc ih =>
    intro t hr _
    have hr : t.2 i = s.2 i := hr
    have hnext := h.2
    rw [← hr] at hnext
    refine ⟨fun j hj => ?_, ih hnext⟩
    have hchild := h.1
    rw [← show t.2 j = [] from hj] at hchild
    exact ihc hchild

/-- Before each statement of a run its thread has learned what the statement needs. -/
theorem Run.learned (hP : ∀ p, P p → p.Learned learn need (fun _ _ => True) [])
    (h : Run P s₀ tr c) {k : ℕ} {o : Occurrence M} (ho : tr[k]? = some o) :
    need o.stmt (marksOf (Occurrence.learned learn) (tr.take k) o.thread) := by
  obtain ⟨tr', rfl, hrun⟩ := h.logged (Occurrence.learned learn)
  have hsafe : ∀ p, P p → ∀ i (s : (M.logged (Occurrence.learned learn)).State), s.2 i = [] →
      p.Safe (learning learn need) i (fun _ _ => True) s := by
    intro p hp i s hfresh
    have hlearned := hP p hp
    rw [← hfresh] at hlearned
    exact hlearned.safe
  have hempty : ∀ i, (learning learn need).fresh i (s₀, fun _ => []) := fun _ => rfl
  obtain ⟨-, hall⟩ := Run.holds (K := learning learn need) (fun p hp i s _ => hsafe p hp i s)
    trivial hempty hrun fun _ _ => trivial
  rw [List.getElem?_map, Option.map_eq_some_iff] at ho
  obtain ⟨o', ho', rfl⟩ := ho
  have hguar := (hall o' (List.mem_of_getElem? ho')).2.guar
  rw [← hrun.marks_eq.2 k o' ho']
  exact hguar

/-- `Run.learned` for a statement with what the trace holds before it. -/
theorem Run.learned_at (hP : ∀ p, P p → p.Learned learn need (fun _ _ => True) [])
    (h : Run P s₀ tr c) {front back : List (Occurrence M)} {o : Occurrence M}
    (htr : tr = front ++ o :: back) :
    need o.stmt (marksOf (Occurrence.learned learn) front o.thread) := by
  have hlearned := Run.learned hP h (k := front.length) (o := o) (by simp [htr])
  rwa [htr, List.take_left] at hlearned

end

end Interleaving
