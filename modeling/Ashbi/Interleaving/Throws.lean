import Mathlib.Control.Monad.Basic
import Ashbi.Interleaving.Rules

/-! Programs that throw. -/

namespace Interleaving

variable {M : Machine} {K : Contract M} {ε α β : Type} {i : ℕ} {s : M.State}

/-- A program that may throw an `ε`. -/
abbrev Throws (S : Type → Type) (ε α : Type) : Type 1 := ExceptT ε (Prog S) α

namespace Throws

variable {S : Type → Type}

/-- A statement that answers with what it throws. -/
def stmt (st : S (Except ε α)) : Throws S ε α := ExceptT.mk (.stmt st)

/-- A statement that throws nothing. -/
def read (st : S α) : Throws S ε α := ExceptT.mk ((Prog.stmt st).bind fun a => .ret (.ok a))

/-- A result that is at hand. -/
def returns (r : Except ε α) : Throws S ε α := ExceptT.mk (.ret r)

/-- Throws unless something holds. -/
def require (ok : Bool) (e : ε) : Throws S ε Unit := if ok then pure () else throw e

/-- The value that was looked for; throws where there is none. -/
def found (value : Option α) (e : ε) : Throws S ε α :=
  match value with
  | some a => pure a
  | none => throw e

/-- What a program throws becomes `f` of it. -/
def mapError (f : ε → ε) (p : Throws S ε α) : Throws S ε α := tryCatch p fun e => throw (f e)

/-- What a program came to, also where it threw. -/
def caught (p : Throws S ε α) : Throws S ε (Except ε α) :=
  ExceptT.mk (p.run.bind fun r => .ret (.ok r))

/-- What is left of a program once a step has come to `r`. -/
def resume (f : α → Throws S ε β) : Except ε α → Prog S (Except ε β)
  | .ok a => (f a).run
  | .error e => .ret (.error e)

theorem run_bind (p : Throws S ε α) (f : α → Throws S ε β) :
    (p >>= f).run = p.run.bind (resume f) := by
  rw [ExceptT.run_bind]
  rfl

theorem run_tryCatch (p : Throws S ε α) (handle : ε → Throws S ε α) :
    (tryCatch p handle).run = p.run.bind fun r => match r with
      | .ok a => .ret (.ok a)
      | .error e => (handle e).run := by
  rfl

@[simp] theorem run_pure (a : α) : (pure a : Throws S ε α).run = .ret (.ok a) := rfl

@[simp] theorem run_throw (e : ε) : (throw e : Throws S ε α).run = .ret (.error e) := rfl

end Throws

/-- Run as thread `i` from `s`, the program meets the contract, and `Q` where it does not throw. -/
def Throws.Safe (K : Contract M) (i : ℕ) (p : Throws M.Stmt ε α) (Q : α → M.State → Prop)
    (s : M.State) : Prop :=
  p.run.Safe K i (fun r t => ∀ a, r = .ok a → Q a t) s

namespace Throws

variable {p : Throws M.Stmt ε α} {f : α → Throws M.Stmt ε β} {Q Q' : α → M.State → Prop}

theorem Safe.mono (h : p.Safe K i Q s) (hq : ∀ a t, Q a t → Q' a t) : p.Safe K i Q' s :=
  Prog.Safe.mono h fun _ t hr a ha => hq a t (hr a ha)

theorem safe_pure {a : α} (h : Q a s) : (pure a : Throws M.Stmt ε α).Safe K i Q s := by
  intro b hb
  obtain rfl := Except.ok.inj hb
  exact h

theorem safe_throw {e : ε} : (throw e : Throws M.Stmt ε α).Safe K i Q s := by
  intro b hb
  cases hb

theorem Safe.bind {R : β → M.State → Prop} (h : p.Safe K i (fun a t => (f a).Safe K i R t) s) :
    (p >>= f).Safe K i R s := by
  unfold Throws.Safe
  rw [run_bind]
  apply Prog.Safe.bind
  apply Prog.Safe.mono h
  intro r t hr
  cases r with
  | ok a => exact hr a rfl
  | error e => exact safe_throw

/-- A bind, of which also the thrown errors are asked. -/
theorem safe_run_bind {R : Except ε β → M.State → Prop}
    (h : p.run.Safe K i (fun r t => match r with
      | .ok a => (f a).run.Safe K i R t
      | .error e => R (.error e) t) s) : (p >>= f).run.Safe K i R s := by
  rw [run_bind]
  apply Prog.Safe.bind
  apply h.mono
  intro r t hr
  cases r with
  | ok a => exact hr
  | error e => exact hr

/-- What no statement and no other thread breaks still holds where the program returns. -/
theorem Safe.frame {F : M.State → Prop} (stable : ∀ j u v, K.rely j u v → F u → F v)
    (h : p.Safe K i Q s) (hs : F s) : p.Safe K i (fun a t => Q a t ∧ F t) s :=
  (Prog.Safe.frame stable h hs).mono fun _ _ hr a ha => ⟨hr.1 a ha, hr.2⟩

theorem safe_foldlM {f : β → α → Throws M.Stmt ε β} {I : β → M.State → Prop} {xs : List α}
    (step : ∀ b x s, x ∈ xs → I b s → (f b x).Safe K i I s) {b : β} {s : M.State} (h : I b s) :
    (xs.foldlM f b).Safe K i I s := by
  induction xs generalizing b s with
  | nil => exact safe_pure h
  | cons x xs ih =>
    rw [List.foldlM_cons]
    refine Safe.bind ((step b x s List.mem_cons_self h).mono fun b' t hb => ?_)
    exact ih (fun b y u hy => step b y u (List.mem_cons_of_mem _ hy)) hb

theorem safe_require {ok : Bool} {e : ε} {R : Unit → M.State → Prop} (h : ok = true → R () s) :
    (require ok e : Throws M.Stmt ε Unit).Safe K i R s := by
  cases ok with
  | true => exact safe_pure (h rfl)
  | false => exact safe_throw

theorem safe_require_bind {ok : Bool} {e : ε} {f : Unit → Throws M.Stmt ε β}
    {R : β → M.State → Prop} (h : ok = true → (f ()).Safe K i R s) :
    (require ok e >>= f).Safe K i R s := by
  cases ok with
  | true => exact h rfl
  | false => exact safe_throw

theorem safe_found {value : Option α} {e : ε} (h : ∀ a, value = some a → Q a s) :
    (found value e : Throws M.Stmt ε α).Safe K i Q s := by
  cases value with
  | some a => exact safe_pure (h a rfl)
  | none => exact safe_throw

theorem safe_found_bind {value : Option α} {e : ε} {R : β → M.State → Prop}
    (h : ∀ a, value = some a → (f a).Safe K i R s) : (found value e >>= f).Safe K i R s := by
  cases value with
  | some a => exact h a rfl
  | none => exact safe_throw

/-- A statement that throws nothing, and what follows it. -/
theorem safe_read_bind {st : M.Stmt β} {f : β → Throws M.Stmt ε α}
    (h : ∀ t ch, K.rely i s t → K.inv t → M.enabled i st t = true → K.assumed ⟨i, st, ch, t⟩ →
      K.Keeps ⟨i, st, ch, t⟩ ∧ (f (M.exec i st ch t).1).Safe K i Q (M.exec i st ch t).2) :
    (read st >>= f).Safe K i Q s := by
  unfold Throws.Safe
  rw [run_bind]
  exact h

/-- What a caught program came to is handed on, also where it threw. -/
theorem safe_caught {R : Except ε α → M.State → Prop} (h : p.run.Safe K i R s) :
    (caught p).Safe K i R s := by
  apply Prog.Safe.bind
  apply h.mono
  intro r t hr a ha
  obtain rfl := Except.ok.inj ha
  exact hr

theorem safe_tryCatch {handle : ε → Throws M.Stmt ε α}
    (h : p.run.Safe K i (fun r t => match r with
      | .ok a => Q a t
      | .error e => (handle e).Safe K i Q t) s) : (tryCatch p handle).Safe K i Q s := by
  unfold Throws.Safe
  rw [run_tryCatch]
  apply Prog.Safe.bind
  apply h.mono
  intro r t hr
  cases r with
  | ok a => exact safe_pure hr
  | error e => exact hr

theorem safe_mapError {g : ε → ε} (h : p.Safe K i Q s) : (mapError g p).Safe K i Q s := by
  apply safe_tryCatch
  apply Prog.Safe.mono h
  intro r t hr
  cases r with
  | ok a => exact hr a rfl
  | error e => exact safe_throw

end Throws

end Interleaving
