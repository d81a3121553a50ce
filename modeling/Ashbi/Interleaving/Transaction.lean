import Ashbi.Interleaving.Budget
import Ashbi.Interleaving.Program
import Ashbi.Interleaving.Throws

/-! Transactions: what a body does is committed where it returns and undone where it throws. -/

namespace Interleaving.Throws

variable {M : Machine} {ε α β : Type} {i : ℕ} {s : M.State}

/-- How a transaction ends once its body has come to `r`. -/
def finish {S : Type → Type} (commit : S (Except ε Unit)) (rollback : S Unit) :
    Except ε α → Throws S ε α
  | .ok a => do
    stmt commit
    pure a
  | .error e => do
    read rollback
    throw e

def transaction {S : Type → Type} (commit : S (Except ε Unit)) (rollback : S Unit)
    (body : Throws S ε α) : Throws S ε α := do
  finish commit rollback (← caught body)

section

variable {S : Type → Type} {commit : S (Except ε Unit)} {rollback : S Unit}

theorem run_stmt_bind (st : S (Except ε β)) (f : β → Throws S ε α) :
    (stmt st >>= f).run = .call st (resume f) := run_bind _ _

theorem run_finish_ok (a : α) : (finish commit rollback (.ok a)).run =
    .call commit fun r => .ret (r.map fun _ => a) := by
  unfold finish
  rw [run_stmt_bind]
  refine congrArg (Prog.call commit) (funext fun r => ?_)
  cases r <;> rfl

theorem run_finish_error (e : ε) : (finish commit rollback (.error e : Except ε α)).run =
    .call rollback fun _ => .ret (.error e) := rfl

theorem run_transaction (body : Throws S ε α) : (transaction commit rollback body).run =
    body.run.bind fun r => (finish commit rollback r).run := by
  unfold transaction
  rw [run_bind, caught]
  exact Prog.bind_assoc _ _ _

/-! ### After a hit -/

variable {hit : {β : Type} → S β → β → Bool} {bar : {β : Type} → S β → Bool} {p : Throws S ε α}
  {f : α → Throws S ε β}

/-- A hit is followed by no `bar` statement, and by what the program throws. -/
def After (hit : {β : Type} → S β → β → Bool) (bar : {β : Type} → S β → Bool)
    (p : Throws S ε α) : Prop :=
  p.run.After hit bar fun r => ∃ e, r = .error e

theorem After.bind (h : p.After hit bar) (hf : ∀ a, (f a).After hit bar) :
    (p >>= f).After hit bar := by
  unfold Throws.After
  rw [run_bind]
  refine Prog.After.bind h (fun r => ?_) fun r hr => ?_
  · cases r with
    | ok a => exact hf a
    | error e => trivial
  · obtain ⟨e, rfl⟩ := hr
    exact ⟨e, rfl⟩

theorem after_pure {a : α} : (pure a : Throws S ε α).After hit bar := trivial

theorem after_throw {e : ε} : (throw e : Throws S ε α).After hit bar := trivial

/-- A statement that hits only where it throws. -/
theorem after_stmt {st : S (Except ε β)} (h : ∀ b, hit st b = true → ∃ e, b = .error e) :
    (stmt st : Throws S ε β).After hit bar :=
  fun b => ⟨fun hhit => h b hhit, fun _ => trivial⟩

theorem after_read {st : S β} (h : ∀ b, hit st b = false) :
    (read st : Throws S ε β).After hit bar :=
  fun b => ⟨fun hhit => (by cases (h b).symm.trans hhit), fun _ => trivial⟩

theorem after_foldlM {g : β → α → Throws S ε β} (h : ∀ b x, (g b x).After hit bar) (xs : List α)
    (b : β) : (xs.foldlM g b).After hit bar := by
  induction xs generalizing b with
  | nil => exact after_pure
  | cons x xs ih =>
    rw [List.foldlM_cons]
    exact (h b x).bind ih

/-! ### Without statements of a kind -/

theorem without_bind (h : p.run.Without bar fun _ => True)
    (hf : ∀ a, (f a).run.Without bar fun _ => True) :
    (p >>= f).run.Without bar fun _ => True := by
  rw [run_bind]
  refine h.bind fun r _ => ?_
  cases r with
  | ok a => exact hf a
  | error e => trivial

theorem without_stmt {st : S (Except ε β)} (h : bar st = false) :
    (stmt st : Throws S ε β).run.Without bar fun _ => True := ⟨h, fun _ => trivial⟩

theorem without_read {st : S β} (h : bar st = false) :
    (read st : Throws S ε β).run.Without bar fun _ => True := ⟨h, fun _ => trivial⟩

theorem without_require {ok : Bool} {e : ε} :
    (require ok e : Throws S ε Unit).run.Without bar fun _ => True := by
  cases ok with
  | true => trivial
  | false => trivial

theorem without_found {value : Option α} {e : ε} :
    (found value e : Throws S ε α).run.Without bar fun _ => True := by
  cases value with
  | some a => trivial
  | none => trivial

theorem without_caught (h : p.run.Without bar fun _ => True) :
    (caught p).run.Without bar fun _ => True :=
  Prog.Without.bind h fun _ _ => trivial

theorem without_tryCatch {handle : ε → Throws S ε α} (h : p.run.Without bar fun _ => True)
    (hhandle : ∀ e, (handle e).run.Without bar fun _ => True) :
    (tryCatch p handle).run.Without bar fun _ => True := by
  rw [run_tryCatch]
  refine h.bind fun r _ => ?_
  cases r with
  | ok a => trivial
  | error e => exact hhandle e

theorem without_transaction {body : Throws S ε α} (h : body.run.Without bar fun _ => True)
    (hcommit : bar commit = false) (hrollback : bar rollback = false) :
    (transaction commit rollback body).run.Without bar fun _ => True := by
  rw [run_transaction]
  refine h.bind fun r _ => ?_
  cases r with
  | ok a =>
    rw [run_finish_ok]
    exact ⟨hcommit, fun _ => trivial⟩
  | error e => exact ⟨hrollback, fun _ => trivial⟩

/-- What hits in its body, a transaction undoes. -/
theorem after_transaction {body : Throws S ε α} {Q : Except ε α → Prop}
    (h : body.After hit bar) (hrollback : bar rollback = false) (hq : ∀ r, Q r) :
    (transaction commit rollback body).run.After hit bar Q := by
  rw [run_transaction]
  refine Prog.After.bind h (fun r => ?_) fun r hr => ?_
  · cases r with
    | ok a =>
      rw [run_finish_ok]
      exact fun _ => ⟨fun _ => hq _, fun _ => trivial⟩
    | error e => exact fun _ => ⟨fun _ => hq _, fun _ => trivial⟩
  · obtain ⟨e, rfl⟩ := hr
    exact ⟨hrollback, fun _ => hq _⟩

end

variable {K : Contract M} {commit : M.Stmt (Except ε Unit)} {rollback : M.Stmt Unit}
  {body : Throws M.Stmt ε α}

/-- A statement, what follows where it does not throw, and what holds where it does. -/
theorem run_safe_stmt_bind {st : M.Stmt (Except ε β)} {f : β → Throws M.Stmt ε α}
    {R : Except ε α → M.State → Prop} (h : ∀ t ch, K.rely i s t → K.inv t →
      M.enabled i st t = true → K.assumed ⟨i, st, ch, t⟩ → K.Keeps ⟨i, st, ch, t⟩ ∧
        (∀ b, (M.exec i st ch t).1 = .ok b → (f b).run.Safe K i R (M.exec i st ch t).2) ∧
        ∀ e, (M.exec i st ch t).1 = .error e → R (.error e) (M.exec i st ch t).2) :
    (stmt st >>= f).run.Safe K i R s := by
  rw [run_stmt_bind]
  intro t ch hr hi he ha
  obtain ⟨hkeeps, hok, herror⟩ := h t ch hr hi he ha
  refine ⟨hkeeps, ?_⟩
  generalize hb : (M.exec i st ch t).1 = r at hok herror
  cases r with
  | ok b => exact hok b rfl
  | error e => exact herror e rfl

/-- A statement, and what follows where it does not throw. -/
theorem safe_stmt_bind {st : M.Stmt (Except ε β)} {f : β → Throws M.Stmt ε α}
    {Q : α → M.State → Prop} (h : ∀ t ch, K.rely i s t → K.inv t → M.enabled i st t = true →
      K.assumed ⟨i, st, ch, t⟩ → K.Keeps ⟨i, st, ch, t⟩ ∧
        ∀ b, (M.exec i st ch t).1 = .ok b → (f b).Safe K i Q (M.exec i st ch t).2) :
    (stmt st >>= f).Safe K i Q s := by
  refine run_safe_stmt_bind fun t ch hr hi he ha => ?_
  obtain ⟨hkeeps, hok⟩ := h t ch hr hi he ha
  exact ⟨hkeeps, hok, fun e _ a ha => by cases ha⟩

theorem safe_stmt {st : M.Stmt (Except ε β)} {Q : β → M.State → Prop}
    (h : ∀ t ch, K.rely i s t → K.inv t → M.enabled i st t = true → K.assumed ⟨i, st, ch, t⟩ →
      K.Keeps ⟨i, st, ch, t⟩ ∧
        ∀ b, (M.exec i st ch t).1 = .ok b → Q b (M.exec i st ch t).2) :
    (stmt st : Throws M.Stmt ε β).Safe K i Q s := h

/-- A transaction is safe where its body is, and its end from wherever the body stopped. -/
theorem safe_transaction {Q : α → M.State → Prop} {F : M.State → Prop} (hbody : body.Safe K i Q s)
    (hcommit : ∀ a u, Q a u → (Prog.stmt commit).Safe K i (fun _ => F) u)
    (hrollback : ∀ u, (Prog.stmt rollback).Safe K i (fun _ => F) u) :
    (transaction commit rollback body).run.Safe K i (fun _ => F) s := by
  rw [run_transaction]
  refine Prog.Safe.bind (Prog.Safe.mono hbody fun r u hu => ?_)
  cases r with
  | ok a =>
    rw [run_finish_ok]
    exact hcommit a u (hu a rfl)
  | error e =>
    rw [run_finish_error]
    exact hrollback u

/-- What a statement comes to that runs alone. -/
theorem ends_stmt_bind {st : M.Stmt (Except ε β)} {f : β → Throws M.Stmt ε α} {r : Except ε α}
    {t : M.State} (h : (stmt st >>= f).run.Ends i s r t) : ∃ ch, M.enabled i st s = true ∧
      ((∃ b, (M.exec i st ch s).1 = .ok b ∧ (f b).run.Ends i (M.exec i st ch s).2 r t) ∨
        ∃ e, (M.exec i st ch s).1 = .error e ∧ r = .error e ∧ t = (M.exec i st ch s).2) := by
  rw [run_stmt_bind] at h
  obtain ⟨ch, he, h⟩ := h
  refine ⟨ch, he, ?_⟩
  generalize hb : (M.exec i st ch s).1 = b at h
  cases b with
  | ok b => exact .inl ⟨b, rfl, h⟩
  | error e => exact .inr ⟨e, rfl, h⟩

theorem ends_stmt_ok {st : M.Stmt (Except ε β)} {f : β → Throws M.Stmt ε α} {r : Except ε α}
    {t : M.State} {b : β} (ch : M.Choice) (he : M.enabled i st s = true)
    (hb : (M.exec i st ch s).1 = .ok b) (h : (f b).run.Ends i (M.exec i st ch s).2 r t) :
    (stmt st >>= f).run.Ends i s r t := by
  rw [run_stmt_bind]
  refine ⟨ch, he, ?_⟩
  rw [hb]
  exact h

/-- A transaction that runs alone commits what its body did, or undoes it. -/
theorem ends_transaction {r : Except ε α} {t : M.State}
    (h : (transaction commit rollback body).run.Ends i s r t) :
    (∃ a u ch, body.run.Ends i s (.ok a) u ∧ M.enabled i commit u = true ∧
      r = (M.exec i commit ch u).1.map (fun _ => a) ∧ t = (M.exec i commit ch u).2) ∨
    ∃ e u ch, body.run.Ends i s (.error e) u ∧ r = .error e ∧ t = (M.exec i rollback ch u).2 := by
  rw [run_transaction] at h
  obtain ⟨r', u, hbody, hend⟩ := Prog.ends_bind h
  cases r' with
  | ok a =>
    rw [run_finish_ok] at hend
    obtain ⟨ch, he, rfl, rfl⟩ := hend
    exact .inl ⟨a, u, ch, hbody, he, rfl, rfl⟩
  | error e =>
    rw [run_finish_error] at hend
    obtain ⟨ch, -, rfl, rfl⟩ := hend
    exact .inr ⟨e, u, ch, hbody, rfl, rfl⟩

theorem ends_transaction_ok {a : α} {u : M.State} (ch : M.Choice) (h : body.run.Ends i s (.ok a) u)
    (he : M.enabled i commit u = true) (hok : (M.exec i commit ch u).1 = .ok ()) :
    (transaction commit rollback body).run.Ends i s (.ok a) (M.exec i commit ch u).2 := by
  rw [run_transaction]
  refine Prog.Ends.bind h ?_
  rw [run_finish_ok]
  refine ⟨ch, he, ?_, rfl⟩
  rw [hok]
  rfl

end Interleaving.Throws
