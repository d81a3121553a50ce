import Mathlib

/-! Transactions whose constraints are checked at commit, for the keys that they marked. -/

namespace Deferred

variable {σ κ ε α β : Type}

/-- What an open transaction has written, and the keys that its commit will check. -/
structure Pending (σ κ : Type) where
  state : σ
  marked : List κ

/-- A transaction body; a failure discards what it wrote. -/
abbrev Tx (σ κ ε : Type) := StateT (Pending σ κ) (Except ε)

namespace Tx

/-- Fails or answers from the pending state without writing. -/
def read (f : σ → Except ε α) : Tx σ κ ε α := fun p => (f p.state).map (·, p)

/-- Writes the state and marks keys. -/
def write (state : σ) (marked : List κ) : Tx σ κ ε Unit :=
  fun p => .ok ((), ⟨state, p.marked ++ marked⟩)

def fail (e : ε) : Tx σ κ ε α := fun _ => .error e

theorem bind_ok {m : Tx σ κ ε α} {f : α → Tx σ κ ε β} {p r : Pending σ κ} {b : β} :
    (m >>= f) p = .ok (b, r) ↔ ∃ a q, m p = .ok (a, q) ∧ f a q = .ok (b, r) := by
  simp only [bind, StateT.bind, Except.bind]
  cases m p with
  | error e => simp
  | ok x =>
    obtain ⟨a, q⟩ := x
    simp

theorem pure_ok {a b : α} {p q : Pending σ κ} :
    (pure a : Tx σ κ ε α) p = .ok (b, q) ↔ a = b ∧ p = q := by
  simp [pure, StateT.pure, Except.pure]

theorem read_ok {f : σ → Except ε α} {p q : Pending σ κ} {a : α} :
    (read f : Tx σ κ ε α) p = .ok (a, q) ↔ f p.state = .ok a ∧ p = q := by
  unfold read
  cases f p.state <;> simp [Except.map]

theorem write_ok {state : σ} {marked : List κ} {p q : Pending σ κ} {u : Unit} :
    (write state marked : Tx σ κ ε Unit) p = .ok (u, q) ↔ q = ⟨state, p.marked ++ marked⟩ := by
  simp [write, eq_comm]

theorem fail_ok {e : ε} {p q : Pending σ κ} {a : α} :
    (fail e : Tx σ κ ε α) p = .ok (a, q) ↔ False := by
  simp [fail]

end Tx

/-! ### What every step of a body preserves -/

/-- Wherever the body succeeds, it leads from a pending state to a related one. -/
def Keeps (R : Pending σ κ → Pending σ κ → Prop) (m : Tx σ κ ε α) : Prop :=
  ∀ p a q, m p = .ok (a, q) → R p q

variable {R : Pending σ κ → Pending σ κ → Prop}

theorem Keeps.bind (trans : ∀ p q r, R p q → R q r → R p r) {m : Tx σ κ ε α} {f : α → Tx σ κ ε β}
    (hm : Keeps R m) (hf : ∀ p a q, m p = .ok (a, q) → Keeps R (f a)) : Keeps R (m >>= f) := by
  intro p b r h
  obtain ⟨a, q, hq, hr⟩ := Tx.bind_ok.mp h
  exact trans p q r (hm p a q hq) (hf p a q hq q b r hr)

theorem Keeps.pure (refl : ∀ p, R p p) (a : α) : Keeps R (pure a : Tx σ κ ε α) := by
  intro p b q h
  obtain ⟨-, rfl⟩ := Tx.pure_ok.mp h
  exact refl p

theorem Keeps.read (refl : ∀ p, R p p) (f : σ → Except ε α) : Keeps R (Tx.read (κ := κ) f) := by
  intro p a q h
  obtain ⟨-, rfl⟩ := Tx.read_ok.mp h
  exact refl p

theorem Keeps.fail (e : ε) : Keeps R (Tx.fail e : Tx σ κ ε α) := by
  intro p a q h
  exact (Tx.fail_ok.mp h).elim

/-! ### Commit -/

variable (check : κ → σ → Except ε Unit)

/-- The checks of the marked keys, in the order in which they were marked. -/
def Pending.commit (p : Pending σ κ) : Except ε σ := do
  forM p.marked fun k => check k p.state
  pure p.state

/-- Runs a body and commits it; on a failure of either the state is unchanged. -/
def transact (body : Tx σ κ ε α) (s : σ) : Except ε α × σ :=
  match body ⟨s, []⟩ with
  | .error e => (.error e, s)
  | .ok (a, p) =>
    match p.commit check with
    | .error e => (.error e, s)
    | .ok t => (.ok a, t)

variable {check}

theorem forM_ok {xs : List κ} {f : κ → Except ε Unit} :
    forM xs f = .ok () ↔ ∀ x ∈ xs, f x = .ok () := by
  induction xs with
  | nil => simp [pure, Except.pure]
  | cons x xs ih =>
    rw [List.forM_cons, List.forall_mem_cons]
    cases f x with
    | error e => simp [bind, Except.bind]
    | ok u => simpa [bind, Except.bind] using ih

theorem Pending.commit_ok {p : Pending σ κ} {t : σ} :
    p.commit check = .ok t ↔ (∀ k ∈ p.marked, check k p.state = .ok ()) ∧ t = p.state := by
  unfold Pending.commit
  rw [← forM_ok]
  cases forM p.marked fun k => check k p.state with
  | error e => simp [bind, Except.bind]
  | ok u => simp [bind, Except.bind, pure, Except.pure, eq_comm]

variable (check) in
/-- What a transaction does: nothing, or all of its body with every marked key in order. -/
theorem transact_cases (body : Tx σ κ ε α) (s : σ) :
    (∃ e, transact check body s = (.error e, s)) ∨
    ∃ a p, body ⟨s, []⟩ = .ok (a, p) ∧ (∀ k ∈ p.marked, check k p.state = .ok ()) ∧
      transact check body s = (.ok a, p.state) := by
  unfold transact
  cases hb : body ⟨s, []⟩ with
  | error e => exact .inl ⟨e, rfl⟩
  | ok x =>
    obtain ⟨a, p⟩ := x
    cases hc : p.commit check with
    | error e => exact .inl ⟨e, by simp only [hc]⟩
    | ok t =>
      obtain ⟨hall, rfl⟩ := Pending.commit_ok.mp hc
      exact .inr ⟨a, p, rfl, hall, by simp only [hc]⟩

theorem transact_error {body : Tx σ κ ε α} {s : σ} {e : ε}
    (h : (transact check body s).1 = .error e) :
    (transact check body s).2 = s := by
  rcases transact_cases check body s with ⟨e', he⟩ | ⟨a, p, -, -, hp⟩
  · rw [he]
  · rw [hp] at h
    cases h

/-- A step that marks every key whose constraint it may break. -/
structure Tracks (check : κ → σ → Except ε Unit) (p q : Pending σ κ) : Prop where
  marked : p.marked ⊆ q.marked
  kept : ∀ k, k ∉ q.marked → check k p.state = .ok () → check k q.state = .ok ()

theorem Tracks.refl (p : Pending σ κ) : Tracks check p p := ⟨fun _ h => h, fun _ _ h => h⟩

theorem Tracks.trans {p q r : Pending σ κ} (hpq : Tracks check p q) (hqr : Tracks check q r) :
    Tracks check p r where
  marked := List.Subset.trans hpq.marked hqr.marked
  kept k hk h := hqr.kept k hk (hpq.kept k (fun hq => hk (hqr.marked hq)) h)

/-- Checking the marked keys is enough: a committed state meets every constraint. -/
theorem transact_sound {body : Tx σ κ ε α} {s : σ} (hb : Keeps (Tracks check) body)
    (h : ∀ k, check k s = .ok ()) : ∀ k, check k (transact check body s).2 = .ok () := by
  intro k
  rcases transact_cases check body s with ⟨e, he⟩ | ⟨a, p, hp, hall, he⟩
  · rw [he]
    exact h k
  · rw [he]
    by_cases hk : k ∈ p.marked
    · exact hall k hk
    · exact (hb _ _ _ hp).kept k hk (h k)

end Deferred
