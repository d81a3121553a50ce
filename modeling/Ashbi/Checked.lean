import Mathlib.Data.List.Basic
import Mathlib.Data.List.Induction

/-! Checks in sequence: what a computation that did not fail has established. -/

namespace Checked

variable {ε α β : Type}

/-- Fails where something is wrong. -/
def refuse (wrong : Bool) (failure : ε) : Except ε Unit :=
  if wrong then .error failure else .ok ()

/-- The value that was looked for, or a failure. -/
def found (value : Option α) (failure : ε) : Except ε α :=
  match value with
  | none => .error failure
  | some a => .ok a

@[simp] theorem bind_ok {m : Except ε α} {f : α → Except ε β} {b : β} :
    m >>= f = .ok b ↔ ∃ a, m = .ok a ∧ f a = .ok b := by
  cases m with
  | error e => simp [bind, Except.bind]
  | ok a => simp [bind, Except.bind]

@[simp] theorem pure_ok {a b : α} : (pure a : Except ε α) = .ok b ↔ a = b := by
  simp [pure, Except.pure]

@[simp] theorem refuse_ok {wrong : Bool} {failure : ε} {u : Unit} :
    refuse wrong failure = .ok u ↔ wrong = false := by
  cases wrong <;> simp [refuse]

@[simp] theorem found_ok {value : Option α} {failure : ε} {a : α} :
    found value failure = .ok a ↔ value = some a := by
  cases value <;> simp [found]

/-- A loop that answers for each element. -/
theorem mapM_ok {f : α → Except ε β} {xs : List α} {ys : List β} (h : xs.mapM f = .ok ys) :
    List.Forall₂ (fun x y => f x = .ok y) xs ys := by
  induction xs generalizing ys with
  | nil =>
    obtain rfl := pure_ok.mp h
    exact .nil
  | cons x xs ih =>
    rw [List.mapM_cons] at h
    obtain ⟨y, hy, h⟩ := bind_ok.mp h
    obtain ⟨rest, hrest, h⟩ := bind_ok.mp h
    obtain rfl := pure_ok.mp h
    exact .cons hy (ih hrest)

/-- Every answer of a loop is the answer for some element. -/
theorem mem_mapM_ok {f : α → Except ε β} {xs : List α} {ys : List β} (h : xs.mapM f = .ok ys)
    {y : β} (hy : y ∈ ys) : ∃ x ∈ xs, f x = .ok y := by
  have hall := mapM_ok h
  clear h
  induction hall with
  | nil => cases hy
  | @cons x y' xs ys hx _ ih =>
    rcases List.mem_cons.mp hy with rfl | hy
    · exact ⟨x, List.mem_cons_self, hx⟩
    · obtain ⟨x', hx', hfx⟩ := ih hy
      exact ⟨x', List.mem_cons_of_mem _ hx', hfx⟩

theorem mapM_total {f : α → Except ε β} {xs : List α} (h : ∀ x ∈ xs, ∃ y, f x = .ok y) :
    ∃ ys, xs.mapM f = .ok ys := by
  induction xs with
  | nil => exact ⟨[], rfl⟩
  | cons x xs ih =>
    obtain ⟨y, hy⟩ := h x List.mem_cons_self
    obtain ⟨ys, hys⟩ := ih fun z hz => h z (List.mem_cons_of_mem _ hz)
    refine ⟨y :: ys, ?_⟩
    rw [List.mapM_cons]
    exact bind_ok.mpr ⟨y, hy, bind_ok.mpr ⟨ys, hys, rfl⟩⟩

/-- A loop keeps what each of its steps keeps. -/
theorem foldlM_ok {f : β → α → Except ε β} {I : β → Prop} {xs : List α}
    (step : ∀ b x c, x ∈ xs → I b → f b x = .ok c → I c) {b c : β} (hb : I b)
    (h : xs.foldlM f b = .ok c) : I c := by
  induction xs generalizing b with
  | nil =>
    obtain rfl := pure_ok.mp h
    exact hb
  | cons x xs ih =>
    rw [List.foldlM_cons] at h
    obtain ⟨d, hd, hc⟩ := bind_ok.mp h
    exact ih (fun b y e hy => step b y e (List.mem_cons_of_mem _ hy))
      (step b x d List.mem_cons_self hb hd) hc

/-! ### A bounded number of reads -/

/-- A computation that counts its reads. -/
abbrev Reading (ε : Type) := StateT ℕ (Except ε)

variable {σ : Type} {limit n n' : ℕ} {exhausted : ε}

/-- One read, which fails where all have been made. -/
def read (limit : ℕ) (exhausted : ε) (answer : Except ε α) : Reading ε α :=
  fun n => if n < limit then answer.map fun a => (a, n + 1) else .error exhausted

theorem bind_returned {m : Reading ε α} {f : α → Reading ε β} {b : β} :
    (m >>= f) n = .ok (b, n') ↔ ∃ a k, m n = .ok (a, k) ∧ f a k = .ok (b, n') := by
  change (m n >>= fun p => f p.1 p.2) = .ok (b, n') ↔ _
  rw [bind_ok]
  simp only [Prod.exists]

theorem pure_returned {a b : α} :
    (pure a : Reading ε α) n = .ok (b, n') ↔ b = a ∧ n' = n := by
  change (.ok (a, n) : Except ε (α × ℕ)) = .ok (b, n') ↔ _
  simp only [Except.ok.injEq, Prod.mk.injEq, eq_comm]

/-- A check reads nothing. -/
theorem lift_returned {m : Except ε α} {a : α} :
    (liftM m : Reading ε α) n = .ok (a, n') ↔ m = .ok a ∧ n' = n := by
  change (m >>= fun a => pure (a, n)) = .ok (a, n') ↔ _
  rw [bind_ok]
  simp only [pure_ok, Prod.mk.injEq]
  constructor
  · rintro ⟨b, hb, rfl, rfl⟩
    exact ⟨hb, rfl⟩
  · rintro ⟨hb, rfl⟩
    exact ⟨a, hb, rfl, rfl⟩

theorem read_returned {answer : Except ε α} {a : α} :
    read limit exhausted answer n = .ok (a, n') ↔ answer = .ok a ∧ n' = n + 1 ∧ n' ≤ limit := by
  unfold read
  split
  · cases answer with
    | error e => simp [Except.map]
    | ok b =>
      simp only [Except.map, Except.ok.injEq, Prod.mk.injEq]
      constructor
      · rintro ⟨hb, rfl⟩
        exact ⟨hb, rfl, by assumption⟩
      · rintro ⟨hb, rfl, -⟩
        exact ⟨hb, rfl⟩
  · simp only [reduceCtorEq, false_iff]
    omega

/-! ### Loops -/

/-- A loop whose step, after the elements of a list, goes on exactly where a condition holds of the
list with its own element, and then leaves a state and a number of reads that the list gives. -/
structure Loop (limit : ℕ) (f : σ → α → Reading ε σ) (Cond : List α → Prop) (after : List α → σ)
    (cost : List α → ℕ) : Prop where
  init : ∀ {xs x}, Cond (xs ++ [x]) → Cond xs
  mono : ∀ {xs x}, Cond (xs ++ [x]) → cost xs ≤ cost (xs ++ [x])
  step : ∀ {xs x s' n n'}, Cond xs → n ≤ limit →
    (f (after xs) x n = .ok (s', n') ↔ Cond (xs ++ [x]) ∧ s' = after (xs ++ [x]) ∧
      n' + cost xs = n + cost (xs ++ [x]) ∧ n' ≤ limit)

namespace Loop

variable {f : σ → α → Reading ε σ} {Cond : List α → Prop} {after : List α → σ} {cost : List α → ℕ}
  {xs ys : List α} {s' : σ}

theorem init_append (h : Loop limit f Cond after cost) (hcond : Cond (xs ++ ys)) :
    Cond xs ∧ cost xs ≤ cost (xs ++ ys) := by
  induction ys using List.reverseRecOn with
  | nil =>
    rw [List.append_nil] at hcond ⊢
    exact ⟨hcond, Nat.le_refl _⟩
  | append_singleton ys y ih =>
    rw [← List.append_assoc] at hcond ⊢
    obtain ⟨hxs, hle⟩ := ih (h.init hcond)
    exact ⟨hxs, Nat.le_trans hle (h.mono hcond)⟩

/-- The whole loop returns exactly where the condition holds of all elements. -/
theorem run (h : Loop limit f Cond after cost) (hcond : Cond xs) (hn : n ≤ limit) :
    ys.foldlM f (after xs) n = .ok (s', n') ↔ Cond (xs ++ ys) ∧ s' = after (xs ++ ys) ∧
      n' + cost xs = n + cost (xs ++ ys) ∧ n' ≤ limit := by
  induction ys generalizing xs n with
  | nil =>
    rw [List.foldlM_nil, pure_returned, List.append_nil]
    constructor
    · rintro ⟨rfl, rfl⟩
      exact ⟨hcond, rfl, rfl, hn⟩
    · rintro ⟨-, rfl, heq, -⟩
      exact ⟨rfl, by omega⟩
  | cons y ys ih =>
    have happend : xs ++ y :: ys = xs ++ [y] ++ ys := by simp
    rw [List.foldlM_cons, bind_returned, happend]
    constructor
    · rintro ⟨t, k, hstep, hrest⟩
      obtain ⟨hcond', rfl, hk, hle⟩ := (h.step hcond hn).mp hstep
      obtain ⟨hall, hs, hcost, hlimit⟩ := (ih hcond' hle).mp hrest
      exact ⟨hall, hs, by omega, hlimit⟩
    · rintro ⟨hall, hs, hcost, hlimit⟩
      obtain ⟨hcond', hle⟩ := h.init_append hall
      have hmono := h.mono hcond'
      have hk : n + cost (xs ++ [y]) - cost xs ≤ limit := by omega
      refine ⟨after (xs ++ [y]), n + cost (xs ++ [y]) - cost xs, ?_, ?_⟩
      · exact (h.step hcond hn).mpr ⟨hcond', rfl, by omega, hk⟩
      · exact (ih hcond' hk).mpr ⟨hall, hs, by omega, hlimit⟩

/-- The loop from its start. -/
theorem run_all (h : Loop limit f Cond after cost) (hcond : Cond []) (hn : n ≤ limit) :
    ys.foldlM f (after []) n = .ok (s', n') ↔ Cond ys ∧ s' = after ys ∧
      n' + cost [] = n + cost ys ∧ n' ≤ limit := by
  simpa only [List.nil_append] using h.run hcond hn

end Loop

end Checked
