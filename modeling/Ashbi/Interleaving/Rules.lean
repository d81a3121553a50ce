import Ashbi.Interleaving.Program

/-! Rely-guarantee rules for interleaved programs. -/

namespace Interleaving

/-- What the threads promise each other. `inv` holds between statements, `rely`
is what a thread may assume the others leave alone, `assumed` restricts the
runs considered and `guar` is established of every executed statement. A thread
finds `fresh` when it starts and leaves `final` when it is done. -/
structure Contract (M : Machine) where
  inv : M.State → Prop
  rely : ℕ → M.State → M.State → Prop
  assumed : Occurrence M → Prop
  guar : Occurrence M → Prop
  fresh : ℕ → M.State → Prop := fun _ _ => True
  final : ℕ → M.State → Prop := fun _ _ => True
  refl : ∀ i s, rely i s s
  trans : ∀ i s t u, rely i s t → rely i t u → rely i s u
  fresh_rely : ∀ i s t, rely i s t → fresh i s → fresh i t := by exact fun _ _ _ _ _ => trivial
  final_rely : ∀ i s t, rely i s t → final i s → final i t := by exact fun _ _ _ _ _ => trivial

variable {M : Machine} {K : Contract M} {α β : Type}

/-- What one statement has to establish, whichever thread waits meanwhile. -/
structure Contract.Keeps (K : Contract M) (o : Occurrence M) : Prop where
  guar : K.guar o
  inv : K.inv o.post
  others : ∀ j, j ≠ o.thread → K.rely j o.pre o.post

/-- Run as thread `i` from `s`, the program meets the contract at each of its
statements, however the others move in between, and ends in `Q`. -/
def Prog.Safe (K : Contract M) (i : ℕ) :
    {α : Type} → Prog M.Stmt α → (α → M.State → Prop) → M.State → Prop
  | _, .ret a, Q, s => Q a s
  | _, .call st next, Q, s => ∀ t ch, K.rely i s t → K.inv t → M.enabled i st t = true →
      K.assumed ⟨i, st, ch, t⟩ → K.Keeps ⟨i, st, ch, t⟩ ∧
        (next (M.exec i st ch t).1).Safe K i Q (M.exec i st ch t).2
  | _, .fork child next, Q, s => ∀ t, K.rely i s t → K.inv t →
      (∀ j, K.fresh j t → child.Safe K j (fun _ => K.final j) t) ∧ next.Safe K i Q t

theorem Prog.Safe.mono {p : Prog M.Stmt α} {Q Q' : α → M.State → Prop} {i : ℕ} {s : M.State}
    (h : p.Safe K i Q s) (hq : ∀ a t, Q a t → Q' a t) : p.Safe K i Q' s := by
  induction p generalizing s with
  | ret a => exact hq a s h
  | call st next ih =>
    intro t ch hr hi he ha
    obtain ⟨hk, hn⟩ := h t ch hr hi he ha
    exact ⟨hk, ih _ hn hq⟩
  | fork child next _ ih =>
    intro t hr hi
    exact ⟨(h t hr hi).1, ih (h t hr hi).2 hq⟩

theorem Prog.Safe.bind {p : Prog M.Stmt α} {f : α → Prog M.Stmt β} {Q : β → M.State → Prop}
    {i : ℕ} {s : M.State} (h : p.Safe K i (fun a t => (f a).Safe K i Q t) s) :
    (p.bind f).Safe K i Q s := by
  induction p generalizing s with
  | ret a => exact h
  | call st next ih =>
    intro t ch hr hi he ha
    obtain ⟨hk, hn⟩ := h t ch hr hi he ha
    exact ⟨hk, ih _ hn⟩
  | fork child next _ ih =>
    intro t hr hi
    exact ⟨(h t hr hi).1, ih (h t hr hi).2⟩

/-- The other threads may move before a program starts. -/
theorem Prog.Safe.wait {p : Prog M.Stmt α} {Q : α → M.State → Prop} {i : ℕ} {s t : M.State}
    (h : p.Safe K i Q s) (hr : K.rely i s t) (hq : ∀ a u v, K.rely i u v → Q a u → Q a v) :
    p.Safe K i Q t := by
  cases p with
  | ret a => exact hq a s t hr h
  | call st next => exact fun u ch hu => h u ch (K.trans _ _ _ _ hr hu)
  | fork child next => exact fun u hu => h u (K.trans _ _ _ _ hr hu)

/-- The frame rule: what no statement and no other thread breaks still holds. -/
theorem Prog.Safe.frame {p : Prog M.Stmt α} {Q : α → M.State → Prop} {i : ℕ} {s : M.State}
    {F : M.State → Prop} (stable : ∀ j u v, K.rely j u v → F u → F v)
    (h : p.Safe K i Q s) (hs : F s) : p.Safe K i (fun a t => Q a t ∧ F t) s := by
  induction p generalizing s with
  | ret a => exact ⟨h, hs⟩
  | call st next ih =>
    intro t ch hr hi he ha
    obtain ⟨hk, hn⟩ := h t ch hr hi he ha
    have hpost := hk.others (i + 1) (Nat.succ_ne_self i)
    exact ⟨hk, ih _ hn (stable _ _ _ hpost (stable _ _ _ hr hs))⟩
  | fork child next _ ih =>
    intro t hr hi
    exact ⟨(h t hr hi).1, ih (h t hr hi).2 (stable _ _ _ hr hs)⟩

/-- A loop over a list keeps an invariant of its accumulator that the other
threads cannot break. -/
theorem Prog.Safe.foldlM {f : β → α → Prog M.Stmt β} {I : β → M.State → Prop} {i : ℕ} {xs : List α}
    (step : ∀ b x s, x ∈ xs → I b s → (f b x).Safe K i I s) {b : β} {s : M.State} (h : I b s) :
    (xs.foldlM f b).Safe K i I s := by
  induction xs generalizing b s with
  | nil => exact h
  | cons x xs ih =>
    have hx := step b x s List.mem_cons_self h
    refine Prog.Safe.bind (hx.mono fun b' t hb => ?_)
    exact ih (fun b y u hy => step b y u (List.mem_cons_of_mem _ hy)) hb

/-- Every thread of a configuration is safe where it stands. -/
structure Contract.Holds (K : Contract M) (c : Config M) : Prop where
  inv : K.inv c.state
  fresh : ∀ i, c.threads.length ≤ i → K.fresh i c.state
  safe : ∀ i (p : Prog M.Stmt Unit), c.threads[i]? = some p →
    p.Safe K i (fun _ => K.final i) c.state

variable {P : Prog M.Stmt Unit → Prop} {s₀ : M.State} {tr : List (Occurrence M)} {c : Config M}

/-- A thread that is done has left `final`. -/
theorem Contract.Holds.final {i : ℕ} (h : K.Holds c) (hi : c.threads[i]? = some (.ret ())) :
    K.final i c.state := h.safe i _ hi

theorem Contract.Holds.start {p : Prog M.Stmt Unit} (h : K.Holds c)
    (hp : ∀ i, K.fresh i c.state → p.Safe K i (fun _ => K.final i) c.state) :
    K.Holds ⟨c.state, c.threads ++ [p]⟩ := by
  refine ⟨h.inv, fun i hi => h.fresh i (by simp at hi; omega), fun i q hq => ?_⟩
  rcases Nat.lt_trichotomy i c.threads.length with hlt | heq | hgt
  · exact h.safe i q (by simpa [List.getElem?_append_left hlt] using hq)
  · subst heq
    simp only [List.getElem?_concat_length, Option.some.injEq] at hq
    exact hq ▸ hp _ (h.fresh _ (Nat.le_refl _))
  · rw [List.getElem?_eq_none (by simp; omega)] at hq
    simp at hq

theorem Contract.Holds.call {i : ℕ} {st : M.Stmt β} {next : β → Prog M.Stmt Unit} {ch : M.Choice}
    (h : K.Holds c) (hi : c.threads[i]? = some (.call st next))
    (he : M.enabled i st c.state = true) (ha : K.assumed ⟨i, st, ch, c.state⟩) :
    K.Keeps ⟨i, st, ch, c.state⟩ ∧
    K.Holds ⟨(M.exec i st ch c.state).2,
      c.threads.set i (next (M.exec i st ch c.state).1)⟩ := by
  obtain ⟨hk, hn⟩ := h.safe i _ hi c.state ch (K.refl _ _) h.inv he ha
  have hlt : i < c.threads.length := (List.getElem?_eq_some_iff.mp hi).1
  refine ⟨hk, hk.inv, fun j hj => ?_, fun j q hq => ?_⟩
  · simp only [List.length_set] at hj
    exact K.fresh_rely j _ _ (hk.others j (by simp only []; omega)) (h.fresh j hj)
  by_cases hj : i = j
  · subst hj
    simp only [List.getElem?_set_self hlt, Option.some.injEq] at hq
    exact hq ▸ hn
  · rw [List.getElem?_set_ne hj] at hq
    exact (h.safe j q hq).wait (hk.others j fun e => hj e.symm) fun _ => K.final_rely j

theorem Contract.Holds.fork {i : ℕ} {child next : Prog M.Stmt Unit} (h : K.Holds c)
    (hi : c.threads[i]? = some (.fork child next)) :
    K.Holds ⟨c.state, c.threads.set i next ++ [child]⟩ := by
  obtain ⟨hc, hn⟩ := h.safe i _ hi c.state (K.refl _ _) h.inv
  have hlt : i < c.threads.length := (List.getElem?_eq_some_iff.mp hi).1
  have hs : K.Holds ⟨c.state, c.threads.set i next⟩ := by
    refine ⟨h.inv, fun j hj => h.fresh j (by simpa using hj), fun j q hq => ?_⟩
    by_cases hj : i = j
    · subst hj
      simp only [List.getElem?_set_self hlt, Option.some.injEq] at hq
      exact hq ▸ hn
    · exact h.safe j q (by rwa [List.getElem?_set_ne hj] at hq)
  exact hs.start hc

/-- The run rule: if every program that may be started is safe wherever the
invariant holds, then every run keeps the invariant and every statement it
executes starts in it and keeps the contract. -/
theorem Run.holds
    (hP : ∀ p, P p → ∀ i s, K.inv s → K.fresh i s → p.Safe K i (fun _ => K.final i) s)
    (h0 : K.inv s₀) (hf : ∀ i, K.fresh i s₀) (h : Run P s₀ tr c) (ha : ∀ o ∈ tr, K.assumed o) :
    K.Holds c ∧ ∀ o ∈ tr, K.inv o.pre ∧ K.Keeps o := by
  induction h with
  | init => exact ⟨⟨h0, fun i _ => hf i, by simp⟩, by simp⟩
  | start h hp ih =>
    obtain ⟨hc, hg⟩ := ih ha
    exact ⟨hc.start fun i => hP _ hp i _ hc.inv, hg⟩
  | call h hi he ih =>
    obtain ⟨hc, hg⟩ := ih fun o ho => ha o (List.mem_append_left _ ho)
    obtain ⟨hgo, hn⟩ := hc.call hi he (ha _ (List.mem_append_right _ List.mem_cons_self))
    refine ⟨hn, fun o ho => ?_⟩
    rcases List.mem_append.mp ho with ho | ho
    · exact hg o ho
    · exact List.mem_singleton.mp ho ▸ ⟨hc.inv, hgo⟩
  | fork h hi ih =>
    obtain ⟨hc, hg⟩ := ih ha
    exact ⟨hc.fork hi, hg⟩

/-- An invariant that each executed statement keeps. -/
theorem Run.invariant (I : M.State → Prop) (h : Run P s₀ tr c)
    (step : ∀ o ∈ tr, I o.pre → I o.post) (h0 : I s₀) :
    I c.state ∧ ∀ o ∈ tr, I o.pre := by
  induction h with
  | init => exact ⟨h0, by simp⟩
  | start _ _ ih => exact ih step
  | fork _ _ ih => exact ih step
  | call _ _ _ ih =>
    obtain ⟨hc, hg⟩ := ih fun o ho => step o (List.mem_append_left _ ho)
    refine ⟨step _ (List.mem_append_right _ List.mem_cons_self) hc, fun o ho => ?_⟩
    rcases List.mem_append.mp ho with ho | ho
    · exact hg o ho
    · exact List.mem_singleton.mp ho ▸ hc

/-- Whatever each statement of the trace preserves, the whole run preserves
from any earlier point of it on. -/
theorem Run.preserves (R : M.State → M.State → Prop) (refl : ∀ s, R s s)
    (trans : ∀ s t u, R s t → R t u → R s u) (h : Run P s₀ tr c)
    (step : ∀ o ∈ tr, R o.pre o.post) : R s₀ c.state ∧ ∀ o ∈ tr, R o.post c.state := by
  induction h with
  | init => exact ⟨refl _, by simp⟩
  | start _ _ ih => exact ih step
  | fork _ _ ih => exact ih step
  | call _ _ _ ih =>
    obtain ⟨h1, h2⟩ := ih fun o ho => step o (List.mem_append_left _ ho)
    have hlast := step _ (List.mem_append_right _ List.mem_cons_self)
    refine ⟨trans _ _ _ h1 hlast, fun o ho => ?_⟩
    rcases List.mem_append.mp ho with ho | ho
    · exact trans _ _ _ (h2 o ho) hlast
    · exact List.mem_singleton.mp ho ▸ refl _

end Interleaving
