import Ashbi.Interleaving.Rules

/-! How often a thread can run a statement of a given kind, and whether at all after some answer. -/

namespace Interleaving

section Once

variable {M : Machine} {s t : M.State} {tr : List (Occurrence M)}

/-- What bars itself for the states behind it happens once, and not behind such a state. -/
theorem Chained.barred (h : Chained s tr t) (P : Occurrence M → Bool) (R : M.State → Prop)
    (sets : ∀ o ∈ tr, P o = true → R o.post) (keeps : ∀ o ∈ tr, R o.pre → R o.post)
    (bars : ∀ o ∈ tr, R o.pre → P o = false) :
    (tr.filter P).length ≤ 1 ∧ (R s → tr.filter P = []) := by
  induction tr generalizing s with
  | nil => simp
  | cons o rest ih =>
    obtain ⟨rfl, hrest⟩ := h
    obtain ⟨hle, hnone⟩ := ih hrest (fun o' ho' => sets o' (List.mem_cons_of_mem _ ho'))
      (fun o' ho' => keeps o' (List.mem_cons_of_mem _ ho'))
      fun o' ho' => bars o' (List.mem_cons_of_mem _ ho')
    by_cases hP : P o = true
    · rw [List.filter_cons_of_pos hP, hnone (sets o List.mem_cons_self hP)]
      refine ⟨Nat.le_refl _, fun hs => ?_⟩
      rw [bars o List.mem_cons_self hs] at hP
      cases hP
    · rw [List.filter_cons_of_neg hP]
      exact ⟨hle, fun hs => hnone (keeps o List.mem_cons_self hs)⟩

/-- A rank that never falls passes each bound once. -/
theorem Chained.once (h : Chained s tr t) (rank : M.State → ℕ)
    (mono : ∀ o ∈ tr, rank o.pre ≤ rank o.post) (passes : Occurrence M → Bool) (bound : ℕ)
    (step : ∀ o ∈ tr, passes o = true → rank o.pre ≤ bound ∧ bound < rank o.post) :
    (tr.filter passes).length ≤ 1 ∧ (bound < rank s → tr.filter passes = []) := by
  refine h.barred passes (fun s => bound < rank s) (fun o ho hp => (step o ho hp).2)
    (fun o ho hs => Nat.lt_of_lt_of_le hs (mono o ho)) fun o ho hs => ?_
  by_contra hp
  have hle := (step o ho (Bool.not_eq_false _ ▸ hp)).1
  omega

end Once

section

variable {S : Type → Type} {φ : {β : Type} → S β → Bool} {α β : Type}

/-- However it is answered, the program runs at most `n` statements of the kind `φ`. -/
def Prog.AtMost (φ : {β : Type} → S β → Bool) : {α : Type} → Prog S α → ℕ → Prop
  | _, .ret _, _ => True
  | _, .call st next, n =>
    if φ st then 0 < n ∧ ∀ b, (next b).AtMost φ (n - 1) else ∀ b, (next b).AtMost φ n
  | _, .fork child next, n => child.AtMost φ n ∧ next.AtMost φ n

theorem Prog.atMost_call_iff {st : S β} {next : β → Prog S α} {n : ℕ} :
    (Prog.call st next).AtMost φ n ↔
      if φ st then 0 < n ∧ ∀ b, (next b).AtMost φ (n - 1) else ∀ b, (next b).AtMost φ n := Iff.rfl

theorem Prog.AtMost.mono {p : Prog S α} {n m : ℕ} (h : p.AtMost φ n) (hnm : n ≤ m) :
    p.AtMost φ m := by
  induction p generalizing n m with
  | ret a => trivial
  | call st next ih =>
    rw [Prog.atMost_call_iff] at h ⊢
    split
    · rename_i hst
      rw [if_pos hst] at h
      exact ⟨by omega, fun b => ih b (h.2 b) (by omega)⟩
    · rename_i hst
      rw [if_neg hst] at h
      exact fun b => ih b (h b) hnm
  | fork child next ihc ihn => exact ⟨ihc h.1 hnm, ihn h.2 hnm⟩

/-- A narrower kind is run no more often. -/
theorem Prog.AtMost.imp {φ' : {β : Type} → S β → Bool} {p : Prog S α} {n : ℕ}
    (h : p.AtMost φ n) (himp : ∀ {β : Type} (st : S β), φ' st = true → φ st = true) :
    p.AtMost φ' n := by
  induction p generalizing n with
  | ret a => trivial
  | call st next ih =>
    rw [Prog.atMost_call_iff] at h ⊢
    by_cases hst : φ st = true
    · rw [if_pos hst] at h
      split
      · exact ⟨h.1, fun b => ih b (h.2 b)⟩
      · exact fun b => (ih b (h.2 b)).mono (by omega)
    · rw [if_neg hst] at h
      rw [if_neg fun hst' => hst (himp st hst')]
      exact fun b => ih b (h b)
  | fork child next ihc ihn => exact ⟨ihc h.1, ihn h.2⟩

theorem Prog.AtMost.bind {p : Prog S α} {f : α → Prog S β} {n m : ℕ} (h : p.AtMost φ n)
    (hf : ∀ a, (f a).AtMost φ m) : (p.bind f).AtMost φ (n + m) := by
  induction p generalizing n with
  | ret a => exact (hf a).mono (by omega)
  | call st next ih =>
    rw [Prog.atMost_call_iff] at h
    rw [Prog.call_bind, Prog.atMost_call_iff]
    split
    · rename_i hst
      rw [if_pos hst] at h
      refine ⟨by omega, fun b => ?_⟩
      have hb := ih b (h.2 b) hf
      exact hb.mono (by omega)
    · rename_i hst
      rw [if_neg hst] at h
      exact fun b => ih b (h b) hf
  | fork child next ihc ihn => exact ⟨h.1.mono (by omega), ihn h.2 hf⟩

theorem Prog.atMost_call {st : S β} {next : β → Prog S α} {n : ℕ} (hst : φ st = false)
    (h : ∀ b, (next b).AtMost φ n) : (Prog.call st next).AtMost φ n := by
  simpa [Prog.atMost_call_iff, hst] using h

theorem Prog.atMost_call_succ {st : S β} {next : β → Prog S α} {n : ℕ} (hst : φ st = true)
    (h : ∀ b, (next b).AtMost φ n) : (Prog.call st next).AtMost φ (n + 1) := by
  simpa [Prog.atMost_call_iff, hst] using h

/-- Where every statement of another kind meets the contract, so does a program that has no
statement of the kind `φ`; `J` is what its thread knows throughout. -/
theorem Prog.AtMost.safe {M : Machine} {K : Contract M} {φ : {β : Type} → M.Stmt β → Bool}
    {J : ℕ → M.State → Prop} (hrely : ∀ i s t, K.rely i s t → J i s → J i t)
    (hfresh : ∀ i s, K.fresh i s → J i s) (hfinal : ∀ i s, J i s → K.final i s)
    (step : ∀ {β : Type} (i : ℕ) (st : M.Stmt β) ch s, φ st = false → J i s → K.inv s →
      M.enabled i st s = true → K.assumed ⟨i, st, ch, s⟩ →
      K.Keeps ⟨i, st, ch, s⟩ ∧ J i (M.exec i st ch s).2)
    {p : Prog M.Stmt α} (hp : p.AtMost φ 0) {i : ℕ} {s : M.State} (hs : J i s) :
    p.Safe K i (fun _ => J i) s := by
  induction p generalizing i s with
  | ret a => exact hs
  | call st next ih =>
    have hst : φ st = false := by
      by_contra hne
      simp [Prog.atMost_call_iff, hne] at hp
    simp only [Prog.atMost_call_iff, hst, Bool.false_eq_true, ↓reduceIte] at hp
    intro t ch hr hi he ha
    obtain ⟨hkeeps, hpost⟩ := step i st ch t hst (hrely i s t hr hs) hi he ha
    exact ⟨hkeeps, ih _ (hp _) hpost⟩
  | fork child next ihc ihn =>
    intro t hr _
    exact ⟨fun j hj => (ihc hp.1 (hfresh j t hj)).mono fun _ _ h => hfinal j _ h,
      ihn hp.2 (hrely i s t hr hs)⟩

variable {M : Machine} {ψ : {β : Type} → M.Stmt β → Bool}

/-- The statements of kind `ψ` that thread `i` has run. -/
def countOf (ψ : {β : Type} → M.Stmt β → Bool) (tr : List (Occurrence M)) (i : ℕ) : ℕ :=
  (tr.filter fun o => o.thread = i && ψ o.stmt).length

theorem countOf_concat (tr : List (Occurrence M)) (o : Occurrence M) (i : ℕ) :
    countOf ψ (tr ++ [o]) i = countOf ψ tr i + if o.thread = i && ψ o.stmt then 1 else 0 := by
  simp only [countOf, List.filter_append, List.length_append]
  by_cases h : (decide (o.thread = i) && ψ o.stmt) = true <;> simp [h]

/-- What every thread has run and may still run stays within the budget. -/
structure Budget (ψ : {β : Type} → M.Stmt β → Bool) (N : ℕ) (tr : List (Occurrence M))
    (c : Config M) : Prop where
  rest : ∀ (i : ℕ) p, c.threads[i]? = some p → ∃ n, p.AtMost ψ n ∧ countOf ψ tr i + n ≤ N
  unstarted : ∀ i, c.threads.length ≤ i → countOf ψ tr i = 0

theorem Budget.add {N : ℕ} {tr : List (Occurrence M)} {c : Config M} {p : Prog M.Stmt Unit}
    (h : Budget ψ N tr c) (hp : p.AtMost ψ N) : Budget ψ N tr ⟨c.state, c.threads ++ [p]⟩ := by
  refine ⟨fun i q hq => ?_, fun i hi => h.unstarted i (by simp at hi; omega)⟩
  rcases Nat.lt_trichotomy i c.threads.length with hlt | heq | hgt
  · exact h.rest i q (by simpa [List.getElem?_append_left hlt] using hq)
  · subst heq
    simp only [List.getElem?_concat_length, Option.some.injEq] at hq
    exact ⟨N, hq ▸ hp, by rw [h.unstarted _ (Nat.le_refl _)]; omega⟩
  · rw [List.getElem?_eq_none (by simp; omega)] at hq
    simp at hq

theorem Budget.set {N i : ℕ} {tr tr' : List (Occurrence M)} {c : Config M} {s : M.State}
    {next : Prog M.Stmt Unit} (h : Budget ψ N tr c) (hi : i < c.threads.length)
    (hothers : ∀ j, j ≠ i → countOf ψ tr' j = countOf ψ tr j)
    (hnext : ∃ n, next.AtMost ψ n ∧ countOf ψ tr' i + n ≤ N) :
    Budget ψ N tr' ⟨s, c.threads.set i next⟩ := by
  refine ⟨fun j q hq => ?_, fun j hj => ?_⟩
  · by_cases hij : i = j
    · subst hij
      simp only [List.getElem?_set_self hi, Option.some.injEq] at hq
      exact hq ▸ hnext
    · rw [List.getElem?_set_ne hij] at hq
      rw [hothers j fun e => hij e.symm]
      exact h.rest j q hq
  · simp only [List.length_set] at hj
    rw [hothers j (by omega)]
    exact h.unstarted j hj

/-- No thread exceeds what every program keeps to. -/
theorem Run.atMost {P : Prog M.Stmt Unit → Prop} {s₀ : M.State} {tr : List (Occurrence M)}
    {c : Config M} {N : ℕ} (hP : ∀ p, P p → p.AtMost ψ N) (h : Run P s₀ tr c) (i : ℕ) :
    countOf ψ tr i ≤ N := by
  have hbudget : Budget ψ N tr c := by
    induction h with
    | init => exact ⟨by simp, fun _ _ => rfl⟩
    | start _ hp ih => exact ih.add (hP _ hp)
    | @call tr c i β st next ch _ hi _ ih =>
      obtain ⟨n, hn, hle⟩ := ih.rest i _ hi
      apply ih.set (List.getElem?_eq_some_iff.mp hi).1
      · intro j hj
        simp [countOf_concat, Ne.symm hj]
      · rw [Prog.atMost_call_iff] at hn
        rw [countOf_concat]
        split at hn
        · rename_i hst
          exact ⟨n - 1, hn.2 _, by simp [hst]; omega⟩
        · rename_i hst
          exact ⟨n, hn _, by simpa [hst] using hle⟩
    | @fork tr c i child next _ hi ih =>
      obtain ⟨n, hn, hle⟩ := ih.rest _ _ hi
      have hset := ih.set (s := c.state) (List.getElem?_eq_some_iff.mp hi).1 (fun _ _ => rfl)
        ⟨n, hn.2, hle⟩
      exact hset.add (hn.1.mono (by omega))
  by_cases hi : i < c.threads.length
  · obtain ⟨n, _, hle⟩ := hbudget.rest i _ (List.getElem?_eq_getElem hi)
    omega
  · rw [hbudget.unstarted i (by omega)]
    omega

end

/-! ### What a thread no longer does once a statement has been answered in a certain way -/

section

variable {S : Type → Type} {hit : {β : Type} → S β → β → Bool} {bar : {β : Type} → S β → Bool}
  {α β : Type}

/-- However it is answered, the program runs no `bar` statement, forks nothing and ends in `Q`. -/
def Prog.Without (bar : {β : Type} → S β → Bool) : {α : Type} → (α → Prop) → Prog S α → Prop
  | _, Q, .ret a => Q a
  | _, Q, .call st next => bar st = false ∧ ∀ b, (next b).Without bar Q
  | _, _, .fork _ _ => False

/-- However it is answered, the program runs no `bar` statement after a hit, and then ends in
`Q`. -/
def Prog.After (hit : {β : Type} → S β → β → Bool) (bar : {β : Type} → S β → Bool) :
    {α : Type} → (α → Prop) → Prog S α → Prop
  | _, _, .ret _ => True
  | _, Q, .call st next =>
    ∀ b, (hit st b = true → (next b).Without bar Q) ∧ (hit st b = false → (next b).After hit bar Q)
  | _, _, .fork _ _ => False

theorem Prog.Without.bind {p : Prog S α} {f : α → Prog S β} {Q : α → Prop} {Q' : β → Prop}
    (h : p.Without bar Q) (hf : ∀ a, Q a → (f a).Without bar Q') : (p.bind f).Without bar Q' := by
  induction p with
  | ret a => exact hf a h
  | call st next ih => exact ⟨h.1, fun b => ih b (h.2 b) hf⟩
  | fork child next _ _ => cases h

theorem Prog.After.bind {p : Prog S α} {f : α → Prog S β} {Q : α → Prop} {Q' : β → Prop}
    (h : p.After hit bar Q) (hf : ∀ a, (f a).After hit bar Q')
    (hq : ∀ a, Q a → (f a).Without bar Q') : (p.bind f).After hit bar Q' := by
  induction p with
  | ret a => exact hf a
  | call st next ih =>
    exact fun b => ⟨fun hhit => ((h b).1 hhit).bind hq, fun hmiss => ih b ((h b).2 hmiss) hf hq⟩
  | fork child next _ _ => cases h

/-- A program without `bar` statements runs none after a hit either. -/
theorem Prog.Without.after {p : Prog S α} {Q : α → Prop} (h : p.Without bar Q) :
    p.After hit bar Q := by
  induction p with
  | ret a => trivial
  | call st next ih => exact fun b => ⟨fun _ => h.2 b, fun _ => ih b (h.2 b)⟩
  | fork child next _ _ => cases h

end

variable {M : Machine} {P : Prog M.Stmt Unit → Prop} {s₀ : M.State} {tr : List (Occurrence M)}
  {c : Config M} {hit : {β : Type} → M.Stmt β → β → Bool} {bar : {β : Type} → M.Stmt β → Bool}

/-- Where thread `i` stands: it has not hit yet, or it runs no `bar` statement any more. -/
def Heeds (hit : {β : Type} → M.Stmt β → β → Bool) (bar : {β : Type} → M.Stmt β → Bool)
    (tr : List (Occurrence M)) (i : ℕ) (p : Prog M.Stmt Unit) : Prop :=
  p.After hit bar (fun _ => True) ∧
    ((∃ o ∈ tr, o.thread = i ∧ hit o.stmt o.result = true) → p.Without bar fun _ => True)

theorem Heeds.keep {i j : ℕ} {p : Prog M.Stmt Unit} {o : Occurrence M} (h : Heeds hit bar tr i p)
    (ho : o.thread = j) (hj : j ≠ i) : Heeds hit bar (tr ++ [o]) i p := by
  refine ⟨h.1, ?_⟩
  rintro ⟨o', ho', hthread, hhit⟩
  rcases List.mem_append.mp ho' with ho' | ho'
  · exact h.2 ⟨o', ho', hthread, hhit⟩
  · obtain rfl := List.mem_singleton.mp ho'
    exact absurd (ho.symm.trans hthread) hj

/-- No thread runs a `bar` statement after a hit. -/
theorem Run.after (hP : ∀ p, P p → p.After hit bar fun _ => True) (h : Run P s₀ tr c) :
    tr.Pairwise fun o o' => o.thread = o'.thread → hit o.stmt o.result = true →
      bar o'.stmt = false := by
  have hall : (tr.Pairwise fun o o' => o.thread = o'.thread → hit o.stmt o.result = true →
      bar o'.stmt = false) ∧ (∀ i p, c.threads[i]? = some p → Heeds hit bar tr i p) ∧
      ∀ o ∈ tr, o.thread < c.threads.length := by
    induction h with
    | init => exact ⟨.nil, by simp, by simp⟩
    | @start tr c p _ hp ih =>
      obtain ⟨hpair, hheeds, hstarted⟩ := ih
      refine ⟨hpair, fun i q hq => ?_, fun o ho => ?_⟩
      · rcases Nat.lt_trichotomy i c.threads.length with hlt | rfl | hgt
        · exact hheeds i q (by simpa [List.getElem?_append_left hlt] using hq)
        · rw [List.getElem?_concat_length] at hq
          obtain rfl := Option.some.inj hq
          refine ⟨hP _ hp, ?_⟩
          rintro ⟨o, ho, hthread, -⟩
          exact absurd (hstarted o ho) (by omega)
        · rw [List.getElem?_eq_none (by simp; omega)] at hq
          cases hq
      · have hlt := hstarted o ho
        simp only [List.length_append, List.length_cons, List.length_nil]
        omega
    | @call tr c i β st next ch _ hi _ ih =>
      obtain ⟨hpair, hheeds, hstarted⟩ := ih
      obtain ⟨hafter, hwithout⟩ := hheeds i _ hi
      have hlt : i < c.threads.length := (List.getElem?_eq_some_iff.mp hi).1
      refine ⟨List.pairwise_append.mpr ⟨hpair, List.pairwise_singleton _ _, ?_⟩,
        fun j q hq => ?_, fun o ho => ?_⟩
      · intro o ho o' ho' hthread hhit
        obtain rfl := List.mem_singleton.mp ho'
        exact (hwithout ⟨o, ho, hthread, hhit⟩).1
      · by_cases hij : i = j
        · subst hij
          rw [List.getElem?_set_self hlt] at hq
          obtain rfl := Option.some.inj hq
          have hb := hafter (M.exec i st ch c.state).1
          have hnext : (∃ o ∈ tr ++ [⟨i, st, ch, c.state⟩], o.thread = i ∧
              hit o.stmt o.result = true) → (next (M.exec i st ch c.state).1).Without bar
                fun _ => True := by
            rintro ⟨o, ho, hthread, hhit⟩
            rcases List.mem_append.mp ho with ho | ho
            · exact (hwithout ⟨o, ho, hthread, hhit⟩).2 _
            · obtain rfl := List.mem_singleton.mp ho
              exact hb.1 hhit
          refine ⟨?_, hnext⟩
          cases hhit : hit st (M.exec i st ch c.state).1 with
          | false => exact hb.2 hhit
          | true => exact (hb.1 hhit).after
        · rw [List.getElem?_set_ne hij] at hq
          exact (hheeds j q hq).keep rfl hij
      · rw [List.length_set]
        rcases List.mem_append.mp ho with ho | ho
        · exact hstarted o ho
        · obtain rfl := List.mem_singleton.mp ho
          exact hlt
    | @fork tr c i child next _ hi ih => cases (ih.2.1 i _ hi).1
  exact hall.1

end Interleaving
