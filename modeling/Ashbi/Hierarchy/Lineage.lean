import Mathlib.Data.List.Nodup

/-! Ancestor chains of a partial parent function. -/

namespace Hierarchy

variable {α : Type}

/-- The ancestors of a node, nearest first, up to one without a parent. -/
inductive Lineage (parent : α → Option α) : α → List α → Prop
  | root {a : α} (h : parent a = none) : Lineage parent a []
  | child {a b : α} {l : List α} (h : parent a = some b) (hb : Lineage parent b l) :
      Lineage parent a (b :: l)

/-- So many parents up. -/
def climb (parent : α → Option α) : ℕ → α → Option α
  | 0, a => some a
  | n + 1, a => (parent a).bind (climb parent n)

namespace Lineage

variable {parent parent' : α → Option α} {a b p : α} {l l' : List α}

theorem unique (h : Lineage parent a l) (h' : Lineage parent a l') : l = l' := by
  induction h generalizing l' with
  | root hroot =>
    cases h' with
    | root => rfl
    | child hp => rw [hroot] at hp; cases hp
  | child hp _ ih =>
    cases h' with
    | root hroot => rw [hroot] at hp; cases hp
    | child hp' hb' =>
      obtain rfl := Option.some.inj (hp.symm.trans hp')
      exact congrArg _ (ih hb')

theorem parent_eq (h : Lineage parent a (b :: l)) : parent a = some b := by
  cases h with
  | child hp _ => exact hp

/-- An ancestor's own ancestors come behind it. -/
theorem of_append {l₁ l₂ : List α} (h : Lineage parent a (l₁ ++ b :: l₂)) :
    Lineage parent b l₂ := by
  induction l₁ generalizing a with
  | nil =>
    cases h with
    | child _ hb => exact hb
  | cons c rest ih =>
    cases h with
    | child _ hb => exact ih hb

theorem of_mem (h : Lineage parent a l) (hb : b ∈ l) :
    ∃ l₂, Lineage parent b l₂ ∧ l₂.length < l.length := by
  obtain ⟨l₁, l₂, rfl⟩ := List.append_of_mem hb
  refine ⟨l₂, h.of_append, ?_⟩
  simp only [List.length_append, List.length_cons]
  omega

/-- No node is its own ancestor. -/
theorem not_mem (h : Lineage parent a l) : a ∉ l := by
  intro ha
  obtain ⟨l₂, h₂, hlt⟩ := h.of_mem ha
  rw [h.unique h₂] at hlt
  exact Nat.lt_irrefl _ hlt

theorem climb_succ (h : Lineage parent a l) (n : ℕ) : climb parent (n + 1) a = l[n]? := by
  induction h generalizing n with
  | root hroot => simp [climb, hroot]
  | child hp _ ih =>
    cases n with
    | zero => simp [climb, hp]
    | succ n =>
      rw [climb, hp, Option.bind_some, ih n]
      rfl

/-- Going up never comes back. -/
theorem climb_ne (h : Lineage parent a l) (n : ℕ) : climb parent (n + 1) a ≠ some a := by
  rw [h.climb_succ n]
  exact fun ha => h.not_mem (List.mem_of_getElem? ha)

theorem nodup (h : Lineage parent a l) : (a :: l).Nodup := by
  induction h with
  | root => simp
  | child hp hb ih =>
    exact List.nodup_cons.mpr ⟨(Lineage.child hp hb).not_mem, ih⟩

theorem congr (h : Lineage parent a l) (heq : ∀ b ∈ a :: l, parent' b = parent b) :
    Lineage parent' a l := by
  induction h with
  | root hroot => exact .root ((heq _ List.mem_cons_self).trans hroot)
  | child hp _ ih =>
    exact .child ((heq _ List.mem_cons_self).trans hp)
      (ih fun b hb => heq b (List.mem_cons_of_mem _ hb))

/-- Below a node with another chain, chains go on through that chain. -/
theorem graft {lp : List α} {k : ℕ} (h : Lineage parent a l) (hk : (a :: l)[k]? = some p)
    (hother : ∀ b, b ≠ p → parent' b = parent b) (hp : Lineage parent' p lp) :
    Lineage parent' a (l.take k ++ lp) := by
  induction h generalizing k with
  | root hroot =>
    cases k with
    | zero =>
      obtain rfl := Option.some.inj hk
      exact hp
    | succ k => cases hk
  | @child a b l hab hb ih =>
    cases k with
    | zero =>
      obtain rfl := Option.some.inj hk
      exact hp
    | succ k =>
      have hne : a ≠ p := by
        rintro rfl
        exact (Lineage.child hab hb).not_mem (List.mem_of_getElem? hk)
      exact .child ((hother a hne).trans hab) (ih hk)

/-- Ancestors are parents. -/
theorem exists_child (h : Lineage parent a l) (hb : b ∈ l) : ∃ c, parent c = some b := by
  induction h with
  | root => cases hb
  | @child a c l hab _ ih =>
    rcases List.mem_cons.mp hb with rfl | hb
    · exact ⟨a, hab⟩
    · exact ih hb

/-- Where some nodes skip their parent, chains only lose nodes. -/
theorem skip (h : Lineage parent a l)
    (hskip : ∀ b, parent' b = parent b ∨ ∃ c, parent b = some c ∧ parent' b = parent c) :
    ∃ l', Lineage parent' a l' ∧ l'.Sublist l ∧
      ((∃ b ∈ a :: l, parent' b ≠ parent b) → l'.length < l.length) := by
  induction hlen : l.length using Nat.strongRecOn generalizing a l with
  | ind len ih =>
    subst hlen
    cases h with
    | root hroot =>
      refine ⟨[], .root ?_, List.Sublist.refl _, ?_⟩
      · rcases hskip a with he | ⟨c, hc, -⟩
        · exact he.trans hroot
        · rw [hroot] at hc; cases hc
      · rintro ⟨b, hb, hne⟩
        obtain rfl := List.mem_singleton.mp hb
        rcases hskip b with he | ⟨c, hc, -⟩
        · exact absurd he hne
        · rw [hroot] at hc; cases hc
    | @child _ b rest hab hb =>
      rcases hskip a with he | ⟨c, hc, he⟩
      · obtain ⟨l', hl', hsub, hlt⟩ := ih rest.length (Nat.lt_succ_self _) hb rfl
        refine ⟨b :: l', .child (he.trans hab) hl', hsub.cons_cons b, ?_⟩
        rintro ⟨x, hx, hne⟩
        rcases List.mem_cons.mp hx with rfl | hx
        · exact absurd he hne
        · exact Nat.succ_lt_succ (hlt ⟨x, hx, hne⟩)
      · obtain rfl := Option.some.inj (hc.symm.trans hab)
        cases hb with
        | root hroot =>
          exact ⟨[], .root (he.trans hroot), List.nil_sublist _, fun _ => Nat.zero_lt_succ _⟩
        | @child _ d rest hbd hd =>
          obtain ⟨l', hl', hsub, -⟩ :=
            ih rest.length (by simp only [List.length_cons]; omega) hd rfl
          refine ⟨d :: l', .child (he.trans hbd) hl', (hsub.cons_cons d).cons _, fun _ => ?_⟩
          have hle := hsub.length_le
          simp only [List.length_cons]
          omega

end Lineage

/-! ### Ends and loops -/

/-- Going up from `a` ends at `top`. -/
def Ends (parent : α → Option α) (a top : α) : Prop :=
  ∃ n, climb parent n a = some top ∧ parent top = none

/-- A node that is met again above itself. -/
def OnCycle (parent : α → Option α) (a : α) : Prop := ∃ n, climb parent (n + 1) a = some a

/-- A node on a cycle, or one from which going up comes to a cycle. -/
def Loops (parent : α → Option α) (a : α) : Prop :=
  ∃ n b, climb parent n a = some b ∧ OnCycle parent b

variable {parent : α → Option α} {a b top top' : α} {n m : ℕ}

theorem climb_add : climb parent (n + m) a = (climb parent n a).bind (climb parent m) := by
  induction n generalizing a with
  | zero => rw [Nat.zero_add, climb, Option.bind_some]
  | succ n ih =>
    rw [Nat.add_right_comm, climb, climb]
    cases parent a with
    | none => rfl
    | some b => exact ih

/-- One more parent up. -/
theorem climb_parent (h : climb parent n a = some b) : climb parent (n + 1) a = parent b := by
  rw [climb_add, h, Option.bind_some, climb]
  exact Option.bind_fun_some (parent b)

theorem Ends.self (h : parent a = none) : Ends parent a a := ⟨0, rfl, h⟩

theorem Ends.parent_top (h : Ends parent a top) : parent top = none := by
  obtain ⟨-, -, htop⟩ := h
  exact htop

theorem Ends.child (hab : parent a = some b) (h : Ends parent b top) : Ends parent a top := by
  obtain ⟨n, hclimb, htop⟩ := h
  exact ⟨n + 1, by rw [climb, hab, Option.bind_some, hclimb], htop⟩

theorem Loops.child (hab : parent a = some b) (h : Loops parent b) : Loops parent a := by
  obtain ⟨n, c, hclimb, hcycle⟩ := h
  exact ⟨n + 1, c, by rw [climb, hab, Option.bind_some, hclimb], hcycle⟩

theorem Ends.lineage (h : Ends parent a top) : ∃ l, Lineage parent a l := by
  obtain ⟨n, hclimb, htop⟩ := h
  induction n generalizing a with
  | zero =>
    obtain rfl := Option.some.inj hclimb
    exact ⟨[], .root htop⟩
  | succ n ih =>
    obtain ⟨b, hab, hclimb⟩ := Option.bind_eq_some_iff.mp hclimb
    obtain ⟨l, hl⟩ := ih hclimb
    exact ⟨b :: l, .child hab hl⟩

/-- A chain that ends is on no cycle and comes to none. -/
theorem Ends.not_loops (h : Ends parent a top) : ¬ Loops parent a := by
  rintro ⟨n, b, hclimb, m, hcycle⟩
  obtain ⟨l, hl⟩ := h.lineage
  cases n with
  | zero =>
    obtain rfl := Option.some.inj hclimb
    exact hl.climb_ne m hcycle
  | succ n =>
    rw [hl.climb_succ n] at hclimb
    obtain ⟨l', hl', -⟩ := hl.of_mem (List.mem_of_getElem? hclimb)
    exact hl'.climb_ne m hcycle

theorem Ends.unique (h : Ends parent a top) (h' : Ends parent a top') : top = top' := by
  obtain ⟨n, hclimb, htop⟩ := h
  obtain ⟨n', hclimb', htop'⟩ := h'
  rcases Nat.lt_trichotomy n n' with hlt | rfl | hlt
  · obtain ⟨k, rfl⟩ := Nat.exists_eq_add_of_lt hlt
    rw [Nat.add_right_comm, climb_add, climb_parent hclimb, htop] at hclimb'
    cases hclimb'
  · exact Option.some.inj (hclimb.symm.trans hclimb')
  · obtain ⟨k, rfl⟩ := Nat.exists_eq_add_of_lt hlt
    rw [Nat.add_right_comm, climb_add, climb_parent hclimb', htop'] at hclimb
    cases hclimb

end Hierarchy
