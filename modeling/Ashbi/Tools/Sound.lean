import Mathlib.Data.List.Nodup
import Ashbi.Tools.Executor

/-! What every statement keeps of the receipts. -/

namespace Ashbi.Tools

open Checked Interleaving

variable {s t u : State} {id : Id} {row row' : Action}

/-! ### Rows -/

/-- The committed effects of an action and its deliveries that came back. -/
def State.executions (s : State) (id : Id) : ℕ := s.effects.count id + s.deliveries.count (id, true)

def State.delivered (s : State) (id : Id) : List (Id × Bool) := s.deliveries.filter (·.1 = id)

structure Sound (s : State) : Prop where
  ids : (s.actions.map (·.id)).Nodup
  keys : (s.actions.map fun row => (row.userId, row.idempotencyKey)).Nodup
  effects : s.effects.Nodup
  deliveries : (s.deliveries.map (·.1)).Nodup
  effect_row : ∀ id ∈ s.effects, ∃ row, s.action id = some row ∧ row.status = .executed
  delivery_row : ∀ id ∈ s.deliveries.map (·.1), ∃ row, s.action id = some row ∧
    row.status ≠ .pending
  executed : ∀ id row, s.action id = some row → row.status = .executed → s.executions id = 1

theorem action_id (h : s.action id = some row) : row.id = id := by
  simpa using List.find?_some h

theorem action_mem (h : s.action id = some row) : row ∈ s.actions := List.mem_of_find?_eq_some h

theorem action_of_mem (h : (s.actions.map (·.id)).Nodup) (hmem : row ∈ s.actions) :
    s.action row.id = some row := by
  cases hfind : s.action row.id with
  | none =>
    simp only [State.action, List.find?_eq_none, decide_eq_true_eq] at hfind
    exact absurd rfl (hfind row hmem)
  | some other => rw [List.inj_on_of_nodup_map h (action_mem hfind) hmem (action_id hfind)]

theorem action_put (hrow : s.action row'.id = some row) (id : Id) :
    (s.put row').action id = if id = row'.id then some row' else s.action id := by
  simp only [State.action, State.put, List.find?_map]
  by_cases hid : id = row'.id
  · subst hid
    have hkeep : ((fun action : Action => decide (action.id = row'.id)) ∘ fun action =>
        if action.id = row'.id then row' else action) =
        fun action => decide (action.id = row'.id) := by
      funext action
      by_cases ha : action.id = row'.id <;> simp [ha]
    rw [hkeep]
    unfold State.action at hrow
    simp only [hrow, Option.map_some, action_id hrow, ↓reduceIte]
  · have hkeep : ((fun action : Action => decide (action.id = id)) ∘ fun action =>
        if action.id = row'.id then row' else action) = fun action => decide (action.id = id) := by
      funext action
      by_cases ha : action.id = row'.id
      · simp [ha]
      · simp [ha]
    rw [hkeep, if_neg hid]
    cases hfind : s.actions.find? (fun action => decide (action.id = id)) with
    | none => rfl
    | some other =>
      have ho : other.id = id := by simpa using List.find?_some hfind
      simp [ho, hid]

theorem action_append {row : Action} (hnew : s.action row.id = none) (id : Id) :
    (State.mk (s.actions ++ [row]) s.effects s.deliveries).action id =
      if id = row.id then some row else s.action id := by
  simp only [State.action, List.find?_append] at hnew ⊢
  by_cases hid : id = row.id
  · subst hid
    simp [hnew]
  · have hne : row.id ≠ id := fun e => hid e.symm
    simp [hid, hne]

/-- Without an effect or a delivery an action has no execution. -/
theorem executions_eq (s : State) (id : Id) :
    s.executions id = s.effects.count id + (s.delivered id).count (id, true) := by
  unfold State.executions State.delivered
  rw [List.count_filter (by simp)]

theorem Sound.effect_free (h : Sound s) (hrow : s.action id = some row)
    (hst : row.status ≠ .executed) : id ∉ s.effects := by
  intro hmem
  obtain ⟨other, hother, hexecuted⟩ := h.effect_row id hmem
  rw [hrow] at hother
  exact hst (Option.some.inj hother ▸ hexecuted)

theorem Sound.delivery_free (h : Sound s) (hrow : s.action id = some row)
    (hst : row.status = .pending) : id ∉ s.deliveries.map (·.1) := by
  intro hmem
  obtain ⟨other, hother, hleft⟩ := h.delivery_row id hmem
  rw [hrow] at hother
  exact hleft (Option.some.inj hother ▸ hst)

theorem delivered_nil (h : id ∉ s.deliveries.map (·.1)) : s.delivered id = [] := by
  simp only [State.delivered, List.filter_eq_nil_iff, decide_eq_true_eq]
  exact fun delivery hmem he => h (List.mem_map.mpr ⟨delivery, hmem, he⟩)

/-! ### Steps -/

/-- What a statement may do to the receipts, for a thread that has claimed `mine`; `claimed` is
what it claims by it. -/
inductive Step (mine : List Id) (s : State) : Option Id → State → Prop
  | quiet : Step mine s none s
  | create (row : Action) (hid : s.action row.id = none)
      (hkey : (row.userId, row.idempotencyKey) ∉
        s.actions.map fun other => (other.userId, other.idempotencyKey))
      (hst : row.status = .pending) : Step mine s none ⟨s.actions ++ [row], s.effects, s.deliveries⟩
  | decide (row row' : Action) (hrow : s.action row'.id = some row)
      (hsame : row'.toRequest = row.toRequest) (hpending : row.status = .pending)
      (hst : row'.status.terminal = true) (hnot : row'.status ≠ .executed) :
      Step mine s none (s.put row')
  | claim (row row' : Action) (hrow : s.action row'.id = some row)
      (hsame : row'.toRequest = row.toRequest) (hpending : row.status = .pending)
      (hst : row'.status = .executing) : Step mine s (some row'.id) (s.put row')
  | execute (row row' : Action) (hrow : s.action row'.id = some row)
      (hsame : row'.toRequest = row.toRequest) (hpending : row.status = .pending)
      (hst : row'.status = .executed) :
      Step mine s none { s.put row' with effects := s.effects ++ [row'.id] }
  | deliver (row : Action) (back : Bool) (hmine : row.id ∈ mine) (hrow : s.action row.id = some row)
      (hst : row.status = .executing) (hnew : row.id ∉ s.deliveries.map (·.1)) :
      Step mine s none { s with deliveries := s.deliveries ++ [(row.id, back)] }
  | complete (row row' : Action) (hmine : row'.id ∈ mine) (hrow : s.action row'.id = some row)
      (hsame : row'.toRequest = row.toRequest) (hexecuting : row.status = .executing)
      (hst : row'.status.terminal = true)
      (hdone : row'.status = .executed → s.executions row'.id = 1) :
      Step mine s none (s.put row')

/-- A row keeps its id and its request, so both lists of keys stay as they are. -/
theorem put_keys {α : Type} (key : Action → α) (hkeys : (s.actions.map (·.id)).Nodup)
    (hrow : s.action row'.id = some row) (hsame : key row' = key row) :
    (s.put row').actions.map key = s.actions.map key := by
  simp only [State.put, List.map_map]
  apply List.map_congr_left
  intro other hother
  by_cases hid : other.id = row'.id
  · have heq : other = row :=
      List.inj_on_of_nodup_map hkeys hother (action_mem hrow) (hid.trans (action_id hrow).symm)
    subst heq
    simp [hid, hsame]
  · simp [hid]

theorem Sound.put (h : Sound s) (hrow : s.action row'.id = some row)
    (hsame : row'.toRequest = row.toRequest) (hlive : row.status ≠ .executed)
    (hst : row'.status ≠ .pending) (hdone : row'.status = .executed → s.executions row'.id = 1) :
    Sound (s.put row') where
  ids := by
    rw [put_keys (·.id) h.ids hrow (action_id hrow).symm]
    exact h.ids
  keys := by
    have hkey : (row'.userId, row'.idempotencyKey) = (row.userId, row.idempotencyKey) := by
      rw [hsame]
    rw [put_keys (fun row => (row.userId, row.idempotencyKey)) h.ids hrow hkey]
    exact h.keys
  effects := h.effects
  deliveries := h.deliveries
  effect_row := by
    intro id hmem
    obtain ⟨other, hother, hexecuted⟩ := h.effect_row id hmem
    have hne : id ≠ row'.id := by
      rintro rfl
      exact h.effect_free hrow hlive hmem
    exact ⟨other, by rw [action_put hrow, if_neg hne, hother], hexecuted⟩
  delivery_row := by
    intro id hmem
    rw [action_put hrow]
    by_cases hid : id = row'.id
    · exact ⟨row', if_pos hid, hst⟩
    · rw [if_neg hid]
      exact h.delivery_row id hmem
  executed := by
    intro id other hother hexecuted
    rw [action_put hrow] at hother
    by_cases hid : id = row'.id
    · rw [if_pos hid] at hother
      obtain rfl := Option.some.inj hother
      rw [hid]
      exact hdone hexecuted
    · rw [if_neg hid] at hother
      exact h.executed id other hother hexecuted

theorem nodup_concat {α : Type} {l : List α} {a : α} (h : l.Nodup) (hnew : a ∉ l) :
    (l ++ [a]).Nodup := by
  rw [← List.concat_eq_append]
  exact h.concat hnew

theorem count_once {α : Type} [DecidableEq α] {l : List α} {a : α} (h : a ∉ l) :
    (l ++ [a]).count a = 1 := by
  simp [List.count_append, List.count_eq_zero.mpr h]

theorem Sound.execute (h : Sound s) (hrow : s.action row'.id = some row)
    (hsame : row'.toRequest = row.toRequest) (hpending : row.status = .pending)
    (hst : row'.status = .executed) :
    Sound { s.put row' with effects := s.effects ++ [row'.id] } := by
  have hfree := h.effect_free hrow (by simp [hpending])
  have hundelivered := h.delivery_free hrow hpending
  have hids := put_keys (·.id) h.ids hrow (action_id hrow).symm
  have hkey : (row'.userId, row'.idempotencyKey) = (row.userId, row.idempotencyKey) := by
    rw [hsame]
  have hkeys := put_keys (fun row => (row.userId, row.idempotencyKey)) h.ids hrow hkey
  refine ⟨hids ▸ h.ids, hkeys ▸ h.keys, ?_, h.deliveries, ?_, ?_, ?_⟩
  · exact nodup_concat h.effects hfree
  · intro id hmem
    have haction := action_put hrow id
    rcases List.mem_append.mp hmem with hmem | hmem
    · obtain ⟨other, hother, hexecuted⟩ := h.effect_row id hmem
      have hne : id ≠ row'.id := by
        rintro rfl
        exact hfree hmem
      exact ⟨other, (haction.trans (if_neg hne)).trans hother, hexecuted⟩
    · exact ⟨row', haction.trans (if_pos (List.mem_singleton.mp hmem)), hst⟩
  · intro id hmem
    have haction := action_put hrow id
    obtain ⟨other, hother, hleft⟩ := h.delivery_row id hmem
    have hne : id ≠ row'.id := by
      rintro rfl
      exact hundelivered hmem
    exact ⟨other, (haction.trans (if_neg hne)).trans hother, hleft⟩
  · intro id other hother hexecuted
    have haction := action_put hrow id
    by_cases hid : id = row'.id
    · subst hid
      have hnone : (row'.id, true) ∉ s.deliveries := fun hmem =>
        hundelivered (List.mem_map.mpr ⟨_, hmem, rfl⟩)
      simp [State.executions, State.put, count_once hfree, List.count_eq_zero.mpr hnone]
    · have hsame := h.executed id other ((haction.trans (if_neg hid)).symm.trans hother) hexecuted
      have hzero : ([row'.id] : List Id).count id = 0 := by simp [Ne.symm hid]
      simpa [State.executions, State.put, List.count_append, hzero] using hsame

theorem Sound.deliver (h : Sound s) {back : Bool} (hrow : s.action row.id = some row)
    (hst : row.status = .executing) (hnew : row.id ∉ s.deliveries.map (·.1)) :
    Sound { s with deliveries := s.deliveries ++ [(row.id, back)] } where
  ids := h.ids
  keys := h.keys
  effects := h.effects
  deliveries := by
    rw [List.map_append]
    exact nodup_concat h.deliveries hnew
  effect_row := h.effect_row
  delivery_row := by
    intro id hmem
    rw [List.map_append] at hmem
    rcases List.mem_append.mp hmem with hmem | hmem
    · exact h.delivery_row id hmem
    · obtain rfl : id = row.id := by simpa using hmem
      exact ⟨row, hrow, by simp [hst]⟩
  executed := by
    intro id other hother hexecuted
    have hne : row.id ≠ id := by
      rintro rfl
      have hsame : row = other := Option.some.inj (hrow.symm.trans hother)
      rw [← hsame, hst] at hexecuted
      cases hexecuted
    have hzero : ([(row.id, back)] : List (Id × Bool)).count (id, true) = 0 := by simp [hne]
    have hsame := h.executed id other hother hexecuted
    simpa [State.executions, List.count_append, hzero] using hsame

theorem Sound.create (h : Sound s) (hid : s.action row.id = none)
    (hkey : (row.userId, row.idempotencyKey) ∉
      s.actions.map fun other => (other.userId, other.idempotencyKey))
    (hst : row.status = .pending) : Sound ⟨s.actions ++ [row], s.effects, s.deliveries⟩ := by
  have hfresh : ∀ id other, s.action id = some other → id ≠ row.id := by
    rintro _ other hother rfl
    rw [hid] at hother
    cases hother
  refine ⟨?_, ?_, h.effects, h.deliveries, ?_, ?_, ?_⟩
  · rw [List.map_append]
    apply nodup_concat h.ids
    intro hmem
    obtain ⟨other, hother, heq⟩ := List.mem_map.mp hmem
    exact hfresh _ _ (action_of_mem h.ids hother) heq
  · rw [List.map_append]
    exact nodup_concat h.keys hkey
  · intro id hmem
    obtain ⟨other, hother, hexecuted⟩ := h.effect_row id hmem
    exact ⟨other, by rw [action_append hid, if_neg (hfresh id other hother), hother], hexecuted⟩
  · intro id hmem
    obtain ⟨other, hother, hleft⟩ := h.delivery_row id hmem
    exact ⟨other, by rw [action_append hid, if_neg (hfresh id other hother), hother], hleft⟩
  · intro id other hother hexecuted
    rw [action_append hid] at hother
    by_cases heq : id = row.id
    · rw [if_pos heq] at hother
      obtain rfl := Option.some.inj hother
      rw [hst] at hexecuted
      cases hexecuted
    · rw [if_neg heq] at hother
      exact h.executed id other hother hexecuted

theorem Step.sound {mine : List Id} {claimed : Option Id} (h : Step mine s claimed t)
    (hs : Sound s) : Sound t := by
  cases h with
  | quiet => exact hs
  | create row hid hkey hst => exact hs.create hid hkey hst
  | decide row row' hrow hsame hpending hst hnot =>
    apply hs.put hrow hsame (by simp [hpending])
    · rintro hp
      simp [hp, Status.terminal] at hst
    · exact fun he => absurd he hnot
  | claim row row' hrow hsame hpending hst =>
    apply hs.put hrow hsame (by simp [hpending])
    all_goals simp [hst]
  | execute row row' hrow hsame hpending hst => exact hs.execute hrow hsame hpending hst
  | deliver row back _ hrow hst hnew => exact hs.deliver hrow hst hnew
  | complete row row' _ hrow hsame hexecuting hst hdone =>
    apply hs.put hrow hsame (by simp [hexecuting])
    · rintro hp
      simp [hp, Status.terminal] at hst
    · exact hdone

/-! ### What others may rely on -/

/-- Rows keep their requests, and decided ones stay as they are. -/
structure Onward (s t : State) : Prop where
  kept : ∀ id row, s.action id = some row →
    ∃ row', t.action id = some row' ∧ row'.toRequest = row.toRequest
  final : ∀ id row, s.action id = some row → row.status.terminal = true → t.action id = some row

theorem Onward.refl (s : State) : Onward s s := ⟨fun _ row h => ⟨row, h, rfl⟩, fun _ _ h _ => h⟩

theorem Onward.trans (h : Onward s t) (h' : Onward t u) : Onward s u where
  kept id row hrow := by
    obtain ⟨row', hrow', hsame⟩ := h.kept id row hrow
    obtain ⟨row'', hrow'', hsame'⟩ := h'.kept id row' hrow'
    exact ⟨row'', hrow'', hsame'.trans hsame⟩
  final id row hrow hst := h'.final id row (h.final id row hrow hst) hst

theorem Onward.put (hrow : s.action row'.id = some row) (hsame : row'.toRequest = row.toRequest)
    (hlive : row.status.terminal = false) : Onward s (s.put row') where
  kept id other hother := by
    rw [action_put hrow]
    by_cases hid : id = row'.id
    · subst hid
      obtain rfl := Option.some.inj (hrow.symm.trans hother)
      exact ⟨row', if_pos rfl, hsame⟩
    · exact ⟨other, by rw [if_neg hid, hother], rfl⟩
  final id other hother hst := by
    rw [action_put hrow]
    by_cases hid : id = row'.id
    · subst hid
      obtain rfl := Option.some.inj (hrow.symm.trans hother)
      rw [hlive] at hst
      cases hst
    · rw [if_neg hid, hother]

theorem Step.onward {mine : List Id} {claimed : Option Id} (h : Step mine s claimed t) :
    Onward s t := by
  cases h with
  | quiet => exact .refl _
  | create row hid _ _ =>
    have hold : ∀ id other, s.action id = some other →
        (State.mk (s.actions ++ [row]) s.effects s.deliveries).action id = some other := by
      intro id other hother
      rw [action_append hid, if_neg, hother]
      rintro rfl
      rw [hid] at hother
      cases hother
    exact ⟨fun id other hother => ⟨other, hold id other hother, rfl⟩,
      fun id other hother _ => hold id other hother⟩
  | decide row row' hrow hsame hpending _ _ =>
    exact .put hrow hsame (by simp [hpending, Status.terminal])
  | claim row row' hrow hsame hpending _ =>
    exact .put hrow hsame (by simp [hpending, Status.terminal])
  | execute row row' hrow hsame hpending _ =>
    have hput := Onward.put hrow hsame (by simp [hpending, Status.terminal])
    exact ⟨hput.kept, hput.final⟩
  | deliver => exact ⟨fun _ row h => ⟨row, h, rfl⟩, fun _ _ h _ => h⟩
  | complete row row' _ hrow hsame hexecuting _ _ =>
    exact .put hrow hsame (by simp [hexecuting, Status.terminal])

/-- The row of an action and its deliveries are as they were. -/
def Untouched (id : Id) (s t : State) : Prop :=
  t.action id = s.action id ∧ t.delivered id = s.delivered id

theorem untouched_put (hrow : s.action row'.id = some row) (hid : id ≠ row'.id) :
    Untouched id s (s.put row') := ⟨by rw [action_put hrow, if_neg hid], rfl⟩

/-- Nobody else touches an action that is past its claim. -/
theorem Step.untouched {mine : List Id} {claimed : Option Id} (h : Step mine s claimed t)
    (hrow : s.action id = some row) (hst : row.status ≠ .pending) (hmine : id ∉ mine) :
    Untouched id s t := by
  have hpast : ∀ {old new : Action}, s.action new.id = some old → old.status = .pending →
      id ≠ new.id := by
    rintro old new hold hpending rfl
    exact hst (Option.some.inj (hold.symm.trans hrow) ▸ hpending)
  cases h with
  | quiet => exact ⟨rfl, rfl⟩
  | create other hid _ _ =>
    refine ⟨?_, rfl⟩
    rw [action_append hid, if_neg]
    rintro rfl
    rw [hid] at hrow
    cases hrow
  | decide old new hold _ hpending _ _ => exact untouched_put hold (hpast hold hpending)
  | claim old new hold _ hpending _ => exact untouched_put hold (hpast hold hpending)
  | execute old new hold _ hpending _ =>
    exact ⟨(untouched_put hold (hpast hold hpending)).1, rfl⟩
  | deliver other back hown _ _ _ =>
    have hne : other.id ≠ id := by
      rintro rfl
      exact hmine hown
    exact ⟨rfl, by simp [State.delivered, List.filter_append, hne]⟩
  | complete old new hown hold _ _ _ _ =>
    apply untouched_put hold
    rintro rfl
    exact hmine hown

end Ashbi.Tools
