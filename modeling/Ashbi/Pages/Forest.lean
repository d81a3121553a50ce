import Ashbi.Hierarchy.Lineage
import Ashbi.Pages.Transactions

/-! The stored pages form a forest. -/

namespace Ashbi.Pages

open Checked Hierarchy

variable {s s' : State}

/-! ### Rows of the table -/

theorem page_id {id : Id} {page : Page} (h : s.page id = some page) : page.id = id := by
  simpa using List.find?_some h

theorem page_mem {id : Id} {page : Page} (h : s.page id = some page) : page ∈ s.pages :=
  List.mem_of_find?_eq_some h

theorem page_map {f : Page → Page} (hf : ∀ row, (f row).id = row.id) (users : List User)
    (id : Id) : State.page ⟨users, s.pages.map f⟩ id = (s.page id).map f := by
  simp only [State.page, List.find?_map]
  congr 2
  funext row
  simp [hf]

theorem page_put (page : Page) (id : Id) :
    (s.put page).page id =
      if id = page.id then (s.page id).map fun _ => page else s.page id := by
  rw [State.put, page_map (fun row => by by_cases hrow : row.id = page.id <;> simp [hrow])]
  cases hpage : s.page id with
  | none => simp
  | some row =>
    have hrow : row.id = id := by simpa using List.find?_some hpage
    by_cases hid : id = page.id <;> simp [hrow, hid]

theorem parent_put (page : Page) {id : Id} (hstored : (s.page page.id).isSome) :
    (s.put page).parent id = if id = page.id then page.parentId else s.parent id := by
  simp only [State.parent, page_put]
  split
  · rename_i hid
    obtain ⟨row, hrow⟩ := Option.isSome_iff_exists.mp hstored
    simp [hid, hrow]
  · rfl

theorem page_append {page : Page} {id : Id} (hnew : s.page page.id = none) :
    (State.page ⟨s.users, s.pages ++ [page]⟩ id) =
      if id = page.id then some page else s.page id := by
  simp only [State.page, List.find?_append]
  split
  · rename_i hid
    subst hid
    have hnone : s.pages.find? (fun row => decide (row.id = page.id)) = none := hnew
    simp [hnone]
  · rename_i hid
    simp [Ne.symm hid]

/-! ### What the guards admit -/

/-- The loop ends at a root after fewer steps than its bound, and meets none of `seen`. -/
theorem guardUpwards_ok {depths : ℕ} {seen : List Id} {id : Id}
    (h : guardUpwards s depths seen (some id) = .ok ()) :
    ∃ l, Lineage s.parent id l ∧ l.length < depths ∧ ∀ a ∈ id :: l, a ∉ seen := by
  induction depths generalizing seen id with
  | zero =>
    simp only [guardUpwards] at h
    split at h <;> cases h
  | succ depths ih =>
    simp only [guardUpwards] at h
    split at h
    · cases h
    · rename_i hseen
      have hnew : id ∉ seen := by simpa using hseen
      cases hp : s.parent id with
      | none => exact ⟨[], .root hp, Nat.zero_lt_succ _, by simpa using hnew⟩
      | some parentId =>
        rw [hp] at h
        obtain ⟨l, hl, hlt, hunseen⟩ := ih h
        refine ⟨parentId :: l, .child hp hl, Nat.succ_lt_succ hlt, ?_⟩
        exact List.forall_mem_cons.mpr
          ⟨hnew, fun a ha hin => hunseen a ha (List.mem_cons_of_mem _ hin)⟩

/-- A parent that a row may have: a stored page with fewer than 200 ancestors, none of them the
row itself. -/
def Admits (s : State) (id : Id) (parentId : Option Id) : Prop :=
  ∀ n, parentId = some n → (s.page n).isSome ∧
    ∃ ln, Lineage s.parent n ln ∧ ln.length < 200 ∧ id ∉ n :: ln

theorem scopeGuard_ok {old : Option Page} {new stored : Page}
    (h : scopeGuard s old new = .ok stored) :
    stored = { new with revision := stored.revision } ∧ Admits s new.id new.parentId := by
  unfold scopeGuard at h
  obtain ⟨_, -, h⟩ := bind_ok.mp h
  obtain ⟨_, -, h⟩ := bind_ok.mp h
  cases hp : new.parentId with
  | none =>
    simp only [hp, pure_ok] at h
    subst h
    exact ⟨by simp, fun n hn => by cases hn⟩
  | some parentId =>
    simp only [hp, bind_ok, refuse_ok, pure_ok] at h
    obtain ⟨_, hstored, _, -, _, hguard, rfl⟩ := h
    refine ⟨rfl, ?_⟩
    intro n hn
    obtain rfl := Option.some.inj hn
    refine ⟨?_, ?_⟩
    · cases hpage : s.page parentId with
      | none => simp [hpage] at hstored
      | some page => rfl
    · obtain ⟨ln, hln, hlt, hunseen⟩ := guardUpwards_ok hguard
      refine ⟨ln, hln, hlt, fun hin => ?_⟩
      exact hunseen _ hin List.mem_cons_self

theorem insert_ok {page : Page} (h : s.insert page = .ok s') :
    s.page page.id = none ∧ Admits s page.id page.parentId ∧
      ∃ revision, s' = ⟨s.users, s.pages ++ [{ page with revision := revision }]⟩ := by
  unfold State.insert at h
  simp only [bind_ok, refuse_ok, pure_ok] at h
  obtain ⟨_, hnew, stored, hstored, rfl⟩ := h
  obtain ⟨heq, hadmits⟩ := scopeGuard_ok hstored
  refine ⟨by simpa using hnew, hadmits, stored.revision, ?_⟩
  rw [← heq]

theorem updateRow_ok {old new : Page} (h : s.updateRow old new = .ok s') :
    Admits s new.id new.parentId ∧ ∃ stored : Page, s' = s.put stored ∧ stored.id = new.id ∧
      stored.parentId = new.parentId := by
  unfold State.updateRow at h
  simp only [bind_ok, pure_ok] at h
  obtain ⟨_, -, stored, hstored, rfl⟩ := h
  obtain ⟨heq, hadmits⟩ := scopeGuard_ok hstored
  exact ⟨hadmits, stored, rfl, by rw [heq], by rw [heq]⟩

/-! ### Parents after an update -/

def State.ids (s : State) : List Id := s.pages.map (·.id)

theorem page_isSome {id : Id} : (s.page id).isSome = true ↔ id ∈ s.ids := by
  simp [State.page, State.ids]

theorem ids_put (page : Page) : (s.put page).ids = s.ids := by
  simp only [State.ids, State.put, List.map_map]
  apply List.map_congr_left
  intro row _
  by_cases hrow : row.id = page.id <;> simp [hrow]

theorem page_of_mem (hunique : s.ids.Nodup) {page : Page} (h : page ∈ s.pages) :
    s.page page.id = some page := by
  cases hfind : s.page page.id with
  | none => simp [State.page] at hfind; exact absurd rfl (hfind page h)
  | some other =>
    have hid := page_id hfind
    rw [List.inj_on_of_nodup_map hunique (page_mem hfind) h hid]

/-- An active page directly below `parentId`. -/
def State.lifts (s : State) (parentId id : Id) : Bool :=
  s.pages.any fun row => row.id = id && row.parentId = some parentId && row.active

theorem lifts_iff {parentId id : Id} : s.lifts parentId id = true ↔
    ∃ row ∈ s.pages, row.id = id ∧ row.parentId = some parentId ∧ row.active = true := by
  simp [State.lifts, and_assoc]

theorem lifts_parent (hunique : s.ids.Nodup) {parentId id : Id} (h : s.lifts parentId id = true) :
    s.parent id = some parentId := by
  obtain ⟨row, hrow, rfl, hparent, -⟩ := lifts_iff.mp h
  rw [State.parent, page_of_mem hunique hrow]
  exact hparent

theorem foldlM_children {children : List Page} {parentId : Option Id}
    (hstored : ∀ child ∈ children, child.id ∈ s.ids)
    (h : children.foldlM (fun s child => s.updateRow child { child with parentId := parentId }) s =
      .ok s') :
    s'.ids = s.ids ∧ ∀ id, s'.parent id =
      if id ∈ children.map (·.id) then parentId else s.parent id := by
  induction children generalizing s with
  | nil =>
    obtain rfl := pure_ok.mp h
    exact ⟨rfl, fun id => rfl⟩
  | cons child rest ih =>
    rw [List.foldlM_cons] at h
    obtain ⟨s₁, h₁, hrest⟩ := bind_ok.mp h
    obtain ⟨-, stored, rfl, hid, hparentId⟩ := updateRow_ok h₁
    have hchild : stored.id ∈ s.ids := hid ▸ hstored child List.mem_cons_self
    obtain ⟨hids, hparent⟩ := ih
      (fun c hc => (ids_put _).symm ▸ hstored c (List.mem_cons_of_mem _ hc)) hrest
    refine ⟨hids.trans (ids_put _), fun id => ?_⟩
    rw [hparent, parent_put stored (page_isSome.mpr hchild), hid, hparentId]
    by_cases hc : id = child.id
    · simp [hc]
    · simp [hc]

/-- The page, and the active pages that an archived page gives up, get its new parent. -/
theorem update_ok {old new : Page} (hold : s.page old.id = some old) (hid : new.id = old.id)
    (h : s.update old new = .ok s') :
    Admits s new.id new.parentId ∧ s'.ids = s.ids ∧ ∀ id, s'.parent id =
      if id = new.id ∨ (old.active && !new.active && s.lifts new.id id) = true then new.parentId
      else s.parent id := by
  unfold State.update at h
  obtain ⟨s₁, h₁, hchildren⟩ := bind_ok.mp h
  obtain ⟨hadmits, stored, rfl, hsid, hsparent⟩ := updateRow_ok h₁
  have hstored : (s.page stored.id).isSome = true := by rw [hsid, hid, hold]; rfl
  refine ⟨hadmits, ?_⟩
  unfold archiveChildren at hchildren
  split at hchildren
  · rename_i harchived
    obtain ⟨hids, hparent⟩ := foldlM_children
      (fun child hc => List.mem_map_of_mem (List.mem_of_mem_filter hc)) hchildren
    refine ⟨hids.trans (ids_put _), fun id => ?_⟩
    rw [hparent, parent_put stored hstored, harchived, Bool.true_and, hsid, hsparent]
    by_cases hp : id = new.id
    · simp [hp]
    · have hlifts : id ∈ ((s.put stored).pages.filter fun row =>
          decide (row.parentId = some new.id) && row.active).map (·.id) ↔
          s.lifts new.id id = true := by
        rw [lifts_iff]
        simp only [State.put, List.mem_map, List.mem_filter, Bool.and_eq_true, decide_eq_true_eq]
        constructor
        · rintro ⟨_, ⟨⟨row, hrow, rfl⟩, hchild⟩, rfl⟩
          split at hp
          · exact absurd hsid hp
          · rename_i hne
            rw [if_neg hne] at hchild ⊢
            exact ⟨row, hrow, rfl, hchild⟩
        · rintro ⟨row, hrow, rfl, hchild⟩
          exact ⟨row, ⟨⟨row, hrow, if_neg (hsid ▸ hp)⟩, hchild⟩, rfl⟩
      simp only [hlifts, hp, false_or, ↓reduceIte]
  · rename_i harchived
    obtain rfl := Except.ok.inj hchildren
    refine ⟨ids_put _, fun id => ?_⟩
    rw [parent_put stored hstored, hsid, hsparent, (Bool.not_eq_true _).mp harchived]
    simp

/-! ### Chains after each operation -/

/-- Every chain of parents ends at a stored page without a parent. -/
structure Rooted (s : State) : Prop where
  unique : s.ids.Nodup
  linked : ∀ id n, s.parent id = some n → n ∈ s.ids
  chain : ∀ id, ∃ l, Lineage s.parent id l

def Bounded (s : State) : Prop := ∀ id l, Lineage s.parent id l → l.length ≤ 200

/-- The chain of a row that the guard admits, where only the row's own parent changes. -/
theorem Admits.lineage (parent : Id → Option Id) {p : Id} {parentId : Option Id}
    (h : Admits s p parentId) (hp : parent p = parentId)
    (hother : ∀ id, id ≠ p → parent id = s.parent id) :
    ∃ lp, Lineage parent p lp ∧ lp.length ≤ 200 ∧
      (lp = [] ∨ ∃ n ln, parentId = some n ∧ Lineage s.parent n ln ∧ lp = n :: ln) := by
  cases hn : parentId with
  | none => exact ⟨[], .root (hp.trans hn), Nat.zero_le _, .inl rfl⟩
  | some n =>
    obtain ⟨-, ln, hln, hlt, hout⟩ := h n hn
    refine ⟨n :: ln, .child (hp.trans hn) (hln.congr fun b hb => hother b ?_), hlt,
      .inr ⟨n, ln, rfl, hln, rfl⟩⟩
    rintro rfl
    exact hout hb

theorem parent_append {page : Page} (hnew : s.page page.id = none) (id : Id) :
    State.parent ⟨s.users, s.pages ++ [page]⟩ id =
      if id = page.id then page.parentId else s.parent id := by
  simp only [State.parent, page_append hnew]
  split <;> rfl

/-- A new row has no children, so no other chain changes. -/
theorem Rooted.lineage_insert (h : Rooted s) {page : Page} (hnew : s.page page.id = none)
    {q : Id} {lq : List Id} (hq : q ≠ page.id) (hlq : Lineage s.parent q lq) :
    Lineage (State.parent ⟨s.users, s.pages ++ [page]⟩) q lq := by
  have hids : page.id ∉ s.ids := fun hin => by
    rw [← page_isSome, hnew] at hin
    cases hin
  refine hlq.congr fun b hb => ?_
  have hb' : b ≠ page.id := by
    rintro rfl
    rcases List.mem_cons.mp hb with he | hb
    · exact hq he.symm
    · obtain ⟨c, hc⟩ := hlq.exists_child hb
      exact hids (h.linked c _ hc)
  rw [parent_append hnew, if_neg hb']

theorem Rooted.insert (h : Rooted s) (page : Page) (hnew : s.page page.id = none)
    (ha : Admits s page.id page.parentId) :
    Rooted ⟨s.users, s.pages ++ [page]⟩ ∧
      (Bounded s → Bounded ⟨s.users, s.pages ++ [page]⟩) := by
  have hids : page.id ∉ s.ids := fun hin => by
    rw [← page_isSome, hnew] at hin
    cases hin
  have hparent := parent_append hnew
  obtain ⟨lp, hlp, hle, -⟩ := ha.lineage (State.parent ⟨s.users, s.pages ++ [page]⟩)
    (by rw [hparent, if_pos rfl])
    fun id hid => by rw [hparent, if_neg hid]
  refine ⟨⟨?_, ?_, ?_⟩, ?_⟩
  · simp only [State.ids, List.map_append, List.map_cons, List.map_nil]
    refine List.nodup_append.mpr ⟨h.unique, List.nodup_singleton _, ?_⟩
    intro id hid id' hid'
    obtain rfl := List.mem_singleton.mp hid'
    rintro rfl
    exact hids hid
  · intro id n hn
    have hin : n ∈ s.ids := by
      rw [hparent] at hn
      split at hn
      · exact page_isSome.mp (ha n hn).1
      · exact h.linked id n hn
    simp only [State.ids, List.map_append]
    exact List.mem_append_left _ hin
  · intro q
    by_cases hq : q = page.id
    · exact ⟨lp, hq ▸ hlp⟩
    · obtain ⟨lq, hlq⟩ := h.chain q
      exact ⟨lq, h.lineage_insert hnew hq hlq⟩
  · intro hbound q l hl
    by_cases hq : q = page.id
    · subst hq
      rwa [hl.unique hlp]
    · obtain ⟨lq, hlq⟩ := h.chain q
      rw [hl.unique (h.lineage_insert hnew hq hlq)]
      exact hbound q lq hlq

/-- A page of a path whose active child on the path goes up when the page is archived. -/
def Lifted (s : State) (path : List Id) (k : ℕ) (p : Id) : Prop :=
  ∃ j c, k = j + 1 ∧ path[j]? = some c ∧ s.lifts p c = true

/-- With a new parent `n`, every page of the tree below `p` has at most 200 ancestors. -/
def Fits (s : State) (p n : Id) (archiving : Bool) : Prop :=
  ∀ q lq ln k, Lineage s.parent q lq → Lineage s.parent n ln → (q :: lq)[k]? = some p →
    k + ln.length < 200 ∨
      (archiving = true ∧ Lifted s (q :: lq) k p ∧ k + ln.length ≤ 200)

section Update

variable {p : Id} {parentId : Option Id} {archiving : Bool}

/-- The chains of an update: the part below the page, and the chain of its new parent. -/
theorem Rooted.relocate (h : Rooted s) (ha : Admits s p parentId)
    (hparent : ∀ id, s'.parent id =
      if id = p ∨ (archiving && s.lifts p id) = true then parentId else s.parent id)
    {q : Id} {lq : List Id} (hq : Lineage s.parent q lq) :
    ∃ l, Lineage s'.parent q l ∧ (l.length ≤ lq.length ∨
      ∃ n ln k, parentId = some n ∧ Lineage s.parent n ln ∧ (q :: lq)[k]? = some p ∧
        l.length ≤ k + (ln.length + 1) ∧
        (archiving = true → Lifted s (q :: lq) k p → l.length ≤ k + ln.length)) := by
  let moved : Id → Option Id := fun id => if id = p then parentId else s.parent id
  have hother : ∀ id, id ≠ p → moved id = s.parent id := fun id hid => if_neg hid
  obtain ⟨lp, hlp, -, hshape⟩ := ha.lineage moved (if_pos rfl) hother
  -- an active child of an archived page skips it
  have hskip : ∀ id, s'.parent id = moved id ∨
      ∃ c, moved id = some c ∧ s'.parent id = moved c := by
    intro id
    by_cases hid : id = p
    · exact .inl (by rw [hparent, if_pos (.inl hid), hid]; exact (if_pos rfl).symm)
    · by_cases hl : (archiving && s.lifts p id) = true
      · refine .inr ⟨p, ?_, ?_⟩
        · rw [hother id hid]
          exact lifts_parent h.unique (Bool.and_eq_true_iff.mp hl).2
        · rw [hparent, if_pos (.inr hl)]
          exact (if_pos rfl).symm
      · exact .inl (by rw [hparent, if_neg (by simp [hid, hl]), hother id hid])
  by_cases hin : p ∈ q :: lq
  · obtain ⟨k, hk⟩ := List.getElem?_of_mem hin
    obtain ⟨l, hl, hsub, hstrict⟩ := (hq.graft hk hother hlp).skip hskip
    have hlen : (lq.take k ++ lp).length ≤ k + lp.length := by
      simp only [List.length_append, List.length_take]
      omega
    have hle := hsub.length_le
    refine ⟨l, hl, ?_⟩
    rcases hshape with rfl | ⟨n, ln, hn, hln, rfl⟩
    · left
      simp only [List.append_nil] at hle
      exact Nat.le_trans hle (List.length_take_le' k lq)
    · right
      refine ⟨n, ln, k, hn, hln, hk, Nat.le_trans hle hlen, ?_⟩
      rintro harchiving ⟨j, c, rfl, hc, hlifts⟩
      have hlt : l.length < (lq.take (j + 1) ++ n :: ln).length := by
        apply hstrict
        refine ⟨c, ?_, ?_⟩
        · have hmem : c ∈ (q :: lq).take (j + 2) := List.mem_of_getElem? (i := j) (by
            rw [List.getElem?_take_of_lt (by omega)]
            exact hc)
          rw [List.take_succ_cons] at hmem
          rw [← List.cons_append]
          exact List.mem_append_left _ hmem
        · have hcp : c ≠ p := by
            rintro rfl
            obtain ⟨lc, hlc⟩ := h.chain c
            have hself := lifts_parent h.unique hlifts
            cases hlc with
            | root hroot => rw [hroot] at hself; cases hself
            | child hb hl =>
              obtain rfl := Option.some.inj (hb.symm.trans hself)
              exact (Lineage.child hb hl).not_mem List.mem_cons_self
          rw [hparent, if_pos (.inr (by rw [harchiving, hlifts]; rfl)), hother c hcp,
            lifts_parent h.unique hlifts, hn]
          intro he
          obtain rfl := Option.some.inj he
          obtain ⟨-, ln', -, -, hout⟩ := ha n hn
          exact hout List.mem_cons_self
      simp only [List.length_cons] at hlen
      omega
  · have hkept : Lineage moved q lq := hq.congr fun b hb => hother b fun he => hin (he ▸ hb)
    obtain ⟨l, hl, hsub, -⟩ := hkept.skip hskip
    exact ⟨l, hl, .inl hsub.length_le⟩

theorem Rooted.update (h : Rooted s) (ha : Admits s p parentId) (hids : s'.ids = s.ids)
    (hparent : ∀ id, s'.parent id =
      if id = p ∨ (archiving && s.lifts p id) = true then parentId else s.parent id) :
    Rooted s' ∧ (Bounded s → (∀ n, parentId = some n → Fits s p n archiving) → Bounded s') := by
  refine ⟨⟨hids ▸ h.unique, ?_, ?_⟩, ?_⟩
  · intro id n hn
    rw [hids]
    rw [hparent] at hn
    split at hn
    · exact page_isSome.mp (ha n hn).1
    · exact h.linked id n hn
  · intro q
    obtain ⟨lq, hlq⟩ := h.chain q
    obtain ⟨l, hl, -⟩ := h.relocate ha hparent hlq
    exact ⟨l, hl⟩
  · intro hbound hfits q l hl
    obtain ⟨lq, hlq⟩ := h.chain q
    obtain ⟨l', hl', hlen⟩ := h.relocate ha hparent hlq
    rw [hl.unique hl']
    rcases hlen with hle | ⟨n, ln, k, hn, hln, hk, hle, hlifted⟩
    · exact Nat.le_trans hle (hbound q lq hlq)
    · rcases hfits n hn q lq ln k hlq hln hk with hlt | ⟨harchiving, hlift, hle'⟩
      · omega
      · exact Nat.le_trans (hlifted harchiving hlift) hle'

end Update

end Ashbi.Pages
