import Ashbi.Notes.Chain

/-! What becomes of the audiences of notes when the tree changes. -/

namespace Ashbi.Notes

open Checked Hierarchy
open Pages (User Role Rights Actor Failure)

variable {s s' : State} {id d organizationId : String} {l : List Note} {now : Time} {user : User}

/-! ### Trails -/

theorem trail_note (hunique : s.ids.Nodup) {includeDeleted : Bool}
    (h : Trail (s.tree organizationId includeDeleted) d l) {row : Note} (hrow : row ∈ l) :
    s.note row.id = some row ∧ row.inScope organizationId includeDeleted = true :=
  (tree_row_some hunique).mp (h.row_of_mem tree_keyed hrow)

/-- The path of a note is its trail, if the algebra accepts it. -/
theorem path_of_compose (hunique : s.ids.Nodup) {includeDeleted : Bool} {audience : Audience}
    (haudience : composeDocumentAudience
      (nodes (path s organizationId [d] includeDeleted d)) = .ok audience)
    (h : Trail (s.tree organizationId includeDeleted) d l) :
    path s organizationId [d] includeDeleted d = l :=
  (trail_of_sound hunique (compose_ok haudience).1).1.unique h

theorem Sound.length {nodes : List Node} (h : Sound nodes) : nodes.length ≤ 200 :=
  (pathIsValid_iff.mp h.1).1

/-! ### Deletion -/

/-- A trail that avoids the deleted note stays; any other ends at the promoted child that it
passed. -/
theorem Removed.trail (hunique : s.ids.Nodup) {o : String} (h : Removed s s' id organizationId now)
    (hl : Trail (s.tree o false) d l) (hd : d ≠ id) :
    (∀ row ∈ l, row.id ≠ id) ∧ Trail (s'.tree o false) d l ∨
      ∃ l₁ child l₂ audience, l = l₁ ++ child :: l₂ ∧ l₂ ≠ [] ∧
        composeDocumentAudience (nodes (child :: l₂)) = .ok audience ∧
        Trail (s'.tree o false) d (l₁ ++ [child.detached audience]) := by
  have hunique' : s'.ids.Nodup := h.ids ▸ hunique
  have hsame : ∀ row ∈ l, row.id ≠ id → row.parentId ≠ some id →
      (s'.tree o false).row row.id = some row := by
    intro row hrow hne hparent
    obtain ⟨hnote, hscope⟩ := trail_note hunique hl hrow
    refine (tree_row_some hunique').mpr ⟨(h.kept _ hne fun other hother hchild => ?_).trans hnote,
      hscope⟩
    obtain rfl := Option.some.inj (hnote.symm.trans hother)
    simp only [Note.childOf, Bool.and_eq_true, decide_eq_true_eq] at hchild
    exact hparent hchild.1
  by_cases hpass : ∃ row ∈ l, row.id = id
  · right
    obtain ⟨note, hnote, hid⟩ := hpass
    obtain ⟨l₀, l₂, rfl⟩ := List.append_of_mem hnote
    have habove : Trail (s.tree o false) id (note :: l₂) := hid ▸ hl.of_append tree_keyed
    rcases List.eq_nil_or_concat l₀ with rfl | ⟨l₁, child, rfl⟩
    · exact absurd ((tree_keyed _ _ hl.head_row).symm.trans hid) hd
    rw [List.concat_eq_append, List.append_assoc, List.singleton_append] at hl hsame ⊢
    have hchildTrail := hl.of_append tree_keyed
    have hchildMem : child ∈ l₁ ++ child :: note :: l₂ := by simp
    obtain ⟨hchildNote, hchildScope⟩ := trail_note hunique hl hchildMem
    have hparent : child.parentId = some id := by
      cases hchildTrail with
      | child _ hp hup =>
        have hkey := tree_keyed _ _ hup.head_row
        exact hp.trans (congrArg some (hkey.symm.trans hid))
    have hnodup := hl.nodup tree_keyed
    have hne : child.id ≠ id := by
      intro he
      rw [List.map_append, List.nodup_append] at hnodup
      have hinner := hnodup.2.1
      simp only [List.map_cons, List.nodup_cons, List.mem_cons, not_or] at hinner
      exact hinner.1.1 (he.trans hid.symm)
    have horg : o = organizationId := by
      obtain ⟨row, -, -, hrow, hscope, -⟩ := h.self
      obtain ⟨hstored, hin⟩ := trail_note hunique habove List.mem_cons_self
      rw [hid] at hstored
      obtain rfl := Option.some.inj (hstored.symm.trans hrow)
      simp only [Note.inScope, Bool.and_eq_true, decide_eq_true_eq] at hin hscope
      exact hin.1.symm.trans hscope.1
    have hchildOf : child.childOf id organizationId = true := by
      simp only [Note.childOf, hparent, decide_true, Bool.true_and]
      exact horg ▸ hchildScope
    obtain ⟨audience, haudience, hpromoted⟩ := h.promoted child.id child hne hchildNote hchildOf
    rw [path_of_compose hunique haudience (horg ▸ hchildTrail)] at haudience
    refine ⟨l₁, child, note :: l₂, audience, rfl, by simp, haudience, ?_⟩
    refine hl.graft tree_keyed (fun k row hk hrow => ?_) rfl (.root ?_ rfl)
    · have hkey : row.id = k := tree_keyed _ _ hk
      rw [← hkey]
      refine hsame row (by simp [hrow]) (fun he => ?_) fun hp => ?_
      · rw [List.map_append, List.nodup_append] at hnodup
        refine hnodup.2.2 _ (List.mem_map_of_mem hrow) _
          (List.mem_map_of_mem (show note ∈ child :: note :: l₂ by simp)) ?_
        exact he.trans hid.symm
      · -- its parent would start two trails of different lengths
        obtain ⟨a, b, rfl⟩ := List.append_of_mem hrow
        rw [List.append_assoc, List.cons_append] at hl
        have hlong := (hl.of_append tree_keyed).above hp
        have hlengths := congrArg List.length (hlong.unique habove)
        simp only [List.length_append, List.length_cons] at hlengths
        omega
    · exact (tree_row_some hunique').mpr ⟨hpromoted, hchildScope⟩
  · left
    refine ⟨fun row hrow he => hpass ⟨row, hrow, he⟩, hl.congr (fun k row hk hrow => ?_) rfl⟩
    have hkey : row.id = k := tree_keyed _ _ hk
    rw [← hkey]
    refine hsame row hrow (fun he => hpass ⟨row, hrow, he⟩) fun hp => ?_
    obtain ⟨q, hq, hid⟩ := hl.parent_mem tree_keyed hrow hp
    exact hpass ⟨q, hq, hid⟩

/-- Every trail afterwards comes from one before. -/
theorem Removed.trail_before (hunique : s.ids.Nodup) {o : String}
    (h : Removed s s' id organizationId now) {l' : List Note}
    (hl : Trail (s'.tree o false) d l') : d ≠ id ∧ ∃ l, Trail (s.tree o false) d l := by
  have hunique' : s'.ids.Nodup := h.ids ▸ hunique
  -- the row of a trail is either the old one or a promoted child
  have hrow : ∀ k row, (s'.tree o false).row k = some row → k ≠ id ∧
      ((s.tree o false).row k = some row ∨
        row.parentId = none ∧ ∃ l, Trail (s.tree o false) k l) := by
    intro k row hk
    obtain ⟨hstored, hscope⟩ := (tree_row_some hunique').mp hk
    have hne : k ≠ id := by
      rintro rfl
      obtain ⟨note, audience, revision, -, -, -, hself⟩ := h.self
      obtain rfl := Option.some.inj (hstored.symm.trans hself)
      simp [Note.inScope, Note.active] at hscope
    refine ⟨hne, ?_⟩
    by_cases hchild : ∃ old, s.note k = some old ∧ old.childOf id organizationId
    · obtain ⟨old, hold, hc⟩ := hchild
      obtain ⟨audience, haudience, hnew⟩ := h.promoted k old hne hold hc
      obtain rfl := Option.some.inj (hstored.symm.trans hnew)
      have horg : o = organizationId := by
        simp only [Note.childOf, Note.inScope, Bool.and_eq_true,
          decide_eq_true_eq] at hc hscope
        exact hscope.1.symm.trans hc.2.1
      exact .inr ⟨rfl, _, horg ▸ (trail_of_sound hunique (compose_ok haudience).1).1⟩
    · rw [h.kept k hne fun old hold hc => hchild ⟨old, hold, hc⟩] at hstored
      exact .inl ((tree_row_some hunique).mpr ⟨hstored, hscope⟩)
  induction hl with
  | root hk hp =>
    obtain ⟨hne, hold | ⟨-, hold⟩⟩ := hrow _ _ hk
    · exact ⟨hne, _, .root hold hp⟩
    · exact ⟨hne, hold⟩
  | child hk hp _ ih =>
    obtain ⟨hne, hold | ⟨hroot, -⟩⟩ := hrow _ _ hk
    · obtain ⟨-, l, hl⟩ := ih
      exact ⟨hne, _, .child hold hp hl⟩
    · cases hp.symm.trans hroot

/-- What a trail says about a reader, whatever its length. -/
structure LetsRead (l : List Note) (user : User) : Prop where
  member : Member (nodes l) user = true
  reads : ∀ row ∈ l, row.reads user.id = true

/-- A child stands for the rows that it was promoted over. -/
theorem detached_reads {l₁ l₂ : List Note} {child : Note} {audience : Audience}
    (h : composeDocumentAudience (nodes (child :: l₂)) = .ok audience) :
    (LetsRead (l₁ ++ [child.detached audience]) user ↔ LetsRead (l₁ ++ child :: l₂) user) ∧
      ((LetsRead (l₁ ++ [child.detached audience]) user ∧
          ∀ row ∈ l₁ ++ [child.detached audience], row.edits user.id = true) ↔
        LetsRead (l₁ ++ child :: l₂) user ∧
          ∀ row ∈ l₁ ++ child :: l₂, row.edits user.id = true) := by
  obtain ⟨-, hrights⟩ :=
    @preserved _ (child.detached audience).toNode _ _ h rfl rfl rfl rfl
  obtain ⟨hreads, hedits⟩ := hrights user.id
  have hmember : Member (nodes (l₁ ++ [child.detached audience])) user =
      Member (nodes (l₁ ++ child :: l₂)) user := by
    cases l₁ <;> rfl
  have hall : (∀ row ∈ l₁ ++ [child.detached audience], row.reads user.id = true) ↔
      ∀ row ∈ l₁ ++ child :: l₂, row.reads user.id = true := by
    simp only [List.forall_mem_append, List.forall_mem_singleton, hreads]
    simp
  have hread : LetsRead (l₁ ++ [child.detached audience]) user ↔
      LetsRead (l₁ ++ child :: l₂) user :=
    ⟨fun ⟨hm, hr⟩ => ⟨hmember ▸ hm, hall.mp hr⟩, fun ⟨hm, hr⟩ => ⟨hmember ▸ hm, hall.mpr hr⟩⟩
  refine ⟨hread, ?_⟩
  rw [hread]
  refine and_congr_right fun hlets => ?_
  have habove : (nodes (child :: l₂)).all (·.reads user.id) = true := by
    simpa [nodes] using fun row hrow => hlets.reads row (List.mem_append_right _ hrow)
  have hchild : (child.detached audience).edits user.id =
      (nodes (child :: l₂)).all (·.edits user.id) :=
    hedits.trans ((congrArg (_ && ·) habove).trans (Bool.and_true _))
  simp only [List.forall_mem_append, List.forall_mem_singleton, hchild]
  simp [nodes]

/-- Shortening a trail that is not too long keeps it sound. -/
theorem detached_sound {o : String} {l₁ l₂ : List Note} {child : Note} {audience : Audience}
    (h : composeDocumentAudience (nodes (child :: l₂)) = .ok audience)
    (hl : Trail (s.tree o false) d (l₁ ++ child :: l₂)) (hlength : (l₁ ++ child :: l₂).length ≤ 200)
    (hl' : Trail (s'.tree o false) d (l₁ ++ [child.detached audience])) :
    Sound (nodes (l₁ ++ [child.detached audience])) ↔ Sound (nodes (l₁ ++ child :: l₂)) := by
  obtain ⟨hwell, -⟩ := @preserved _ (child.detached audience).toNode _ _ h rfl rfl rfl rfl
  rw [sound_trail_iff hl, sound_trail_iff hl']
  constructor
  · rintro ⟨-, o', p, hall⟩
    obtain ⟨-, o₂, p₂, hbelow⟩ :=
      (sound_trail_iff (hl.of_append tree_keyed)).mp (compose_ok h).1
    have hchild := hall (child.detached audience) (by simp)
    have hold := hbelow child List.mem_cons_self
    obtain rfl : o₂ = o' := hold.organization.symm.trans hchild.organization
    obtain rfl : p₂ = p := hold.project.symm.trans hchild.project
    refine ⟨hlength, o₂, p₂, fun row hrow => ?_⟩
    rcases List.mem_append.mp hrow with hrow | hrow
    · exact hall row (List.mem_append_left _ hrow)
    · exact hbelow row hrow
  · rintro ⟨-, o', p, hall⟩
    refine ⟨?_, o', p, fun row hrow => ?_⟩
    · simp only [List.length_append, List.length_cons] at hlength ⊢
      simp only [List.length_nil]
      omega
    rcases List.mem_append.mp hrow with hrow | hrow
    · exact hall row (List.mem_append_left _ hrow)
    · obtain rfl := List.mem_singleton.mp hrow
      have hold := hall child (by simp)
      exact ⟨hold.id, hold.authorId, hold.valid, hold.organization, hold.project, hwell⟩

/-- The rights on the survivors, over trails. -/
theorem Removed.trail_rights (hunique : s.ids.Nodup) {o : String}
    (h : Removed s s' id organizationId now) (hl : Trail (s.tree o false) d l) (hd : d ≠ id) :
    ∃ l', Trail (s'.tree o false) d l' ∧
      (l.length ≤ 200 → (Sound (nodes l') ↔ Sound (nodes l))) ∧
      (LetsRead l' user ↔ LetsRead l user) ∧
      ((LetsRead l' user ∧ ∀ row ∈ l', row.edits user.id = true) ↔
        LetsRead l user ∧ ∀ row ∈ l, row.edits user.id = true) := by
  obtain ⟨-, hsame⟩ | ⟨l₁, child, l₂, audience, rfl, -, haudience, hl'⟩ := h.trail hunique hl hd
  · exact ⟨l, hsame, fun _ => Iff.rfl, Iff.rfl, Iff.rfl⟩
  · obtain ⟨hread, hedit⟩ := @detached_reads user l₁ _ _ _ haudience
    exact ⟨_, hl', fun hlength => detached_sound haudience hl hlength hl', hread, hedit⟩

theorem Removed.rights (hunique : s.ids.Nodup) (h : Removed s s' id organizationId now)
    (hd : d ≠ id) (hrole : user.role ≠ .admin)
    (hdepth : ∀ l, Trail (s.tree user.organizationId false) d l → l.length ≤ 200) :
    (s'.rights user false d).canRead = (s.rights user false d).canRead ∧
      (s'.rights user false d).canEdit = (s.rights user false d).canEdit := by
  have hunique' : s'.ids.Nodup := h.ids ▸ hunique
  have hback : ∀ {l'}, Trail (s'.tree user.organizationId false) d l' →
      ∃ l, Trail (s.tree user.organizationId false) d l ∧
        (Sound (nodes l') ↔ Sound (nodes l)) ∧ (LetsRead l' user ↔ LetsRead l user) ∧
        ((LetsRead l' user ∧ ∀ row ∈ l', row.edits user.id = true) ↔
          LetsRead l user ∧ ∀ row ∈ l, row.edits user.id = true) := by
    intro l' hl'
    obtain ⟨-, l, hl⟩ := h.trail_before hunique hl'
    obtain ⟨l'', hl'', hsound, hlets⟩ := @Removed.trail_rights _ _ _ _ _ _ _ user hunique _ h hl hd
    obtain rfl := hl''.unique hl'
    exact ⟨l, hl, hsound (hdepth l hl), hlets⟩
  constructor
  · rw [Bool.eq_iff_iff, canRead_iff hunique' hrole, canRead_iff hunique hrole]
    constructor
    · rintro ⟨l', hl'⟩
      obtain ⟨l, hl, hsound, hlets, -⟩ := hback hl'.trail
      have hread := hlets.mp ⟨hl'.member, hl'.reads⟩
      exact ⟨l, hl, hread.member, hsound.mp hl'.sound, hread.reads⟩
    · rintro ⟨l, hl⟩
      obtain ⟨l', hl', hsound, hlets, -⟩ := h.trail_rights hunique hl.trail hd
      have hread := hlets.mpr ⟨hl.member, hl.reads⟩
      exact ⟨l', hl', hread.member, (hsound (hdepth l hl.trail)).mpr hl.sound, hread.reads⟩
  · rw [Bool.eq_iff_iff, canEdit_iff hunique' hrole, canEdit_iff hunique hrole]
    constructor
    · rintro ⟨l', hl', hedits⟩
      obtain ⟨l, hl, hsound, -, hlets⟩ := hback hl'.trail
      obtain ⟨hread, hedits⟩ := hlets.mp ⟨⟨hl'.member, hl'.reads⟩, hedits⟩
      exact ⟨l, ⟨hl, hread.member, hsound.mp hl'.sound, hread.reads⟩, hedits⟩
    · rintro ⟨l, hl, hedits⟩
      obtain ⟨l', hl', hsound, -, hlets⟩ := h.trail_rights hunique hl.trail hd
      obtain ⟨hread, hedits⟩ := hlets.mpr ⟨⟨hl.member, hl.reads⟩, hedits⟩
      exact ⟨l', ⟨hl', hread.member, (hsound (hdepth l hl.trail)).mpr hl.sound, hread.reads⟩,
        hedits⟩

/-- Whoever reads a survivor afterwards was let through by its whole trail before. -/
theorem Removed.lets (hunique : s.ids.Nodup) (h : Removed s s' id organizationId now)
    (hd : d ≠ id) (hrole : user.role ≠ .admin) (hl : Trail (s.tree user.organizationId false) d l)
    (hread : (s'.rights user false d).canRead = true) : LetsRead l user := by
  obtain ⟨l', hl'⟩ := (canRead_iff (h.ids ▸ hunique) hrole).mp hread
  obtain ⟨l'', hl'', -, hlets, -⟩ := h.trail_rights hunique hl hd
  obtain rfl := hl''.unique hl'.trail
  exact hlets.mp ⟨hl'.member, hl'.reads⟩

/-! ### Moves -/

/-- The audience of the path of a note. -/
def State.audience (s : State) (organizationId id : String) : Except String Audience :=
  composeDocumentAudience (nodes (path s organizationId [id] false id))

/-- The user is in the audience of the path of the note. -/
def State.admitsReader (s : State) (user : User) (id : String) : Prop :=
  ∃ audience, s.audience user.organizationId id = .ok audience ∧
    includes audience.readUserIds user.id = true

def State.admitsEditor (s : State) (user : User) (id : String) : Prop :=
  ∃ audience, s.audience user.organizationId id = .ok audience ∧
    includes audience.editUserIds user.id = true

theorem admits_of_trail (hunique : s.ids.Nodup) {n : String}
    (hl : Trail (s.tree user.organizationId false) n l) (hsound : Sound (nodes l))
    (hreads : ∀ row ∈ l, row.reads user.id = true) :
    s.admitsReader user n ∧ ((∀ row ∈ l, row.edits user.id = true) → s.admitsEditor user n) := by
  have hpath := path_of_trail hunique hl (by simpa [nodes] using hsound.length)
  obtain ⟨audience, haudience⟩ := compose_total hsound
  obtain ⟨-, hall⟩ := compose_ok haudience
  obtain ⟨hread, hedit⟩ := hall user.id
  have haudience' : s.audience user.organizationId n = .ok audience := by
    rw [State.audience, hpath, haudience]
  have hreads' : (nodes l).all (·.reads user.id) = true := by simpa [nodes] using hreads
  refine ⟨⟨audience, haudience', hread.trans hreads'⟩, fun hedits => ⟨audience, haudience', ?_⟩⟩
  rw [hedit, hreads', Bool.and_true]
  simpa [nodes] using hedits

/-- A note of the moved subtree has the path of the new parent above it. -/
theorem move_trail (hunique : s.ids.Nodup) {input : UpdateInput} {actor : Actor} {n : String}
    (h : updateNote s id input actor = .ok s') (hn : input.parentId = some (some n)) {o : String}
    {j : ℕ} (hup : (s.tree o false).up j d = some id) {l' : List Note}
    (hl' : Trail (s'.tree o false) d l') :
    ∃ l₁ l₂, l' = l₁ ++ l₂ ∧ Trail (s.tree o false) n l₂ := by
  obtain ⟨hids, hother, row, hrow, hparent⟩ := updateNote_place hunique h
  have hunique' : s'.ids.Nodup := hids ▸ hunique
  obtain ⟨l₁, q, l₂, rfl, hq⟩ := hl'.through (t := s.tree o false) (a := id) (fun k hk => by
    rw [tree_row hunique', tree_row hunique, hother k hk]) rfl hup
  obtain rfl := Option.some.inj (((tree_row_some hunique').mp hq).1.symm.trans hrow)
  have hkey : q.id = id := note_id hrow
  have habove : Trail (s'.tree o false) n l₂ := (hl'.of_append tree_keyed).above (hparent _ hn)
  refine ⟨l₁ ++ [q], l₂, by simp, habove.congr (fun k r hk hr => ?_) rfl⟩
  have hne : k ≠ id := by
    have hnodup := hl'.nodup tree_keyed
    rw [List.map_append, List.nodup_append, List.map_cons, List.nodup_cons] at hnodup
    rintro rfl
    refine hnodup.2.1.1 ?_
    have hr' : r.id = k := tree_keyed _ _ hk
    exact List.mem_map.mpr ⟨r, hr, hr'.trans hkey.symm⟩
  rw [tree_row hunique'] at hk
  rw [tree_row hunique, ← hother k hne, hk]

theorem move_rights (hunique : s.ids.Nodup) {input : UpdateInput} {actor : Actor} {n : String}
    (h : updateNote s id input actor = .ok s') (hn : input.parentId = some (some n))
    (hrole : user.role ≠ .admin) {j : ℕ}
    (hup : (s.tree user.organizationId false).up j d = some id) :
    ((s'.rights user false d).canRead = true → s.admitsReader user n) ∧
      ((s'.rights user false d).canEdit = true → s.admitsEditor user n) := by
  obtain ⟨hids, -⟩ := updateNote_place hunique h
  have hadmits : ∀ l', Readable s' user false d l' → s.admitsReader user n ∧
      ((∀ row ∈ l', row.edits user.id = true) → s.admitsEditor user n) := by
    intro l' hl'
    obtain ⟨l₁, l₂, rfl, hl₂⟩ := move_trail hunique h hn hup hl'.trail
    have hsound : Sound (nodes l₂) := by
      refine @Sound.of_append (nodes l₁) _ ?_ (by simpa [nodes] using hl₂.ne_nil)
      simpa [nodes] using hl'.sound
    obtain ⟨hread, hedit⟩ := admits_of_trail hunique hl₂ hsound fun row hrow =>
      hl'.reads row (List.mem_append_right _ hrow)
    exact ⟨hread, fun hedits => hedit fun row hrow => hedits row (List.mem_append_right _ hrow)⟩
  constructor
  · intro hread
    obtain ⟨l', hl'⟩ := (canRead_iff (hids ▸ hunique) hrole).mp hread
    exact (hadmits l' hl').1
  · intro hedit
    obtain ⟨l', hl', hedits⟩ := (canEdit_iff (hids ▸ hunique) hrole).mp hedit
    exact (hadmits l' hl').2 hedits

/-! ### Restoration -/

/-- A row with the same metadata owes the same to its path. -/
theorem Owned.congr {o p : String} {row row' : Note} (h : Owned o p row) (hid : row'.id = row.id)
    (hauthor : row'.authorId = row.authorId) (horg : row'.organizationId = row.organizationId)
    (hproject : row'.projectId = row.projectId) (hwell : row'.wellFormed = true) :
    Owned o p row' :=
  ⟨hid ▸ h.id, hauthor ▸ h.authorId, h.valid, horg.trans h.organization,
    hproject.trans h.project, hwell⟩

theorem member_of_head {row row' : Note} {l l' : List Note}
    (h : Member (nodes (row' :: l')) user = true)
    (horg : row.organizationId = row'.organizationId) : Member (nodes (row :: l)) user = true := by
  simpa [Member, nodes, horg] using h

/-- The audience that a restored note had in the archive. -/
theorem restore_readable (hunique : s.ids.Nodup) {actor : Actor}
    (h : restoreNote s id actor = .ok s') {l' : List Note} (hl' : Readable s' user false id l') :
    ∃ l, Readable s user true id l ∧
      ((∀ row ∈ l', row.edits user.id = true) → ∀ row ∈ l, row.edits user.id = true) := by
  obtain ⟨note, parentId, barrier, hnote, -, horg, hreturns, hids, hafter⟩ :=
    restoreNote_ok hunique h
  have hunique' : s'.ids.Nodup := hids ▸ hunique
  obtain ⟨row, rest, rfl⟩ := List.exists_cons_of_ne_nil hl'.trail.ne_nil
  obtain ⟨hstored, hscope⟩ := (tree_row_some hunique').mp hl'.trail.head_row
  rw [hafter id, if_pos rfl] at hstored
  obtain rfl := Option.some.inj hstored
  have huser : user.organizationId = actor.organizationId := by
    simp only [Note.inScope, Bool.and_eq_true, decide_eq_true_eq] at hscope
    exact hscope.1.symm.trans horg
  have hin : note.inScope user.organizationId true = true := by
    simp [Note.inScope, horg, huser]
  have harchived : (s.tree user.organizationId true).row id = some note :=
    (tree_row_some hunique).mpr ⟨hnote, hin⟩
  obtain ⟨hlength, o, p, howned⟩ := (sound_trail_iff hl'.trail).mp hl'.sound
  -- the old row with the same rest of the path
  have hwith : ∀ rest', Trail (s.tree user.organizationId true) id (note :: rest') →
      rest' = rest → barrier = note.audienceBarrier → ∃ l, Readable s user true id l ∧
        ((∀ row ∈ note.restored parentId barrier :: rest, row.edits user.id = true) →
          ∀ row ∈ l, row.edits user.id = true) := by
    rintro rest' hl rfl rfl
    refine ⟨note :: rest', ⟨hl, member_of_head hl'.member rfl, ?_, ?_⟩, fun hedits => ?_⟩
    · refine (sound_trail_iff hl).mpr ⟨hlength, o, p, ?_⟩
      obtain ⟨hhead, hrest⟩ := List.forall_mem_cons.mp howned
      exact List.forall_mem_cons.mpr ⟨hhead.congr rfl rfl rfl rfl hhead.wellFormed, hrest⟩
    · exact List.forall_mem_cons.mpr (List.forall_mem_cons.mp hl'.reads)
    · exact List.forall_mem_cons.mpr (List.forall_mem_cons.mp hedits)
  cases hreturns with
  | root hroot =>
    have hrest : [] = rest := by
      have hsingle := hl'.trail.unique (.root hl'.trail.head_row rfl)
      exact (List.cons.inj hsingle).2.symm
    exact hwith [] (.root harchived hroot) hrest rfl
  | @parent p' parent hparent hrow hproject =>
    have habove : Trail (s'.tree user.organizationId false) p' rest := hl'.trail.above rfl
    have hnodup := hl'.trail.nodup tree_keyed
    rw [List.map_cons, List.nodup_cons] at hnodup
    refine hwith rest (.child harchived hparent (habove.congr (fun k r hk hr => ?_) rfl)) rfl rfl
    obtain ⟨hstored', hscope'⟩ := (tree_row_some hunique').mp hk
    have hne : k ≠ id := by
      rintro rfl
      have hkey := note_id hstored'
      exact hnodup.1 (List.mem_map.mpr ⟨r, hr, hkey.trans (note_id hnote).symm⟩)
    rw [hafter k, if_neg hne] at hstored'
    refine (tree_row_some hunique).mpr ⟨hstored', ?_⟩
    simp only [Note.inScope, Bool.and_eq_true, decide_eq_true_eq] at hscope' ⊢
    exact ⟨hscope'.1, rfl⟩
  | @orphan p' audience hparent haudience =>
    rw [note_id hnote, ← huser] at haudience
    obtain ⟨hl, -⟩ := trail_of_sound hunique (compose_ok haudience).1
    obtain ⟨first, above, hpath⟩ := List.exists_cons_of_ne_nil hl.ne_nil
    rw [hpath] at hl haudience
    obtain rfl := Option.some.inj (hl.head_row.symm.trans harchived)
    obtain ⟨-, hrights⟩ := @preserved first.toNode
      { first.toNode with parentId := none, audienceBarrier := audience.barrier } _ _ haudience
      rfl rfl rfl rfl
    obtain ⟨hreads, hedits⟩ := hrights user.id
    refine ⟨first :: above, ⟨hl, member_of_head hl'.member rfl, (compose_ok haudience).1, ?_⟩,
      fun hall => ?_⟩
    · have hread := hreads.symm.trans (hl'.reads _ List.mem_cons_self)
      simpa [nodes] using hread
    · have hedit := hedits.symm.trans (hall _ List.mem_cons_self)
      rw [Bool.and_eq_true] at hedit
      simpa [nodes] using hedit.1

theorem restore_rights (hunique : s.ids.Nodup) {actor : Actor}
    (h : restoreNote s id actor = .ok s') (hrole : user.role ≠ .admin) :
    ((s'.rights user false id).canRead = true → (s.rights user true id).canRead = true) ∧
      ((s'.rights user false id).canEdit = true → (s.rights user true id).canEdit = true) ∧
      ((s'.rights user false id).canManage = true →
        (s.rights user true id).canManage = true) := by
  obtain ⟨note, parentId, barrier, hnote, -, -, -, hids, hafter⟩ := restoreNote_ok hunique h
  have hunique' : s'.ids.Nodup := hids ▸ hunique
  have hedit : (s'.rights user false id).canEdit = true →
      (s.rights user true id).canEdit = true := by
    rw [canEdit_iff hunique' hrole, canEdit_iff hunique hrole]
    rintro ⟨l', hl', hedits⟩
    obtain ⟨l, hl, hkeep⟩ := restore_readable hunique h hl'
    exact ⟨l, hl, hkeep hedits⟩
  refine ⟨?_, hedit, ?_⟩
  · rw [canRead_iff hunique' hrole, canRead_iff hunique hrole]
    rintro ⟨l', hl'⟩
    obtain ⟨l, hl, -⟩ := restore_readable hunique h hl'
    exact ⟨l, hl⟩
  · rw [canManage_iff hunique' hrole, canManage_iff hunique hrole, hafter id, if_pos rfl]
    rintro ⟨hedits, row, hrow, hauthor⟩
    obtain rfl := Option.some.inj hrow
    exact ⟨hedit hedits, note, hnote, hauthor⟩

/-! ### Copies of templates -/

theorem template_readable (hunique : s.ids.Nodup) {actor : Actor} {projectId templateId : String}
    {parentId : Option String}
    (h : createFromTemplate s id projectId templateId parentId actor = .ok s') {l' : List Note}
    (hl' : Readable s' user false id l') :
    ∃ l, Readable s user false templateId l ∧
      ((∀ row ∈ l', row.edits user.id = true) → ∀ row ∈ l, row.edits user.id = true) := by
  obtain ⟨project, audience, horg, haudience, hinsert⟩ := createFromTemplate_ok hunique h
  obtain ⟨-, hafter, -⟩ := insert_ok hinsert
  rw [newNote_id] at hafter
  have hunique' : s'.ids.Nodup := insert_nodup hunique hinsert
  obtain ⟨row, rest, rfl⟩ := List.exists_cons_of_ne_nil hl'.trail.ne_nil
  obtain ⟨hstored, hscope⟩ := (tree_row_some hunique').mp hl'.trail.head_row
  rw [hafter id, if_pos rfl] at hstored
  obtain rfl := Option.some.inj hstored
  have huser : user.organizationId = actor.organizationId := by
    simp only [Note.inScope, Bool.and_eq_true, decide_eq_true_eq] at hscope
    exact hscope.1.symm.trans horg
  rw [← huser] at haudience horg
  obtain ⟨hsound, hall⟩ := compose_ok haudience
  obtain ⟨-, hadmits⟩ := barrier_spec haudience
  obtain ⟨hl, -⟩ := trail_of_sound hunique hsound
  obtain ⟨first, above, hpath⟩ := List.exists_cons_of_ne_nil hl.ne_nil
  rw [hpath] at hl hsound hall
  obtain ⟨hread, hedit⟩ := hall user.id
  obtain ⟨hreader, heditor⟩ := hadmits user.id
  have hfirst : first.organizationId = user.organizationId := by
    have hin := ((tree_row_some hunique).mp hl.head_row).2
    simp only [Note.inScope, Bool.and_eq_true, decide_eq_true_eq] at hin
    exact hin.1
  refine ⟨first :: above, ⟨hl, member_of_head hl'.member (hfirst.trans horg.symm), hsound, ?_⟩,
    fun hedits => ?_⟩
  · have hnewReads := hl'.reads _ List.mem_cons_self
    simp only [Node.reads, newNote, Bool.and_eq_true] at hnewReads
    have hreads := hread.symm.trans (hreader.symm.trans hnewReads.2)
    simpa [nodes] using hreads
  · have hnewEdits := hedits _ List.mem_cons_self
    simp only [Node.edits, newNote, Bool.and_eq_true] at hnewEdits
    have hboth := hedit.symm.trans (heditor.symm.trans hnewEdits.2)
    rw [Bool.and_eq_true] at hboth
    simpa [nodes] using hboth.1

theorem template_rights (hunique : s.ids.Nodup) {actor : Actor} {projectId templateId : String}
    {parentId : Option String}
    (h : createFromTemplate s id projectId templateId parentId actor = .ok s')
    (hrole : user.role ≠ .admin) :
    ((s'.rights user false id).canRead = true →
        (s.rights user false templateId).canRead = true) ∧
      ((s'.rights user false id).canEdit = true →
        (s.rights user false templateId).canEdit = true) ∧
      ((s'.rights user false id).canManage = true → user.id = actor.id) := by
  obtain ⟨project, audience, -, -, hinsert⟩ := createFromTemplate_ok hunique h
  obtain ⟨-, hafter, -⟩ := insert_ok hinsert
  rw [newNote_id] at hafter
  have hunique' : s'.ids.Nodup := insert_nodup hunique hinsert
  refine ⟨?_, ?_, ?_⟩
  · rw [canRead_iff hunique' hrole, canRead_iff hunique hrole]
    rintro ⟨l', hl'⟩
    obtain ⟨l, hl, -⟩ := template_readable hunique h hl'
    exact ⟨l, hl⟩
  · rw [canEdit_iff hunique' hrole, canEdit_iff hunique hrole]
    rintro ⟨l', hl', hedits⟩
    obtain ⟨l, hl, hkeep⟩ := template_readable hunique h hl'
    exact ⟨l, hl, hkeep hedits⟩
  · rw [canManage_iff hunique' hrole, hafter id, if_pos rfl]
    rintro ⟨-, row, hrow, hauthor⟩
    obtain rfl := Option.some.inj hrow
    exact hauthor.symm

/-! ### Every change of the tree -/

/-- Nobody but administrators gains a right when the tree changes, and a deletion takes none away:
the survivors keep their readers and editors, save those that lay too deep to be read at all, and
even these are read afterwards only by whom their whole path let through. -/
theorem audiences_survive (hunique : s.ids.Nodup) (hrole : user.role ≠ .admin) :
    (∀ id now actor s', deleteNote s id now actor = .ok s' → ∀ d, d ≠ id →
      (∀ l, Trail (s.tree user.organizationId false) d l →
        (s'.rights user false d).canRead = true → LetsRead l user) ∧
      ((∀ l, Trail (s.tree user.organizationId false) d l → l.length ≤ 200) →
        (s'.rights user false d).canRead = (s.rights user false d).canRead ∧
          (s'.rights user false d).canEdit = (s.rights user false d).canEdit)) ∧
    (∀ id input actor s' n, updateNote s id input actor = .ok s' →
      input.parentId = some (some n) → ∀ d j,
      (s.tree user.organizationId false).up j d = some id →
        ((s'.rights user false d).canRead = true → s.admitsReader user n) ∧
          ((s'.rights user false d).canEdit = true → s.admitsEditor user n)) ∧
    (∀ id actor s', restoreNote s id actor = .ok s' →
      ((s'.rights user false id).canRead = true → (s.rights user true id).canRead = true) ∧
        ((s'.rights user false id).canEdit = true → (s.rights user true id).canEdit = true) ∧
        ((s'.rights user false id).canManage = true →
          (s.rights user true id).canManage = true)) ∧
    ∀ id projectId templateId parentId actor s',
      createFromTemplate s id projectId templateId parentId actor = .ok s' →
      ((s'.rights user false id).canRead = true →
          (s.rights user false templateId).canRead = true) ∧
        ((s'.rights user false id).canEdit = true →
          (s.rights user false templateId).canEdit = true) ∧
        ((s'.rights user false id).canManage = true → user.id = actor.id) := by
  refine ⟨fun id now actor s' h d hd => ⟨fun l hl => ?_, fun hdepth => ?_⟩, ?_, ?_, ?_⟩
  · exact (deleteNote_ok hunique h).lets hunique hd hrole hl
  · exact (deleteNote_ok hunique h).rights hunique hd hrole hdepth
  · exact fun id input actor s' n h hn d j hup => move_rights hunique h hn hrole hup
  · exact fun id actor s' h => restore_rights hunique h hrole
  · exact fun id projectId templateId parentId actor s' h => template_rights hunique h hrole

theorem audiences_survive_sample : ∃ s', deleteNote (chain 3) (chainId 0) 0 staffActor = .ok s' ∧
    (s'.rights staff false (chainId 2)).canRead = true ∧
      (s'.rights staff false (chainId 2)).canEdit = true := by
  obtain ⟨s', h⟩ := chain_delete (n := 3) (by decide) 0
  obtain ⟨hdelete, -⟩ := @audiences_survive (chain 3) staff chain_ids (by decide)
  obtain ⟨-, hkeep⟩ := hdelete _ _ _ _ h (chainId 2) (by decide)
  obtain ⟨hread, hedit⟩ := hkeep fun l hl => by
    rw [hl.unique (chain_trail (by decide))]
    decide
  obtain ⟨hreads, hedits⟩ := chain_rights (i := 2) (n := 3) (by decide)
  exact ⟨s', h, hread.trans hreads, hedit.trans hedits⟩

/-- Deleting the root of a chain of 201 notes lets the staff read the last one, which lay too deep
before. -/
theorem deletion_reveals : ∃ s', deleteNote (chain 201) (chainId 0) 0 staffActor = .ok s' ∧
    ((chain 201).rights staff false (chainId 200)).canRead = false ∧
      (s'.rights staff false (chainId 200)).canRead = true := by
  obtain ⟨s', h⟩ := chain_delete (n := 201) (by decide) 0
  have hremoved := deleteNote_ok chain_ids h
  have hunique' : s'.ids.Nodup := hremoved.ids ▸ chain_ids
  obtain ⟨hbefore, -⟩ := chain_rights (i := 200) (n := 201) (by decide)
  refine ⟨s', h, hbefore, (canRead_iff hunique' (by decide)).mpr ?_⟩
  have hl : Trail ((chain 201).tree "workspace" false) (chainId 200) (chainTrail 200) :=
    chain_trail (by decide)
  have hlength : (chainTrail 200).length = 201 := chainTrail_length
  have hroot : chainNote 0 ∈ chainTrail 200 := by
    obtain ⟨l, hcut⟩ : ∃ l, chainTrail 200 = l ++ chainTrail 0 := chainTrail_suffix (Nat.zero_le _)
    rw [hcut]
    exact List.mem_append_right _ (List.mem_singleton.mpr rfl)
  obtain ⟨hne, -⟩ | ⟨l₁, child, l₂, audience, hcut, hne, haudience, hl'⟩ :=
    hremoved.trail chain_ids hl (by decide)
  · exact absurd rfl (hne _ hroot)
  have hmem : ∀ row ∈ l₁ ++ child :: l₂, ∃ j ≤ 200, row = chainNote j := fun row hrow =>
    chainTrail_mem (hcut ▸ hrow)
  have hread : LetsRead (l₁ ++ child :: l₂) staff := by
    refine ⟨hcut ▸ chainTrail_member, fun row hrow => ?_⟩
    obtain ⟨j, -, rfl⟩ := hmem row hrow
    exact chainNote_reads.1
  have hlets := (@detached_reads staff l₁ _ _ _ haudience).1.mpr hread
  refine ⟨_, hl', hlets.member, (sound_trail_iff hl').mpr ⟨?_, "workspace", "project", ?_⟩,
    hlets.reads⟩
  · have hpos := List.length_pos_iff.mpr hne
    rw [hcut] at hlength
    simp only [List.length_append, List.length_cons, List.length_nil] at hlength ⊢
    omega
  · intro row hrow
    rcases List.mem_append.mp hrow with hrow | hrow
    · obtain ⟨j, hj, rfl⟩ := hmem row (List.mem_append_left _ hrow)
      exact chainNote_owned hj
    · obtain rfl := List.mem_singleton.mp hrow
      obtain ⟨j, hj, rfl⟩ := hmem child (by simp)
      obtain ⟨hwell, -⟩ :=
        @preserved _ ((chainNote j).detached audience).toNode _ _ haudience rfl rfl rfl rfl
      exact (chainNote_owned hj).congr rfl rfl rfl rfl hwell

end Ashbi.Notes
