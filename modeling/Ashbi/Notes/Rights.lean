import Mathlib.Data.List.Dedup
import Ashbi.Notes.Audience

/-! The rights on a document, as conditions on every document of its path. -/

namespace Ashbi.Notes

open Checked
open Pages (User Role Rights)

/-! ### Users -/

theorem includes_none (u : String) : includes none u = true := rfl

theorem includes_some (l : List String) (u : String) : includes (some l) u = l.contains u := rfl

theorem includes_intersect (a b : Users) (u : String) :
    includes (intersect a b) u = (includes a u && includes b u) := by
  cases a with
  | none => simp [intersect, includes]
  | some a =>
    cases b with
    | none => simp [intersect, includes]
    | some b => simp [intersect, includes, List.contains_eq_mem, Bool.decide_and]

theorem includes_sorted (users : Users) (u : String) :
    includes (users.map sorted) u = includes users u := by
  cases users with
  | none => rfl
  | some l => simp [includes, sorted, List.contains_eq_mem, List.mem_mergeSort]

/-! ### One document -/

/-- The users that a stored list lets through. -/
def StoredIds.admits (stored : StoredIds) (u : String) : Bool :=
  match stored with
  | .everyone => true
  | .only value => value.contains u
  | .malformed => false

def StoredIds.wellFormed (stored : StoredIds) : Bool := (ids stored).isSome

def StoredBarrier.wellFormed : StoredBarrier → Bool
  | .absent => true
  | .malformed => false
  | .stored readUserIds editUserIds => readUserIds.wellFormed && editUserIds.wellFormed

def StoredBarrier.admitsReader (barrier : StoredBarrier) (u : String) : Bool :=
  match barrier with
  | .stored readUserIds _ => readUserIds.admits u
  | _ => true

def StoredBarrier.admitsEditor (barrier : StoredBarrier) (u : String) : Bool :=
  match barrier with
  | .stored _ editUserIds => editUserIds.admits u
  | _ => true

/-- The algebra accepts the metadata of the document. -/
def Node.wellFormed (node : Node) : Bool :=
  node.metadataIsValid && node.audienceBarrier.wellFormed

/-- The document itself, without its ancestors, lets the user read. -/
def Node.reads (node : Node) (u : String) : Bool :=
  (node.accessMode ≠ .restricted || node.readers.contains u) &&
    node.audienceBarrier.admitsReader u

def Node.edits (node : Node) (u : String) : Bool :=
  (node.accessMode ≠ .restricted || node.editors.contains u) &&
    node.audienceBarrier.admitsEditor u

theorem ids_admits {stored : StoredIds} {users : Users} (h : ids stored = some users)
    (u : String) : includes users u = stored.admits u := by
  cases stored with
  | everyone =>
    obtain rfl := Option.some.inj h
    rfl
  | only value =>
    simp only [ids] at h
    split at h
    · obtain rfl := Option.some.inj h
      simp [includes, StoredIds.admits, List.contains_eq_mem, List.mem_dedup]
    · cases h
  | malformed => cases h

/-- What a document adds to the audience of those before it. -/
theorem composeNode_ok {audience audience' : Audience} {node : Node}
    (h : composeNode audience node = .ok audience') :
    node.wellFormed = true ∧ ∀ u,
      includes audience'.readUserIds u = (includes audience.readUserIds u && node.reads u) ∧
      includes audience'.editUserIds u = (includes audience.editUserIds u && node.edits u) := by
  simp only [composeNode, bind_ok, refuse_ok, Bool.not_eq_false'] at h
  obtain ⟨_, hmetadata, h⟩ := h
  have hown : ∀ (own : Audience), own = (if node.accessMode = .restricted then
      ⟨intersect audience.readUserIds (some node.readers),
        intersect audience.editUserIds (some node.editors)⟩ else audience) → ∀ u,
      includes own.readUserIds u = (includes audience.readUserIds u &&
        (node.accessMode ≠ .restricted || node.readers.contains u)) ∧
      includes own.editUserIds u = (includes audience.editUserIds u &&
        (node.accessMode ≠ .restricted || node.editors.contains u)) := by
    rintro own rfl u
    split
    · rename_i hmode
      simp [includes_intersect, includes_some, hmode]
    · rename_i hmode
      simp [hmode]
  cases hbarrier : node.audienceBarrier with
  | absent =>
    simp only [hbarrier, pure_ok] at h
    refine ⟨by simp [Node.wellFormed, hmetadata, hbarrier, StoredBarrier.wellFormed], fun u => ?_⟩
    have hu := hown _ h.symm u
    simpa [Node.reads, Node.edits, hbarrier, StoredBarrier.admitsReader,
      StoredBarrier.admitsEditor] using hu
  | malformed => simp [hbarrier] at h
  | stored readUserIds editUserIds =>
    simp only [hbarrier, bind_ok, found_ok, pure_ok] at h
    obtain ⟨readers, hreaders, editors, heditors, rfl⟩ := h
    refine ⟨by simp [Node.wellFormed, hmetadata, hbarrier, StoredBarrier.wellFormed,
      StoredIds.wellFormed, hreaders, heditors], fun u => ?_⟩
    obtain ⟨hread, hedit⟩ := hown _ rfl u
    simp only [includes_intersect, hread, hedit, ids_admits hreaders, ids_admits heditors,
      Node.reads, Node.edits, hbarrier, StoredBarrier.admitsReader, StoredBarrier.admitsEditor,
      Bool.and_assoc, and_self]

theorem composeNode_total {node : Node} (h : node.wellFormed = true) (audience : Audience) :
    ∃ audience', composeNode audience node = .ok audience' := by
  simp only [Node.wellFormed, Bool.and_eq_true] at h
  obtain ⟨hmetadata, hbarrier⟩ := h
  simp only [composeNode, bind_ok, refuse_ok, Bool.not_eq_false', hmetadata, true_and]
  cases hstored : node.audienceBarrier with
  | absent => exact ⟨_, (), rfl⟩
  | malformed => simp [hstored, StoredBarrier.wellFormed] at hbarrier
  | stored readUserIds editUserIds =>
    simp only [hstored, StoredBarrier.wellFormed, StoredIds.wellFormed, Bool.and_eq_true,
      Option.isSome_iff_exists] at hbarrier
    obtain ⟨⟨readers, hreaders⟩, editors, heditors⟩ := hbarrier
    simp only [bind_ok, found_ok, pure_ok]
    exact ⟨_, (), readers, hreaders, editors, heditors, rfl⟩

/-! ### Whole paths -/

theorem foldlM_composeNode {nodes : List Node} {audience audience' : Audience}
    (h : nodes.foldlM composeNode audience = .ok audience') :
    nodes.all (·.wellFormed) = true ∧ ∀ u,
      includes audience'.readUserIds u =
        (includes audience.readUserIds u && nodes.all (·.reads u)) ∧
      includes audience'.editUserIds u =
        (includes audience.editUserIds u && nodes.all (·.edits u)) := by
  induction nodes generalizing audience with
  | nil =>
    obtain rfl := pure_ok.mp h
    simp
  | cons node rest ih =>
    rw [List.foldlM_cons] at h
    obtain ⟨next, hnext, hrest⟩ := bind_ok.mp h
    obtain ⟨hwell, hnode⟩ := composeNode_ok hnext
    obtain ⟨hwells, hall⟩ := ih hrest
    refine ⟨by simp [hwell, hwells], fun u => ?_⟩
    simp [hall u, hnode u, Bool.and_assoc]

theorem foldlM_composeNode_total {nodes : List Node} (h : nodes.all (·.wellFormed) = true)
    (audience : Audience) : ∃ audience', nodes.foldlM composeNode audience = .ok audience' := by
  induction nodes generalizing audience with
  | nil => exact ⟨audience, rfl⟩
  | cons node rest ih =>
    simp only [List.all_cons, Bool.and_eq_true] at h
    obtain ⟨next, hnext⟩ := composeNode_total h.1 audience
    obtain ⟨last, hlast⟩ := ih h.2 next
    exact ⟨last, by rw [List.foldlM_cons]; exact bind_ok.mpr ⟨next, hnext, hlast⟩⟩

/-- A path that the algebra accepts. -/
def Sound (nodes : List Node) : Prop :=
  pathIsValid nodes = true ∧ nodes.all (·.wellFormed) = true

instance (nodes : List Node) : Decidable (Sound nodes) := inferInstanceAs (Decidable (_ ∧ _))

/-- The composed audience are the users that every document of the path lets through. -/
theorem compose_ok {nodes : List Node} {audience : Audience}
    (h : composeDocumentAudience nodes = .ok audience) :
    Sound nodes ∧ ∀ u,
      includes audience.readUserIds u = nodes.all (·.reads u) ∧
      includes audience.editUserIds u = (nodes.all (·.edits u) && nodes.all (·.reads u)) := by
  simp only [composeDocumentAudience, bind_ok, refuse_ok, Bool.not_eq_false', pure_ok] at h
  obtain ⟨_, hvalid, last, hlast, rfl⟩ := h
  obtain ⟨hwell, hall⟩ := foldlM_composeNode hlast
  refine ⟨⟨hvalid, hwell⟩, fun u => ?_⟩
  simp [includes_sorted, includes_intersect, includes_none, hall u]

theorem compose_total {nodes : List Node} (h : Sound nodes) :
    ∃ audience, composeDocumentAudience nodes = .ok audience := by
  obtain ⟨last, hlast⟩ := foldlM_composeNode_total h.2 ⟨none, none⟩
  simp only [composeDocumentAudience, bind_ok, refuse_ok, Bool.not_eq_false', pure_ok]
  exact ⟨_, (), h.1, last, hlast, rfl⟩

/-- Staff of the organization that owns the first document of the path. -/
def Member (nodes : List Node) (user : User) : Bool :=
  validId user.id && validId user.organizationId && user.isActive && user.role.isStaff &&
    nodes.head?.any (·.organizationId = user.organizationId)

/-- What anyone but an administrator may do: the path is sound, and every document of it lets
them through. -/
theorem rights_eq {nodes : List Node} {user : User} (h : user.role ≠ .admin) :
    let rights := documentAudienceRights nodes user
    (rights.canRead = true ↔
      Member nodes user = true ∧ Sound nodes ∧ nodes.all (·.reads user.id) = true) ∧
    (rights.canEdit = true ↔
      Member nodes user = true ∧ Sound nodes ∧ nodes.all (·.reads user.id) = true ∧
        nodes.all (·.edits user.id) = true) ∧
    (rights.canManage = true ↔
      rights.canEdit = true ∧ nodes.head?.any (·.authorId = user.id) = true) := by
  cases nodes with
  | nil => simp [documentAudienceRights, Rights.none, Member]
  | cons root rest =>
    simp only [documentAudienceRights]
    split
    · rename_i hout
      have hmember : Member (root :: rest) user = false := by
        simp only [Bool.or_eq_true, Bool.not_eq_true', decide_eq_true_eq] at hout
        simp only [Member, List.head?_cons, Option.any_some, Bool.and_eq_false_iff]
        rcases hout with (((hout | hout) | hout) | hout) | hout
        · simp [hout]
        · simp [hout]
        · simp [hout]
        · simp [hout]
        · simp [hout]
      simp [hmember, Rights.none]
    rename_i hin
    have hmember : Member (root :: rest) user = true := by
      simp only [Bool.or_eq_true, Bool.not_eq_true', decide_eq_true_eq, not_or] at hin
      simpa [Member, and_assoc] using hin
    simp only [hmember, true_and]
    split
    · rename_i herror
      have hunsound : ¬ Sound (root :: rest) := by
        intro hsound
        obtain ⟨audience, hok⟩ := compose_total hsound
        rw [hok] at herror
        cases herror
      simp [hunsound, Rights.none]
    · rename_i audience hok
      obtain ⟨hsound, hall⟩ := compose_ok hok
      obtain ⟨hread, hedit⟩ := hall user.id
      simp only [hsound, true_and, hread, hedit, Bool.and_eq_true, List.head?_cons,
        Option.any_some, decide_eq_true_eq, and_assoc]
      exact ⟨⟨fun ⟨hr, he, _⟩ => ⟨hr, he⟩, fun ⟨hr, he⟩ => ⟨hr, he, hr⟩⟩, trivial⟩

/-! ### Paths -/

/-- Every document names the next one as its parent, and the last one has none. -/
def Linked : List Node → Prop
  | [] => True
  | node :: rest => node.parentId = rest.head?.map (·.id) ∧ Linked rest

/-- What the algebra asks of a document beside its metadata, on a path that starts at `first`. -/
structure Belongs (first node : Node) : Prop where
  id : validId node.id = true
  authorId : validId node.authorId = true
  organizationId : validId node.organizationId = true
  organization : node.organizationId = first.organizationId
  project : node.projectId = first.projectId

theorem namesNext_iff {node : Node} {rest : List Node} :
    namesNext node rest = true ↔ node.parentId = rest.head?.map (·.id) := by
  cases rest <;> simp [namesNext]

theorem nodesAreValid_iff {first : Node} {seen : List String} {nodes : List Node} :
    nodesAreValid first seen nodes = true ↔
      (∀ node ∈ nodes, Belongs first node) ∧ Linked nodes ∧ (nodes.map (·.id)).Nodup ∧
        ∀ node ∈ nodes, node.id ∉ seen := by
  induction nodes generalizing seen with
  | nil => simp [nodesAreValid, Linked]
  | cons node rest ih =>
    simp only [nodesAreValid, Bool.and_eq_true, decide_eq_true_eq, ih, Linked, namesNext_iff,
      List.map_cons, List.nodup_cons, List.mem_map, Bool.not_eq_true', List.contains_eq_mem,
      decide_eq_false_iff_not]
    constructor
    · rintro ⟨⟨⟨⟨⟨⟨⟨hid, hauthor⟩, horg⟩, hseen⟩, horg'⟩, hproject⟩, hlink⟩, hbelongs, hlinked,
        hnodup, hrest⟩
      simp only [List.mem_cons, not_or] at hrest
      refine ⟨List.forall_mem_cons.mpr ⟨⟨hid, hauthor, horg, horg', hproject⟩, hbelongs⟩,
        ⟨hlink, hlinked⟩, ⟨?_, hnodup⟩,
        List.forall_mem_cons.mpr ⟨hseen, fun n hn => (hrest n hn).2⟩⟩
      rintro ⟨n, hn, he⟩
      exact (hrest n hn).1 he
    · rintro ⟨hbelongs, ⟨hlink, hlinked⟩, ⟨hnew, hnodup⟩, hseen⟩
      obtain ⟨hnode, hbelongs⟩ := List.forall_mem_cons.mp hbelongs
      obtain ⟨hseen, hrest⟩ := List.forall_mem_cons.mp hseen
      refine ⟨⟨⟨⟨⟨⟨⟨hnode.id, hnode.authorId⟩, hnode.organizationId⟩, hseen⟩, hnode.organization⟩,
        hnode.project⟩, hlink⟩, hbelongs, hlinked, hnodup, fun n hn => ?_⟩
      rw [List.mem_cons, not_or]
      exact ⟨fun he => hnew ⟨n, hn, he⟩, hrest n hn⟩

theorem pathIsValid_iff {nodes : List Node} :
    pathIsValid nodes = true ↔ nodes.length ≤ 200 ∧ Linked nodes ∧ (nodes.map (·.id)).Nodup ∧
      ∃ first, nodes.head? = some first ∧ ∀ node ∈ nodes, Belongs first node := by
  cases nodes with
  | nil => simp [pathIsValid]
  | cons first rest =>
    simp only [pathIsValid, Bool.and_eq_true, decide_eq_true_eq, nodesAreValid_iff,
      List.head?_cons, Option.some.injEq, List.not_mem_nil, not_false_eq_true, implies_true,
      and_true, exists_eq_left']
    constructor
    · rintro ⟨hlength, hbelongs, hlinked, hnodup⟩
      exact ⟨hlength, hlinked, hnodup, hbelongs⟩
    · rintro ⟨hlength, hlinked, hnodup, hbelongs⟩
      exact ⟨hlength, hbelongs, hlinked, hnodup⟩

theorem Linked.of_append {l₁ l₂ : List Node} (h : Linked (l₁ ++ l₂)) : Linked l₂ := by
  induction l₁ with
  | nil => exact h
  | cons node rest ih => exact ih h.2

theorem Belongs.trans {first second node : Node} (h : Belongs first node)
    (hs : Belongs first second) : Belongs second node :=
  ⟨h.id, h.authorId, h.organizationId, h.organization.trans hs.organization.symm,
    h.project.trans hs.project.symm⟩

/-- The path of a document above is sound as well. -/
theorem Sound.of_append {l₁ l₂ : List Node} (h : Sound (l₁ ++ l₂)) (hne : l₂ ≠ []) : Sound l₂ := by
  obtain ⟨hvalid, hwell⟩ := h
  obtain ⟨hlength, hlinked, hnodup, first, -, hbelongs⟩ := pathIsValid_iff.mp hvalid
  obtain ⟨second, rest, rfl⟩ := List.exists_cons_of_ne_nil hne
  rw [List.all_append, Bool.and_eq_true] at hwell
  refine ⟨pathIsValid_iff.mpr ⟨?_, hlinked.of_append, ?_, second, rfl, ?_⟩, hwell.2⟩
  · rw [List.length_append] at hlength
    omega
  · rw [List.map_append] at hnodup
    exact (List.nodup_append.mp hnodup).2.1
  · intro node hnode
    exact (hbelongs node (List.mem_append_right _ hnode)).trans
      (hbelongs second (List.mem_append_right _ List.mem_cons_self))

/-! ### Composed audiences as barriers -/

/-- Users that the algebra accepts when they are stored. -/
def Storable (users : Users) : Prop :=
  ∀ l, users = some l → l.length ≤ 10000 ∧ ∀ id ∈ l, validId id = true

theorem storable_none : Storable none := fun _ h => by cases h

theorem Storable.intersect {a b : Users} (ha : Storable a) (hb : Storable b) :
    Storable (intersect a b) := by
  cases a with
  | none => exact hb
  | some a =>
    cases b with
    | none => exact ha
    | some b =>
      rintro _ ⟨⟩
      obtain ⟨hlength, hvalid⟩ := ha a rfl
      exact ⟨(List.length_filter_le _ _).trans hlength,
        fun id hid => hvalid id (List.mem_of_mem_filter hid)⟩

theorem ids_storable {stored : StoredIds} {users : Users} (h : ids stored = some users) :
    Storable users := by
  cases stored with
  | everyone =>
    obtain rfl := Option.some.inj h
    exact storable_none
  | only value =>
    simp only [ids] at h
    split at h
    · rename_i hvalue
      simp only [Bool.and_eq_true, decide_eq_true_eq, List.all_eq_true] at hvalue
      obtain rfl := Option.some.inj h
      rintro _ ⟨⟩
      exact ⟨(List.dedup_sublist value).length_le.trans hvalue.1,
        fun id hid => hvalue.2 id (List.mem_dedup.mp hid)⟩
    · cases h
  | malformed => cases h

/-- The users that a document names are few enough, and have ids. -/
theorem named_storable {node : Node} (hmetadata : node.metadataIsValid = true)
    (hauthor : validId node.authorId = true) :
    Storable (some node.readers) ∧ Storable (some node.editors) := by
  simp only [Node.metadataIsValid, Bool.and_eq_true, Option.any_eq_true, decide_eq_true_eq,
    List.all_eq_true] at hmetadata
  obtain ⟨-, grants, hgrants, hlength, hvalid⟩ := hmetadata
  have hnamed : ∀ l : List Grant, l.Sublist grants →
      Storable (some (node.authorId :: l.map (·.userId)).dedup) := by
    rintro l hl _ ⟨⟩
    constructor
    · have hle := (List.dedup_sublist (node.authorId :: l.map (·.userId))).length_le
      have hsub := hl.length_le
      simp only [List.length_cons, List.length_map] at hle
      omega
    · intro id hid
      rcases List.mem_cons.mp (List.mem_dedup.mp hid) with rfl | hid
      · exact hauthor
      · obtain ⟨grant, hgrant, rfl⟩ := List.mem_map.mp hid
        exact (hvalid grant (hl.subset hgrant)).1
  simp only [Node.readers, Node.editors, hgrants, Option.getD_some]
  exact ⟨hnamed grants (List.Sublist.refl _), hnamed _ List.filter_sublist⟩

theorem composeNode_storable {audience audience' : Audience} {node : Node}
    (h : composeNode audience node = .ok audience') (hauthor : validId node.authorId = true)
    (hread : Storable audience.readUserIds) (hedit : Storable audience.editUserIds) :
    Storable audience'.readUserIds ∧ Storable audience'.editUserIds := by
  simp only [composeNode, bind_ok, refuse_ok, Bool.not_eq_false'] at h
  obtain ⟨_, hmetadata, h⟩ := h
  obtain ⟨hreaders, heditors⟩ := named_storable hmetadata hauthor
  have hown : ∀ own : Audience, own = (if node.accessMode = .restricted then
      ⟨intersect audience.readUserIds (some node.readers),
        intersect audience.editUserIds (some node.editors)⟩ else audience) →
      Storable own.readUserIds ∧ Storable own.editUserIds := by
    rintro own rfl
    split
    · exact ⟨hread.intersect hreaders, hedit.intersect heditors⟩
    · exact ⟨hread, hedit⟩
  cases hbarrier : node.audienceBarrier with
  | absent =>
    simp only [hbarrier, pure_ok] at h
    exact hown _ h.symm
  | malformed => simp [hbarrier] at h
  | stored readUserIds editUserIds =>
    simp only [hbarrier, bind_ok, found_ok, pure_ok] at h
    obtain ⟨readers, hr, editors, he, rfl⟩ := h
    obtain ⟨hownRead, hownEdit⟩ := hown _ rfl
    exact ⟨hownRead.intersect (ids_storable hr), hownEdit.intersect (ids_storable he)⟩

theorem Storable.sorted {users : Users} (h : Storable users) :
    Storable (users.map sorted) := by
  intro l hl
  obtain ⟨l', hl', rfl⟩ := Option.map_eq_some_iff.mp hl
  obtain ⟨hlength, hvalid⟩ := h l' hl'
  exact ⟨by simpa [Notes.sorted] using hlength, fun id hid => hvalid id (by
    simpa [Notes.sorted, List.mem_mergeSort] using hid)⟩

theorem compose_storable {nodes : List Node} {audience : Audience}
    (h : composeDocumentAudience nodes = .ok audience) :
    Storable audience.readUserIds ∧ Storable audience.editUserIds := by
  obtain ⟨⟨hvalid, -⟩, -⟩ := compose_ok h
  obtain ⟨-, -, -, first, -, hbelongs⟩ := pathIsValid_iff.mp hvalid
  simp only [composeDocumentAudience, bind_ok, refuse_ok, pure_ok] at h
  obtain ⟨_, -, last, hlast, rfl⟩ := h
  have hstorable : Storable last.readUserIds ∧ Storable last.editUserIds :=
    foldlM_ok (I := fun a => Storable a.readUserIds ∧ Storable a.editUserIds)
      (fun a node b hnode ha hb => composeNode_storable hb (hbelongs node hnode).authorId ha.1 ha.2)
      ⟨storable_none, storable_none⟩ hlast
  exact ⟨hstorable.1.sorted, (hstorable.2.intersect hstorable.1).sorted⟩

/-- A composed audience can be stored, and lets the same users through. -/
theorem barrier_spec {nodes : List Node} {audience : Audience}
    (h : composeDocumentAudience nodes = .ok audience) :
    audience.barrier.wellFormed = true ∧ ∀ u,
      audience.barrier.admitsReader u = includes audience.readUserIds u ∧
      audience.barrier.admitsEditor u = includes audience.editUserIds u := by
  obtain ⟨hread, hedit⟩ := compose_storable h
  have hids : ∀ users : Users, Storable users →
      StoredIds.wellFormed (users.elim .everyone .only) = true := by
    intro users hstorable
    cases users with
    | none => rfl
    | some l =>
      obtain ⟨hlength, hvalid⟩ := hstorable l rfl
      simp only [Option.elim_some, StoredIds.wellFormed, ids]
      rw [if_pos (by simpa [hlength] using hvalid)]
      rfl
  refine ⟨?_, fun u => ?_⟩
  · simp only [Audience.barrier, StoredBarrier.wellFormed, Bool.and_eq_true]
    have hreaders := hids _ hread
    have heditors := hids _ hedit
    constructor
    · revert hreaders
      cases audience.readUserIds <;> exact id
    · revert heditors
      cases audience.editUserIds <;> exact id
  · simp only [Audience.barrier, StoredBarrier.admitsReader, StoredBarrier.admitsEditor]
    constructor
    · cases audience.readUserIds <;> rfl
    · cases audience.editUserIds <;> rfl

/-- A document that keeps the audience of its path as a barrier. -/
theorem preserved {node node' : Node} {rest : List Node} {audience : Audience}
    (h : composeDocumentAudience (node :: rest) = .ok audience)
    (hmode : node'.accessMode = node.accessMode) (hauthor : node'.authorId = node.authorId)
    (hgrants : node'.grants = node.grants) (hbarrier : node'.audienceBarrier = audience.barrier) :
    node'.wellFormed = true ∧ ∀ u,
      node'.reads u = (node :: rest).all (·.reads u) ∧
      node'.edits u = ((node :: rest).all (·.edits u) && (node :: rest).all (·.reads u)) := by
  obtain ⟨⟨-, hwell⟩, hall⟩ := compose_ok h
  obtain ⟨hstored, hadmits⟩ := barrier_spec h
  have hnode : node.metadataIsValid = true := by
    simp only [List.all_cons, Node.wellFormed, Bool.and_eq_true] at hwell
    exact hwell.1.1
  refine ⟨?_, fun u => ?_⟩
  · simp only [Node.wellFormed, hbarrier, hstored, Bool.and_true]
    simpa [Node.metadataIsValid, hmode, hgrants] using hnode
  · obtain ⟨hread, hedit⟩ := hadmits u
    obtain ⟨hreads, hedits⟩ := hall u
    simp only [Node.reads, Node.edits, hbarrier, hread, hedit, hmode, hauthor, hgrants,
      Node.readers, Node.editors, hreads, hedits]
    simp only [List.all_cons, Bool.and_assoc, Bool.and_self_left, and_self]

end Ashbi.Notes
