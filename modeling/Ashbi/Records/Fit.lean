import Ashbi.Records.Service

/-! Every stored record fits the stored fields of its collection. -/

namespace Ashbi.Records

open Checked

variable {N : Type} {P : Platform N} {catalog catalog' : Catalog N} {fields : List (Field N)}
  {types : Types}

/-! ### Growing catalogs -/

/-- Of the collections to which the fields lead, `catalog'` has those that `catalog` has. -/
def Extends (catalog catalog' : Catalog N) (fields : List (Field N)) : Prop :=
  ∀ field ∈ fields, field.type = .relation → ∀ id, field.collectionId = some id →
    ∀ items, catalog id = some items → catalog' id = some items

theorem validRelated_mono {id : Option String}
    (h : ∀ i, id = some i → ∀ items, catalog i = some items → catalog' i = some items)
    (hvalid : validRelated catalog id) : validRelated catalog' id := by
  cases id with
  | none => cases hvalid
  | some i =>
    simp only [validRelated, Bool.and_eq_true] at hvalid ⊢
    obtain ⟨items, hitems⟩ := Option.isSome_iff_exists.mp hvalid.2
    exact ⟨hvalid.1, Option.isSome_iff_exists.mpr ⟨items, h i rfl items hitems⟩⟩

theorem checkField_mono {field : Field N}
    (h : field.type = .relation → ∀ id, field.collectionId = some id →
      ∀ items, catalog id = some items → catalog' id = some items)
    (hcheck : checkField catalog field = .ok ()) : checkField catalog' field = .ok () := by
  simp only [checkField, bind_ok, refuse_ok] at hcheck ⊢
  obtain ⟨u, hunexpected, u', hoptions, u'', htarget, u''', hrelated, hrequired⟩ := hcheck
  refine ⟨u, hunexpected, u', hoptions, u'', htarget, u''', ?_, hrequired⟩
  cases htype : decide (field.type = .relation) with
  | false => simp
  | true =>
    have htype' : field.type = .relation := of_decide_eq_true htype
    rw [Bool.true_and, Bool.and_eq_false_iff]
    rw [htype, Bool.true_and, Bool.and_eq_false_iff] at hrelated
    rcases hrelated with hsome | hvalid
    · exact .inl hsome
    · right
      rw [Bool.not_eq_false'] at hvalid ⊢
      exact validRelated_mono (h htype') hvalid

theorem Extends.related (h : Extends catalog catalog' fields) {key : Option String}
    {relation : Field N} (hrelation : key.bind (lookup fields) = some relation)
    (htype : relation.type = .relation) {items : List (Field N)}
    (hitems : related catalog relation.collectionId = some items) :
    related catalog' relation.collectionId = some items := by
  obtain ⟨key, -, hlookup⟩ := Option.bind_eq_some_iff.mp hrelation
  obtain ⟨id, hid, hitems⟩ := Option.bind_eq_some_iff.mp hitems
  rw [hid]
  exact h relation (mem_of_lookup hlookup).1 htype id hid items hitems

theorem rollupType_mono (h : Extends catalog catalog' fields) {field : Field N} {t : ResultType}
    (ht : rollupType catalog fields field = .ok t) :
    rollupType catalog' fields field = .ok t := by
  simp only [rollupType, bind_ok, found_ok, refuse_ok] at ht ⊢
  obtain ⟨relation, hrelation, u, hactive, aggregate, haggregate, ht⟩ := ht
  refine ⟨relation, hrelation, u, hactive, aggregate, haggregate, ?_⟩
  split at ht
  case isTrue hcount =>
    rw [if_pos hcount]
    exact ht
  case isFalse hcount =>
    rw [if_neg hcount]
    simp only [bind_ok, found_ok] at ht ⊢
    obtain ⟨target, htarget, ht⟩ := ht
    obtain ⟨items, hitems, hfind⟩ := Option.bind_eq_some_iff.mp htarget
    have htype : relation.type = .relation := by
      simp only [Bool.or_eq_false_iff, decide_eq_false_iff_not, not_not] at hactive
      exact hactive.1.2
    exact ⟨target, Option.bind_eq_some_iff.mpr ⟨items, h.related hrelation htype hitems, hfind⟩, ht⟩

theorem Entry.extend (h : Extends catalog catalog' fields) {order : Types} {key : String}
    {t : ResultType} (entry : Entry P catalog fields order key t) :
    Entry P catalog' fields order key t := by
  cases entry with
  | plain hf ha hs => exact .plain hf ha hs
  | formula hf ha htype hscalar hsize hheight ht =>
    exact .formula hf ha htype hscalar hsize hheight ht
  | rollup hf ha htype ht => exact .rollup hf ha htype (rollupType_mono h ht)

theorem Ordered.extend (h : Extends catalog catalog' fields) {order : Types}
    (ho : Ordered P catalog fields order) : Ordered P catalog' fields order := by
  induction ho with
  | nil => exact .nil
  | cons _ fresh entry ih => exact .cons ih fresh (entry.extend h)

/-- The definitions are accepted. -/
def Valid (P : Platform N) (catalog : Catalog N) (fields : List (Field N)) : Prop :=
  ∃ types, validateRecordDefinitions P catalog fields = .ok types

/-- Accepted definitions stay accepted where the catalog keeps what they lead to. -/
theorem Valid.extend (hvalid : Valid P catalog fields) (h : Extends catalog catalog' fields) :
    Valid P catalog' fields := by
  obtain ⟨types, hvalid⟩ := hvalid
  obtain ⟨hlength, hchecked, hcomplete⟩ := accepted hvalid
  obtain ⟨hall, hkeys, hnames⟩ := checkFields_ok.mp hchecked
  have hchecked' : checkFields P catalog' [] [] fields = .ok () := by
    refine checkFields_ok.mpr ⟨fun field hmem => ?_, hkeys, hnames⟩
    obtain ⟨⟨hkey, hnamed, hshort, hcheck⟩, hfree⟩ := hall field hmem
    exact ⟨⟨hkey, hnamed, hshort, checkField_mono (h field hmem) hcheck⟩, hfree⟩
  have haccepted : Accepted P catalog' fields types :=
    ⟨hlength, hchecked', hcomplete.ordered.extend h, hcomplete.covers⟩
  obtain ⟨types', hvalid', -⟩ := haccepted.validate
  exact ⟨types', hvalid'⟩

/-! ### The stored fields -/

namespace Store

variable {s s' : Store N} {actor : Actor}

/-- The stored fields of the collections of an organization. -/
def stored (s : Store N) (organizationId : String) : Catalog N := fun id =>
  (s.collections.find? fun c => c.id = id && c.organizationId = organizationId).map (·.fields)

/-- The stored definitions are accepted against each other, every value of a record has its field,
and the values of an active record pass all checks. -/
structure Consistent (P : Platform N) (s : Store N) : Prop where
  ids : (s.collections.map (·.id)).Nodup
  valid : ∀ c ∈ s.collections, Valid P (s.stored c.organizationId) c.fields
  owned : ∀ r ∈ s.records, ∃ c ∈ s.collections, c.id = r.collectionId ∧
    c.organizationId = r.organizationId
  known : ∀ c ∈ s.collections, ∀ r ∈ s.records, r.collectionId = c.id → Known c.fields r.values
  checked : ∀ c ∈ s.collections, ∀ r ∈ s.records, r.collectionId = c.id → r.archived = false →
    checkValues P c.fields r.values = .ok ()

theorem Consistent.empty : Consistent P (⟨[], [], []⟩ : Store N) where
  ids := List.nodup_nil
  valid := nofun
  owned := nofun
  known := nofun
  checked := nofun

theorem unique_id (hids : (s.collections.map (·.id)).Nodup) {c d : Collection N}
    (hc : c ∈ s.collections) (hd : d ∈ s.collections) (h : c.id = d.id) : c = d :=
  List.inj_on_of_nodup_map hids hc hd h

theorem stored_eq (hids : (s.collections.map (·.id)).Nodup) {id organizationId : String}
    {items : List (Field N)} : s.stored organizationId id = some items ↔
      ∃ c ∈ s.collections, c.id = id ∧ c.organizationId = organizationId ∧ c.fields = items := by
  constructor
  · intro h
    obtain ⟨c, hfind, rfl⟩ := Option.map_eq_some_iff.mp h
    have hkey := List.find?_some hfind
    simp only [Bool.and_eq_true, decide_eq_true_eq] at hkey
    exact ⟨c, List.mem_of_find?_eq_some hfind, hkey.1, hkey.2, rfl⟩
  · rintro ⟨c, hmem, rfl, rfl, rfl⟩
    unfold stored
    cases hfind : s.collections.find? fun d => d.id = c.id &&
      d.organizationId = c.organizationId with
    | none =>
      have := List.find?_eq_none.mp hfind c hmem
      simp at this
    | some d =>
      have hkey := List.find?_some hfind
      simp only [Bool.and_eq_true, decide_eq_true_eq] at hkey
      rw [unique_id hids (List.mem_of_find?_eq_some hfind) hmem hkey.1]
      rfl

theorem collectionFor_ok {id : String} {includeArchived : Bool} {c : Collection N}
    (h : s.collectionFor actor id includeArchived = .ok c) :
    c ∈ s.collections ∧ c.id = id ∧ c.organizationId = actor.organizationId := by
  have hfind := found_ok.mp h
  have hkey := List.find?_some hfind
  simp only [Bool.and_eq_true, decide_eq_true_eq] at hkey
  exact ⟨List.mem_of_find?_eq_some hfind, hkey.1⟩

/-- What a request finds in its catalog is what is stored, but for the fields that it proposes. -/
theorem catalogFor_some (hids : (s.collections.map (·.id)).Nodup)
    {override : Option (String × List (Field N))} {id : String} {items : List (Field N)}
    (h : s.catalogFor actor fields override id = some items) :
    override = some (id, items) ∨
      ((∀ items', override ≠ some (id, items')) ∧
        s.stored actor.organizationId id = some items) := by
  unfold catalogFor at h
  cases hfilter : override.filter (·.1 = id) with
  | some entry =>
    obtain ⟨hoverride, hid⟩ := Option.filter_eq_some_iff.mp hfilter
    obtain ⟨id', items'⟩ := entry
    obtain rfl : id' = id := by simpa using hid
    simp only [hfilter, Option.some.injEq] at h
    subst h
    exact .inl hoverride
  | none =>
    simp only [hfilter] at h
    obtain ⟨c, hfind, rfl⟩ := Option.map_eq_some_iff.mp h
    have hmem := List.mem_of_find?_eq_some hfind
    have hkey := List.find?_some hfind
    have hrow := List.mem_filter.mp (List.mem_of_mem_take hmem)
    simp only [Bool.and_eq_true, decide_eq_true_eq] at hkey hrow
    refine .inr ⟨fun items' hoverride => ?_, (stored_eq hids).mpr ⟨c, hrow.1, hkey, hrow.2.2, rfl⟩⟩
    rw [hoverride] at hfilter
    simp at hfilter

/-! ### Transactions -/

/-- The records of a changed store lie in its collections. -/
theorem of_append {row : Collection N} (h : Consistent P s)
    (hfresh : ∀ c ∈ s.collections, c.id ≠ row.id)
    (hvalid : Valid P (s.catalogFor ⟨row.organizationId, actor.canonicalRows⟩ row.fields none)
      row.fields) :
    Consistent P { s with collections := s.collections ++ [row] } := by
  have hids : ((s.collections ++ [row]).map (·.id)).Nodup := by
    rw [List.map_append, List.nodup_append]
    refine ⟨h.ids, List.nodup_singleton _, ?_⟩
    intro id hid other hother
    obtain ⟨c, hc, rfl⟩ := List.mem_map.mp hid
    obtain rfl := List.mem_singleton.mp hother
    exact hfresh c hc
  -- What was stored is still stored.
  have hgrows {organizationId id : String} {items : List (Field N)}
      (hitems : s.stored organizationId id = some items) :
      ({ s with collections := s.collections ++ [row] } : Store N).stored organizationId id =
        some items := by
    obtain ⟨c, hc, hcid⟩ := (stored_eq h.ids).mp hitems
    exact (stored_eq hids).mpr ⟨c, List.mem_append_left _ hc, hcid⟩
  have hno {r : Record N} (hr : r ∈ s.records) : r.collectionId ≠ row.id := by
    obtain ⟨c, hc, hcid, -⟩ := h.owned r hr
    exact hcid ▸ hfresh c hc
  refine ⟨hids, ?_, ?_, ?_, ?_⟩
  · intro c hc
    rcases List.mem_append.mp hc with hc | hc
    · exact (h.valid c hc).extend fun _ _ _ _ _ _ => hgrows
    · obtain rfl := List.mem_singleton.mp hc
      refine hvalid.extend fun _ _ _ _ _ items hitems => ?_
      obtain hoverride | ⟨-, hitems⟩ := catalogFor_some h.ids hitems
      · cases hoverride
      · exact hgrows hitems
  · intro r hr
    obtain ⟨c, hc, hcid⟩ := h.owned r hr
    exact ⟨c, List.mem_append_left _ hc, hcid⟩
  · intro c hc r hr hid
    rcases List.mem_append.mp hc with hc | hc
    · exact h.known c hc r hr hid
    · obtain rfl := List.mem_singleton.mp hc
      exact absurd hid (hno hr)
  · intro c hc r hr hid
    rcases List.mem_append.mp hc with hc | hc
    · exact h.checked c hc r hr hid
    · obtain rfl := List.mem_singleton.mp hc
      exact absurd hid (hno hr)

theorem Consistent.createCollection {newId : String} {input : CollectionInput N}
    (h : Consistent P s) (hok : s.createWorkspaceCollection P actor newId input = .ok s') :
    Consistent P s' := by
  simp only [createWorkspaceCollection, bind_ok, refuse_ok, pure_ok] at hok
  obtain ⟨types, hvalid, _, -, _, hfresh, rfl⟩ := hok
  exact of_append h (by simpa using hfresh) ⟨types, hvalid⟩

/-- The change of one collection, where its fields keep the values and the relations to them. -/
theorem of_map {change : Collection N → Collection N} {current : Collection N}
    (h : Consistent P s) (hmem : current ∈ s.collections)
    (hother : ∀ c ∈ s.collections, c ≠ current → change c = c)
    (hid : (change current).id = current.id)
    (horg : (change current).organizationId = current.organizationId)
    (hvalid : ∀ c ∈ s.collections,
      Valid P (({ s with collections := s.collections.map change } : Store N).stored
        (change c).organizationId) (change c).fields)
    (hknown : ∀ r ∈ s.records, r.collectionId = current.id → Known current.fields r.values →
      Known (change current).fields r.values)
    (hchecked : ∀ r ∈ s.records, r.collectionId = current.id → r.archived = false →
      checkValues P (change current).fields r.values = .ok ()) :
    Consistent P { s with collections := s.collections.map change } := by
  have same {c : Collection N} (hc : c ∈ s.collections) :
      (change c).id = c.id ∧ (change c).organizationId = c.organizationId := by
    by_cases he : c = current
    · subst he
      exact ⟨hid, horg⟩
    · rw [hother c hc he]
      exact ⟨rfl, rfl⟩
  refine ⟨?_, ?_, ?_, ?_, ?_⟩
  · have heq : (s.collections.map change).map (·.id) = s.collections.map (·.id) := by
      rw [List.map_map]
      exact List.map_congr_left fun c hc => (same hc).1
    exact heq ▸ h.ids
  · intro c' hc'
    obtain ⟨c, hc, rfl⟩ := List.mem_map.mp hc'
    exact hvalid c hc
  · intro r hr
    obtain ⟨c, hc, hcid, hcorg⟩ := h.owned r hr
    exact ⟨change c, List.mem_map_of_mem hc, (same hc).1.trans hcid, (same hc).2.trans hcorg⟩
  · intro c' hc' r hr hrid
    obtain ⟨c, hc, rfl⟩ := List.mem_map.mp hc'
    have hold := h.known c hc r hr (hrid.trans (same hc).1)
    by_cases he : c = current
    · subst he
      exact hknown r hr (hrid.trans hid) hold
    · rw [hother c hc he]
      exact hold
  · intro c' hc' r hr hrid hactive
    obtain ⟨c, hc, rfl⟩ := List.mem_map.mp hc'
    by_cases he : c = current
    · subst he
      exact hchecked r hr (hrid.trans hid) hactive
    · rw [hother c hc he]
      exact h.checked c hc r hr (hrid.trans (same hc).1) hactive

/-- A change that keeps all fields. -/
theorem of_map_same {change : Collection N → Collection N} {current : Collection N}
    (h : Consistent P s) (hmem : current ∈ s.collections)
    (hother : ∀ c ∈ s.collections, c ≠ current → change c = c)
    (hid : (change current).id = current.id)
    (horg : (change current).organizationId = current.organizationId)
    (hfields : (change current).fields = current.fields) :
    Consistent P { s with collections := s.collections.map change } := by
  have same {c : Collection N} (hc : c ∈ s.collections) : (change c).id = c.id ∧
      (change c).organizationId = c.organizationId ∧ (change c).fields = c.fields := by
    by_cases he : c = current
    · subst he
      exact ⟨hid, horg, hfields⟩
    · rw [hother c hc he]
      exact ⟨rfl, rfl, rfl⟩
  have hids' : ((s.collections.map change).map (·.id)).Nodup := by
    have heq : (s.collections.map change).map (·.id) = s.collections.map (·.id) := by
      rw [List.map_map]
      exact List.map_congr_left fun c hc => (same hc).1
    exact heq ▸ h.ids
  apply of_map h hmem hother hid horg
  · intro c hc
    rw [(same hc).2.1, (same hc).2.2]
    refine (h.valid c hc).extend fun _ _ _ id _ items hitems => ?_
    obtain ⟨d, hd, hdid, hdorg, hditems⟩ := (stored_eq h.ids).mp hitems
    exact (stored_eq hids').mpr ⟨change d, List.mem_map_of_mem hd, (same hd).1.trans hdid,
      (same hd).2.1.trans hdorg, (same hd).2.2.trans hditems⟩
  · intro r _ _ hknown
    exact hfields ▸ hknown
  · intro r hr hrid hactive
    exact hfields ▸ h.checked current hmem r hr hrid hactive

/-- What is stored after the change of one collection. -/
theorem stored_map {change : Collection N → Collection N} {current : Collection N}
    (hids : (s.collections.map (·.id)).Nodup)
    (hids' : ((s.collections.map change).map (·.id)).Nodup)
    (hmem : current ∈ s.collections) (hother : ∀ c ∈ s.collections, c ≠ current → change c = c)
    (hid : (change current).id = current.id)
    (horg : (change current).organizationId = current.organizationId)
    {organizationId id : String} {items : List (Field N)} :
    (id ≠ current.id → s.stored organizationId id = some items →
      ({ s with collections := s.collections.map change } : Store N).stored organizationId id =
        some items) ∧
    (({ s with collections := s.collections.map change } : Store N).stored
      current.organizationId current.id = some (change current).fields) := by
  constructor
  · intro hne hitems
    obtain ⟨c, hc, rfl, hcorg, hcitems⟩ := (stored_eq hids).mp hitems
    have hchange := hother c hc fun he => hne (he ▸ rfl)
    exact (stored_eq hids').mpr ⟨c, List.mem_map.mpr ⟨c, hc, hchange⟩, rfl, hcorg, hcitems⟩
  · exact (stored_eq hids').mpr ⟨change current, List.mem_map_of_mem hmem, hid, horg, rfl⟩

/-- The checks of a change of fields are the conditions under which the store stays consistent. -/
theorem checkFields_sound {current : Collection N} {change : Collection N → Collection N}
    (h : Consistent P s) (hmem : current ∈ s.collections)
    (horg : current.organizationId = actor.organizationId)
    (hother : ∀ c ∈ s.collections, c ≠ current → change c = c)
    (hid : (change current).id = current.id)
    (horg' : (change current).organizationId = current.organizationId)
    (hok : s.checkFields P actor current (change current).fields = .ok ()) :
    Consistent P { s with collections := s.collections.map change } := by
  simp only [Store.checkFields, bind_ok, forM_ok] at hok
  obtain ⟨_, hupdate, _, -, _, hdependents, hrecords⟩ := hok
  have hids' : ((s.collections.map change).map (·.id)).Nodup := by
    have heq : (s.collections.map change).map (·.id) = s.collections.map (·.id) := by
      rw [List.map_map]
      refine List.map_congr_left fun c hc => ?_
      by_cases he : c = current
      · subst he
        exact hid
      · exact congrArg _ (hother c hc he)
    exact heq ▸ h.ids
  have hstored := @stored_map _ s change current h.ids hids' hmem hother hid horg'
  -- What the checks found in their catalog is stored afterwards.
  have hfound {fields items : List (Field N)} {id : String}
      (hitems : s.catalogFor actor fields (some (current.id, (change current).fields)) id =
        some items) :
      ({ s with collections := s.collections.map change } : Store N).stored
        current.organizationId id = some items := by
    obtain hoverride | ⟨hnot, hitems⟩ := catalogFor_some h.ids hitems
    · obtain ⟨rfl, rfl⟩ := Prod.mk.inj (Option.some.inj hoverride)
      exact (@hstored "" "" []).2
    · refine (hstored.1 ?_ (horg ▸ hitems))
      rintro rfl
      exact hnot _ rfl
  apply of_map h hmem hother hid horg'
  · intro c hc
    by_cases he : c = current
    · subst he
      rw [horg']
      obtain ⟨types, hvalid, -⟩ := bind_ok.mp hupdate
      exact Valid.extend ⟨types, hvalid⟩ fun _ _ _ _ _ _ => hfound
    rw [hother c hc he]
    have hne : c.id ≠ current.id := fun heq => he (unique_id h.ids hc hmem heq)
    by_cases hdepends : c.organizationId = actor.organizationId ∧ c.dependsOn current.id
    · have hdependent := hdependents c (List.mem_filter.mpr ⟨hc, by simp [hdepends, hne]⟩)
      obtain ⟨types, hvalid, -⟩ := hdependent
      rw [hdepends.1, ← horg]
      exact Valid.extend ⟨types, hvalid⟩ fun _ _ _ _ _ _ => hfound
    · refine (h.valid c hc).extend fun field hfield htype id hfid items hitems => ?_
      refine hstored.1 ?_ hitems
      rintro rfl
      obtain ⟨d, hd, hdid, hdorg, -⟩ := (stored_eq h.ids).mp hitems
      obtain rfl := unique_id h.ids hd hmem hdid
      refine hdepends ⟨hdorg.symm.trans horg, List.any_eq_true.mpr ⟨field, hfield, ?_⟩⟩
      simp [htype, hfid]
  · intro r _ _ hknown
    exact hknown.update hupdate
  · intro r hr hrid hactive
    obtain ⟨c, hc, hcid, hcorg⟩ := h.owned r hr
    obtain rfl := unique_id h.ids hc hmem (hcid.trans hrid)
    obtain ⟨values, hvalues, -⟩ := hrecords r
      (List.mem_filter.mpr ⟨hr, by simp [hrid, hactive, ← hcorg, horg]⟩)
    obtain ⟨-, -, hpatch, hchecked⟩ := recordValuePatch_ok.mp hvalues
    obtain rfl := pure_ok.mp hpatch
    exact hchecked

theorem Consistent.updateCollection {id : String} {revision : ℕ} {archived : Option Bool}
    {changes : CollectionChanges N} (h : Consistent P s)
    (hok : s.updateWorkspaceCollection P actor id revision archived changes = .ok s') :
    Consistent P s' := by
  simp only [updateWorkspaceCollection, bind_ok, refuse_ok, pure_ok] at hok
  obtain ⟨current, hcurrent, _, hrevision, _, -, _, hfields, _, -, rfl⟩ := hok
  obtain ⟨hmem, rfl, horg⟩ := collectionFor_ok hcurrent
  have hrevision : revision = current.revision := by simpa using hrevision
  subst hrevision
  generalize hchange : (fun c : Collection N => if (decide (c.id = current.id)
    && decide (c.organizationId = actor.organizationId)
    && decide (c.revision = current.revision)) = true then changes.apply archived c else c) = change
  have hcurrent : change current = changes.apply archived current := by
    rw [← hchange]
    simp [horg]
  have hother : ∀ c ∈ s.collections, c ≠ current → change c = c := by
    intro c hc he
    have hne : c.id ≠ current.id := fun heq => he (unique_id h.ids hc hmem heq)
    rw [← hchange]
    simp [hne]
  have hid : (change current).id = current.id := by
    rw [hcurrent]
    rfl
  have horg' : (change current).organizationId = current.organizationId := by
    rw [hcurrent]
    rfl
  cases hnew : changes.fields with
  | some fields =>
    have hfields' : (change current).fields = fields := by
      rw [hcurrent]
      simp [CollectionChanges.apply, hnew]
    rw [hnew] at hfields
    exact checkFields_sound h hmem horg hother hid horg' (hfields'.symm ▸ hfields)
  | none =>
    have hfields' : (change current).fields = current.fields := by
      rw [hcurrent]
      simp [CollectionChanges.apply, hnew]
    exact of_map_same h hmem hother hid horg' hfields'

/-- A transaction that leaves the collections as they are, and the records consistent. -/
theorem Consistent.of_records (h : Consistent P s) (hcollections : s'.collections = s.collections)
    (hrecords : ∀ r ∈ s'.records, ∃ c ∈ s.collections, c.id = r.collectionId ∧
      c.organizationId = r.organizationId ∧ Known c.fields r.values ∧
        (r.archived = false → checkValues P c.fields r.values = .ok ())) : Consistent P s' := by
  have hstored : s'.stored = s.stored := by
    unfold stored
    rw [hcollections]
  refine ⟨hcollections ▸ h.ids, ?_, ?_, ?_, ?_⟩
  · rw [hcollections, hstored]
    exact h.valid
  · intro r hr
    obtain ⟨c, hc, hid, horg, -⟩ := hrecords r hr
    exact ⟨c, hcollections ▸ hc, hid, horg⟩
  · intro c hc r hr hid
    rw [hcollections] at hc
    obtain ⟨d, hd, hdid, -, hknown, -⟩ := hrecords r hr
    rw [unique_id h.ids hc hd (hid.symm.trans hdid.symm)]
    exact hknown
  · intro c hc r hr hid
    rw [hcollections] at hc
    obtain ⟨d, hd, hdid, -, -, hchecked⟩ := hrecords r hr
    rw [unique_id h.ids hc hd (hid.symm.trans hdid.symm)]
    exact hchecked

/-- A record of a consistent store. -/
theorem Consistent.record (h : Consistent P s) {r : Record N} (hr : r ∈ s.records) :
    ∃ c ∈ s.collections, c.id = r.collectionId ∧ c.organizationId = r.organizationId ∧
      Known c.fields r.values ∧
        (r.archived = false → checkValues P c.fields r.values = .ok ()) := by
  obtain ⟨c, hc, hid, horg⟩ := h.owned r hr
  exact ⟨c, hc, hid, horg, h.known c hc r hr hid.symm, h.checked c hc r hr hid.symm⟩

theorem Consistent.createRecord {collectionId newId : String} {input : RecordInput N}
    (h : Consistent P s)
    (hok : s.createWorkspaceRecord P actor collectionId newId input = .ok s') :
    Consistent P s' := by
  simp only [createWorkspaceRecord, bind_ok, refuse_ok, pure_ok] at hok
  obtain ⟨c, hcollection, _, -, values, hvalues, _, -, _, -, rfl⟩ := hok
  obtain ⟨hmem, rfl, horg⟩ := collectionFor_ok hcollection
  refine h.of_records rfl fun r hr => ?_
  rcases List.mem_append.mp hr with hr | hr
  · exact h.record hr
  · obtain rfl := List.mem_singleton.mp hr
    obtain ⟨-, -, -, hchecked⟩ := recordValuePatch_ok.mp hvalues
    exact ⟨c, hmem, rfl, horg, recordValuePatch_known (by simp [Known]) hvalues, fun _ => hchecked⟩

theorem eq_of_countP {α : Type} {p : α → Bool} {xs : List α} (h : xs.countP p = 1) {a b : α}
    (ha : a ∈ xs) (hpa : p a) (hb : b ∈ xs) (hpb : p b) : a = b := by
  rw [List.countP_eq_length_filter] at h
  obtain ⟨x, hx⟩ := List.length_eq_one_iff.mp h
  have hmem {c : α} (hc : c ∈ xs) (hpc : p c) : c = x := by
    have : c ∈ xs.filter p := List.mem_filter.mpr ⟨hc, hpc⟩
    rw [hx] at this
    exact List.mem_singleton.mp this
  exact (hmem ha hpa).trans (hmem hb hpb).symm

theorem patchedValues_ok {catalog : Catalog N} {c : Collection N} {r : Record N}
    {input : RecordChanges N} {values : Values N} (hknown : Known c.fields r.values)
    (h : patchedValues P catalog c r input = .ok values) : Known c.fields values ∧
      ((input.archived = some true ∧ input.values = none ∧ values = r.values) ∨
        (applyPatch P c.fields r.values (input.values.getD []) = .ok values ∧
          checkValues P c.fields values = .ok ())) := by
  unfold patchedValues at h
  split at h
  case isTrue hkept =>
    obtain rfl := pure_ok.mp h
    simp only [Bool.and_eq_true, decide_eq_true_eq, Option.isNone_iff_eq_none] at hkept
    exact ⟨hknown, .inl ⟨hkept.1, hkept.2, rfl⟩⟩
  case isFalse =>
    obtain ⟨-, -, hpatch, hchecked⟩ := recordValuePatch_ok.mp h
    exact ⟨recordValuePatch_known hknown h, .inr ⟨hpatch, hchecked⟩⟩

theorem Consistent.updateRecord {collectionId recordId : String} {input : RecordChanges N}
    (h : Consistent P s)
    (hok : s.updateWorkspaceRecord P actor collectionId recordId input = .ok s') :
    Consistent P s' := by
  simp only [updateWorkspaceRecord, bind_ok, refuse_ok, found_ok, pure_ok] at hok
  obtain ⟨c, hcollection, _, -, current, hcurrent, _, hrevision, _, hrestored, values,
    hvalues, _, -,
    _, hcount, rfl⟩ := hok
  obtain ⟨hmem, rfl, horg⟩ := collectionFor_ok hcollection
  have hfound := List.find?_some hcurrent
  have hcurrentmem := List.mem_of_find?_eq_some hcurrent
  simp only [Bool.and_eq_true, decide_eq_true_eq] at hfound
  have hrevision : current.revision = input.revision := by simpa using hrevision
  rw [decide_eq_false_iff_not, not_not] at hcount
  obtain ⟨hknown, hcases⟩ :=
    patchedValues_ok (h.known c hmem current hcurrentmem hfound.1.2) hvalues
  refine h.of_records rfl fun r' hr' => ?_
  obtain ⟨r, hr, rfl⟩ := List.mem_map.mp hr'
  split
  case isFalse => exact h.record hr
  case isTrue hchosen =>
    obtain rfl := eq_of_countP hcount hr hchosen hcurrentmem (by simp [hfound, hrevision])
    refine ⟨c, hmem, hfound.1.2.symm, horg.trans hfound.2.symm, ?_, fun hactive => ?_⟩
    · dsimp only
      split
      · exact hknown
      · exact h.known c hmem r hr hfound.1.2
    · rcases hcases with ⟨harchived, -, -⟩ | ⟨hpatch, hchecked⟩
      · simp [harchived] at hactive
      · dsimp only
        split
        · exact hchecked
        case isFalse hnone =>
          have hnone : input.values = none := by simpa using hnone
          rw [hnone] at hpatch
          obtain rfl := pure_ok.mp hpatch
          exact hchecked

/-- Every transaction keeps the store consistent. -/
theorem Consistent.transact {request : Request N} (h : Consistent P s)
    (hok : request.transact P actor s = .ok s') : Consistent P s' := by
  cases request with
  | createCollection newId input => exact h.createCollection hok
  | updateCollection id revision archived changes => exact h.updateCollection hok
  | createRecord collectionId newId input => exact h.createRecord hok
  | updateRecord collectionId recordId input => exact h.updateRecord hok
  | createForm collectionId newId configuration =>
    simp only [Request.transact, createWorkspaceRecordForm, bind_ok, refuse_ok, pure_ok] at hok
    obtain ⟨_, -, _, -, _, -, rfl⟩ := hok
    exact h.of_records rfl fun r => h.record
  | updateForm collectionId formId input =>
    simp only [Request.transact, updateWorkspaceRecordForm, bind_ok, refuse_ok, pure_ok] at hok
    obtain ⟨_, -, _, -, _, -, _, -, _, -, _, -, rfl⟩ := hok
    exact h.of_records rfl fun r => h.record
  | submitForm collectionId formId newId input =>
    simp only [Request.transact, submitWorkspaceRecordForm, bind_ok, refuse_ok] at hok
    obtain ⟨_, -, _, -, _, -, _, -, _, -, hok⟩ := hok
    exact h.createRecord hok

theorem Consistent.run {requests : List (Actor × Request N)} (h : Consistent P s) :
    Consistent P (s.run P requests) := by
  induction requests generalizing s with
  | nil => exact h
  | cons entry rest ih =>
    obtain ⟨actor, request⟩ := entry
    rw [Store.run, List.foldl_cons]
    apply ih
    dsimp only
    split
    case h_1 s' hok => exact h.transact hok
    case h_2 => exact h

end Store

/-- After any transactions, from an empty store: the definitions of every collection are accepted
against the stored fields of the collections of its organization, the values of every active record
pass the empty patch and are left as they are by it, and every value has its field. -/
theorem records_fit (P : Platform N) (requests : List (Actor × Request N)) :
    let s := (⟨[], [], []⟩ : Store N).run P requests
    (∀ c ∈ s.collections, ∃ types,
      validateRecordDefinitions P (s.stored c.organizationId) c.fields = .ok types) ∧
    (∀ r ∈ s.records, ∃ c ∈ s.collections, c.id = r.collectionId ∧
      c.organizationId = r.organizationId) ∧
    ∀ c ∈ s.collections, ∀ r ∈ s.records, r.collectionId = c.id →
      (r.archived = false →
        recordValuePatch P (s.stored c.organizationId) c.fields r.values [] = .ok r.values) ∧
      ∀ key ∈ r.values.map Prod.fst, (lookup c.fields key).isSome := by
  intro s
  have h : s.Consistent P := Store.Consistent.empty.run
  refine ⟨h.valid, h.owned, fun c hc r hr hid => ⟨fun hactive => ?_, h.known c hc r hr hid⟩⟩
  exact recordValuePatch_ok.mpr ⟨h.valid c hc, by simp, rfl, h.checked c hc r hr hid hactive⟩

/-- A collection of amounts with a formula, a record in it, and an amount that is refused. -/
def sampleRequests : List (Actor × Request ℤ) :=
  let actor : Actor := ⟨"org", fun _ ids => ids⟩
  [(actor, .createCollection "c" ⟨"Amounts", "", none, [amountField, sumField "f" 1]⟩),
    (actor, .createRecord "c" "x" ⟨"First", 0, [("n", .number 3)]⟩),
    (actor, .createRecord "c" "y" ⟨"Second", 0, [("n", .text "oops")]⟩)]

theorem records_fit_sample :
    let s := (⟨[], [], []⟩ : Store ℤ).run wholeNumbers sampleRequests
    s.records.map (fun r => (r.id, r.values)) = [("x", [("n", .number 3)])] ∧
    ∀ c ∈ s.collections, ∀ r ∈ s.records, recordValuePatch wholeNumbers (s.stored c.organizationId)
      c.fields r.values [] = .ok r.values := by
  intro s
  have hs : s = ⟨[⟨"c", "org", "Amounts", "", none, [amountField, sumField "f" 1], false, 0, 0⟩],
      [⟨"x", "c", "org", "First", [("n", .number 3)], false, 0⟩], []⟩ := by rfl
  obtain ⟨-, -, hfit⟩ := records_fit wholeNumbers sampleRequests
  refine ⟨by rw [hs]; rfl, fun c hc r hr => ?_⟩
  have hid : r.collectionId = c.id ∧ r.archived = false := by
    rw [hs] at hc hr
    obtain rfl := List.mem_singleton.mp hc
    obtain rfl := List.mem_singleton.mp hr
    exact ⟨rfl, rfl⟩
  exact (hfit c hc r hr hid.1).1 hid.2

end Ashbi.Records
