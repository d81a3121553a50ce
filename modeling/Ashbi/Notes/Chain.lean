import Mathlib.Data.List.Range
import Ashbi.Notes.Requests
import Std.Data.String.ToNat

/-! A project whose notes lie one under another. -/

namespace Ashbi.Notes

open Checked Hierarchy
open Pages (User Role Rights Actor Failure)

def staff : User := ⟨"staff", "workspace", .team, true⟩

def staffActor : Actor := ⟨"staff", "workspace", .team⟩

def project : Project := ⟨"project", "workspace"⟩

def chainId (i : ℕ) : String := Nat.repr i

def chainParent : ℕ → Option String
  | 0 => none
  | i + 1 => some (chainId i)

def chainNote (i : ℕ) : Note := newNote (chainId i) project (chainParent i) "staff" false .absent

/-- So many notes, each the child of the one before. -/
def chain (n : ℕ) : State := ⟨[staff], [project], (List.range n).map chainNote⟩

/-- The notes from one up to the root. -/
def chainTrail : ℕ → List Note
  | 0 => [chainNote 0]
  | i + 1 => chainNote (i + 1) :: chainTrail i

variable {i n : ℕ}

theorem chainId_injective : Function.Injective chainId := fun _ _ h => Nat.repr_injective h

theorem chain_ids : (chain n).ids.Nodup := by
  have hids : (chain n).ids = (List.range n).map chainId := by
    simp [State.ids, chain, Function.comp_def, chainNote]
  rw [hids]
  exact List.nodup_range.map chainId_injective

theorem chain_note (hi : i < n) : (chain n).note (chainId i) = some (chainNote i) :=
  note_of_mem chain_ids (List.mem_map_of_mem (List.mem_range.mpr hi))

theorem chain_row (hi : i < n) :
    ((chain n).tree "workspace" false).row (chainId i) = some (chainNote i) :=
  (tree_row_some chain_ids).mpr ⟨chain_note hi, rfl⟩

theorem chain_trail (hi : i < n) :
    Trail ((chain n).tree "workspace" false) (chainId i) (chainTrail i) := by
  induction i with
  | zero => exact .root (chain_row hi) rfl
  | succ i ih => exact .child (chain_row hi) rfl (ih (Nat.lt_of_succ_lt hi))

theorem chainTrail_length : (chainTrail i).length = i + 1 := by
  induction i with
  | zero => rfl
  | succ i ih => rw [chainTrail, List.length_cons, ih]

theorem chainTrail_mem {row : Note} (h : row ∈ chainTrail i) : ∃ j ≤ i, row = chainNote j := by
  induction i with
  | zero => exact ⟨0, le_rfl, List.mem_singleton.mp h⟩
  | succ i ih =>
    rcases List.mem_cons.mp h with rfl | h
    · exact ⟨i + 1, le_rfl, rfl⟩
    · obtain ⟨j, hj, rfl⟩ := ih h
      exact ⟨j, Nat.le_succ_of_le hj, rfl⟩

theorem chainTrail_suffix {j : ℕ} (h : j ≤ i) : ∃ l, chainTrail i = l ++ chainTrail j := by
  induction h with
  | refl => exact ⟨[], rfl⟩
  | step _ ih =>
    obtain ⟨l, hl⟩ := ih
    exact ⟨chainNote _ :: l, by rw [chainTrail, hl]; rfl⟩

theorem chainId_valid : ∀ i ≤ 200, validId (chainId i) = true := by decide +kernel

theorem chainNote_owned (hi : i ≤ 200) : Owned "workspace" "project" (chainNote i) :=
  ⟨chainId_valid i hi, (by decide : validId "staff" = true), by decide, rfl, rfl, by
    simp [Node.wellFormed, Node.metadataIsValid, chainNote, newNote, StoredBarrier.wellFormed]⟩

theorem chainNote_reads {u : String} :
    (chainNote i).reads u = true ∧ (chainNote i).edits u = true := by
  simp [Node.reads, Node.edits, chainNote, newNote, StoredBarrier.admitsReader,
    StoredBarrier.admitsEditor]

theorem chainTrail_member : Member (nodes (chainTrail i)) staff = true := by
  have hstaff : (validId staff.id && validId staff.organizationId && staff.isActive &&
      staff.role.isStaff) = true := by decide
  rw [Member, hstaff, Bool.true_and]
  cases i <;> rfl

/-- The staff of the workspace reads and edits the first 200 notes, and no others. -/
theorem chain_readable (hi : i < n) :
    (∃ l, Readable (chain n) staff false (chainId i) l ∧ ∀ row ∈ l, row.edits "staff" = true) ↔
      i < 200 := by
  constructor
  · rintro ⟨l, hl, -⟩
    have hlength := (pathIsValid_iff.mp hl.sound.1).1
    rw [hl.trail.unique (chain_trail hi), nodes, List.length_map, chainTrail_length] at hlength
    exact hlength
  · intro hdepth
    refine ⟨chainTrail i, ⟨chain_trail hi, ?_, ?_, fun row hrow => ?_⟩, fun row hrow => ?_⟩
    · exact chainTrail_member
    · refine (sound_trail_iff (chain_trail hi)).mpr
        ⟨by rw [chainTrail_length]; exact hdepth, "workspace", "project", fun row hrow => ?_⟩
      obtain ⟨j, hj, rfl⟩ := chainTrail_mem hrow
      exact chainNote_owned (hj.trans hdepth.le)
    · obtain ⟨j, -, rfl⟩ := chainTrail_mem hrow
      exact chainNote_reads.1
    · obtain ⟨j, -, rfl⟩ := chainTrail_mem hrow
      exact chainNote_reads.2

theorem chain_rights (hi : i < n) :
    ((chain n).rights staff false (chainId i)).canRead = decide (i < 200) ∧
      ((chain n).rights staff false (chainId i)).canEdit = decide (i < 200) := by
  have hrole : staff.role ≠ .admin := by decide
  have hedit : ((chain n).rights staff false (chainId i)).canEdit = decide (i < 200) := by
    rw [Bool.eq_iff_iff, canEdit_iff chain_ids hrole, decide_eq_true_iff]
    exact chain_readable hi
  refine ⟨?_, hedit⟩
  rw [Bool.eq_iff_iff, canRead_iff chain_ids hrole, decide_eq_true_iff, ← chain_readable hi]
  refine exists_congr fun l => ⟨fun hl => ⟨hl, fun row hrow => ?_⟩, And.left⟩
  rw [hl.trail.unique (chain_trail hi)] at hrow
  obtain ⟨j, -, rfl⟩ := chainTrail_mem hrow
  exact chainNote_reads.2

theorem chain_findNote (hi : i < n) :
    (chain n).findNote (chainId i) "workspace" false = some (chainNote i) := by
  have hfilter := find_note (k := chainId i) (chain_ids (n := n)) fun row =>
    row.organizationId = "workspace" && row.deletedAt.isSome = false
  simp only [← Bool.and_assoc] at hfilter
  rw [chain_note hi] at hfilter
  exact hfilter

theorem chain_authorize (hi : i < n) (hdepth : i < 200) :
    ∃ access, authorizeNote (chain n) (chainId i) staffActor { edit := true } = .ok access := by
  obtain ⟨hread, hedit⟩ := chain_rights hi
  have hstaff : currentWikiStaff (chain n) staffActor = .ok staff := rfl
  refine authorizeNote_total hstaff ?_ (fun _ => ?_) (fun hmanage => ?_) (chain_findNote hi)
  · exact hread.trans (decide_eq_true hdepth)
  · exact hedit.trans (decide_eq_true hdepth)
  · cases hmanage

theorem chain_compose (hi : i < n) (hdepth : i < 200) :
    ∃ audience, composeDocumentAudience
      (nodes (path (chain n) "workspace" [chainId i] false (chainId i))) = .ok audience := by
  obtain ⟨l, hl, -⟩ := (chain_readable hi).mpr hdepth
  have hlength : l.length ≤ 200 := by
    rw [hl.trail.unique (chain_trail hi), chainTrail_length]
    exact hdepth
  have htrail : Trail ((chain n).tree "workspace" false) (chainId i) l := hl.trail
  rw [path_of_trail chain_ids htrail hlength]
  exact compose_total hl.sound

/-- The author may delete the root. -/
theorem chain_delete (hn : 0 < n) (now : Time) :
    ∃ s', deleteNote (chain n) (chainId 0) now staffActor = .ok s' := by
  have hstaff : currentWikiStaff (chain n) staffActor = .ok staff := rfl
  obtain ⟨hread, hedit⟩ := chain_rights hn
  have hmanage : ((chain n).rights staff false (chainId 0)).canManage = true :=
    (canManage_iff chain_ids (by decide)).mpr ⟨hedit, chainNote 0, chain_note hn, rfl⟩
  obtain ⟨access, haccess⟩ := @authorizeNote_total _ (chainId 0) _ { manage := true } _ _ hstaff
    hread (fun _ => hedit) (fun _ => hmanage) (chain_findNote hn)
  have hpath := (authorizeNote_ok chain_ids haccess).path
  obtain ⟨barrier, hbarrier⟩ := chain_compose hn (by decide)
  have hpromotions : ∃ promoted, promotions (chain n) (chainId 0) "workspace" = .ok promoted := by
    refine mapM_total fun row hrow => ?_
    have hids := List.mem_map_of_mem (f := (·.id)) hrow
    obtain ⟨hmem, hchild⟩ := List.mem_filter.mp hrow
    obtain ⟨j, hj, rfl⟩ := List.mem_map.mp hmem
    simp only [Bool.and_eq_true, decide_eq_true_eq] at hchild
    cases j with
    | zero => cases hchild.1
    | succ j =>
      obtain rfl : j = 0 := chainId_injective (Option.some.inj hchild.1)
      change chainId 1 ∈ _ at hids
      obtain ⟨audience, haudience⟩ := chain_compose (List.mem_range.mp hj) (by decide)
      rw [path_eq chain_ids (by simp), ← path_eq chain_ids hids] at haudience
      exact ⟨_, bind_ok.mpr ⟨audience, composed_ok.mpr haudience, rfl⟩⟩
  obtain ⟨promoted, hpromoted⟩ := hpromotions
  simp only [deleteNote, preserveNoteAudience, bind_ok, found_ok, pure_ok]
  exact ⟨_, chainNote 0, chain_findNote hn, barrier,
    ⟨access, haccess, composed_ok.mpr (by rw [hpath]; exact hbarrier)⟩, staff, hstaff, promoted,
    hpromoted, rfl⟩

/-- A new note is accepted under the last one, as long as there are at most 200. -/
theorem chain_create (hn : n ≤ 200) :
    createNote (chain n) (chainId n) "project" (chainParent n) false staffActor =
      .ok (chain (n + 1)) := by
  have hparent : validateParent (chain n) "workspace" (chainParent n) "project" none = .ok () ∧
      authorizeParent (chain n) (chainParent n) staffActor = .ok () := by
    cases n with
    | zero => exact ⟨rfl, rfl⟩
    | succ i =>
      have hi : i < i + 1 := Nat.lt_succ_self i
      constructor
      · simp only [validateParent, chainParent, bind_ok, refuse_ok]
        refine ⟨(), rfl, validateUpwards_of_trail chain_ids (chain_trail hi) ?_ fun row hrow => ?_⟩
        · rw [chainTrail_length]
          exact hn
        · obtain ⟨j, -, rfl⟩ := chainTrail_mem hrow
          exact ⟨rfl, by simp⟩
      · obtain ⟨access, haccess⟩ := chain_authorize hi hn
        simp only [authorizeParent, chainParent, bind_ok, pure_ok]
        exact ⟨access, haccess, trivial⟩
  have hnew : (chain n).notes.any (fun row => decide (row.id = chainId n)) = false := by
    rw [List.any_eq_false]
    intro row hrow
    obtain ⟨i, hi, rfl⟩ := List.mem_map.mp hrow
    have hne : i ≠ n := Nat.ne_of_lt (List.mem_range.mp hi)
    simp only [chainNote, newNote_id]
    exact fun he => hne (chainId_injective (of_decide_eq_true he))
  simp only [createNote, bind_ok, found_ok]
  refine ⟨project, rfl, (), hparent.1, staff, rfl, (), hparent.2, ?_⟩
  simp only [State.insert, bind_ok, refuse_ok, pure_ok]
  refine ⟨(), hnew, ?_⟩
  rw [chain, chain, List.range_succ, List.map_append]
  rfl

end Ashbi.Notes
