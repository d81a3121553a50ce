import Mathlib.Data.List.Sort

/-! Listings of a table in the order of a key, page by page, where each page names the key after
which the next one starts. -/

namespace Keyset

variable {ρ κ ε : Type}

/-- How a database orders the values of a column. -/
structure Collation (κ : Type) where
  lt : κ → κ → Bool
  irrefl : ∀ a, lt a a = false
  trans : ∀ {a b c}, lt a b = true → lt b c = true → lt a c = true
  connected : ∀ {a b}, lt a b = false → lt b a = false → a = b

namespace Collation

variable (c : Collation κ) (key : ρ → κ)

theorem asymm {a b : κ} (h : c.lt a b = true) : c.lt b a = false := by
  cases hba : c.lt b a with
  | false => rfl
  | true =>
    have hself := c.trans h hba
    rw [c.irrefl] at hself
    cases hself

theorem not_lt_trans {a b d : κ} (hab : c.lt b a = false) (hbd : c.lt d b = false) :
    c.lt d a = false := by
  cases hda : c.lt d a with
  | false => rfl
  | true =>
    cases hlt : c.lt a b with
    | true =>
      have hdb := c.trans hda hlt
      rw [hbd] at hdb
      cases hdb
    | false =>
      rw [c.connected hlt hab, hbd] at hda
      cases hda

/-- Keys behind the cursor, if there is one. -/
def after (cursor : Option κ) (k : κ) : Bool := cursor.all fun a => c.lt a k

theorem after_trans {cursor : Option κ} {a b : κ} (ha : c.after cursor a = true)
    (hb : c.lt a b = true) : c.after cursor b = true := by
  cases cursor with
  | none => rfl
  | some k => exact c.trans ha hb

/-- `ORDER BY` the key. -/
def sort (rows : List ρ) : List ρ := rows.mergeSort fun a b => !c.lt (key b) (key a)

/-- The keys increase. -/
def Increasing (rows : List ρ) : Prop := rows.Pairwise fun a b => c.lt (key a) (key b) = true

variable {c key}

theorem sort_perm (rows : List ρ) : (c.sort key rows).Perm rows := List.mergeSort_perm _ _

theorem mem_sort {rows : List ρ} {r : ρ} : r ∈ c.sort key rows ↔ r ∈ rows :=
  (sort_perm rows).mem_iff

theorem sort_increasing {rows : List ρ} (hunique : (rows.map key).Nodup) :
    c.Increasing key (c.sort key rows) := by
  have hle : (c.sort key rows).Pairwise fun a b => (!c.lt (key b) (key a)) = true := by
    refine List.pairwise_mergeSort (fun a b d hab hbd => ?_) (fun a b => ?_) rows
    · simp only [Bool.not_eq_true'] at hab hbd ⊢
      exact c.not_lt_trans hab hbd
    · cases hba : c.lt (key b) (key a) with
      | false => rfl
      | true => simp [c.asymm hba]
  have hne : (c.sort key rows).Pairwise fun a b => key a ≠ key b :=
    List.pairwise_map.mp ((sort_perm rows).map key |>.nodup_iff.mpr hunique)
  refine (hle.and hne).imp fun {a b} h => ?_
  obtain ⟨hba, hkeys⟩ := h
  cases hab : c.lt (key a) (key b) with
  | true => rfl
  | false => exact absurd (c.connected hab (by simpa using hba)) hkeys

namespace Increasing

variable {rows rows' l₁ l₂ : List ρ} {r : ρ}

theorem eq_of_perm (h : c.Increasing key rows) (h' : c.Increasing key rows')
    (hperm : rows.Perm rows') : rows = rows' := by
  refine hperm.eq_of_pairwise (fun a b _ _ hab hba => ?_) h h'
  rw [c.asymm hab] at hba
  cases hba

theorem filter (h : c.Increasing key rows) (p : ρ → Bool) : c.Increasing key (rows.filter p) :=
  List.Pairwise.filter p h

/-- The rows after one of them are those behind it. -/
theorem filter_after (h : c.Increasing key (l₁ ++ r :: l₂)) :
    (l₁ ++ r :: l₂).filter (fun q => c.after (some (key r)) (key q)) = l₂ := by
  obtain ⟨-, hr, hcross⟩ := List.pairwise_append.mp h
  obtain ⟨hbehind, -⟩ := List.pairwise_cons.mp hr
  have hbefore : ∀ q ∈ l₁, c.lt (key r) (key q) = false := fun q hq =>
    c.asymm (hcross q hq r List.mem_cons_self)
  have hnil : l₁.filter (fun q => c.after (some (key r)) (key q)) = [] :=
    List.filter_eq_nil_iff.mpr fun q hq => by simp [after, hbefore q hq]
  have hall : l₂.filter (fun q => c.after (some (key r)) (key q)) = l₂ :=
    List.filter_eq_self.mpr hbehind
  rw [List.filter_append, List.filter_cons_of_neg (by simp [after, c.irrefl]), hnil, hall]
  rfl

/-- What is behind a row that is behind the cursor. -/
theorem filter_after_of_split {cursor : Option κ} (h : c.Increasing key rows)
    (hsplit : rows.filter (fun q => c.after cursor (key q)) = l₁ ++ r :: l₂) :
    rows.filter (fun q => c.after (some (key r)) (key q)) = l₂ := by
  have hinc := h.filter fun q => c.after cursor (key q)
  rw [hsplit] at hinc
  rw [← hinc.filter_after, ← hsplit, List.filter_filter]
  have hr : c.after cursor (key r) = true := by
    have hmem : r ∈ rows.filter fun q => c.after cursor (key q) := by simp [hsplit]
    exact (List.mem_filter.mp hmem).2
  refine List.filter_congr fun q _ => ?_
  cases hq : c.after (some (key r)) (key q) with
  | false => simp
  | true => simpa using c.after_trans hr hq

end Increasing

/-- A selection of the sorted rows is sorted as the selected rows are. -/
theorem sort_filter {rows : List ρ} (hunique : (rows.map key).Nodup) (p : ρ → Bool) :
    c.sort key (rows.filter p) = (c.sort key rows).filter p := by
  have hfiltered : ((rows.filter p).map key).Nodup := hunique.sublist (List.filter_sublist.map _)
  refine (sort_increasing hfiltered).eq_of_perm ((sort_increasing hunique).filter p) ?_
  exact (sort_perm _).trans ((sort_perm rows).filter p).symm

/-- The same order, with one key before all others. -/
def withLeast [DecidableEq κ] (c : Collation κ) (least : κ) : Collation κ where
  lt a b := decide (b ≠ least) && (decide (a = least) || c.lt a b)
  irrefl a := by
    by_cases ha : a = least <;> simp [ha, c.irrefl]
  trans {a b d} hab hbd := by
    simp only [Bool.and_eq_true, Bool.or_eq_true, decide_eq_true_eq] at hab hbd ⊢
    obtain ⟨hb, hab⟩ := hab
    obtain ⟨hd, hbd⟩ := hbd
    exact ⟨hd, hab.imp_right fun hlt => c.trans hlt (hbd.resolve_left hb)⟩
  connected {a b} hab hba := by
    by_cases ha : a = least <;> by_cases hb : b = least
    · rw [ha, hb]
    · simp [ha, hb] at hab
    · simp [ha, hb] at hba
    · simp only [ha, hb, ne_eq, not_false_eq_true, decide_true, decide_false, Bool.false_or,
        Bool.true_and] at hab hba
      exact c.connected hab hba

/-- The collation of a linear order. -/
def ofOrder (κ : Type) [LinearOrder κ] : Collation κ where
  lt a b := decide (a < b)
  irrefl a := by simp
  trans {a b c} hab hbc := by
    simp only [decide_eq_true_eq] at hab hbc ⊢
    exact lt_trans hab hbc
  connected {a b} hab hba := by
    simp only [decide_eq_false_iff_not, not_lt] at hab hba
    exact le_antisymm hba hab

end Collation

/-! ### Following the cursors -/

/-- The pages from a cursor on, up to one that names no next cursor. -/
inductive Follows (answer : Option κ → Except ε (List ρ × Option κ)) :
    Option κ → List (List ρ) → Prop
  | last {cursor : Option κ} {items : List ρ} (h : answer cursor = .ok (items, none)) :
      Follows answer cursor [items]
  | next {cursor : Option κ} {items : List ρ} {k : κ} {rest : List (List ρ)}
      (h : answer cursor = .ok (items, some k)) (hrest : Follows answer (some k) rest) :
      Follows answer cursor (items :: rest)

/-- The page of at most `limit` rows that starts a list, and the key of its last row where more
rows come. -/
def firstPage (key : ρ → κ) (limit : ℕ) (rows : List ρ) : List ρ × Option κ :=
  (rows.take limit, if limit < rows.length then (rows[limit - 1]?).map key else none)

/-- One row more than the limit tells whether more rows come. -/
theorem firstPage_take (key : ρ → κ) (limit : ℕ) (rows : List ρ) :
    firstPage key limit (rows.take (limit + 1)) = firstPage key limit rows := by
  unfold firstPage
  rw [List.take_take, Nat.min_eq_left (Nat.le_succ limit)]
  congr 1
  by_cases hmore : limit < rows.length
  · rw [if_pos (by simp; omega), if_pos hmore, List.getElem?_take_of_lt (by omega)]
  · rw [if_neg (by simp; omega), if_neg hmore]

/-- Where more rows come, the next page starts after the last row of this one. -/
theorem firstPage_pos {key : ρ → κ} {limit : ℕ} (hlimit : 0 < limit) (rows : List ρ) (other : κ) :
    firstPage key limit rows = (rows.take limit,
      if limit < rows.length then some (((rows.take limit).getLast?.map key).getD other)
      else none) := by
  unfold firstPage
  congr 1
  by_cases hmore : limit < rows.length
  · have hlast : rows[limit - 1]? = some rows[limit - 1] := List.getElem?_eq_getElem (by omega)
    rw [if_pos hmore, if_pos hmore, List.getLast?_take, if_neg (by omega), hlast]
    rfl
  · rw [if_neg hmore, if_neg hmore]

/-- A page that starts with a row of its own has room for one row less. -/
theorem firstPage_cons (key : ρ → κ) (n : ℕ) (head : ρ) (rows : List ρ) :
    firstPage key (n + 1) (head :: rows) = (head :: rows.take n,
      if n < rows.length then some (((rows.take n).getLast?.map key).getD (key head))
      else none) := by
  have hlast : (head :: rows.take n).getLast? = some ((rows.take n).getLast?.getD head) := by
    cases rows.take n with
    | nil => rfl
    | cons next rest =>
      rw [List.getLast?_cons_cons, List.getLast?_eq_some_getLast (List.cons_ne_nil _ _)]
      rfl
  have hkey : ((rows.take n).getLast?.map key).getD (key head) =
      key ((rows.take n).getLast?.getD head) := by
    cases (rows.take n).getLast? <;> rfl
  rw [firstPage_pos (Nat.succ_pos n) _ (key head), List.take_succ_cons, List.length_cons, hlast,
    hkey]
  simp

/-- Answers with the rows behind the cursor, a page of them at a time, list every row once. -/
theorem follows_all {answer : Option κ → Except ε (List ρ × Option κ)} {c : Collation κ}
    {key : ρ → κ} {rows : List ρ} {limit : ℕ} (hrows : c.Increasing key rows) (hlimit : 0 < limit)
    (hanswer : ∀ cursor, (∀ k, cursor = some k → k ∈ rows.map key) →
      answer cursor = .ok (firstPage key limit (rows.filter fun r => c.after cursor (key r))))
    (cursor : Option κ) (hcursor : ∀ k, cursor = some k → k ∈ rows.map key) :
    ∃ pages, Follows answer cursor pages ∧
      pages.flatten = rows.filter (fun r => c.after cursor (key r)) ∧
      ∀ page ∈ pages, page.length ≤ limit := by
  generalize hlen : (rows.filter fun r => c.after cursor (key r)).length = len
  induction len using Nat.strong_induction_on generalizing cursor with
  | _ len ih =>
  have hpage := hanswer cursor hcursor
  by_cases hmore : limit < (rows.filter fun r => c.after cursor (key r)).length
  · have hlt : limit - 1 < (rows.filter fun r => c.after cursor (key r)).length := by omega
    obtain ⟨l₁, r, l₂, hsplit, hbefore⟩ : ∃ l₁ r l₂,
        rows.filter (fun r => c.after cursor (key r)) = l₁ ++ r :: l₂ ∧ l₁.length = limit - 1 :=
      ⟨_, _, _, (List.take_append_drop (limit - 1) _).symm.trans
        (by rw [List.drop_eq_getElem_cons hlt]), by simp; omega⟩
    have hrest := hrows.filter_after_of_split hsplit
    have hmem : r ∈ rows := List.mem_of_mem_filter (p := fun r => c.after cursor (key r))
      (by simp [hsplit])
    rw [firstPage, if_pos hmore, hsplit] at hpage
    have htake : (l₁ ++ r :: l₂).take limit = l₁ ++ [r] := by
      rw [List.take_append, List.take_of_length_le (by omega),
        show limit - l₁.length = 1 by omega]
      rfl
    have hlast : (l₁ ++ r :: l₂)[limit - 1]? = some r := by
      rw [← hbefore, List.getElem?_append_right (Nat.le_refl _), Nat.sub_self]
      rfl
    rw [htake, hlast] at hpage
    have hshort : l₂.length < len := by
      rw [← hlen, hsplit]
      simp
      omega
    obtain ⟨pages, hfollows, hflatten, hpages⟩ := ih l₂.length hshort (some (key r))
      (fun k hk => by
        obtain rfl := Option.some.inj hk
        exact List.mem_map_of_mem hmem) (by rw [hrest])
    refine ⟨(l₁ ++ [r]) :: pages, .next hpage hfollows, ?_, ?_⟩
    · rw [List.flatten_cons, hflatten, hrest, hsplit]
      simp
    · intro page hin
      rcases List.mem_cons.mp hin with rfl | hin
      · rw [List.length_append, List.length_singleton]
        omega
      · exact hpages page hin
  · rw [firstPage, if_neg hmore, List.take_of_length_le (Nat.le_of_not_lt hmore)] at hpage
    refine ⟨[_], .last hpage, by simp, ?_⟩
    intro page hin
    obtain rfl := List.mem_singleton.mp hin
    exact Nat.le_of_not_lt hmore

end Keyset
