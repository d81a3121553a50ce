import Ashbi.Audit.Ip

/-! The network prefix of an address, and the texts that `truncateIp` keeps it of. -/

namespace Ashbi.Audit

open Numerals

variable {text part head tail zone : List Char} {parts : List (List Char)} {c : Char}

/-! ### Groups -/

theorem group_numeral (h : isGroup part = true) :
    stripZeros (part.map Char.toLower) = numeral 16 (value 16 part) :=
  stripZeros_toLower (by decide) (isGroup_digits h).1 (isGroup_digits h).2

theorem groupsOf_group (h : isGroup part = true) : groupsOf part = [value 16 part] := by
  rw [groupsOf, isGroup_not_isIPv4 h]
  rfl

theorem flatMap_groupsOf (h : ∀ part ∈ parts, isGroup part = true) :
    parts.flatMap groupsOf = parts.map (value 16) := by
  rw [List.map_eq_flatMap]
  exact List.flatMap_congr fun part hpart => groupsOf_group (h part hpart)

/-- The parts that are groups are written as the numerals of their groups. -/
theorem map_numeral (h : ∀ part ∈ parts, isGroup part = true) :
    parts.map (fun part => stripZeros (part.map Char.toLower)) =
      (parts.map (value 16)).map (numeral 16) := by
  rw [List.map_map]
  exact List.map_congr_left fun part hpart => group_numeral (h part hpart)

/-- The text of an IPv4 address is four numbers and two groups. -/
theorem isIPv4_values (h : isIPv4 text = true) : ∃ a b c d,
    (text.splitOn '.').map (value 10) = [a, b, c, d] ∧ (a ≤ 255 ∧ b ≤ 255 ∧ c ≤ 255) ∧ d ≤ 255 ∧
      groupsOf text = [a * 256 + b, c * 256 + d] ∧
      joined '.' ((text.splitOn '.').take 3 ++ ["0/24".toList]) = (Prefix.v4 a b c).chars := by
  obtain ⟨a, b, c, d, hsplit, hoctets⟩ := isIPv4_octets h
  have hle : ∀ part ∈ [a, b, c, d], value 10 part ≤ 255 :=
    fun part hpart => (isOctet_digits (hoctets part hpart)).2.2.2
  have hnumeral : ∀ part ∈ [a, b, c, d], numeral 10 (value 10 part) = part :=
    fun part hpart => octet_numeral (hoctets part hpart)
  simp only [List.mem_cons, List.not_mem_nil, or_false, forall_eq_or_imp, forall_eq] at hle hnumeral
  refine ⟨value 10 a, value 10 b, value 10 c, value 10 d, ?_, ?_, hle.2.2.2, ?_, ?_⟩
  · rw [hsplit]
    rfl
  · exact ⟨hle.1, hle.2.1, hle.2.2.1⟩
  · rw [groupsOf, h, hsplit]
    rfl
  · rw [hsplit, Prefix.chars]
    simp only [List.map_cons, List.map_nil, hnumeral]
    rfl

/-! ### The first three groups -/

/-- An element in front of a list leaves its start as it is where the start is of that element. -/
theorem take_cons_eq {x : ℕ} {k : ℕ} {xs : List ℕ} (h : k ≤ xs.length) :
    (x :: xs).take k = xs.take k ↔ ∀ y ∈ xs.take k, y = x := by
  induction k generalizing x xs with
  | zero => simp
  | succ k ih =>
    cases xs with
    | nil => simp at h
    | cons y ys =>
      have hle : k ≤ ys.length := by simpa using h
      rw [List.take_succ_cons, List.take_succ_cons, List.cons.injEq, List.forall_mem_cons]
      constructor
      · rintro ⟨rfl, heq⟩
        exact ⟨rfl, (ih hle).mp heq⟩
      · rintro ⟨rfl, hall⟩
        exact ⟨rfl, (ih hle).mpr hall⟩

/-- A zero between two parts of a list leaves its first elements as they are where those after it
are zeros. -/
theorem take_insert_zero {front rest more : List ℕ} {k : ℕ} (h : k ≤ front.length + rest.length) :
    (front ++ 0 :: rest).take k = (front ++ rest ++ more).take k ↔
      ∀ group ∈ ((front ++ rest ++ more).take k).drop front.length, group = 0 := by
  have hle : k - front.length ≤ rest.length := by omega
  have hdrop : ((front ++ rest ++ more).take k).drop front.length =
      rest.take (k - front.length) := by
    rw [List.drop_take, List.append_assoc, List.drop_left, List.take_append_of_le_length hle]
  have htake : (front ++ rest ++ more).take k = front.take k ++ rest.take (k - front.length) := by
    rw [List.take_append_of_le_length (by simpa using h), List.take_append]
  rw [hdrop, htake, List.take_append, List.append_right_inj]
  exact take_cons_eq hle

/-- What the condition of `Faithful` says of a text without its zone. -/
def Aligned (text : List Char) : Prop := ∀ head tail, gapOf text = some (head, tail) →
  (colonParts tail).any isIPv4 = true →
    ∀ group ∈ ((writtenGroups text).take 3).drop (8 - width (colonParts tail)), group = 0

theorem expandIpv6_none (h : gapOf text = none) : expandIpv6 text =
    (colonParts text).map fun part => stripZeros (part.map Char.toLower) := by
  rw [expandIpv6, h]

theorem expandIpv6_some (h : gapOf text = some (head, tail))
    (htail : areGroups (colonParts tail) = true) :
    expandIpv6 text = (colonParts head ++
      List.replicate (8 - (colonParts head).length - (colonParts tail).length) ['0'] ++
        colonParts tail).map fun part => stripZeros (part.map Char.toLower) := by
  have hnone : gapOf tail = none :=
    gapOf_none fun part hpart => (areGroups_parts htail part hpart).ne_nil
  rw [expandIpv6, h]
  simp only [hnone, Option.map_none, Option.getD_none]

theorem map_replicate_zero (n : ℕ) :
    (List.replicate n ['0']).map (fun part => stripZeros (part.map Char.toLower)) =
      (List.replicate n 0).map (numeral 16) := by
  rw [List.map_replicate, List.map_replicate]
  rfl

/-- What `isIPv6` checks of a text without a pair of colons. -/
theorem isIPv6_none (h : isIPv6 text = true) (hgap : gapOf (zoneless text) = none) :
    areGroups (colonParts (zoneless text)) = true ∧ width (colonParts (zoneless text)) = 8 := by
  rw [isIPv6, hgap] at h
  simp only [Bool.and_eq_true, decide_eq_true_eq] at h
  exact h.2

theorem isIPv6_some (h : isIPv6 text = true) (hgap : gapOf (zoneless text) = some (head, tail)) :
    (∀ part ∈ colonParts head, isGroup part = true) ∧ areGroups (colonParts tail) = true ∧
      (colonParts head).length + width (colonParts tail) ≤ 7 := by
  rw [isIPv6, hgap] at h
  simp only [Bool.and_eq_true, decide_eq_true_eq, List.all_eq_true] at h
  obtain ⟨-, ⟨hhead, htail⟩, hwidth⟩ := h
  rw [width_groups hhead] at hwidth
  exact ⟨hhead, htail, hwidth⟩

theorem width_dotted {groups : List (List Char)} {last : List Char}
    (hgroups : ∀ part ∈ groups, isGroup part = true) (hlast : isIPv4 last = true) :
    width (groups ++ [last]) = groups.length + 2 := by
  rw [width_append, width_groups hgroups, width, List.map_singleton, hlast]
  rfl

theorem not_any_isIPv4 (h : ∀ part ∈ parts, isGroup part = true) :
    parts.any isIPv4 = false := by
  rw [List.any_eq_false]
  intro part hpart
  rw [isGroup_not_isIPv4 (h part hpart)]
  exact Bool.false_ne_true

/-- The first three parts of an IPv6 address without a pair of colons are its first three groups:
only the last two groups can stand for an IPv4 address. -/
theorem expandIpv6_plain (h : isIPv6 text = true) (hgap : gapOf (zoneless text) = none) :
    (expandIpv6 (zoneless text)).take 3 =
      ((writtenGroups (zoneless text)).take 3).map (numeral 16) := by
  obtain ⟨hareGroups, hwidth⟩ := isIPv6_none h hgap
  rw [expandIpv6_none hgap, writtenGroups, hgap]
  rcases areGroups_cases hareGroups with hall | ⟨groups, last, heq, hgroups, hlast⟩
  · simp only [map_numeral hall, flatMap_groupsOf hall, List.map_take]
  · rw [heq, width_dotted hgroups hlast] at hwidth
    have hlength : groups.length = 6 := by omega
    rw [heq]
    simp only [List.map_append, List.flatMap_append, map_numeral hgroups, flatMap_groupsOf hgroups]
    rw [List.take_append_of_le_length (by simp [hlength]),
      List.take_append_of_le_length (by simp [hlength]), List.map_take]

/-- With a pair of colons and groups only, the parts are the groups. -/
theorem expandIpv6_groups (h : isIPv6 text = true)
    (hgap : gapOf (zoneless text) = some (head, tail))
    (htail : ∀ part ∈ colonParts tail, isGroup part = true) :
    expandIpv6 (zoneless text) = (writtenGroups (zoneless text)).map (numeral 16) := by
  obtain ⟨hhead, hareGroups, -⟩ := isIPv6_some h hgap
  rw [expandIpv6_some hgap hareGroups, writtenGroups, hgap]
  simp only [List.map_append, map_numeral hhead, map_numeral htail, map_replicate_zero,
    flatMap_groupsOf hhead, flatMap_groupsOf htail, width_groups hhead, width_groups htail]

/-- With an IPv4 tail the parts have a zero too many between the colons: the first three are those
of the groups where the zero changes nothing. -/
theorem expandIpv6_dotted {groups : List (List Char)} {last : List Char}
    (h : isIPv6 text = true) (hgap : gapOf (zoneless text) = some (head, tail))
    (htail : colonParts tail = groups ++ [last]) (hgroups : ∀ part ∈ groups, isGroup part = true)
    (hlast : isIPv4 last = true) :
    ∃ numbers : List ℕ, numbers.length = 3 ∧
      (expandIpv6 (zoneless text)).take 3 = numbers.map (numeral 16) ∧
        (numbers = (writtenGroups (zoneless text)).take 3 ↔
          ∀ group ∈ ((writtenGroups (zoneless text)).take 3).drop (8 - width (colonParts tail)),
            group = 0) := by
  obtain ⟨hhead, hareGroups, hwidth⟩ := isIPv6_some h hgap
  obtain ⟨a, b, c, d, -, -, -, hvalues, -⟩ := isIPv4_values hlast
  rw [expandIpv6_some hgap hareGroups, writtenGroups, hgap]
  simp only [htail, width_dotted hgroups hlast, width_groups hhead] at hwidth ⊢
  simp only [List.map_append, map_numeral hhead, map_numeral hgroups, map_replicate_zero,
    List.flatMap_append, flatMap_groupsOf hhead, flatMap_groupsOf hgroups, List.length_append,
    List.length_singleton, List.flatMap_singleton, hvalues]
  -- the gap by its own count of parts is one longer than the groups it stands for
  obtain ⟨gap, hgaplength⟩ : ∃ gap, gap = 8 - (colonParts head).length - (groups.length + 2) :=
    ⟨_, rfl⟩
  have hgap' : 8 - (colonParts head).length - (groups.length + 1) = gap + 1 := by omega
  rw [hgap', ← hgaplength]
  set front := (colonParts head).map (value 16) ++ List.replicate gap 0 with hfront
  set rest := groups.map (value 16) with hrest
  have hfrontlength : front.length = 8 - (groups.length + 2) := by
    simp only [hfront, List.length_append, List.length_map, List.length_replicate]
    omega
  have hrestlength : rest.length = groups.length := List.length_map _
  have hle : 3 ≤ front.length + rest.length := by omega
  refine ⟨(front ++ 0 :: rest).take 3, ?_, ?_, ?_⟩
  · simp only [List.length_take, List.length_append, List.length_cons]
    omega
  · have hparts : List.map (numeral 16) ((colonParts head).map (value 16)) ++
        List.map (numeral 16) (List.replicate (gap + 1) 0) ++ List.map (numeral 16) rest =
          (front ++ 0 :: rest).map (numeral 16) := by
      simp [hfront, List.replicate_succ', List.append_assoc]
    rw [← List.append_assoc, hparts, List.map_take, List.take_append_of_le_length]
    simp only [List.length_map, List.length_append, List.length_cons]
    omega
  · rw [← hfrontlength, ← List.append_assoc]
    exact take_insert_zero hle

theorem length_writtenGroups (h : isIPv6 text = true) :
    (writtenGroups (zoneless text)).length = 8 := by
  have hwidth : ∀ {parts : List (List Char)}, (∀ part ∈ parts, IsPart part) →
      (parts.flatMap groupsOf).length = width parts := by
    intro parts hparts
    rw [List.length_flatMap, width]
    congr 1
    apply List.map_congr_left
    intro part hpart
    rcases hparts part hpart with hgroup | hv4
    · rw [groupsOf_group hgroup, isGroup_not_isIPv4 hgroup]
      rfl
    · obtain ⟨a, b, c, d, -, -, -, hvalues, -⟩ := isIPv4_values hv4
      rw [hvalues, hv4]
      rfl
  rw [writtenGroups]
  cases hgap : gapOf (zoneless text) with
  | none =>
    obtain ⟨hareGroups, h8⟩ := isIPv6_none h hgap
    simpa only [hwidth (areGroups_parts hareGroups)] using h8
  | some gap =>
    obtain ⟨head, tail⟩ := gap
    obtain ⟨hhead, hareGroups, h7⟩ := isIPv6_some h hgap
    simp only [List.length_append, List.length_replicate, hwidth (areGroups_parts hareGroups),
      hwidth fun part hpart => .inl (hhead part hpart), width_groups hhead]
    omega

/-- The first three parts are numerals, and those of the groups where the text is aligned. -/
theorem expandIpv6_spec (h : isIPv6 text = true) : ∃ a b c : ℕ,
    (expandIpv6 (zoneless text)).take 3 = [a, b, c].map (numeral 16) ∧
      ([a, b, c] = (writtenGroups (zoneless text)).take 3 ↔ Aligned (zoneless text)) := by
  suffices hspec : ∃ numbers : List ℕ, numbers.length = 3 ∧
      (expandIpv6 (zoneless text)).take 3 = numbers.map (numeral 16) ∧
        (numbers = (writtenGroups (zoneless text)).take 3 ↔ Aligned (zoneless text)) by
    obtain ⟨numbers, hlength, hspec⟩ := hspec
    match numbers, hlength with
    | [a, b, c], _ => exact ⟨a, b, c, hspec⟩
  have hlength : ((writtenGroups (zoneless text)).take 3).length = 3 := by
    rw [List.length_take, length_writtenGroups h]
    rfl
  match hgap : gapOf (zoneless text) with
  | none =>
    refine ⟨_, hlength, expandIpv6_plain h hgap, iff_of_true rfl ?_⟩
    intro head tail hsome
    rw [hgap] at hsome
    cases hsome
  | some (head, tail) =>
    have haligned : Aligned (zoneless text) ↔ ((colonParts tail).any isIPv4 = true →
        ∀ group ∈ ((writtenGroups (zoneless text)).take 3).drop (8 - width (colonParts tail)),
          group = 0) := by
      constructor
      · exact fun hall => hall head tail hgap
      · intro hall head' tail' hsome
        rw [hgap] at hsome
        obtain ⟨rfl, rfl⟩ := Prod.mk.inj (Option.some.inj hsome)
        exact hall
    rcases areGroups_cases (isIPv6_some h hgap).2.1 with hgroups | ⟨groups, last, heq, hrest⟩
    · refine ⟨_, hlength, ?_, iff_of_true rfl ?_⟩
      · rw [expandIpv6_groups h hgap hgroups, List.map_take]
      · rw [haligned, not_any_isIPv4 hgroups]
        exact fun hfalse => absurd hfalse Bool.false_ne_true
    · obtain ⟨numbers, hthree, htake, hiff⟩ := expandIpv6_dotted h hgap heq hrest.1 hrest.2
      refine ⟨numbers, hthree, htake, hiff.trans ?_⟩
      have hany : (colonParts tail).any isIPv4 = true := by
        rw [heq, List.any_append, List.any_cons, hrest.2]
        simp
      rw [haligned]
      exact ⟨fun hall _ => hall, fun hall => hall hany⟩

/-! ### Characters of addresses -/

theorem trim_eq {s : String} (h : ∀ c ∈ s.toList, Js.isSpace c = false) : Js.trim s = s := by
  have hself : ∀ cs : List Char, (∀ c ∈ cs, Js.isSpace c = false) →
    cs.dropWhile Js.isSpace = cs := by
    intro cs hcs
    cases cs with
    | nil => rfl
    | cons c cs =>
      apply List.dropWhile_cons_of_neg
      rw [hcs c List.mem_cons_self]
      exact Bool.false_ne_true
  rw [Js.trim, hself _ h, hself _ fun c hc => h c (List.mem_reverse.mp hc), List.reverse_reverse,
    String.ofList_toList]

/-- The characters of IPv4 addresses and of IPv6 addresses without a zone. -/
def plainCharacters : List Char := digits ++ ['.', ':']

theorem IsPart.plain (h : IsPart part) (hc : c ∈ part) : c ∈ plainCharacters := by
  rcases h.mem hc with hdigit | rfl
  · exact List.mem_append_left _ hdigit
  · decide

theorem colonParts_plain (h : ∀ part ∈ colonParts text, IsPart part) (hc : c ∈ text) :
    c ∈ plainCharacters := by
  rcases colonParts_mem hc with rfl | ⟨part, hpart, hmem⟩
  · decide
  · exact (h part hpart).plain hmem

theorem isIPv4_plain (h : isIPv4 text = true) (hc : c ∈ text) : c ∈ plainCharacters :=
  IsPart.plain (.inr h) hc

theorem isIPv6_plain (h : isIPv6 text = true) (hc : c ∈ zoneless text) : c ∈ plainCharacters := by
  match hgap : gapOf (zoneless text) with
  | none => exact colonParts_plain (areGroups_parts (isIPv6_none h hgap).1) hc
  | some (head, tail) =>
    obtain ⟨hhead, hareGroups, -⟩ := isIPv6_some h hgap
    rw [gapOf_eq hgap, List.mem_append, List.mem_cons, List.mem_cons] at hc
    rcases hc with hc | rfl | rfl | hc
    · exact colonParts_plain (fun part hpart => .inl (hhead part hpart)) hc
    · decide
    · decide
    · exact colonParts_plain (areGroups_parts hareGroups) hc

/-- Only a zone has other characters. -/
theorem isIPv6_characters (h : isIPv6 text = true) (hc : c ∈ text) :
    c ∈ plainCharacters ∨ c = '%' ∨ c ∈ zoneCharacters := by
  have hzone : properZone text = true := by
    rw [isIPv6, Bool.and_eq_true] at h
    exact h.1
  rw [← List.takeWhile_append_dropWhile (p := (· ≠ '%')) (l := text), List.mem_append] at hc
  rcases hc with hc | hc
  · exact .inl (isIPv6_plain h hc)
  · rw [properZone] at hzone
    match hdrop : text.dropWhile (· ≠ '%') with
    | [] =>
      rw [hdrop] at hc
      cases hc
    | first :: zone =>
      have hfirst : first = '%' := by
        have hnot := List.head?_dropWhile_not (· ≠ '%') text
        rw [hdrop] at hnot
        simpa using hnot
      rw [hdrop] at hzone hc
      simp only [isZone, Bool.and_eq_true, List.all_eq_true, List.contains_iff_mem] at hzone
      rcases List.mem_cons.mp hc with rfl | hmem
      · exact .inr (.inl hfirst)
      · exact .inr (.inr (hzone.2 c hmem))

theorem addressOf_trim {text : String} {address : Address} (h : addressOf text = some address) :
    Js.trim text = text := by
  have hspaces : ∀ c ∈ plainCharacters ++ '%' :: zoneCharacters, Js.isSpace c = false :=
    List.forall_iff_forall_mem.mp (by decide)
  apply trim_eq
  intro c hc
  apply hspaces
  rw [addressOf] at h
  split at h
  · rename_i hv4
    exact List.mem_append_left _ (isIPv4_plain hv4 hc)
  · split at h
    · rename_i hv6
      rcases isIPv6_characters hv6 hc with hplain | rfl | hzone
      · exact List.mem_append_left _ hplain
      · exact List.mem_append_right _ List.mem_cons_self
      · exact List.mem_append_right _ (List.mem_cons_of_mem _ hzone)
    · cases h

/-! ### Mapped addresses -/

/-- Only a letter is changed in lower case. -/
theorem toLower_toNat (hne : c.toLower ≠ c) : c.toLower.toNat = c.toNat + 32 ∧ 65 ≤ c.toNat := by
  unfold Char.toLower at hne ⊢
  split at hne
  · rename_i hupper
    rw [dif_pos hupper]
    simp only [UInt32.le_iff_toNat_le, ge_iff_le] at hupper
    have hle : c.toNat ≤ 90 := hupper.2
    refine ⟨?_, hupper.1⟩
    rw [← Char.toNat_val, UInt32.toNat_add, Char.toNat_val]
    simp
    omega
  · exact absurd rfl hne

theorem toLower_colon (h : c.toLower = ':') : c = ':' := by
  by_contra hne
  obtain ⟨hnat, hle⟩ := toLower_toNat fun heq => hne (heq.symm.trans h)
  rw [h] at hnat
  have hcolon : ':'.toNat = 58 := rfl
  omega

theorem toLower_f (h : c.toLower = 'f') : c ∈ digits := by
  by_cases heq : c.toLower = c
  · rw [← heq, h]
    decide
  · have hnat := (toLower_toNat heq).1
    rw [h] at hnat
    have hf : 'f'.toNat = 'F'.toNat + 32 := rfl
    have hF : c = 'F' := Char.toNat_inj.mp (by omega)
    rw [hF]
    decide

/-- What the pattern of a mapped address matches. -/
theorem mappedTail_chars (h : mappedTail text = some tail) : ∃ letters : List Char,
    letters.map Char.toLower = "ffff".toList ∧ text = ':' :: ':' :: (letters ++ ':' :: tail) ∧
      (tail.splitOn '.').length = 4 ∧ ∀ c ∈ tail, c = '.' ∨ c ∈ digits := by
  rw [mappedTail] at h
  split at h
  · rename_i hmatch
    obtain ⟨htake, hfour, hall⟩ := hmatch
    obtain rfl := Option.some.inj h
    rw [← List.take_append_drop 7 text]
    have hseven : (text.take 7).length = 7 := by
      simpa using congrArg List.length htake
    match text.take 7, hseven, htake with
    | [a, b, e, f, g, i, j], _, htake =>
      simp only [List.map_cons, List.map_nil] at htake
      obtain ⟨ha, hb, he, hf, hg, hi, hj⟩ :
          a.toLower = ':' ∧ b.toLower = ':' ∧ e.toLower = 'f' ∧ f.toLower = 'f' ∧
            g.toLower = 'f' ∧ i.toLower = 'f' ∧ j.toLower = ':' := by
        simpa using htake
      refine ⟨[e, f, g, i], ?_, ?_, hfour, ?_⟩
      · simp [he, hf, hg, hi]
      · simp [toLower_colon ha, toLower_colon hb, toLower_colon hj]
      · intro c hc
        rcases mem_splitOn '.' hc with rfl | ⟨part, hpart, hmem⟩
        · exact .inl rfl
        · have hpart' := List.all_eq_true.mp hall part hpart
          simp only [Bool.and_eq_true, List.all_eq_true] at hpart'
          exact .inr (mem_digits (hpart'.2 c hmem)).1
  · cases h

/-- An address that matches the pattern has an IPv4 tail after five zeros and `ffff`. -/
theorem mappedTail_groups (h6 : isIPv6 text = true) (h : mappedTail text = some tail) :
    isIPv4 tail = true ∧
      writtenGroups (zoneless text) = [0, 0, 0, 0, 0, 65535] ++ groupsOf tail := by
  obtain ⟨letters, hlower, htext, hfour, htail⟩ := mappedTail_chars h
  have hletters : ∀ c ∈ letters, c ∈ digits := by
    intro c hc
    have hf : c.toLower ∈ "ffff".toList := hlower ▸ List.mem_map_of_mem hc
    exact toLower_f (by simpa using hf)
  have hcolon : ':' ∉ letters ∧ ':' ∉ tail := by
    have hnot : ':' ∉ digits ∧ ':' ≠ '.' := by decide
    exact ⟨fun hc => hnot.1 (hletters _ hc), fun hc => (htail _ hc).elim hnot.2 hnot.1⟩
  have hdot : '.' ∈ tail := by
    by_contra hdot
    rw [List.splitOn_eq_singleton hdot] at hfour
    cases hfour
  have hzoneless : zoneless text = text := by
    have hpercent : '%' ∉ digits ∧ '%' ≠ ':' ∧ '%' ≠ '.' := by decide
    rw [zoneless, List.takeWhile_eq_self_iff]
    intro c hc
    rw [decide_eq_true_eq]
    rintro rfl
    simp only [htext, List.mem_cons, List.mem_append] at hc
    rcases hc with hc | hc | hc | hc | hc
    · exact hpercent.2.1 hc
    · exact hpercent.2.1 hc
    · exact hpercent.1 (hletters _ hc)
    · exact hpercent.2.1 hc
    · exact (htail _ hc).elim hpercent.2.2 hpercent.1
  have hgap : gapOf (zoneless text) = some ([], letters ++ ':' :: tail) := by
    rw [hzoneless, htext]
    simp [gapOf]
  have hparts : colonParts (letters ++ ':' :: tail) = [letters, tail] := by
    rw [colonParts, if_neg (by simp), List.splitOn_append_cons_self,
      List.splitOn_eq_singleton hcolon.1, List.splitOn_eq_singleton hcolon.2]
    rfl
  have hareGroups := (isIPv6_some h6 hgap).2.1
  rw [hparts] at hareGroups
  have hcases : isGroup letters = true ∧ (isGroup tail = true ∨ isIPv4 tail = true) := by
    simpa [areGroups] using hareGroups
  have hv4 : isIPv4 tail = true := by
    rcases hcases.2 with hgroup | hv4
    · have hall : '.' ∉ digits := by decide
      exact absurd ((isGroup_digits hgroup).1 _ hdot).1 hall
    · exact hv4
  have hvalue : value 16 letters = 65535 := by
    rw [← value_toLower hletters, hlower]
    decide
  have hwidth : width ([letters] ++ [tail]) = 3 := width_dotted (by simpa using hcases.1) hv4
  rw [List.singleton_append] at hwidth
  refine ⟨hv4, ?_⟩
  rw [writtenGroups, hgap]
  simp only [hparts, hwidth]
  simp [colonParts, width, groupsOf_group hcases.1, hvalue, List.replicate]

/-! ### Prefixes -/

section Written

variable {b : ℕ} {sep : Char} {numbers numbers' : List ℕ} {ends : List (List Char)}

theorem written_parts (hb : 1 < b) (hle : b ≤ 16) (hsep : sep ∉ digits)
    (hends : ∀ part ∈ ends, sep ∉ part) :
    ∀ part ∈ numbers.map (numeral b) ++ ends, sep ∉ part := by
  intro part hpart
  rcases List.mem_append.mp hpart with hpart | hpart
  · obtain ⟨n, -, rfl⟩ := List.mem_map.mp hpart
    exact fun hmem => hsep (numeral_digits hb hle hmem)
  · exact hends part hpart

/-- The numbers can be read back from their numerals between separators. -/
theorem written_inj (hb : 1 < b) (hle : b ≤ 16) (hsep : sep ∉ digits)
    (hends : ∀ part ∈ ends, sep ∉ part) (hne : ends ≠ [])
    (h : joined sep (numbers.map (numeral b) ++ ends) =
      joined sep (numbers'.map (numeral b) ++ ends)) : numbers = numbers' := by
  have hparts := (joined_inj (written_parts hb hle hsep hends) (written_parts hb hle hsep hends)
    (List.append_ne_nil_of_right_ne_nil _ hne) (List.append_ne_nil_of_right_ne_nil _ hne)).mp h
  exact List.map_injective_iff.mpr (fun _ _ => numeral_injective hb hle)
    (List.append_cancel_right hparts)

end Written

theorem colon_mem_v6 (a b c : ℕ) : ':' ∈ (Prefix.v6 a b c).chars := by
  simp [Prefix.chars, joined, List.intercalate]

theorem colon_not_mem_v4 (a b c : ℕ) : ':' ∉ (Prefix.v4 a b c).chars := by
  intro hmem
  rcases mem_joined hmem with heq | ⟨part, hpart, hmem⟩
  · exact absurd heq (by decide)
  · exact written_parts (by decide) (by decide) (by decide) (by decide) part hpart hmem

/-- Different prefixes are written differently. -/
theorem Prefix.chars_injective {p q : Prefix} (h : p.chars = q.chars) : p = q := by
  cases p with
  | v4 a b c =>
    cases q with
    | v4 a' b' c' =>
      have heq := written_inj (by decide) (by decide) (by decide) (by decide) (by decide) h
      simpa using heq
    | v6 a' b' c' =>
      have hmem := colon_mem_v6 a' b' c'
      rw [← h] at hmem
      exact absurd hmem (colon_not_mem_v4 a b c)
  | v6 a b c =>
    cases q with
    | v4 a' b' c' =>
      have hmem := colon_mem_v6 a b c
      rw [h] at hmem
      exact absurd hmem (colon_not_mem_v4 a' b' c')
    | v6 a' b' c' =>
      have heq := written_inj (by decide) (by decide) (by decide) (by decide) (by decide) h
      simpa using heq

/-! ### Truncation -/

/-- The pattern of a mapped address matches no IPv4 address. -/
theorem mappedTail_isIPv4 (h : isIPv4 text = true) : mappedTail text = none := by
  by_contra hsome
  obtain ⟨tail, hmatch⟩ := Option.ne_none_iff_exists'.mp hsome
  obtain ⟨letters, -, htext, -⟩ := mappedTail_chars hmatch
  have hmem : ':' ∈ text := by
    rw [htext]
    exact List.mem_cons_self
  have hall : ':' ∉ digits ∧ ':' ≠ '.' := by decide
  exact (isIPv4_mem h hmem).elim hall.1 hall.2

/-- The two octets of a group. -/
theorem octets_of_group (a : ℕ) {b : ℕ} (hb : b ≤ 255) :
    (a * 256 + b) / 256 = a ∧ (a * 256 + b) % 256 = b := by
  omega

variable {address : Address} {string : String}

theorem truncateIp_of_v4 (htrim : Js.trim string = string)
    (hmapped : (mappedTail string.toList).getD string.toList = text) (h : isIPv4 text = true) :
    truncateIp string =
      some (String.ofList (joined '.' ((text.splitOn '.').take 3 ++ ["0/24".toList]))) := by
  rw [truncateIp, htrim]
  simp only [hmapped, isIP, h, if_pos]

/-- An address is truncated to a prefix, which is its own where the text is faithful. -/
theorem truncateIp_spec (h : addressOf string = some address) : ∃ p : Prefix,
    truncateIp string = some (String.ofList p.chars) ∧
      (p = prefixOf address ↔ Faithful string.toList) := by
  have htrim := addressOf_trim h
  rw [addressOf] at h
  by_cases h4 : isIPv4 string.toList = true
  · obtain ⟨a, b, c, d, hvalues, -, -, -, hjoined⟩ := isIPv4_values h4
    rw [if_pos h4, hvalues] at h
    obtain rfl := Option.some.inj h
    refine ⟨.v4 a b c, ?_, iff_of_true rfl (.inl h4)⟩
    rw [truncateIp_of_v4 htrim (by rw [mappedTail_isIPv4 h4]; rfl) h4, hjoined]
  · rw [if_neg h4] at h
    by_cases h6 : isIPv6 string.toList = true
    · rw [if_pos h6] at h
      obtain rfl := Option.some.inj h
      match hmapped : mappedTail string.toList with
      | some tail =>
        obtain ⟨htail, hgroups⟩ := mappedTail_groups h6 hmapped
        obtain ⟨a, b, c, d, -, hle, hd, hvalues, hjoined⟩ := isIPv4_values htail
        refine ⟨.v4 a b c, ?_, iff_of_true ?_ (.inr (.inl (by rw [hmapped]; rfl)))⟩
        · rw [truncateIp_of_v4 htrim (by rw [hmapped]; rfl) htail, hjoined]
        · have hmap : IsMapped ([0, 0, 0, 0, 0, 65535] ++ [a * 256 + b, c * 256 + d]) := by
            simp [IsMapped]
          rw [prefixOf, hgroups, hvalues, if_pos hmap]
          obtain ⟨hdiv, hmod⟩ := octets_of_group a hle.2.1
          have hlast := (octets_of_group c hd).1
          change Prefix.v4 a b c =
            Prefix.v4 ((a * 256 + b) / 256) ((a * 256 + b) % 256) ((c * 256 + d) / 256)
          rw [hdiv, hmod, hlast]
      | none =>
        obtain ⟨a, b, c, htake, haligned⟩ := expandIpv6_spec h6
        refine ⟨.v6 a b c, ?_, ?_⟩
        · have h4' : isIPv4 string.toList = false := Bool.not_eq_true _ ▸ h4
          rw [truncateIp, htrim]
          simp only [hmapped, Option.getD_none, isIP, h4', h6, htake, Prefix.chars]
          rfl
        · have hfaithful : Faithful string.toList ↔
              ¬ IsMapped (writtenGroups (zoneless string.toList)) ∧
                Aligned (zoneless string.toList) := by
            rw [Faithful, hmapped]
            simp [h4, Aligned]
          have hlength := length_writtenGroups h6
          rw [hfaithful, ← haligned, prefixOf]
          generalize writtenGroups (zoneless string.toList) = groups at hlength ⊢
          match groups, hlength with
          | x :: y :: z :: rest, _ =>
            split
            · rename_i hmap
              simp [hmap]
            · rename_i hmap
              simp [hmap]
    · rw [if_neg h6] at h
      cases h

theorem truncateIp_faithful {text : String} {address : Address}
    (h : addressOf text = some address) :
    truncateIp text = some (String.ofList (prefixOf address).chars) ↔ Faithful text.toList := by
  obtain ⟨p, htruncate, hiff⟩ := truncateIp_spec h
  rw [← hiff, htruncate]
  constructor
  · intro heq
    exact Prefix.chars_injective (String.ofList_injective (Option.some.inj heq))
  · rintro rfl
    rfl

/-- The text of an address is truncated to the prefix of the address exactly where it is faithful,
and such texts share what is kept of them exactly where their addresses share the prefix. -/
theorem truncateIp_iff {text text' : String} {address address' : Address}
    (h : addressOf text = some address) (h' : addressOf text' = some address') :
    (truncateIp text = some (String.ofList (prefixOf address).chars) ↔ Faithful text.toList) ∧
    (Faithful text.toList → Faithful text'.toList →
      (truncateIp text = truncateIp text' ↔ prefixOf address = prefixOf address')) := by
  refine ⟨truncateIp_faithful h, fun hfaithful hfaithful' => ?_⟩
  rw [(truncateIp_faithful h).mpr hfaithful, (truncateIp_faithful h').mpr hfaithful']
  constructor
  · intro heq
    exact Prefix.chars_injective (String.ofList_injective (Option.some.inj heq))
  · intro heq
    rw [heq]

theorem truncateIp_iff_zone : truncateIp "2001:DB8:0:00ab::1%eth0" = some "2001:db8:0::/48" ∧
    truncateIp "2001:DB8:0:00ab::1%eth0" = truncateIp "2001:0db8::AB:0:0:0:1" := by
  have haddress : addressOf "2001:DB8:0:00ab::1%eth0" =
      some (.v6 [8193, 3512, 0, 171, 0, 0, 0, 1]) := by decide +kernel
  have haddress' : addressOf "2001:0db8::AB:0:0:0:1" =
      some (.v6 [8193, 3512, 0, 171, 0, 0, 0, 1]) := by decide +kernel
  have hfaithful : Faithful "2001:DB8:0:00ab::1%eth0".toList := by
    refine .inr (.inr ⟨by decide +kernel, ?_⟩)
    intro head tail hgap hany
    have hsome : gapOf (zoneless "2001:DB8:0:00ab::1%eth0".toList) =
        some ("2001:DB8:0:00ab".toList, "1".toList) := by decide +kernel
    rw [hsome] at hgap
    obtain ⟨rfl, rfl⟩ := Prod.mk.inj (Option.some.inj hgap)
    exact absurd hany (by decide +kernel)
  have hfaithful' : Faithful "2001:0db8::AB:0:0:0:1".toList := by
    refine .inr (.inr ⟨by decide +kernel, ?_⟩)
    intro head tail hgap hany
    have hsome : gapOf (zoneless "2001:0db8::AB:0:0:0:1".toList) =
        some ("2001:0db8".toList, "AB:0:0:0:1".toList) := by decide +kernel
    rw [hsome] at hgap
    obtain ⟨rfl, rfl⟩ := Prod.mk.inj (Option.some.inj hgap)
    exact absurd hany (by decide +kernel)
  obtain ⟨hiff, hsame⟩ := truncateIp_iff haddress haddress'
  refine ⟨?_, (hsame hfaithful hfaithful').mpr rfl⟩
  rw [hiff.mpr hfaithful]
  decide +kernel

/-- One address in two texts, of which the second hides the IPv4 address, and an address with an
IPv4 tail after a pair of colons that is given the network of another. -/
theorem truncateIp_hidden :
    addressOf "::ffff:198.51.100.23" = addressOf "::ffff:c633:6417" ∧
      truncateIp "::ffff:198.51.100.23" = some "198.51.100.0/24" ∧
        truncateIp "::ffff:c633:6417" = some "0:0:0::/48" ∧
    addressOf "::2:3:4:5:6:1.2.3.4" = addressOf "0:2:3:4:5:6:1.2.3.4" ∧
      truncateIp "::2:3:4:5:6:1.2.3.4" = some "0:0:2::/48" ∧
        truncateIp "0:2:3:4:5:6:1.2.3.4" = some "0:2:3::/48" := by
  decide +kernel

end Ashbi.Audit
