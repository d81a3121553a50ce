import Ashbi.Js
import Ashbi.Numeric.Numerals

/-! Addresses in audit events: what the texts of IPv4 and IPv6 addresses stand for, and the network
prefix that an event keeps. -/

namespace Ashbi.Audit

open Numerals

/-! ### Texts of addresses -/

/-- A part of an IPv4 address: a number up to 255 without leading zeros. -/
def isOctet (part : List Char) : Bool :=
  part.all (isDigit 10) && part ≠ [] && (part.length = 1 || part.head? ≠ some '0') &&
    value 10 part ≤ 255

def isIPv4 (text : List Char) : Bool :=
  (text.splitOn '.').length = 4 && (text.splitOn '.').all isOctet

/-- One to four digits of base 16. -/
def isGroup (part : List Char) : Bool :=
  part.all (isDigit 16) && part ≠ [] && part.length ≤ 4

/-- The text before and after the first pair of colons. -/
def gapOf : List Char → Option (List Char × List Char)
  | [] => none
  | [_] => none
  | a :: b :: rest =>
    if a = ':' ∧ b = ':' then some ([], rest)
    else (gapOf (b :: rest)).map fun (before, after) => (a :: before, after)

/-- The parts of a text between single colons. -/
def colonParts (text : List Char) : List (List Char) := if text = [] then [] else text.splitOn ':'

/-- Groups, of which the last may be the text of an IPv4 address. -/
def areGroups (parts : List (List Char)) : Bool :=
  parts.dropLast.all isGroup && parts.getLast?.all fun part => isGroup part || isIPv4 part

/-- How many groups of 16 bits parts stand for. -/
def width (parts : List (List Char)) : ℕ := (parts.map fun part => if isIPv4 part then 2 else 1).sum

def zoneCharacters : List Char :=
  "0123456789abcdefghijklmnopqrstuvwxyzABCDEFGHIJKLMNOPQRSTUVWXYZ-.:".toList

def isZone (zone : List Char) : Bool := zone ≠ [] && zone.all zoneCharacters.contains

/-- The text before a zone. -/
def zoneless (text : List Char) : List Char := text.takeWhile (· ≠ '%')

def properZone (text : List Char) : Bool :=
  match text.dropWhile (· ≠ '%') with
  | [] => true
  | _ :: zone => isZone zone

/-- Eight groups, or fewer with a pair of colons in place of the others. -/
def isIPv6 (text : List Char) : Bool :=
  properZone text &&
    match gapOf (zoneless text) with
    | none => areGroups (colonParts (zoneless text)) && width (colonParts (zoneless text)) = 8
    | some (head, tail) => (colonParts head).all isGroup && areGroups (colonParts tail) &&
        width (colonParts head) + width (colonParts tail) ≤ 7

/-- `net.isIP`. -/
def isIP (text : List Char) : ℕ := if isIPv4 text then 4 else if isIPv6 text then 6 else 0

/-! ### Truncation -/

/-- `address.match(/^::ffff:(\d+\.\d+\.\d+\.\d+)$/i)`, the part in parentheses. -/
def mappedTail (text : List Char) : Option (List Char) :=
  let tail := text.drop 7
  if (text.take 7).map Char.toLower = "::ffff:".toList ∧ (tail.splitOn '.').length = 4 ∧
      (tail.splitOn '.').all (fun part => part ≠ [] && part.all (isDigit 10)) then some tail
  else none

def expandIpv6 (address : List Char) : List (List Char) :=
  let parts := match gapOf address with
    | none => colonParts address
    | some (head, rest) =>
      let tail := ((gapOf rest).map Prod.fst).getD rest
      let headParts := colonParts head
      let tailParts := colonParts tail
      let missing := 8 - headParts.length - tailParts.length
      headParts ++ List.replicate missing ['0'] ++ tailParts
  parts.map fun part => stripZeros (part.map Char.toLower)

/-- Parts between separators. -/
def joined (separator : Char) (parts : List (List Char)) : List Char :=
  [separator].intercalate parts

def truncateIp (ip : String) : Option String :=
  let text := (Js.trim ip).toList
  let address := (mappedTail text).getD text
  if isIP address = 4 then
    some (String.ofList (joined '.' ((address.splitOn '.').take 3 ++ ["0/24".toList])))
  else if isIP address = 6 then
    some (String.ofList
      (joined ':' ((expandIpv6 (zoneless address)).take 3 ++ [[], "/48".toList])))
  else none

/-! ### Addresses and their prefixes -/

/-- An address of four octets or of eight groups. -/
inductive Address
  | v4 (a b c d : ℕ)
  | v6 (groups : List ℕ)
  deriving DecidableEq

inductive Prefix
  | v4 (a b c : ℕ)
  | v6 (a b c : ℕ)
  deriving DecidableEq

/-- The groups that a part stands for. -/
def groupsOf (part : List Char) : List ℕ :=
  if isIPv4 part then
    match (part.splitOn '.').map (value 10) with
    | [a, b, c, d] => [a * 256 + b, c * 256 + d]
    | _ => []
  else [value 16 part]

/-- The groups that the text of an IPv6 address stands for, without its zone. -/
def writtenGroups (text : List Char) : List ℕ :=
  match gapOf text with
  | none => (colonParts text).flatMap groupsOf
  | some (head, tail) => (colonParts head).flatMap groupsOf ++
      List.replicate (8 - width (colonParts head) - width (colonParts tail)) 0 ++
      (colonParts tail).flatMap groupsOf

/-- The address that a text is of. -/
def addressOf (text : String) : Option Address :=
  if isIPv4 text.toList then
    match (text.toList.splitOn '.').map (value 10) with
    | [a, b, c, d] => some (.v4 a b c d)
    | _ => none
  else if isIPv6 text.toList then some (.v6 (writtenGroups (zoneless text.toList)))
  else none

/-- An address of IPv4 in the groups of IPv6. -/
def IsMapped (groups : List ℕ) : Prop := groups.take 6 = [0, 0, 0, 0, 0, 65535]

instance (groups : List ℕ) : Decidable (IsMapped groups) := inferInstanceAs (Decidable (_ = _))

/-- The first three octets of an address of IPv4, mapped or not, and otherwise the first three
groups. -/
def prefixOf : Address → Prefix
  | .v4 a b c _ => .v4 a b c
  | .v6 groups =>
    if IsMapped groups then
      .v4 (groups.getD 6 0 / 256) (groups.getD 6 0 % 256) (groups.getD 7 0 / 256)
    else .v6 (groups.getD 0 0) (groups.getD 1 0) (groups.getD 2 0)

def Prefix.chars : Prefix → List Char
  | .v4 a b c => joined '.' ([a, b, c].map (numeral 10) ++ ["0/24".toList])
  | .v6 a b c => joined ':' ([a, b, c].map (numeral 16) ++ [[], "/48".toList])

/-- A text whose address is truncated as it should be: of IPv4, or mapped and written with
`::ffff:` and without a zone, or of IPv6 and not mapped, where between a pair of colons and an IPv4
tail no group up to the third differs from zero. -/
def Faithful (text : List Char) : Prop :=
  isIPv4 text = true ∨ (mappedTail text).isSome ∨
    (¬ IsMapped (writtenGroups (zoneless text)) ∧ ∀ head tail,
      gapOf (zoneless text) = some (head, tail) → (colonParts tail).any isIPv4 = true →
        ∀ group ∈ ((writtenGroups (zoneless text)).take 3).drop (8 - width (colonParts tail)),
          group = 0)

/-! ### Parts -/

variable {text part head tail before after : List Char} {parts : List (List Char)} {c sep : Char}

theorem mem_joined (h : c ∈ joined sep parts) : c = sep ∨ ∃ part ∈ parts, c ∈ part := by
  induction parts with
  | nil => simp [joined] at h
  | cons part parts ih =>
    cases parts with
    | nil =>
      refine .inr ⟨part, List.mem_cons_self, ?_⟩
      simpa [joined] using h
    | cons next rest =>
      have hsplit : c ∈ part ∨ c = sep ∨ c ∈ joined sep (next :: rest) := by
        simpa [joined, List.intercalate] using h
      rcases hsplit with hc | hc | hc
      · exact .inr ⟨part, List.mem_cons_self, hc⟩
      · exact .inl hc
      · rcases ih hc with heq | ⟨p, hp, hcp⟩
        · exact .inl heq
        · exact .inr ⟨p, List.mem_cons_of_mem _ hp, hcp⟩

/-- A character of a text is a separator or in a part between separators. -/
theorem mem_splitOn (sep : Char) (h : c ∈ text) :
    c = sep ∨ ∃ part ∈ text.splitOn sep, c ∈ part := by
  apply mem_joined
  rw [joined, List.intercalate_splitOn]
  exact h

theorem joined_inj {parts' : List (List Char)} (h : ∀ part ∈ parts, sep ∉ part)
    (h' : ∀ part ∈ parts', sep ∉ part) (hne : parts ≠ []) (hne' : parts' ≠ []) :
    joined sep parts = joined sep parts' ↔ parts = parts' := by
  constructor
  · intro heq
    have hsplit := congrArg (List.splitOn sep) heq
    rwa [joined, joined, List.splitOn_intercalate sep h hne, List.splitOn_intercalate sep h' hne']
      at hsplit
  · exact congrArg _

theorem gapOf_eq (h : gapOf text = some (before, after)) :
    text = before ++ ':' :: ':' :: after := by
  induction text using gapOf.induct generalizing before with
  | case1 => cases h
  | case2 => cases h
  | case3 a b rest hcolons =>
    rw [gapOf, if_pos hcolons] at h
    obtain ⟨rfl, rfl⟩ := hcolons
    simp only [Option.some.injEq, Prod.mk.injEq] at h
    obtain ⟨rfl, rfl⟩ := h
    rfl
  | case4 a b rest hcolons ih =>
    rw [gapOf, if_neg hcolons] at h
    obtain ⟨⟨first, last⟩, hrest, heq⟩ := Option.map_eq_some_iff.mp h
    simp only [Prod.mk.injEq] at heq
    obtain ⟨rfl, rfl⟩ := heq
    rw [ih hrest, List.cons_append]

/-! ### Parts of addresses -/

theorem isGroup_digits (h : isGroup part = true) :
    (∀ c ∈ part, c ∈ digits ∧ digitValue c < 16) ∧ part ≠ [] := by
  simp only [isGroup, Bool.and_eq_true, List.all_eq_true, decide_eq_true_eq] at h
  exact ⟨fun c hc => mem_digits (h.1.1 c hc), h.1.2⟩

/-- An IPv4 text is four octets. -/
theorem isIPv4_octets (h : isIPv4 text = true) : ∃ a b c d : List Char,
    text.splitOn '.' = [a, b, c, d] ∧ ∀ part ∈ [a, b, c, d], isOctet part = true := by
  simp only [isIPv4, Bool.and_eq_true, decide_eq_true_eq, List.all_eq_true] at h
  obtain ⟨hlength, hall⟩ := h
  match hparts : text.splitOn '.', hlength with
  | [a, b, c, d], _ => exact ⟨a, b, c, d, rfl, hparts ▸ hall⟩

theorem isOctet_digits (h : isOctet part = true) :
    (∀ c ∈ part, c ∈ digits ∧ digitValue c < 10) ∧ part ≠ [] ∧
      (part.length = 1 ∨ part.head? ≠ some '0') ∧ value 10 part ≤ 255 := by
  simp only [isOctet, Bool.and_eq_true, List.all_eq_true, decide_eq_true_eq, Bool.or_eq_true] at h
  exact ⟨fun c hc => mem_digits (h.1.1.1 c hc), h.1.1.2, h.1.2, h.2⟩

/-- An octet is the numeral of its number. -/
theorem octet_numeral (h : isOctet part = true) : numeral 10 (value 10 part) = part := by
  obtain ⟨hdigits, hne, hzero, -⟩ := isOctet_digits h
  refine numeral_value (by decide) hdigits ?_ hne hzero
  intro c hc
  have hall : ∀ d ∈ digits, digitValue d < 10 → d.toLower = d :=
    List.forall_iff_forall_mem.mp (by decide)
  exact hall c (hdigits c hc).1 (hdigits c hc).2

theorem isIPv4_mem (h : isIPv4 text = true) (hc : c ∈ text) : c ∈ digits ∨ c = '.' := by
  obtain ⟨a, b, c', d, hsplit, hoctets⟩ := isIPv4_octets h
  rcases mem_splitOn '.' hc with heq | ⟨part, hpart, hmem⟩
  · exact .inr heq
  · rw [hsplit] at hpart
    exact .inl ((isOctet_digits (hoctets part hpart)).1 c hmem).1

theorem isIPv4_dot (h : isIPv4 text = true) : '.' ∈ text := by
  by_contra hdot
  have hsingle := List.splitOn_eq_singleton hdot
  simp [isIPv4, hsingle] at h

theorem isGroup_not_isIPv4 (h : isGroup part = true) : isIPv4 part = false := by
  by_contra hv4
  have hdot := isIPv4_dot (Bool.not_eq_false _ ▸ hv4)
  have hall : '.' ∉ digits := by decide
  exact hall ((isGroup_digits h).1 _ hdot).1

/-- A part of an address: a group, or the text of an IPv4 address. -/
def IsPart (part : List Char) : Prop := isGroup part = true ∨ isIPv4 part = true

theorem IsPart.mem (h : IsPart part) (hc : c ∈ part) : c ∈ digits ∨ c = '.' := by
  rcases h with h | h
  · exact .inl ((isGroup_digits h).1 c hc).1
  · exact isIPv4_mem h hc

theorem IsPart.ne_nil (h : IsPart part) : part ≠ [] := by
  rintro rfl
  rcases h with h | h
  · exact (isGroup_digits h).2 rfl
  · exact absurd h (by decide)

/-- Either all parts are groups, or all but the last, which is the text of an IPv4 address. -/
theorem areGroups_cases (h : areGroups parts = true) : (∀ part ∈ parts, isGroup part = true) ∨
    ∃ groups last, parts = groups ++ [last] ∧ (∀ part ∈ groups, isGroup part = true) ∧
      isIPv4 last = true := by
  rcases List.eq_nil_or_concat parts with rfl | ⟨groups, last, rfl⟩
  · exact .inl fun part hpart => by cases hpart
  · simp only [areGroups, List.concat_eq_append, List.dropLast_concat, List.getLast?_concat,
      Option.all_some, Bool.and_eq_true, List.all_eq_true, Bool.or_eq_true] at h ⊢
    obtain ⟨hgroups, hlast | hlast⟩ := h
    · left
      intro part hpart
      rcases List.mem_append.mp hpart with hpart | hpart
      · exact hgroups part hpart
      · rwa [List.mem_singleton.mp hpart]
    · exact .inr ⟨groups, last, rfl, hgroups, hlast⟩

theorem areGroups_parts (h : areGroups parts = true) : ∀ part ∈ parts, IsPart part := by
  rcases areGroups_cases h with hall | ⟨groups, last, rfl, hgroups, hlast⟩
  · exact fun part hpart => .inl (hall part hpart)
  · intro part hpart
    rcases List.mem_append.mp hpart with hpart | hpart
    · exact .inl (hgroups part hpart)
    · rw [List.mem_singleton.mp hpart]
      exact .inr hlast

theorem width_groups (h : ∀ part ∈ parts, isGroup part = true) : width parts = parts.length := by
  have hones : parts.map (fun part => if isIPv4 part then 2 else 1) = parts.map fun _ => 1 := by
    apply List.map_congr_left
    intro part hpart
    rw [isGroup_not_isIPv4 (h part hpart)]
    rfl
  rw [width, hones]
  simp

theorem width_append (parts parts' : List (List Char)) :
    width (parts ++ parts') = width parts + width parts' := by
  simp [width]

theorem colonParts_mem (h : c ∈ text) : c = ':' ∨ ∃ part ∈ colonParts text, c ∈ part := by
  rw [colonParts, if_neg (List.ne_nil_of_mem h)]
  exact mem_splitOn ':' h

/-- The parts of a text without empty parts show no further pair of colons. -/
theorem gapOf_none (h : ∀ part ∈ colonParts text, part ≠ []) : gapOf text = none := by
  by_contra hgap
  obtain ⟨⟨before, after⟩, hsome⟩ := Option.ne_none_iff_exists'.mp hgap
  have htext := gapOf_eq hsome
  have hne : text ≠ [] := by
    rw [htext]
    simp
  rw [colonParts, if_neg hne, htext, List.splitOn_append_cons_self] at h
  apply h [] _ rfl
  apply List.mem_append_right
  have hcons : List.splitOn ':' (':' :: after) = [] :: List.splitOn ':' after := by
    simpa using List.splitOn_append_cons_self (a := ':') [] after
  rw [hcons]
  exact List.mem_cons_self

end Ashbi.Audit
